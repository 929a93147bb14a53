import SharkNetplay.Console.Replay

/-!
# A recording played back

The replay build from `NET_START` on, tick after tick: what dispatch finds in the rings at a
tick once `VIRT_CAPTURE` has filled them for a later one. The two stores of the idle branch
that miss the slot of seat 1 hit the tick before. With a delay that tick is not dispatched
yet, so the last row of the table is never played for one of the seats.

## Implementation notes

Of the rest of a tick, which is dispatch and the game, it is asked that it counts the tick and
leaves the rings, `DELAY_EN` and the table alone.
-/

namespace SharkNetplay.Console.Replay

open Lib Cell Machine

/-- Whether the rings have an address. -/
def InRings (a : Nat) : Prop := seatRing ≤ a ∧ a < seatRing + 0x800

/-- What the rest of a tick leaves alone. -/
def Kept (tbl a : Nat) : Prop := a = delayEn ∨ InRings a ∨ tbl ≤ a ∧ a < tbl + 4 * recCap

/-- A replay: the console as `VIRT_CAPTURE` finds it at each tick. -/
structure Playback (mem : List (Nat × Nat)) (tbl : Nat) where
  console : Nat → Machine
  rom : InRom mem tbl (console 0)
  start : (console 0).pair tickLo tickHi = 0
  /-- `LS_RING_INIT`. -/
  idle : ∀ t, ringCells (console 0) t = idleCells
  counts : ∀ t, (console (t + 1)).pair tickLo tickHi =
    ((virtCaptureReplay (replayLen mem) tbl (console t)).pair tickLo tickHi + 1) % 65536
  leaves : ∀ t a, Kept tbl a →
    (console (t + 1)).rd a = (virtCaptureReplay (replayLen mem) tbl (console t)).rd a

/-- The cells of tick `t` after the stores of the idle branch for tick `t + 1`: seat 1 is idle,
or seat 0 where the slot of tick `t + 1` is the first of the page. -/
def strayed (t : Nat) (cells : List Nat) : List Nat :=
  if t % 256 = 255 then [0x40, cells.getD 1 0, 0, cells.getD 3 0]
  else [cells.getD 0 0, 0x40, cells.getD 2 0, 0]

/-- What is dispatched at tick `t`, for the row of the table. -/
def played (len delay t : Nat) (row : List Nat) : List Nat :=
  if t < delay then idleCells
  else if t < len then if 1 ≤ delay ∧ t + 1 = len then strayed t row else row
  else idleCells

/-! ## One capture -/

section
variable {m : Machine} {len tbl t : Nat}

theorem ringCells_congr {m' : Machine} (h : ∀ a, InRings a → m'.rd a = m.rd a) (t : Nat) :
    ringCells m' t = ringCells m t := by
  have hin : ∀ base, base = seatRing ∨ base = seatRing + 0x100 ∨ base = seatKp ∨
      base = seatKp + 0x100 → InRings (base + t % 256) := by
    intro base hbase
    unfold InRings
    simp only [seatRing, seatKp] at *
    omega
  unfold ringCells
  rw [h _ (hin _ (by simp)), h _ (hin _ (by simp)), h _ (hin _ (by simp)), h _ (hin _ (by simp))]

/-- `VIRT_CAPTURE` writes the rings only. -/
theorem virtCaptureReplay_writes (len tbl : Nat) (m : Machine) :
    Writes (fun a _ => InRings a) m (virtCaptureReplay len tbl m) := by
  unfold virtCaptureReplay
  extract_lets r2 r1 r4 m₁ m₂ m₃ m₅ m₆ m₇
  have hr1 : r1 < 256 := Nat.mod_lt _ (by decide)
  have hin : ∀ base, base ≤ 0x700 → InRings (r1 + (seatRing + base)) := by
    intro base hbase
    unfold InRings
    simp only [seatRing]
    omega
  split
  · exact (((Writes.refl.wr (hin 0 (by decide))).wr (hin 0x100 (by decide))).wr
      (hin 0x400 (by decide))).wr (hin 0x500 (by decide))
  · have hstray : ∀ base, base ≤ 0x600 → InRings (r1 + (seatRing + base) + 0x100 - 1) := by
      intro base hbase
      unfold InRings
      simp only [seatRing]
      omega
    exact (((Writes.refl.wr (hin 0 (by decide))).wr (hstray 0 (by decide))).wr
      (hin 0x400 (by decide))).wr (hstray 0x400 (by decide))

theorem pair_capture (len tbl : Nat) (m : Machine) :
    (virtCaptureReplay len tbl m).pair tickLo tickHi = m.pair tickLo tickHi := by
  have hw := virtCaptureReplay_writes len tbl m
  unfold pair
  rw [hw.frame fun _ hv => by simp [InRings] at hv, hw.frame fun _ hv => by simp [InRings] at hv]

/-- The table branch leaves the slots of other ticks alone. -/
theorem ringCells_other (htable : slt (dueTick m) len = true)
    (hother : dueTick m % 256 ≠ t % 256) :
    ringCells (virtCaptureReplay len tbl m) t = ringCells m t := by
  generalize hx : dueTick m = x at *
  have hdue : (m.pair tickLo tickHi + m.rd delayEn) % 65536 = x := hx
  have hs : x % 256 < 256 := Nat.mod_lt _ (by decide)
  have ht : t % 256 < 256 := Nat.mod_lt _ (by decide)
  unfold virtCaptureReplay ringCells
  dsimp only
  rw [hdue, if_pos htable]
  simp only [rd_wr]
  refine four_eq ?_ ?_ ?_ ?_
  all_goals
    rw [if_neg (by simp only [seatRing, seatKp]; omega),
      if_neg (by simp only [seatRing, seatKp]; omega),
      if_neg (by simp only [seatRing, seatKp]; omega),
      if_neg (by simp only [seatRing, seatKp]; omega)]

/-- The idle branch hits the slot of the tick before, and those of other ticks not at all. -/
theorem ringCells_stray (hidle : slt (dueTick m) len = false)
    (hother : dueTick m % 256 ≠ t % 256) :
    ringCells (virtCaptureReplay len tbl m) t =
      if dueTick m % 256 = (t + 1) % 256 then strayed t (ringCells m t) else ringCells m t := by
  generalize hx : dueTick m = x at *
  have hdue : (m.pair tickLo tickHi + m.rd delayEn) % 65536 = x := hx
  have hs : x % 256 < 256 := Nat.mod_lt _ (by decide)
  have ht : t % 256 < 256 := Nat.mod_lt _ (by decide)
  have hw : ∀ a, InRings a → cellWidth a = 256 := fun a h => ring_width h.1 h.2
  unfold virtCaptureReplay ringCells
  dsimp only
  rw [hdue, hidle, if_neg Bool.false_ne_true]
  simp only [rd_wr]
  by_cases hnext : x % 256 = (t + 1) % 256
  · rw [if_pos hnext]
    unfold strayed
    by_cases hlast : t % 256 = 255
    · -- the slot of the next tick is the first of the page
      have hw₀ := hw (x % 256 + seatRing + 0x100 - 1) (by unfold InRings; simp only [seatRing]; omega)
      have hw₂ := hw (x % 256 + seatKp + 0x100 - 1)
        (by unfold InRings; simp only [seatRing, seatKp]; omega)
      rw [if_pos hlast]
      refine four_eq ?_ ?_ ?_ ?_
      · rw [if_neg (by simp only [seatRing, seatKp]; omega),
          if_neg (by simp only [seatRing, seatKp]; omega), if_pos (by omega), hw₀]
      · rw [if_neg (by simp only [seatRing, seatKp]; omega),
          if_neg (by simp only [seatRing, seatKp]; omega), if_neg (by omega), if_neg (by omega)]
        rfl
      · rw [if_pos (by omega), hw₂]
      · rw [if_neg (by omega), if_neg (by omega), if_neg (by simp only [seatRing, seatKp]; omega),
          if_neg (by simp only [seatRing, seatKp]; omega)]
        rfl
    · have hw₁ := hw (x % 256 + seatRing + 0x100 - 1) (by unfold InRings; simp only [seatRing]; omega)
      have hw₃ := hw (x % 256 + seatKp + 0x100 - 1)
        (by unfold InRings; simp only [seatRing, seatKp]; omega)
      rw [if_neg hlast]
      refine four_eq ?_ ?_ ?_ ?_
      · rw [if_neg (by simp only [seatRing, seatKp]; omega),
          if_neg (by simp only [seatRing, seatKp]; omega), if_neg (by omega), if_neg (by omega)]
        rfl
      · rw [if_neg (by simp only [seatRing, seatKp]; omega),
          if_neg (by simp only [seatRing, seatKp]; omega), if_pos (by omega), hw₁]
      · rw [if_neg (by omega), if_neg (by omega), if_neg (by simp only [seatRing, seatKp]; omega),
          if_neg (by simp only [seatRing, seatKp]; omega)]
        rfl
      · rw [if_pos (by omega), hw₃]
  · rw [if_neg hnext]
    refine four_eq ?_ ?_ ?_ ?_
    all_goals
      rw [if_neg (by simp only [seatRing, seatKp]; omega),
        if_neg (by simp only [seatRing, seatKp]; omega),
        if_neg (by simp only [seatRing, seatKp]; omega),
        if_neg (by simp only [seatRing, seatKp]; omega)]

end

/-! ## The run -/

namespace Playback

variable {mem : List (Nat × Nat)} {tbl t : Nat} (p : Playback mem tbl)

/-- `DELAY_EN`. -/
def delay : Nat := (p.console 0).rd delayEn

/-- The console at tick `t` once `VIRT_CAPTURE` is through; dispatch reads its rings. -/
def captured (t : Nat) : Machine := virtCaptureReplay (replayLen mem) tbl (p.console t)

theorem delay_lt : p.delay < 256 := (p.console 0).rd_byte (by decide)

theorem kept_capture {a : Nat} (hrom : tbl + 4 * recCap ≤ 0x8080 ∨ 0xA000 ≤ tbl)
    (ha : a = delayEn ∨ tbl ≤ a ∧ a < tbl + 4 * recCap) (t : Nat) :
    (p.console (t + 1)).rd a = (p.console t).rd a := by
  have hw := virtCaptureReplay_writes (replayLen mem) tbl (p.console t)
  have hout : ¬ InRings a := by
    unfold InRings
    simp only [seatRing, delayEn, recCap] at *
    omega
  rw [p.leaves t a (ha.imp_right Or.inr), hw.frame fun _ hv => hout hv]

/-- What no step changes. -/
theorem steady (t : Nat) : InRom mem tbl (p.console t) ∧ (p.console t).rd delayEn = p.delay := by
  have hrom : tbl + 4 * recCap ≤ 0x8080 ∨ 0xA000 ≤ tbl := p.rom.rom.imp_right And.left
  induction t with
  | zero => exact ⟨p.rom, rfl⟩
  | succ t ih =>
      refine ⟨⟨p.rom.rom, fun k hk => ?_⟩, ?_⟩
      · rw [← ih.1.rows k hk, range_four, range_four]
        have hcell : ∀ i < 4, (p.console (t + 1)).rd (tbl + 4 * k + i) =
            (p.console t).rd (tbl + 4 * k + i) := by
          intro i hi
          refine p.kept_capture hrom (Or.inr ?_) t
          omega
        exact four_eq (hcell 0 (by decide)) (hcell 1 (by decide)) (hcell 2 (by decide))
          (hcell 3 (by decide))
      · rw [p.kept_capture hrom (Or.inl rfl), ih.2]

theorem tick_eq (ht : t < 65536) : (p.console t).pair tickLo tickHi = t := by
  induction t with
  | zero => exact p.start
  | succ t ih =>
      rw [p.counts, pair_capture, ih (by omega)]
      exact Nat.mod_eq_of_lt ht

theorem due_eq (ht : t + p.delay < 65536) : dueTick (p.console t) = t + p.delay := by
  unfold dueTick
  rw [p.tick_eq (by omega), (p.steady t).2, Nat.mod_eq_of_lt ht]

/-- The rings as `VIRT_CAPTURE` finds them are those it left a tick before. -/
theorem rings_next (t u : Nat) : ringCells (p.console (t + 1)) u = ringCells (p.captured t) u :=
  ringCells_congr (fun a ha => p.leaves t a (Or.inr (Or.inl ha))) u

theorem len_le (mem : List (Nat × Nat)) : replayLen mem ≤ 768 := Nat.min_le_right _ _

/-- What a capture does to the slot of another tick. -/
theorem captured_other {n : Nat} (hn : n + p.delay < 0x8000)
    (hother : (n + p.delay) % 256 ≠ t % 256) :
    ringCells (p.captured n) t =
      if replayLen mem ≤ n + p.delay ∧ (n + p.delay) % 256 = (t + 1) % 256 then
        strayed t (ringCells (p.console n) t)
      else ringCells (p.console n) t := by
  have hdue := p.due_eq (t := n) (by omega)
  have hlen := len_le mem
  have hslt := slt_iff (a := n + p.delay) (b := replayLen mem) (by omega) (by omega)
  by_cases hin : n + p.delay < replayLen mem
  · rw [if_neg (by omega)]
    exact ringCells_other (by rw [hdue]; exact hslt.mpr hin) (by rw [hdue]; exact hother)
  · have hidle : slt (dueTick (p.console n)) (replayLen mem) = false := by
      rw [hdue]
      exact Bool.eq_false_iff.mpr fun h => hin (hslt.mp h)
    have hpast : dueTick (p.console n) % 256 ≠ t % 256 := by
      rw [hdue]
      exact hother
    rw [captured, ringCells_stray hidle hpast, hdue]
    exact if_congr (by rw [and_iff_right (Nat.le_of_not_lt hin)]) rfl rfl

/-- What the capture for a tick stores. -/
theorem captured_due {n : Nat} (hn : n + p.delay < 0x8000) :
    ringCells (p.captured n) (n + p.delay) =
      if n + p.delay < replayLen mem then replayRow mem (n + p.delay)
      else [0x40, (ringCells (p.console n) (n + p.delay)).getD 1 0, 0,
        (ringCells (p.console n) (n + p.delay)).getD 3 0] := by
  have hdue := p.due_eq (t := n) (by omega)
  by_cases hin : n + p.delay < replayLen mem
  · rw [if_pos hin]
    have hlen : replayLen mem ≤ recCap := Nat.min_le_right _ _
    rw [← hdue] at hin ⊢
    exact ringCells_row (p.steady n).1 hlen hin (replayRow_bytes mem _)
  · rw [if_neg hin]
    rw [← hdue] at hin hn ⊢
    exact ringCells_idle (Nat.le_of_not_lt hin) hn

/-- Later captures leave the cells of tick `t` alone from two ticks after it to a page after it. -/
theorem captured_stays {n : Nat} (k : Nat) (hn : t + 1 ≤ n + p.delay)
    (hk : n + k + p.delay < t + 256) (hend : n + k + p.delay < 0x8000) :
    ringCells (p.captured (n + k)) t = ringCells (p.captured n) t := by
  induction k with
  | zero => rfl
  | succ k ih =>
      rw [← ih (by omega) (by omega), ← p.rings_next (n + k) t, ← Nat.add_assoc,
        p.captured_other (n := n + k + 1) (by omega) (by omega), if_neg (by omega)]

/-- An idle slot stays idle until the capture for its tick. -/
theorem captured_idle {n : Nat} (ht : t < p.delay) (hn : n ≤ t) (hend : n + p.delay < 0x8000) :
    ringCells (p.captured n) t = idleCells := by
  have hlt := p.delay_lt
  have hkeep : ∀ cells, cells = idleCells → strayed t cells = idleCells := by
    rintro _ rfl
    unfold strayed idleCells
    split
    · rfl
    · rfl
  have hstep : ∀ n, n ≤ t → n + p.delay < 0x8000 → ringCells (p.console n) t = idleCells →
      ringCells (p.captured n) t = idleCells := by
    intro n hn hend hcells
    rw [p.captured_other hend (by omega), hcells]
    split
    · exact hkeep _ rfl
    · rfl
  induction n with
  | zero => exact hstep 0 hn hend (p.idle t)
  | succ n ih =>
      refine hstep (n + 1) hn hend ?_
      rw [p.rings_next]
      exact ih (by omega) (by omega)

/-- What is dispatched at each tick of a replay, as long as the ticks it captures for are not
negative. Behind the table the last slot of a page keeps what seat 1 had in it, and without a
delay every slot does. -/
theorem dispatched (hend : t + p.delay < 0x8000)
    (hedge : t < p.delay ∨ t < replayLen mem ∨ 1 ≤ p.delay ∧ t % 256 ≠ 255) :
    ringCells (p.captured t) t = played (replayLen mem) p.delay t (replayRow mem t) := by
  have hlt := p.delay_lt
  unfold played
  by_cases hearly : t < p.delay
  · rw [if_pos hearly]
    exact p.captured_idle hearly (Nat.le_refl t) hend
  rw [if_neg hearly]
  obtain ⟨n, rfl⟩ : ∃ n, t = n + p.delay := ⟨t - p.delay, by omega⟩
  have hdue := p.captured_due (n := n) (by omega)
  by_cases hzero : p.delay = 0
  · have hin : n + p.delay < replayLen mem := by omega
    rw [if_pos hin] at hdue ⊢
    rw [if_neg (by omega), ← hdue, hzero]
    rfl
  -- the capture for the tick after it, and the rest
  have hnext := p.captured_other (t := n + p.delay) (n := n + 1) (by omega) (by omega)
  have hstays := p.captured_stays (t := n + p.delay) (n := n + 1) (p.delay - 1) (by omega)
    (by omega) (by omega)
  have hlast : n + 1 + (p.delay - 1) = n + p.delay := by omega
  rw [hlast, hnext, p.rings_next, hdue] at hstays
  rw [hstays]
  by_cases hin : n + p.delay < replayLen mem
  · rw [if_pos hin, if_pos hin]
    refine if_congr ?_ rfl rfl
    constructor
    · exact fun h => ⟨by omega, by omega⟩
    · exact fun h => ⟨by omega, by omega⟩
  · rw [if_neg hin, if_neg hin, if_pos ⟨by omega, by omega⟩]
    unfold strayed
    rw [if_neg (by omega)]
    rfl

/-- A recorded session is dispatched tick by tick; with a delay, its last tick lacks one seat. -/
theorem dispatches_session {σ : Session} {log : List DumpLine} (hrec : σ.Recorded)
    (hlog : Dumps (σ.console σ.ticks) log) (q : Playback (parse log) tbl) (hlate : q.delay ≤ t)
    (ht : t < min σ.ticks 768) :
    ringCells (q.captured t) t = if 1 ≤ q.delay ∧ t + 1 = min σ.ticks 768 then
      strayed t (inputs (σ.console t)) else inputs (σ.console t) := by
  have hshort : σ.Short := (σ.recorded_iff).mp hrec
  have hlen : replayLen (parse log) = min σ.ticks 768 := by
    rw [replayLen_parse hlog, σ.tick_eq hshort.1]
  have hrow : replayRow (parse log) t = inputs (σ.console t) := by
    rw [replayRow_parse hlog (by omega)]
    exact hrec.2 t ht
  have hlt := q.delay_lt
  rw [q.dispatched (by omega) (Or.inr (Or.inl (by rw [hlen]; exact ht))), hrow, hlen]
  unfold played
  rw [if_neg (by omega), if_pos ht]

end Playback

/-! ## Two recorded ticks, played with a delay of one -/

theorem ringCells_init (m : Machine) (t : Nat) : ringCells (lsRingInit m) t = idleCells := by
  have hs : t % 256 < 256 := Nat.mod_lt _ (by decide)
  unfold ringCells idleCells lsRingInit
  simp only [rd_fill]
  refine four_eq ?_ ?_ ?_ ?_
  · rw [if_neg (by simp only [seatRing, seatKp]; omega), if_pos (by omega),
      ring_width (by omega) (by omega)]
  · rw [if_neg (by simp only [seatRing, seatKp]; omega), if_pos (by omega),
      ring_width (by omega) (by omega)]
  · rw [if_pos (by omega), Nat.zero_mod]
  · rw [if_pos (by omega), Nat.zero_mod]

/-- The console at tick `t`, if nothing but `VIRT_CAPTURE` and the tick counter runs. -/
def playedAfter (len tbl : Nat) (m : Machine) : Nat → Machine
  | 0 => m
  | t + 1 => lsTickInc (virtCaptureReplay len tbl (playedAfter len tbl m t))

/-- A replay without the game. -/
def Playback.still {mem : List (Nat × Nat)} {tbl : Nat} (m : Machine) (hrom : InRom mem tbl m)
    (hstart : m.pair tickLo tickHi = 0) (hidle : ∀ t, ringCells m t = idleCells) :
    Playback mem tbl where
  console := playedAfter (replayLen mem) tbl m
  rom := hrom
  start := hstart
  idle := hidle
  counts _ := lsTickInc_pair _
  leaves t a ha := by
    have hne : a ≠ tickLo ∧ a ≠ tickHi := by
      have hrom := hrom.rom
      unfold Kept InRings at ha
      simp only [delayEn, seatRing, recCap, tickLo, tickHi] at *
      omega
    exact rd_lsTickInc hne.1 hne.2 _

theorem Playback.delay_still {mem : List (Nat × Nat)} {tbl : Nat} {m : Machine}
    {hrom : InRom mem tbl m} {hstart : m.pair tickLo tickHi = 0}
    {hidle : ∀ t, ringCells m t = idleCells} :
    (Playback.still m hrom hstart hidle).delay = m.rd delayEn := rfl

/-- The right disc is pressed. -/
def pressedRight : Machine where
  store := { cells := fun a => if a = execInL then 0x40 else if a = execInR then 0x41 else 0
             log := [] }
  answers := []
  hist := {}

/-- Two recorded ticks. -/
def twoTicks : Session := Replay.still pressedRight 2 rfl

def twoTicksLog : List DumpLine := debuggerLog (twoTicks.console twoTicks.ticks)

/-- `NET_START` of the replay build up to `LS_RING_INIT`, with a delay of one. -/
def delayed : Machine := (replaying (parse twoTicksLog) 0).wr delayEn 1

theorem delayed_loaded : InRom (parse twoTicksLog) 0x5000 (lsRingInit delayed) where
  rom := Or.inl (by decide)
  rows k hk := by
    have hcap : k < 768 := hk
    have hcell : ∀ a, a < 0x8080 → (lsRingInit delayed).rd a =
        (replaying (parse twoTicksLog) 0).rd a := by
      intro a ha
      have hne : a ≠ delayEn := by
        simp only [delayEn]
        omega
      unfold lsRingInit delayed
      rw [rd_fill, if_neg (by simp only [seatKp]; omega), rd_fill,
        if_neg (by simp only [seatRing]; omega), rd_wr, if_neg hne]
    rw [← (replaying_loaded (parse twoTicksLog) 0).rows k hk, range_four, range_four]
    exact four_eq (hcell _ (by omega)) (hcell _ (by omega)) (hcell _ (by omega)) (hcell _ (by omega))

/-- The press of the last tick is recorded and in the table, and is not dispatched. -/
theorem last_tick_lost : ∃ q : Playback (parse twoTicksLog) 0x5000, twoTicks.Recorded ∧
    q.delay = 1 ∧ inputs (twoTicks.console 1) = [0x40, 0x41, 0, 0] ∧
    ringCells (q.captured 1) 1 = [0x40, 0x40, 0, 0] := by
  have hrec : twoTicks.Recorded := by
    refine (twoTicks.recorded_iff).mpr ⟨by decide, fun k hk => ?_⟩
    have hticks : twoTicks.ticks = 2 := rfl
    omega
  have hinputs : inputs (twoTicks.console 1) = [0x40, 0x41, 0, 0] := by decide +kernel
  have hstart : (lsRingInit delayed).pair tickLo tickHi = 0 := by decide +kernel
  have hdelay : (lsRingInit delayed).rd delayEn = 1 := by decide +kernel
  have hlog : Dumps (twoTicks.console twoTicks.ticks) twoTicksLog := debuggerLog_dumps _
  have hidle := ringCells_init delayed
  have hrom := delayed_loaded
  generalize lsRingInit delayed = m at *
  have hq : (Playback.still m hrom hstart hidle).delay = 1 := Playback.delay_still.trans hdelay
  have hdispatched := (Playback.still m hrom hstart hidle).dispatches_session (t := 1) hrec hlog
    (Nat.le_of_eq hq) (by decide)
  rw [hq, hinputs] at hdispatched
  exact ⟨_, hrec, hq, hinputs, hdispatched⟩

end SharkNetplay.Console.Replay
