import SharkNetplay.Lib.Dict
import SharkNetplay.Console.Trace

/-!
# Recorded sessions

`REC_CAPTURE` of the record build, `mk_replay.py`, and the replay branch of
`VIRT_CAPTURE`.

## Implementation notes

The rest of the recorded program is not modelled: a session is what `REC_CAPTURE` finds at
each tick, and all that is asked of it is that it counts ticks and leaves the log alone. A
debugger log is its dump lines, without the text around them; the generated table is its
words.
-/

namespace SharkNetplay.Console.Replay

open Lib Cell Machine

/-! Cells. -/

@[simp] def execInL : Nat := 0x11F
@[simp] def execInR : Nat := 0x120
@[simp] def execKpL : Nat := 0x121
@[simp] def execKpR : Nat := 0x122
@[simp] def delayEn : Nat := 0x8105

/-- The log of `REC_CAPTURE`. -/
@[simp] def recLog : Nat := 0x9000

/-! ## Recording -/

/-- `REC_CAPTURE`. The comparison of the tick count with 768 is a signed one. -/
def recCapture (m : Machine) : Machine :=
  let r1 := m.pair tickLo tickHi
  if slt r1 768 then
    let r4 := (r1 * 4 % 65536 + recLog) % 65536
    let m := m.wr r4 (m.rd execInL)
    let m := m.wr (r4 + 1) (m.rd execInR)
    let m := m.wr (r4 + 2) (m.rd execKpL)
    m.wr (r4 + 3) (m.rd execKpR)
  else m

/-- The four input cells of a tick. -/
def inputs (m : Machine) : List Nat := [m.rd execInL, m.rd execInR, m.rd execKpL, m.rd execKpR]

/-- Whether the log has an address. -/
def InLog (a : Nat) : Prop := recLog ≤ a ∧ a < recLog + 0xC00

/-- A recorded session: the console as `REC_CAPTURE` finds it at each tick. -/
structure Session where
  ticks : Nat
  console : Nat → Machine
  start : (console 0).pair tickLo tickHi = 0
  counts : ∀ t, (console (t + 1)).pair tickLo tickHi =
    ((recCapture (console t)).pair tickLo tickHi + 1) % 65536
  leaves : ∀ t a, InLog a → (console (t + 1)).rd a = (recCapture (console t)).rd a

/-- What the log says of tick `t`. -/
def logged (m : Machine) (t : Nat) : List Nat := m.range (recLog + 4 * t) 4

/-- The recorder writes to its log only, and the log ends up with the inputs of the first
768 ticks. -/
def Session.Recorded (σ : Session) : Prop :=
  (∀ t < σ.ticks, Writes (fun a _ => InLog a) (σ.console t) (recCapture (σ.console t))) ∧
    ∀ t < min σ.ticks 768, logged (σ.console σ.ticks) t = inputs (σ.console t)

/-- The session ends before the tick count turns negative, or soon enough afterwards to
repeat only what it had recorded. -/
def Session.Short (σ : Session) : Prop :=
  σ.ticks ≤ 0x8300 ∧ ∀ k, 0x8000 + k < σ.ticks →
    inputs (σ.console (0x8000 + k)) = inputs (σ.console k)

/-! ## The tool -/

/-- A line of the debugger's `m` command: an address and the words from there on. -/
structure DumpLine where
  addr : Nat
  words : List Nat

/-- `parse` of `crc_trace_diff.py`. -/
def parse (log : List DumpLine) : List (Nat × Nat) :=
  log.foldl (fun mem l => l.words.zipIdx.foldl
    (fun mem e => Dict.assign (l.addr + e.2) e.1 mem) mem) []

/-- `mem.get(a, d)`. -/
def memGet (a d : Nat) (mem : List (Nat × Nat)) : Nat := (Dict.get a mem).getD d

/-- `REC_CAP`. -/
@[simp] def recCap : Nat := 768

/-- `REPLAY_LEN`. -/
def replayLen (mem : List (Nat × Nat)) : Nat :=
  min (memGet 0x8108 0 mem ||| memGet 0x8109 0 mem <<< 8) recCap

/-- The words of `REPLAY_TBL` for tick `t`, one of `range(REC_CAP)`. -/
def replayRow (mem : List (Nat × Nat)) (t : Nat) : List Nat :=
  let slot := 0x9000 + t * 4
  [memGet slot 0x40 mem &&& 0xFF, memGet (slot + 1) 0x40 mem &&& 0xFF,
    memGet (slot + 2) 0 mem &&& 0xFF, memGet (slot + 3) 0 mem &&& 0xFF]

/-- A log with dumps of the netcode cells and of the recorder's, all taken at `m`. -/
structure Dumps (m : Machine) (log : List DumpLine) : Prop where
  truthful : ∀ l ∈ log, ∀ e ∈ l.words.zipIdx, e.1 = m.rd (l.addr + e.2)
  covers : ∀ a, (0x8100 ≤ a ∧ a < 0x8120) ∨ InLog a →
    ∃ l ∈ log, ∃ e ∈ l.words.zipIdx, l.addr + e.2 = a

/-! ## Replaying -/

/-- The replay branch of `VIRT_CAPTURE`, for `REPLAY_LEN` and the address of `REPLAY_TBL`.
The comparison with `REPLAY_LEN` is a signed one, and a store through `R3` does not
increment it. -/
def virtCaptureReplay (len tbl : Nat) (m : Machine) : Machine :=
  let r2 := (m.pair tickLo tickHi + m.rd delayEn) % 65536
  let r1 := r2 % 256                                 -- ring slot
  if slt r2 len then                                 -- `@@vr_tbl`
    let r4 := (r2 * 4 % 65536 + tbl) % 65536
    let m := m.wr (r1 + seatRing) (m.rd r4)
    let m := m.wr (r1 + (seatRing + 0x100)) (m.rd ((r4 + 1) % 65536))
    let m := m.wr (r1 + seatKp) (m.rd ((r4 + 2) % 65536))
    m.wr (r1 + (seatKp + 0x100)) (m.rd ((r4 + 3) % 65536))
  else
    let m := m.wr (r1 + seatRing) 0x40
    let m := m.wr (r1 + seatRing + 0x100 - 1) 0x40
    let m := m.wr (r1 + seatKp) 0
    m.wr (r1 + seatKp + 0x100 - 1) 0

/-- What the rings hold for a tick: both decoded cells, then both keypad cells. -/
def ringCells (m : Machine) (t : Nat) : List Nat :=
  [m.rd (seatRing + t % 256), m.rd (seatRing + 0x100 + t % 256), m.rd (seatKp + t % 256),
    m.rd (seatKp + 0x100 + t % 256)]

/-- No input. -/
def idleCells : List Nat := [0x40, 0x40, 0, 0]

/-- The tick `VIRT_CAPTURE` fills the rings for. -/
def dueTick (m : Machine) : Nat := (m.pair tickLo tickHi + m.rd delayEn) % 65536

/-- A console of the replay build: the table is in its ROM. -/
structure InRom (mem : List (Nat × Nat)) (tbl : Nat) (m : Machine) : Prop where
  rom : tbl + 4 * recCap ≤ 0x8080 ∨ 0xA000 ≤ tbl ∧ tbl + 4 * recCap ≤ 65536
  rows : ∀ t < recCap, m.range (tbl + 4 * t) 4 = replayRow mem t

/-! ## What a tick records -/

section
variable {m : Machine}

theorem range_four (m : Machine) (a : Nat) :
    m.range a 4 = [m.rd a, m.rd (a + 1), m.rd (a + 2), m.rd (a + 3)] := rfl

/-- The cells of two ticks, one by one. -/
theorem four_eq {a b c d a' b' c' d' : Nat} (h₀ : a = a') (h₁ : b = b') (h₂ : c = c')
    (h₃ : d = d') : [a, b, c, d] = [a', b', c', d'] := by
  rw [h₀, h₁, h₂, h₃]

/-- The log is in byte-wide memory. -/
theorem inLog_width {a : Nat} (h : InLog a) : cellWidth a = 256 := by
  unfold InLog at h
  simp only [recLog] at h
  exact cellWidth_cart (by omega) (by omega)

/-- The four writes of a tick that has a slot. -/
def record (k : Nat) (m : Machine) : Machine :=
  (((m.wr (recLog + 4 * k) (m.rd execInL)).wr (recLog + 4 * k + 1) (m.rd execInR)).wr
    (recLog + 4 * k + 2) (m.rd execKpL)).wr (recLog + 4 * k + 3) (m.rd execKpR)

/-- The tick counts that record into slot `k`: `k` itself, and the negative one that
shifts to the same address. -/
theorem recCapture_slot {k : Nat} (hk : k < 768)
    (h : m.pair tickLo tickHi = k ∨ m.pair tickLo tickHi = 0x8000 + k) :
    recCapture m = record k m := by
  have hslt : slt (m.pair tickLo tickHi) 768 = true := by
    unfold slt
    rcases h with h | h
    · rw [h, if_pos (by omega), if_pos (by omega)]
      simpa using hk
    · rw [h, if_neg (by omega), if_pos (by omega)]
  have haddr : (m.pair tickLo tickHi * 4 % 65536 + recLog) % 65536 = recLog + 4 * k := by
    simp only [recLog]
    omega
  have hne : ∀ i, ∀ a, a < recLog → ¬a = recLog + 4 * k + i := fun i a ha => by omega
  unfold recCapture record
  dsimp only
  rw [if_pos hslt, haddr]
  simp only [rd_wr]
  rw [if_neg (by simp only [execInR, recLog]; omega), if_neg (by simp only [execKpL, recLog]; omega),
    if_neg (by simp only [execKpL, recLog]; omega), if_neg (by simp only [execKpR, recLog]; omega),
    if_neg (by simp only [execKpR, recLog]; omega), if_neg (by simp only [execKpR, recLog]; omega)]

theorem recCapture_skip (h : 768 ≤ m.pair tickLo tickHi) (h' : m.pair tickLo tickHi < 0x8000) :
    recCapture m = m := by
  have hslt : slt (m.pair tickLo tickHi) 768 = false := by
    unfold slt
    rw [if_pos h', if_pos (by omega)]
    exact decide_eq_false (by omega)
  unfold recCapture
  dsimp only
  rw [hslt, if_neg Bool.false_ne_true]

theorem record_writes {k : Nat} (hk : k < 768) : Writes (fun a _ => InLog a) m (record k m) := by
  have hin : ∀ i < 4, InLog (recLog + 4 * k + i) := by
    intro i hi
    unfold InLog
    simp only [recLog]
    omega
  unfold record
  apply Writes.wr
  · apply Writes.wr
    · apply Writes.wr
      · exact .wr .refl (hin 0 (by omega))
      · exact hin 1 (by omega)
    · exact hin 2 (by omega)
  · exact hin 3 (by omega)

theorem logged_record {k : Nat} (hk : k < 768) : logged (record k m) k = inputs m := by
  have hw : ∀ i < 4, cellWidth (recLog + 4 * k + i) = 256 := by
    intro i hi
    apply inLog_width
    unfold InLog
    simp only [recLog]
    omega
  have hb : ∀ a, a = execInL ∨ a = execInR ∨ a = execKpL ∨ a = execKpR → m.rd a % 256 = m.rd a := by
    intro a ha
    apply Nat.mod_eq_of_lt
    apply m.rd_byte
    rcases ha with rfl | rfl | rfl | rfl <;> decide
  have h0 : cellWidth (recLog + 4 * k) = 256 := hw 0 (by omega)
  have h1 := hw 1 (by omega)
  have h2 := hw 2 (by omega)
  have h3 := hw 3 (by omega)
  unfold logged record inputs
  rw [range_four]
  simp only [rd_wr]
  refine four_eq ?_ ?_ ?_ ?_
  · rw [if_neg (by omega), if_neg (by omega), if_neg (by omega), if_pos trivial, h0, hb _ (by simp)]
  · rw [if_neg (by omega), if_neg (by omega), if_pos trivial, h1, hb _ (by simp)]
  · rw [if_neg (by omega), if_pos trivial, h2, hb _ (by simp)]
  · rw [if_pos trivial, h3, hb _ (by simp)]

theorem logged_record_ne {j k : Nat} (h : j ≠ k) : logged (record k m) j = logged m j := by
  unfold logged record
  rw [range_four, range_four]
  simp only [rd_wr]
  refine four_eq ?_ ?_ ?_ ?_
  all_goals
    rw [if_neg (by omega), if_neg (by omega), if_neg (by omega), if_neg (by omega)]

/-- The recorder does not count. -/
theorem pair_of_writes {m' : Machine} (h : Writes (fun a _ => InLog a) m m') :
    m'.pair tickLo tickHi = m.pair tickLo tickHi := by
  unfold pair
  rw [h.frame fun _ hv => by simp [InLog] at hv, h.frame fun _ hv => by simp [InLog] at hv]

/-- Up to the first slot beyond its log the recorder stays inside. -/
theorem recCapture_writes (h : m.pair tickLo tickHi < 0x8300) :
    Writes (fun a _ => InLog a) m (recCapture m) := by
  by_cases hskip : 768 ≤ m.pair tickLo tickHi ∧ m.pair tickLo tickHi < 0x8000
  · rw [recCapture_skip hskip.1 hskip.2]
    exact .refl
  · by_cases hneg : 0x8000 ≤ m.pair tickLo tickHi
    · have hk : m.pair tickLo tickHi - 0x8000 < 768 := by omega
      rw [recCapture_slot hk (Or.inr (by omega))]
      exact record_writes hk
    · have hk : m.pair tickLo tickHi < 768 := by omega
      rw [recCapture_slot hk (Or.inl rfl)]
      exact record_writes hk

/-- At tick `$8300` it writes behind its log. -/
theorem recCapture_strays (h : m.pair tickLo tickHi = 0x8300) :
    ¬Writes (fun a _ => InLog a) m (recCapture m) := by
  rintro ⟨l, hlog, hin, -⟩
  have hmem : (0x9C00, m.rd execInL) ∈ l := by
    have heq : (recCapture m).store.log = (0x9C03, m.rd execKpR) :: (0x9C02, m.rd execKpL) ::
        (0x9C01, m.rd execInR) :: (0x9C00, m.rd execInL) :: m.store.log := by
      unfold recCapture
      dsimp only
      rw [h, if_pos (by decide)]
      simp [Store.wr]
    rw [heq] at hlog
    have hl : [(0x9C03, m.rd execKpR), (0x9C02, m.rd execKpL), (0x9C01, m.rd execInR),
        (0x9C00, m.rd execInL)] = l := List.append_cancel_right hlog
    rw [← hl]
    simp
  exact absurd (hin _ hmem).2 (Nat.lt_irrefl 0x9C00)

end

/-! ## What a session records -/

namespace Session

variable {σ : Session}

/-- While the recorder stays inside its log, the tick cells count the ticks. -/
theorem tick_eq (σ : Session) {t : Nat} (ht : t ≤ 0x8300) :
    (σ.console t).pair tickLo tickHi = t := by
  induction t with
  | zero => exact σ.start
  | succ t ih =>
      have hprev := ih (by omega)
      rw [σ.counts, pair_of_writes (recCapture_writes (by omega)), hprev]
      omega

/-- The tick whose inputs are in slot `k` once `t` ticks are over. -/
def holder (t k : Nat) : Nat := if 0x8000 + k < t then 0x8000 + k else k

theorem logged_succ (σ : Session) {t k : Nat} (hk : k < 768) :
    logged (σ.console (t + 1)) k = logged (recCapture (σ.console t)) k := by
  have hin : ∀ i < 4, InLog (recLog + 4 * k + i) := by
    intro i hi
    unfold InLog
    simp only [recLog]
    omega
  unfold logged
  rw [range_four, range_four]
  exact congrArg₂ _ (σ.leaves t _ (hin 0 (by omega))) (congrArg₂ _ (σ.leaves t _ (hin 1 (by omega)))
    (congrArg₂ _ (σ.leaves t _ (hin 2 (by omega)))
      (congrArg₂ _ (σ.leaves t _ (hin 3 (by omega))) rfl)))

/-- Each slot has the inputs of the last tick that recorded into it. -/
theorem logged_eq (σ : Session) {t k : Nat} (ht : t ≤ 0x8300) (hk : k < 768) (hkt : k < t) :
    logged (σ.console t) k = inputs (σ.console (holder t k)) := by
  induction t with
  | zero => omega
  | succ t ih =>
      have htick := σ.tick_eq (t := t) (by omega)
      rw [σ.logged_succ hk]
      by_cases hnew : t = k ∨ t = 0x8000 + k
      · have hholder : holder (t + 1) k = t := by
          unfold holder
          rcases hnew with rfl | rfl
          · rw [if_neg (by omega)]
          · rw [if_pos (by omega)]
        rw [recCapture_slot hk (by rwa [htick]), logged_record hk, hholder]
      · have hold : holder (t + 1) k = holder t k := by
          unfold holder
          congr 1
          exact propext ⟨fun h => by omega, fun h => by omega⟩
        rw [hold, ← ih (by omega) (by omega)]
        by_cases hskip : 768 ≤ t ∧ t < 0x8000
        · rw [recCapture_skip (by omega) (by omega)]
        · by_cases hneg : 0x8000 ≤ t
          · rw [recCapture_slot (k := t - 0x8000) (by omega) (Or.inr (by omega))]
            exact logged_record_ne (by omega)
          · rw [recCapture_slot (k := t) (by omega) (Or.inl (by omega))]
            exact logged_record_ne (by omega)

/-- A recording is good exactly if the session was short. -/
theorem recorded_iff (σ : Session) : σ.Recorded ↔ σ.Short := by
  constructor
  · rintro ⟨hwrites, hlogged⟩
    have hticks : σ.ticks ≤ 0x8300 := by
      by_contra hlong
      exact recCapture_strays (σ.tick_eq (Nat.le_refl _)) (hwrites 0x8300 (by omega))
    refine ⟨hticks, fun k hk => ?_⟩
    have hheld := σ.logged_eq hticks (k := k) (by omega) (by omega)
    rw [holder, if_pos hk] at hheld
    exact hheld.symm.trans (hlogged k (by omega))
  · rintro ⟨hticks, hagain⟩
    refine ⟨fun t ht => ?_, fun k hk => ?_⟩
    · apply recCapture_writes
      rw [σ.tick_eq (by omega)]
      omega
    · rw [σ.logged_eq hticks (by omega) (by omega)]
      unfold holder
      split
      · next hneg => exact hagain k hneg
      · rfl

end Session

/-! ## What the tool makes of it -/

section
variable {m : Machine} {log : List DumpLine} {a : Nat}

theorem get_words {addr : Nat} {es : List (Nat × Nat)} (mem : List (Nat × Nat))
    (htrue : ∀ e ∈ es, e.1 = m.rd (addr + e.2))
    (h : Dict.get a mem = some (m.rd a) ∨ ∃ e ∈ es, addr + e.2 = a) :
    Dict.get a (es.foldl (fun mem e => Dict.assign (addr + e.2) e.1 mem) mem) =
      some (m.rd a) := by
  induction es generalizing mem with
  | nil =>
      rcases h with h | ⟨e, he, -⟩
      · exact h
      · exact absurd he List.not_mem_nil
  | cons e es ih =>
      apply ih _ fun e' he' => htrue e' (List.mem_cons_of_mem _ he')
      rw [Dict.get_assign]
      by_cases heq : a = addr + e.2
      · rw [if_pos heq, htrue e List.mem_cons_self, heq]
        exact Or.inl rfl
      · rw [if_neg heq]
        refine h.imp_right ?_
        rintro ⟨e', he', ha⟩
        rcases List.mem_cons.mp he' with rfl | he'
        · exact absurd ha.symm heq
        · exact ⟨e', he', ha⟩

theorem get_lines (mem : List (Nat × Nat))
    (htrue : ∀ l ∈ log, ∀ e ∈ l.words.zipIdx, e.1 = m.rd (l.addr + e.2))
    (h : Dict.get a mem = some (m.rd a) ∨
      ∃ l ∈ log, ∃ e ∈ l.words.zipIdx, l.addr + e.2 = a) :
    Dict.get a (log.foldl (fun mem l => l.words.zipIdx.foldl
      (fun mem e => Dict.assign (l.addr + e.2) e.1 mem) mem) mem) = some (m.rd a) := by
  induction log generalizing mem with
  | nil =>
      rcases h with h | ⟨l, hl, -⟩
      · exact h
      · exact absurd hl List.not_mem_nil
  | cons l log ih =>
      apply ih _ fun l' hl' => htrue l' (List.mem_cons_of_mem _ hl')
      by_cases hline : ∃ e ∈ l.words.zipIdx, l.addr + e.2 = a
      · exact Or.inl (get_words mem (htrue l List.mem_cons_self) (Or.inr hline))
      · rcases h with h | ⟨l', hl', hcell⟩
        · exact Or.inl (get_words mem (htrue l List.mem_cons_self) (Or.inl h))
        · rcases List.mem_cons.mp hl' with rfl | hl'
          · exact absurd hcell hline
          · exact Or.inr ⟨l', hl', hcell⟩

/-- The tool reads back what the cells held. -/
theorem memGet_parse (h : Dumps m log) (ha : (0x8100 ≤ a ∧ a < 0x8120) ∨ InLog a) (d : Nat) :
    memGet a d (parse log) = m.rd a := by
  unfold memGet parse
  rw [get_lines [] h.truthful (Or.inr (h.covers a ha))]
  rfl

theorem replayLen_parse (h : Dumps m log) :
    replayLen (parse log) = min (m.pair tickLo tickHi) 768 := by
  have hlo : m.rd tickLo < 2 ^ 8 := m.rd_byte (by decide)
  unfold replayLen pair
  rw [memGet_parse h (Or.inl ⟨by decide, by decide⟩), memGet_parse h (Or.inl ⟨by decide, by decide⟩)]
  show min (m.rd tickLo ||| m.rd tickHi <<< 8) 768 = _
  rw [Nat.or_comm, ← Nat.shiftLeft_add_eq_or_of_lt hlo, Nat.shiftLeft_eq]

theorem replayRow_parse (h : Dumps m log) {t : Nat} (ht : t < 768) :
    replayRow (parse log) t = logged m t := by
  have hcell : ∀ i < 4, ∀ d, memGet (0x9000 + t * 4 + i) d (parse log) &&& 0xFF =
      m.rd (recLog + 4 * t + i) := by
    intro i hi d
    have hin : InLog (0x9000 + t * 4 + i) := by
      unfold InLog
      simp only [recLog]
      omega
    have hbyte : m.rd (0x9000 + t * 4 + i) < 256 := m.rd_byte (inLog_width hin)
    rw [memGet_parse h (Or.inr hin), show 0xFF = 2 ^ 8 - 1 from rfl, Nat.and_two_pow_sub_one_eq_mod,
      Nat.mod_eq_of_lt hbyte, Nat.mul_comm]
    rfl
  unfold replayRow logged
  dsimp only
  rw [range_four]
  exact four_eq (hcell 0 (by decide) _) (hcell 1 (by decide) _) (hcell 2 (by decide) _)
    (hcell 3 (by decide) _)

end

/-! ## What the replay branch leaves in the rings -/

section
variable {m : Machine} {len tbl : Nat}

/-- The four stores of the table branch. -/
def fillRings (r1 : Nat) (v₀ v₁ v₂ v₃ : Nat) (m : Machine) : Machine :=
  (((m.wr (r1 + seatRing) v₀).wr (r1 + (seatRing + 0x100)) v₁).wr (r1 + seatKp) v₂).wr
    (r1 + (seatKp + 0x100)) v₃

/-- The rings are in byte-wide memory. -/
theorem ring_width {a : Nat} (h : seatRing ≤ a) (h' : a < seatRing + 0x800) : cellWidth a = 256 := by
  simp only [seatRing] at h h'
  exact cellWidth_cart (by omega) (by omega)

theorem ringCells_fill (t v₀ v₁ v₂ v₃ : Nat) (m : Machine) :
    ringCells (fillRings (t % 256) v₀ v₁ v₂ v₃ m) t =
      [v₀ % 256, v₁ % 256, v₂ % 256, v₃ % 256] := by
  have hs : t % 256 < 256 := Nat.mod_lt _ (by decide)
  have hw : ∀ a, seatRing ≤ a ∧ a < seatRing + 0x800 → cellWidth a = 256 := fun a h =>
    ring_width h.1 h.2
  have hw₀ := hw (t % 256 + seatRing) (by simp only [seatRing]; omega)
  have hw₁ := hw (t % 256 + (seatRing + 0x100)) (by simp only [seatRing]; omega)
  have hw₂ := hw (t % 256 + seatKp) (by simp only [seatRing, seatKp]; omega)
  have hw₃ := hw (t % 256 + (seatKp + 0x100)) (by simp only [seatRing, seatKp]; omega)
  unfold ringCells fillRings
  simp only [rd_wr]
  refine four_eq ?_ ?_ ?_ ?_
  · rw [if_neg (by simp only [seatRing, seatKp]; omega),
      if_neg (by simp only [seatRing, seatKp]; omega), if_neg (by omega), if_pos (by omega), hw₀]
  · rw [if_neg (by simp only [seatRing, seatKp]; omega),
      if_neg (by simp only [seatRing, seatKp]; omega), if_pos (by omega), hw₁]
  · rw [if_neg (by omega), if_pos (by omega), hw₂]
  · rw [if_pos (by omega), hw₃]

/-- Seat 1's cells for a tick are idle already. -/
def Seat1Idle (m : Machine) (t : Nat) : Prop :=
  m.rd (seatRing + 0x100 + t % 256) = 0x40 ∧ m.rd (seatKp + 0x100 + t % 256) = 0

/-- Past the table the branch stores for seat 0 and beside the slot of seat 1. -/
theorem ringCells_idle (hlen : len ≤ dueTick m) (hpos : dueTick m < 0x8000) :
    ringCells (virtCaptureReplay len tbl m) (dueTick m) =
      [0x40, m.rd (seatRing + 0x100 + dueTick m % 256), 0,
        m.rd (seatKp + 0x100 + dueTick m % 256)] := by
  have hslt : slt (dueTick m) len = false := by
    unfold slt
    rw [if_pos hpos, if_pos (by omega)]
    simpa using hlen
  have hw₀ := ring_width (a := dueTick m % 256 + seatRing) (by simp only [seatRing]; omega)
    (by simp only [seatRing]; omega)
  have hw₂ := ring_width (a := dueTick m % 256 + seatKp) (by simp only [seatRing, seatKp]; omega)
    (by simp only [seatRing, seatKp]; omega)
  have hs : dueTick m % 256 < 256 := Nat.mod_lt _ (by decide)
  generalize hx : dueTick m = x at *
  have hdue : (m.pair tickLo tickHi + m.rd delayEn) % 65536 = x := hx
  unfold virtCaptureReplay ringCells
  dsimp only
  rw [hdue, hslt, if_neg Bool.false_ne_true]
  simp only [rd_wr]
  refine four_eq ?_ ?_ ?_ ?_
  · rw [if_neg (by simp only [seatRing, seatKp]; omega),
      if_neg (by simp only [seatRing, seatKp]; omega), if_neg (by omega), if_pos (by omega), hw₀]
  · rw [if_neg (by simp only [seatRing, seatKp]; omega),
      if_neg (by simp only [seatRing, seatKp]; omega), if_neg (by omega), if_neg (by omega)]
  · rw [if_neg (by omega), if_pos (by omega), hw₂]
  · rw [if_neg (by omega), if_neg (by omega),
      if_neg (by simp only [seatRing, seatKp]; omega), if_neg (by simp only [seatRing, seatKp]; omega)]

/-- What the table branch stores, each word read after the stores before it. -/
theorem ringCells_table (tbl : Nat) (hslt : slt (dueTick m) len = true) :
    ∃ v₀ v₁ v₂ v₃ : Nat, ringCells (virtCaptureReplay len tbl m) (dueTick m) =
        [v₀ % 256, v₁ % 256, v₂ % 256, v₃ % 256] ∧
      let r4 := (dueTick m * 4 % 65536 + tbl) % 65536
      let a := dueTick m % 256 + seatRing
      let b := dueTick m % 256 + seatKp
      v₀ = m.rd r4 ∧
      v₁ = (m.wr a v₀).rd ((r4 + 1) % 65536) ∧
      v₂ = ((m.wr a v₀).wr (a + 0x100) v₁).rd ((r4 + 2) % 65536) ∧
      v₃ = (((m.wr a v₀).wr (a + 0x100) v₁).wr b v₂).rd ((r4 + 3) % 65536) := by
  let r4 := (dueTick m * 4 % 65536 + tbl) % 65536
  let a := dueTick m % 256 + seatRing
  let b := dueTick m % 256 + seatKp
  let v₀ := m.rd r4
  let v₁ := (m.wr a v₀).rd ((r4 + 1) % 65536)
  let v₂ := ((m.wr a v₀).wr (a + 0x100) v₁).rd ((r4 + 2) % 65536)
  let v₃ := (((m.wr a v₀).wr (a + 0x100) v₁).wr b v₂).rd ((r4 + 3) % 65536)
  refine ⟨v₀, v₁, v₂, v₃, ?_, rfl, rfl, rfl, rfl⟩
  have hfill : virtCaptureReplay len tbl m = fillRings (dueTick m % 256) v₀ v₁ v₂ v₃ m := by
    unfold virtCaptureReplay
    dsimp only
    rw [show (m.pair tickLo tickHi + m.rd delayEn) % 65536 = dueTick m from rfl, if_pos hslt]
    rfl
  rw [hfill, ringCells_fill]

/-- Of an address the table branch reads: the cell is idle as a decoded cell, or the
branch has just made it so. -/
def StrayDecoded (a r : Nat) (m : Machine) : Prop := r = a ∨ m.rd r % 256 = 0x40

/-- Likewise as a keypad cell: the branch has not just stored a decoded cell there. -/
def StrayKeypad (a r : Nat) (m : Machine) : Prop := r ≠ a ∧ r ≠ a + 0x100 ∧ m.rd r % 256 = 0

/-- The words the table branch reads for a negative tick happen to be idle. -/
def StrayIdle (tbl : Nat) (m : Machine) : Prop :=
  let r4 := (dueTick m * 4 % 65536 + tbl) % 65536
  let a := dueTick m % 256 + seatRing
  let b := dueTick m % 256 + seatKp
  m.rd r4 % 256 = 0x40 ∧ StrayDecoded a ((r4 + 1) % 65536) m ∧
    StrayKeypad a ((r4 + 2) % 65536) m ∧
    ((r4 + 3) % 65536 = b ∨ StrayKeypad a ((r4 + 3) % 65536) m)

/-- The replay branch reads its table within its length, or finds seat 1 idle behind the
end of it, or for a negative tick reads words that happen to be idle. -/
def Filled (len tbl : Nat) (m : Machine) : Prop :=
  dueTick m < len ∨ (len ≤ dueTick m ∧ dueTick m < 0x8000 ∧ Seat1Idle m (dueTick m)) ∨
    (0x8000 ≤ dueTick m ∧ StrayIdle tbl m)

/-- A negative tick reads as within the table. -/
theorem slt_neg {x : Nat} (hlen : len < 0x8000) (hx : 0x8000 ≤ x) : slt x len = true := by
  unfold slt
  rw [if_neg (by omega), if_pos hlen]

theorem ringCells_neg (hlen : len < 0x8000) (hx : 0x8000 ≤ dueTick m) :
    ringCells (virtCaptureReplay len tbl m) (dueTick m) = idleCells ↔ StrayIdle tbl m := by
  obtain ⟨v₀, v₁, v₂, v₃, hcells, h₀, h₁, h₂, h₃⟩ := ringCells_table tbl (slt_neg hlen hx)
  have hs : dueTick m % 256 < 256 := Nat.mod_lt _ (by decide)
  have hring : ∀ a, seatRing ≤ a ∧ a < seatRing + 0x800 → cellWidth a = 256 := fun a h =>
    ring_width h.1 h.2
  have hwa := hring (dueTick m % 256 + seatRing) (by simp only [seatRing]; omega)
  have hwa' := hring (dueTick m % 256 + seatRing + 0x100) (by simp only [seatRing]; omega)
  have hwb := hring (dueTick m % 256 + seatKp) (by simp only [seatRing, seatKp]; omega)
  have hab : dueTick m % 256 + seatKp ≠ dueTick m % 256 + seatRing ∧
      dueTick m % 256 + seatKp ≠ dueTick m % 256 + seatRing + 0x100 := by
    simp only [seatRing, seatKp]
    omega
  rw [hcells]
  unfold StrayIdle StrayDecoded StrayKeypad idleCells
  dsimp only
  generalize (dueTick m * 4 % 65536 + tbl) % 65536 = r4 at *
  generalize dueTick m % 256 + seatRing = a at *
  generalize dueTick m % 256 + seatKp = b at *
  rw [rd_wr] at h₁
  rw [rd_wr, rd_wr] at h₂
  rw [rd_wr, rd_wr, rd_wr] at h₃
  constructor
  · intro h
    simp only [List.cons.injEq, and_true] at h
    obtain ⟨e₀, e₁, e₂, e₃⟩ := h
    refine ⟨h₀ ▸ e₀, ?_, ?_, ?_⟩
    · by_cases hr : (r4 + 1) % 65536 = a
      · exact Or.inl hr
      · rw [if_neg hr] at h₁
        exact Or.inr (h₁ ▸ e₁)
    · by_cases hr' : (r4 + 2) % 65536 = a + 0x100
      · rw [if_pos hr', hwa'] at h₂
        omega
      · by_cases hr : (r4 + 2) % 65536 = a
        · rw [if_neg hr', if_pos hr, hwa] at h₂
          omega
        · rw [if_neg hr', if_neg hr] at h₂
          exact ⟨hr, hr', h₂ ▸ e₂⟩
    · by_cases hrb : (r4 + 3) % 65536 = b
      · exact Or.inl hrb
      · rw [if_neg hrb] at h₃
        by_cases hr' : (r4 + 3) % 65536 = a + 0x100
        · rw [if_pos hr', hwa'] at h₃
          omega
        · by_cases hr : (r4 + 3) % 65536 = a
          · rw [if_neg hr', if_pos hr, hwa] at h₃
            omega
          · rw [if_neg hr', if_neg hr] at h₃
            exact Or.inr ⟨hr, hr', h₃ ▸ e₃⟩
  · rintro ⟨g₀, g₁, ⟨ga, ga', g₂⟩, g₃⟩
    have e₀ : v₀ % 256 = 0x40 := h₀ ▸ g₀
    have e₁ : v₁ % 256 = 0x40 := by
      rcases g₁ with hr | g₁
      · rw [if_pos hr, hwa] at h₁
        omega
      · split_ifs at h₁ with hr
        · rw [hwa] at h₁
          omega
        · rw [h₁]
          exact g₁
    have e₂ : v₂ % 256 = 0 := by
      rw [if_neg ga', if_neg ga] at h₂
      rw [h₂]
      exact g₂
    have e₃ : v₃ % 256 = 0 := by
      rcases g₃ with hr | ⟨hr, hr', g₃⟩
      · rw [if_pos hr, hwb] at h₃
        omega
      · rw [if_neg hr', if_neg hr] at h₃
        split_ifs at h₃ with hrb
        · rw [hwb] at h₃
          omega
        · rw [h₃]
          exact g₃
    rw [e₀, e₁, e₂, e₃]

/-- Within its length the branch copies the table's row. -/
theorem ringCells_row {mem : List (Nat × Nat)} (hm : InRom mem tbl m) (hlen : len ≤ recCap)
    (hx : dueTick m < len) (hbytes : ∀ b ∈ replayRow mem (dueTick m), b < 256) :
    ringCells (virtCaptureReplay len tbl m) (dueTick m) = replayRow mem (dueTick m) := by
  have hcap : len ≤ 768 := hlen
  have hslt : slt (dueTick m) len = true := (slt_iff (by omega) (by omega)).mpr hx
  obtain ⟨v₀, v₁, v₂, v₃, hcells, h₀, h₁, h₂, h₃⟩ := ringCells_table tbl hslt
  have hrow := hm.rows (dueTick m) (Nat.lt_of_lt_of_le hx hlen)
  have hrom := hm.rom
  have hs : dueTick m % 256 < 256 := Nat.mod_lt _ (by decide)
  have hr4 : (dueTick m * 4 % 65536 + tbl) % 65536 = tbl + 4 * dueTick m := by
    simp only [recCap] at hrom
    omega
  have hin : ∀ i < 4, (tbl + 4 * dueTick m + i) % 65536 = tbl + 4 * dueTick m + i ∧
      (tbl + 4 * dueTick m + i < seatRing ∨ seatRing + 0x800 ≤ tbl + 4 * dueTick m + i) := by
    intro i hi
    simp only [recCap] at hrom
    simp only [seatRing]
    omega
  have hne : ∀ i < 4, ∀ a, seatRing ≤ a ∧ a < seatRing + 0x800 →
      tbl + 4 * dueTick m + i ≠ a := fun i hi a ha => by
    have := (hin i hi).2
    omega
  have ha : seatRing ≤ dueTick m % 256 + seatRing ∧
      dueTick m % 256 + seatRing < seatRing + 0x800 := by
    omega
  have ha' : seatRing ≤ dueTick m % 256 + seatRing + 0x100 ∧
      dueTick m % 256 + seatRing + 0x100 < seatRing + 0x800 := by
    omega
  have hb : seatRing ≤ dueTick m % 256 + seatKp ∧
      dueTick m % 256 + seatKp < seatRing + 0x800 := by
    simp only [seatRing, seatKp]
    omega
  rw [hr4] at h₀ h₁ h₂ h₃
  rw [(hin 1 (by decide)).1, rd_wr, if_neg (hne 1 (by decide) _ ha)] at h₁
  rw [(hin 2 (by decide)).1, rd_wr, rd_wr, if_neg (hne 2 (by decide) _ ha'),
    if_neg (hne 2 (by decide) _ ha)] at h₂
  rw [(hin 3 (by decide)).1, rd_wr, rd_wr, rd_wr, if_neg (hne 3 (by decide) _ hb),
    if_neg (hne 3 (by decide) _ ha'), if_neg (hne 3 (by decide) _ ha)] at h₃
  rw [range_four, ← h₀, ← h₁, ← h₂, ← h₃] at hrow
  rw [← hrow] at hbytes
  have hmod : ∀ b ∈ [v₀, v₁, v₂, v₃], b % 256 = b := fun b hb => Nat.mod_eq_of_lt (hbytes b hb)
  rw [hcells, hmod v₀ (by simp), hmod v₁ (by simp), hmod v₂ (by simp), hmod v₃ (by simp), hrow]

end

/-! ## Record, then replay -/

/-- The rings hold the recorded cells of the tick below `REPLAY_LEN`, and no input from
there on. -/
def Replayed (σ : Session) (mem : List (Nat × Nat)) (tbl : Nat) (m : Machine) : Prop :=
  ringCells (virtCaptureReplay (replayLen mem) tbl m) (dueTick m) =
    if dueTick m < replayLen mem then inputs (σ.console (dueTick m)) else idleCells

theorem inputs_bytes (m : Machine) : ∀ b ∈ inputs m, b < 256 := by
  intro b hb
  simp only [inputs, List.mem_cons, List.not_mem_nil, or_false] at hb
  rcases hb with rfl | rfl | rfl | rfl
  · exact m.rd_byte (by decide)
  · exact m.rd_byte (by decide)
  · exact m.rd_byte (by decide)
  · exact m.rd_byte (by decide)

variable {σ : Session} {log : List DumpLine} {tbl : Nat} {m : Machine}

/-- A good recording is replayed into the rings exactly where the branch reads its table
or finds seat 1 idle. -/
theorem replayed_filled (hrec : σ.Recorded) (hlog : Dumps (σ.console σ.ticks) log)
    (hm : InRom (parse log) tbl m) :
    Replayed σ (parse log) tbl m ↔ Filled (replayLen (parse log)) tbl m := by
  have hshort : σ.Short := (σ.recorded_iff).mp hrec
  have hlen : replayLen (parse log) = min σ.ticks 768 := by
    rw [replayLen_parse hlog, σ.tick_eq hshort.1]
  have hcap : replayLen (parse log) ≤ recCap := Nat.min_le_right _ _
  have hcap' : replayLen (parse log) ≤ 768 := hcap
  unfold Replayed Filled
  by_cases hx : dueTick m < replayLen (parse log)
  · rw [if_pos hx]
    have hrow : replayRow (parse log) (dueTick m) = inputs (σ.console (dueTick m)) := by
      rw [replayRow_parse hlog (by omega)]
      exact hrec.2 _ (by omega)
    have hbytes : ∀ b ∈ replayRow (parse log) (dueTick m), b < 256 := by
      rw [hrow]
      exact inputs_bytes _
    exact ⟨fun _ => Or.inl hx, fun _ => (ringCells_row hm hcap hx hbytes).trans hrow⟩
  · rw [if_neg hx]
    by_cases hneg : 0x8000 ≤ dueTick m
    · rw [ringCells_neg (by omega) hneg]
      constructor
      · exact fun h => Or.inr (Or.inr ⟨hneg, h⟩)
      · rintro (h | h | h)
        · exact absurd h hx
        · omega
        · exact h.2
    · rw [ringCells_idle (by omega) (by omega)]
      unfold idleCells
      constructor
      · intro h
        simp only [List.cons.injEq, true_and, and_true] at h
        exact Or.inr (Or.inl ⟨by omega, by omega, h⟩)
      · rintro (h | h | h)
        · exact absurd h hx
        · rw [h.2.2.1, h.2.2.2]
        · exact absurd h.1 hneg

/-! ### A session of one tick -/

theorem lsTickInc_pair (m : Machine) :
    (lsTickInc m).pair tickLo tickHi = (m.pair tickLo tickHi + 1) % 65536 := by
  have hlo : m.rd tickLo < 256 := m.rd_byte (by decide)
  have hhi : m.rd tickHi < 256 := m.rd_byte (by decide)
  have hwlo : cellWidth tickLo = 256 := by decide
  have hwhi : cellWidth tickHi = 256 := by decide
  have hne : tickHi ≠ tickLo := by decide
  unfold lsTickInc pair
  dsimp only
  split
  · next hcarry =>
      rw [rd_wr, if_pos rfl, rd_wr, if_neg hne, rd_wr, if_neg hne.symm, rd_wr, if_pos rfl, hwlo, hwhi]
      omega
  · rw [rd_wr, if_neg hne, rd_wr, if_pos rfl, hwlo]
    omega

/-- The console after `t` ticks in which only the recorder and the tick counter ran. -/
def stillAfter (m : Machine) : Nat → Machine
  | 0 => m
  | t + 1 => lsTickInc (recCapture (stillAfter m t))

/-- A session with the controllers held as they are. -/
def still (m : Machine) (ticks : Nat) (h : m.pair tickLo tickHi = 0) : Session where
  ticks := ticks
  console := stillAfter m
  start := h
  counts _ := lsTickInc_pair _
  leaves _ _ ha := lsTickInc_ring ha.1 _

/-- What the debugger's `m` prints for `8 * k` cells. -/
def dumpAt (m : Machine) (a k : Nat) : List DumpLine :=
  (List.range k).map fun i => ⟨a + 8 * i, m.range (a + 8 * i) 8⟩

theorem dumpAt_truthful {m : Machine} {a k : Nat} {l : DumpLine} (hl : l ∈ dumpAt m a k)
    {e : Nat × Nat} (he : e ∈ l.words.zipIdx) : e.1 = m.rd (l.addr + e.2) := by
  obtain ⟨i, -, rfl⟩ := List.mem_map.mp hl
  obtain ⟨j, hj, rfl⟩ := List.mem_iff_getElem.mp he
  simp [Machine.range]

theorem dumpAt_covers {m : Machine} {a k b : Nat} (h : a ≤ b) (h' : b < a + 8 * k) :
    ∃ l ∈ dumpAt m a k, ∃ e ∈ l.words.zipIdx, l.addr + e.2 = b := by
  refine ⟨_, List.mem_map.mpr ⟨(b - a) / 8, List.mem_range.mpr (by omega), rfl⟩,
    (m.rd (a + 8 * ((b - a) / 8) + (b - a) % 8), (b - a) % 8), ?_, ?_⟩
  · rw [List.mem_zipIdx_iff_getElem?]
    simp [Machine.range, Nat.mod_lt]
  · show a + 8 * ((b - a) / 8) + (b - a) % 8 = b
    omega

/-- The log of `m 8100 20` and `m 9000 C00`. -/
def debuggerLog (m : Machine) : List DumpLine := dumpAt m 0x8100 4 ++ dumpAt m 0x9000 0x180

theorem debuggerLog_dumps (m : Machine) : Dumps m (debuggerLog m) where
  truthful l hl e he := by
    rcases List.mem_append.mp hl with hl | hl
    · exact dumpAt_truthful hl he
    · exact dumpAt_truthful hl he
  covers a ha := by
    rcases ha with ha | ha
    · obtain ⟨l, hl, hcell⟩ := dumpAt_covers (m := m) (a := 0x8100) (k := 4) ha.1 (by omega)
      exact ⟨l, List.mem_append_left _ hl, hcell⟩
    · obtain ⟨l, hl, hcell⟩ := dumpAt_covers (m := m) (a := 0x9000) (k := 0x180) ha.1 ha.2
      exact ⟨l, List.mem_append_right _ hl, hcell⟩

/-- A console of the replay build at a tick, with the table at `$5000`. -/
def replaying (mem : List (Nat × Nat)) (t : Nat) : Machine where
  store :=
    { cells := fun a =>
        if 0x5000 ≤ a ∧ a < 0x5C00 then (replayRow mem ((a - 0x5000) / 4)).getD ((a - 0x5000) % 4) 0
        else if a = tickLo then t % 256 else if a = tickHi then t / 256 else 0
      log := [] }
  answers := []
  hist := {}

theorem replayRow_bytes (mem : List (Nat × Nat)) (t : Nat) : ∀ b ∈ replayRow mem t, b < 256 := by
  intro b hb
  have hand : ∀ x : Nat, x &&& 0xFF < 256 := fun x => Nat.lt_of_le_of_lt Nat.and_le_right (by decide)
  unfold replayRow at hb
  simp only [List.mem_cons, List.not_mem_nil, or_false] at hb
  rcases hb with rfl | rfl | rfl | rfl
  · exact hand _
  · exact hand _
  · exact hand _
  · exact hand _

theorem replaying_loaded (mem : List (Nat × Nat)) (t : Nat) :
    InRom mem 0x5000 (replaying mem t) where
  rom := Or.inl (by decide)
  rows k hk := by
    have hcap : k < 768 := hk
    have hlen : (replayRow mem k).length = 4 := rfl
    have hcell : ∀ i < 4, (replaying mem t).rd (0x5000 + 4 * k + i) = (replayRow mem k).getD i 0 := by
      intro i hi
      have hw : cellWidth (0x5000 + 4 * k + i) = 65536 := by
        unfold cellWidth
        rw [if_neg (by omega)]
      have hdiv : (0x5000 + 4 * k + i - 0x5000) / 4 = k := by omega
      have hmod : (0x5000 + 4 * k + i - 0x5000) % 4 = i := by omega
      have hin : i < (replayRow mem k).length := hlen ▸ hi
      have hb : (replayRow mem k).getD i 0 < 256 := by
        rw [List.getD_eq_getElem _ _ hin]
        exact replayRow_bytes mem k _ (List.getElem_mem hin)
      show (if 0x5000 ≤ 0x5000 + 4 * k + i ∧ 0x5000 + 4 * k + i < 0x5C00 then _ else _) %
        cellWidth (0x5000 + 4 * k + i) = _
      rw [if_pos (by omega), hdiv, hmod, hw]
      omega
    rw [range_four]
    exact four_eq (hcell 0 (by decide)) (hcell 1 (by decide)) (hcell 2 (by decide))
      (hcell 3 (by decide))

/-- The left disc is pressed. -/
def pressed : Machine where
  store := { cells := fun a => if a = execInL then 0x41 else if a = execInR then 0x40 else 0
             log := [] }
  answers := []
  hist := {}

/-- One recorded tick. -/
def oneTick : Session := still pressed 1 rfl

def oneTickLog : List DumpLine := debuggerLog (oneTick.console oneTick.ticks)

theorem oneTickLog_dumps : Dumps (oneTick.console oneTick.ticks) oneTickLog := debuggerLog_dumps _

theorem oneTick_short : oneTick.Short := by
  have hticks : oneTick.ticks = 1 := rfl
  exact ⟨by rw [hticks]; decide, fun k hk => by omega⟩

theorem oneTick_len : replayLen (parse oneTickLog) = 1 := by
  rw [replayLen_parse oneTickLog_dumps, oneTick.tick_eq (by decide)]
  rfl

theorem oneTick_row : replayRow (parse oneTickLog) 0 = [0x41, 0x40, 0, 0] := by
  rw [replayRow_parse oneTickLog_dumps (by decide)]
  exact (((oneTick.recorded_iff).mpr oneTick_short).2 0 (by decide)).trans rfl

theorem dueTick_replaying (mem : List (Nat × Nat)) {t : Nat} (ht : t < 65536) :
    dueTick (replaying mem t) = t := by
  have hlo : (replaying mem t).rd tickLo = t % 256 := by
    show t % 256 % 256 = t % 256
    omega
  have hhi : (replaying mem t).rd tickHi = t / 256 := by
    show t / 256 % 256 = t / 256
    omega
  have hdelay : (replaying mem t).rd delayEn = 0 := rfl
  unfold dueTick pair
  rw [hlo, hhi, hdelay]
  omega

/-- A session is recorded and replayed faithfully exactly if it was short and the replay
branch stays within its table or finds the rings idle. -/
theorem session_replayed (σ : Session) (log : List DumpLine)
    (hlog : Dumps (σ.console σ.ticks) log) (tbl : Nat) (m : Machine)
    (hm : InRom (parse log) tbl m) :
    (σ.Recorded ∧ Replayed σ (parse log) tbl m) ↔
      σ.Short ∧ Filled (replayLen (parse log)) tbl m := by
  constructor
  · rintro ⟨hrec, hrep⟩
    exact ⟨(σ.recorded_iff).mp hrec, (replayed_filled hrec hlog hm).mp hrep⟩
  · rintro ⟨hshort, hfilled⟩
    have hrec := (σ.recorded_iff).mpr hshort
    exact ⟨hrec, (replayed_filled hrec hlog hm).mpr hfilled⟩

/-- The recorded tick of a session comes back at tick 0. -/
theorem session_replayed_once :
    Dumps (oneTick.console oneTick.ticks) oneTickLog ∧
      InRom (parse oneTickLog) 0x5000 (replaying (parse oneTickLog) 0) ∧
      oneTick.Recorded ∧
      Replayed oneTick (parse oneTickLog) 0x5000 (replaying (parse oneTickLog) 0) := by
  have hdue := dueTick_replaying (parse oneTickLog) (t := 0) (by decide)
  have hfilled : Filled (replayLen (parse oneTickLog)) 0x5000 (replaying (parse oneTickLog) 0) :=
    Or.inl (by rw [hdue, oneTick_len]; decide)
  exact ⟨oneTickLog_dumps, replaying_loaded _ 0,
    (session_replayed oneTick oneTickLog oneTickLog_dumps 0x5000 _ (replaying_loaded _ 0)).mpr
      ⟨oneTick_short, hfilled⟩⟩

/-- At tick `$8000` the rings get the inputs of tick 0 again. -/
theorem replay_negative_tick :
    ¬ ∀ (σ : Session) (log : List DumpLine) (tbl : Nat) (m : Machine),
      Dumps (σ.console σ.ticks) log → InRom (parse log) tbl m →
        σ.Recorded ∧ Replayed σ (parse log) tbl m := by
  intro hall
  obtain ⟨hrec, hrep⟩ := hall oneTick oneTickLog 0x5000 (replaying (parse oneTickLog) 0x8000)
    oneTickLog_dumps (replaying_loaded _ _)
  have hdue := dueTick_replaying (parse oneTickLog) (t := 0x8000) (by decide)
  have hfilled := (replayed_filled hrec oneTickLog_dumps (replaying_loaded _ _)).mp hrep
  have hcell := (replaying_loaded (parse oneTickLog) 0x8000).rows 0 (by decide)
  rw [range_four, oneTick_row] at hcell
  unfold Filled at hfilled
  rw [hdue, oneTick_len] at hfilled
  rcases hfilled with h | h | h
  · exact absurd h (by decide)
  · exact absurd h.2.1 (by decide)
  · have hread := h.2.1
    rw [hdue] at hread
    have hpressed : (replaying (parse oneTickLog) 0x8000).rd 0x5000 = 0x41 := (List.cons.inj hcell).1
    exact absurd (hread.symm.trans (congrArg (· % 256) hpressed)) (by decide)

end SharkNetplay.Console.Replay
