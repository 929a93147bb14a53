import SharkNetplay.Console.Lobby
import SharkNetplay.Console.Passes

/-!
# Ticks and their inputs

What the slots of a remote seat hold when the gate opens. The gate looks at the
watermark alone, so a slot answers for its tick only while the watermark moves by one.

## Implementation notes

The invariant counts the ticks of a seat from the console's own tick to the watermark
and says of each where its slot comes from: an INPUT stored since the baseline, or the
idle fill of the baseline for a tick its delay covers. `Record.stamp` is 0 at START.
-/

namespace SharkNetplay.Console

open Lib Lib.Framing Cell Machine

variable {m m' : Machine} {cart : Cart} {v : View} {r r' : Record} {s : Nat}

/-- The two cells of a slot. -/
def View.slot (s t : Nat) (v : View) : Nat × Nat := (v.ring s (t % 256), v.kp s (t % 256))

/-- An idle slot. -/
def idleCells : Nat × Nat := (0x40, 0)

/-- An INPUT of seat `s` for tick `t` was stored under the current baseline. -/
def Received (r : Record) (s t : Nat) (c : Nat × Nat) : Prop :=
  ∃ e ∈ r.handled, e.stamp.epoch = r.stamp.epoch ∧ e.frame = inputFrame s t c ∧ e.took = true

/-- The slot of the tick `n` ticks ahead holds its INPUT, or is idle and the tick is below
the baseline plus the delay. -/
def ServedAt (s n : Nat) (v : View) (r : Record) : Prop :=
  (∃ c, Received r s ((v.tick + n) % 65536) c ∧ v.slot s (v.tick + n) = c) ∨
    (r.stamp.age + n < v.delay ∧ v.slot s (v.tick + n) = idleCells)

/-- The tick at hand has the input of every remote seat. -/
def Served (m : Machine) : Prop :=
  ∀ s < m.rd netCount, s ≠ m.rd netSeat → ServedAt s 0 m.view m.hist

namespace View

/-- Ticks of a seat that are in, from the console's own tick on. -/
def lead (s : Nat) (v : View) : Nat := (v.wm s + 1 + 65536 - v.tick) % 65536

end View

/-- Every tick of a remote seat up to its watermark is served, less than a lap ahead. -/
structure Backed (v : View) (r : Record) : Prop where
  count : v.count ≤ 4
  seat : v.seat < v.count
  delay : v.delay < 256
  tick : v.tick < 65536
  lead : ∀ s < v.count, s ≠ v.seat → v.lead s ≤ 256
  slots : ∀ s < v.count, s ≠ v.seat → ∀ n < v.lead s, ServedAt s n v r

/-! ## One step of the view -/

theorem Received.mono {t : Nat} {c : Nat × Nat} (h : Received r s t c)
    (hh : ∀ e ∈ r.handled, e ∈ r'.handled) (hs : r'.stamp.epoch = r.stamp.epoch) :
    Received r' s t c := by
  obtain ⟨e, he, hep, hf, ht⟩ := h
  exact ⟨e, hh e he, hep.trans hs.symm, hf, ht⟩

theorem ServedAt.mono {n : Nat} (h : ServedAt s n v r) (hh : ∀ e ∈ r.handled, e ∈ r'.handled)
    (hs : r'.stamp = r.stamp) : ServedAt s n v r' := by
  rcases h with ⟨c, hc, hslot⟩ | ⟨hage, hslot⟩
  · exact Or.inl ⟨c, hc.mono hh (by rw [hs]), hslot⟩
  · exact Or.inr ⟨by rw [hs]; exact hage, hslot⟩

theorem ServedAt.congr {n : Nat} {v' : View} (h : ServedAt s n v r) (htick : v'.tick = v.tick)
    (hdelay : v'.delay = v.delay) (hslot : v'.slot s (v.tick + n) = v.slot s (v.tick + n)) :
    ServedAt s n v' r := by
  unfold ServedAt
  rw [htick, hdelay, hslot]
  exact h

/-- The record may grow. -/
theorem Backed.mono (h : Backed v r) (hh : ∀ e ∈ r.handled, e ∈ r'.handled)
    (hs : r'.stamp = r.stamp) : Backed v r' :=
  ⟨h.count, h.seat, h.delay, h.tick, h.lead, fun s hs' hne n hn => (h.slots s hs' hne n hn).mono hh hs⟩

/-- Own checksums, flags and counters are no part of it. -/
theorem Backed.flags {own : Nat → Nat} {hold pend ptmo peerScr resume : Nat} (h : Backed v r) :
    Backed { v with own := own, hold := hold, pend := pend, ptmo := ptmo, peerScr := peerScr,
                    resume := resume } r :=
  ⟨h.count, h.seat, h.delay, h.tick, h.lead, h.slots⟩

/-- The console's own slot is no remote seat's. -/
theorem Backed.put {i : Nat} {c : Nat × Nat} (h : Backed v r) : Backed (v.put v.seat i c) r := by
  refine ⟨h.count, h.seat, h.delay, h.tick, h.lead, fun s hs hne n hn => ?_⟩
  have hslot : (v.put v.seat i c).slot s (v.tick + n) = v.slot s (v.tick + n) := by
    have hno : ¬ (s = v.seat ∧ (v.tick + n) % 256 = i) := fun h => hne h.1
    simp only [View.slot, View.put]
    rw [if_neg hno, if_neg hno]
  exact (h.slots s hs hne n hn).congr rfl rfl hslot

/-- An INPUT for the tick right after the watermark. -/
theorem Backed.input {t : Nat} {c : Nat × Nat} (h : Backed v r) (hs : s < v.count)
    (hne : s ≠ v.seat) (hwm : v.wm s < 65536) (ht : t = (v.wm s + 1) % 65536)
    (hlap : (t + 65536 - v.tick) % 65536 < 256) (hrec : Received r s t c) :
    Backed ((v.put s (t % 256) c).mark s t) r := by
  have htick := h.tick
  have hn : (t + 65536 - v.tick) % 65536 = v.lead s := by
    unfold View.lead
    omega
  have hlead : ((v.put s (t % 256) c).mark s t).lead s = v.lead s + 1 := by
    show ((if s = s then t else v.wm s) + 1 + 65536 - v.tick) % 65536 = _
    rw [if_pos rfl]
    unfold View.lead at hn ⊢
    omega
  have hother : ∀ s', s' ≠ s → ((v.put s (t % 256) c).mark s t).lead s' = v.lead s' := by
    intro s' hs'
    show ((if s' = s then t else v.wm s') + 1 + 65536 - v.tick) % 65536 = _
    rw [if_neg hs']
    rfl
  have hslot : ∀ s' u, ((v.put s (t % 256) c).mark s t).slot s' u =
      if s' = s ∧ u % 256 = t % 256 then c else v.slot s' u := by
    intro s' u
    simp only [View.slot, View.put, View.mark]
    split <;> rfl
  refine ⟨h.count, h.seat, h.delay, h.tick, fun s' hs' hne' => ?_, fun s' hs' hne' n hlt => ?_⟩
  · by_cases heq : s' = s
    · rw [heq, hlead]
      omega
    · rw [hother s' heq]
      exact h.lead s' hs' hne'
  · by_cases heq : s' = s
    · subst heq
      rw [hlead] at hlt
      by_cases hlast : n = v.lead s'
      · -- the new slot
        have htn : (v.tick + n) % 65536 = t := by omega
        refine Or.inl ⟨c, ?_, ?_⟩
        · show Received r s' ((v.tick + n) % 65536) c
          rw [htn]
          exact hrec
        · show ((v.put s' (t % 256) c).mark s' t).slot s' (v.tick + n) = c
          rw [hslot, if_pos ⟨rfl, by omega⟩]
      · have hold : ((v.put s' (t % 256) c).mark s' t).slot s' (v.tick + n) =
            v.slot s' (v.tick + n) := by
          rw [hslot, if_neg]
          rintro ⟨-, hmod⟩
          omega
        exact (h.slots s' hs' hne' n (by omega)).congr rfl rfl hold
    · rw [hother s' heq] at hlt
      have hold : ((v.put s (t % 256) c).mark s t).slot s' (v.tick + n) = v.slot s' (v.tick + n) := by
        rw [hslot, if_neg fun h => heq h.1]
      exact (h.slots s' hs' hne' n hlt).congr rfl rfl hold

/-- A tick that is run with every remote seat ready. -/
theorem Backed.advance (h : Backed v r) (hready : ∀ s < v.count, s ≠ v.seat → 1 ≤ v.lead s)
    (hh : ∀ e ∈ r.handled, e ∈ r'.handled) (hs : r'.stamp = ⟨r.stamp.epoch, r.stamp.age + 1⟩) :
    Backed v.advance r' := by
  have htick := h.tick
  have hlead : ∀ s, 1 ≤ v.lead s → v.advance.lead s + 1 = v.lead s := by
    intro s hpos
    show (v.wm s + 1 + 65536 - (v.tick + 1) % 65536) % 65536 + 1 = _
    unfold View.lead at hpos ⊢
    omega
  refine ⟨h.count, h.seat, h.delay, Nat.mod_lt _ (by decide), fun s hs' hne => ?_,
    fun s hs' hne n hn => ?_⟩
  · have h₁ := hlead s (hready s hs' hne)
    have h₂ := h.lead s hs' hne
    omega
  · have h₁ := hlead s (hready s hs' hne)
    have htn : (v.advance.tick + n) % 65536 = (v.tick + (n + 1)) % 65536 := by
      show ((v.tick + 1) % 65536 + n) % 65536 = _
      omega
    have hslot : v.advance.slot s (v.advance.tick + n) = v.slot s (v.tick + (n + 1)) := by
      have hmod : (v.advance.tick + n) % 256 = (v.tick + (n + 1)) % 256 := by
        show ((v.tick + 1) % 65536 + n) % 256 = _
        omega
      unfold View.slot
      rw [hmod]
      rfl
    have hserved := h.slots s hs' hne (n + 1) (by omega)
    unfold ServedAt
    rw [htn, hslot, hs]
    rcases hserved with ⟨c, hc, hcell⟩ | ⟨hage, hcell⟩
    · exact Or.inl ⟨c, hc.mono hh (by rw [hs]), hcell⟩
    · refine Or.inr ⟨?_, hcell⟩
      show r.stamp.age + 1 + n < v.delay
      omega

/-- A fresh baseline. -/
theorem Backed.baseline (hcount : v.count ≤ 4) (hseat : v.seat < v.count) (hdelay : v.delay < 256)
    (htick : v.tick < 65536) (hwm : ∀ s < v.count, v.wm s = (v.tick + v.delay + 65535) % 65536)
    (hidle : ∀ s < v.count, ∀ t, v.slot s t = idleCells) (hage : r.stamp.age = 0) : Backed v r := by
  have hlead : ∀ s < v.count, v.lead s = v.delay := by
    intro s hs
    unfold View.lead
    rw [hwm s hs]
    omega
  refine ⟨hcount, hseat, hdelay, htick, fun s hs _ => ?_, fun s hs _ n hn => Or.inr ⟨?_, hidle s hs _⟩⟩
  · rw [hlead s hs]
    omega
  · rw [hlead s hs] at hn
    omega

theorem Backed.rebase (h : Backed v r) (hresume : v.resume < 65536) (hage : r'.stamp.age = 0) :
    Backed v.rebase r' := by
  have hfour : ∀ s < v.count, s < 4 := fun s hs => Nat.lt_of_lt_of_le hs h.count
  refine .baseline h.count h.seat h.delay hresume (fun s hs => ?_) (fun s hs t => ?_) hage
  · exact if_pos (hfour s hs)
  · have hlt : t % 256 < 256 := Nat.mod_lt _ (by decide)
    show (if s < 4 ∧ t % 256 < 256 then 0x40 else 0, 0) = idleCells
    rw [if_pos ⟨hfour s hs, hlt⟩]
    rfl

/-! ## Messages -/

/-- An INPUT that would be taken is for the tick right after its seat's watermark and
less than a lap ahead of the console's own tick. -/
def Next (v : View) : Msg → Prop
  | .input s t _ =>
    v.fresh s t = true → t = (v.wm s + 1) % 65536 ∧ (t + 65536 - v.tick) % 65536 < 256
  | _ => True

theorem wm_lt (m : Machine) (s : Nat) : m.view.wm s < 65536 := by
  show (if s < 4 then m.pair (seatWm + 2 * s) (seatWm + 2 * s + 1) else 0) < 65536
  split
  · refine pair_lt m ?_ ?_
    · exact cellWidth_cart (by simp only [seatWm]; omega) (by simp only [seatWm]; omega)
    · exact cellWidth_cart (by simp only [seatWm]; omega) (by simp only [seatWm]; omega)
  · decide

theorem Backed.onMsg {x : Msg} (h : Backed m.view m.hist) (hnext : Next m.view x)
    (htook : Took x m m') (hlog : Logged x m m') : Backed m'.view m'.hist := by
  obtain ⟨l, -, -, hhist⟩ := hlog.hist
  have hgrow : ∀ e ∈ m.hist.handled, e ∈ m'.hist.handled := by
    intro e he
    rw [hhist]
    exact List.mem_append_left _ he
  have hkeep : m.view.adopts x = false → Backed m.view m'.hist := by
    intro hadopt
    refine h.mono hgrow ?_
    rw [hhist, hadopt]
    rfl
  rw [htook.view]
  cases x with
  | input s t c =>
      show Backed (m.view.onInput s t c) m'.hist
      unfold View.onInput
      by_cases hfresh : m.view.fresh s t = true
      · rw [if_pos hfresh]
        obtain ⟨ht, hlap⟩ := hnext hfresh
        have hseat : s ≠ m.view.seat ∧ s < m.view.count := by
          simp only [View.fresh, decide_eq_true_eq] at hfresh
          exact ⟨hfresh.1, hfresh.2.1⟩
        refine (hkeep rfl).input hseat.2 hseat.1 (wm_lt m s) ht hlap
          ⟨⟨m.hist.stamp, inputFrame s t c, m.view.fresh s t⟩, ?_, ?_, rfl, hfresh⟩
        · rw [hhist]
          exact List.mem_append_right _ (List.mem_singleton.mpr rfl)
        · rw [hhist]
          rfl
      · rw [if_neg hfresh]
        exact hkeep rfl
  | report s t ck =>
      show Backed (m.view.onCrc t ck) m'.hist
      unfold View.onCrc
      split
      · exact (hkeep rfl).flags
      · exact hkeep rfl
  | request t =>
      show Backed m.view.onReq m'.hist
      unfold View.onReq
      split
      · exact (hkeep rfl).flags
      · exact hkeep rfl
  | opening R => exact (hkeep rfl).flags
  | piece q => exact hkeep rfl
  | closing =>
      show Backed m.view.onEnd m'.hist
      unfold View.onEnd
      by_cases hhold : m.view.hold = 0
      · rw [if_pos hhold]
        exact hkeep (by simp [View.adopts, hhold])
      · rw [if_neg hhold]
        refine h.rebase (resume_lt m) ?_
        rw [hhist]
        simp [View.adopts, hhold]

/-! ## Ticks -/

theorem seatReady_lead (hs : s < 4) (h : seatReady m s = true) : 1 ≤ m.view.lead s := by
  have hwm : m.view.wm s = m.pair (seatWm + s * 2) (seatWm + s * 2 + 1) := by
    rw [Nat.mul_comm s 2]
    exact if_pos hs
  have hlt := wm_lt m s
  have htick := tick_lt m
  have hready : (m.view.wm s + 65536 - m.view.tick) % 65536 < 32768 := by
    rw [hwm]
    exact of_decide_eq_true h
  unfold View.lead
  omega

/-- The gate is open: every remote seat is ready. -/
theorem gateOpen_lead (hopen : gateOpen m = true) (hcount : m.view.count ≤ 4) :
    ∀ s < m.view.count, s ≠ m.view.seat → 1 ≤ m.view.lead s := by
  intro s hs hne
  unfold gateOpen at hopen
  rw [List.all_eq_true] at hopen
  have hmem : s ∈ List.range (max (m.rd netCount) 1) :=
    List.mem_range.mpr (Nat.lt_of_lt_of_le hs (Nat.le_max_left _ _))
  have hseat := hopen s hmem
  rw [Bool.or_eq_true, beq_iff_eq] at hseat
  rcases hseat with hseat | hseat
  · exact absurd hseat hne
  · exact seatReady_lead (by omega) hseat

theorem Backed.report {ck : Nat} (h : Backed v r) : Backed (v.report ck) r := by
  unfold View.report
  split
  · exact h.flags
  · exact h

theorem Backed.ran {quiet : Bool} (h : Backed m.view m.hist)
    (hready : ∀ s < m.view.count, s ≠ m.view.seat → 1 ≤ m.view.lead s)
    (hrun : RunOf cart quiet m m') : Backed m'.view m'.hist := by
  obtain ⟨l, -, -, hhist, -⟩ := hrun.hist
  have hgrow : m'.hist.handled = m.hist.handled := by rw [hhist]
  have hran : Backed (m.view.ran (nextCksum cart m))
      { m.hist with stamp := ⟨m.hist.stamp.epoch, m.hist.stamp.age + 1⟩ } := by
    refine h.report.advance (fun s hs hne => ?_) (fun e he => he) rfl
    have hlead := hready s
    unfold View.report at hs hne ⊢
    split at hs
    · next hb =>
        rw [if_pos hb] at hne ⊢
        exact hlead hs hne
    · next hb =>
        rw [if_neg hb] at hne ⊢
        exact hlead hs hne
  have hresume : (m.view.tick + 1) % 65536 = (m.view.ran (nextCksum cart m)).tick := by
    unfold View.ran View.report View.advance
    split <;> rfl
  rw [hrun.view]
  unfold View.pending
  by_cases hidle : (m.view.ran (nextCksum cart m)).pend = 0 ∨
      (m.view.ran (nextCksum cart m)).seat ≠ 0 ∨ (m.view.ran (nextCksum cart m)).hold ≠ 0
  · rw [if_pos hidle]
    have hdue : dueAfter cart quiet m = false := not_due_of_idle hidle quiet
    rw [hdue, if_neg (by decide), if_neg (by decide)] at hhist
    refine hran.mono (fun e he => hgrow ▸ he) ?_
    rw [hhist]
  · rw [if_neg hidle]
    by_cases hdue : (m.view.ran (nextCksum cart m)).due quiet = true
    · have hdue' : dueAfter cart quiet m = true := hdue
      rw [if_pos hdue]
      rw [if_pos hdue', if_pos hdue'] at hhist
      have henter : Backed ((m.view.ran (nextCksum cart m)).enter
          (((m.view.ran (nextCksum cart m)).tick + 16) % 65536)) _ := hran.flags
      refine henter.rebase (Nat.mod_lt _ (by decide)) ?_
      rw [hhist]
    · have hdue' : ¬ dueAfter cart quiet m = true := hdue
      rw [if_neg hdue]
      rw [if_neg hdue', if_neg hdue'] at hhist
      refine (hran.mono (fun e he => hgrow ▸ he) ?_).flags
      rw [hhist]

/-! ## One step -/

/-- A console in its match: dropped, or with every tick backed. -/
structure Standing (m : Machine) : Prop where
  active : m.rd netActive ≠ 0
  count : m.view.count ≤ 4
  seat : m.view.seat < m.view.count
  backed : m.view.dropped = 0 → Backed m.view m.hist

/-- Seat, count and a drop outlive any change of the other cells. -/
structure Keeps (v v' : View) : Prop where
  count : v'.count = v.count
  seat : v'.seat = v.seat
  dropped : v'.dropped = 0 → v.dropped = 0

namespace Keeps

theorem refl : Keeps v v := ⟨rfl, rfl, id⟩

theorem trans {v' v'' : View} (h₁ : Keeps v v') (h₂ : Keeps v' v'') : Keeps v v'' :=
  ⟨h₂.count.trans h₁.count, h₂.seat.trans h₁.seat, fun h => h₁.dropped (h₂.dropped h)⟩

theorem onMsg (x : Msg) (v : View) : Keeps v (v.onMsg x) := by
  cases x with
  | input s t c =>
      show Keeps v (v.onInput s t c)
      unfold View.onInput
      split <;> exact ⟨rfl, rfl, id⟩
  | report s t ck =>
      show Keeps v (v.onCrc t ck)
      unfold View.onCrc
      split <;> exact ⟨rfl, rfl, id⟩
  | request t =>
      show Keeps v v.onReq
      unfold View.onReq
      split <;> exact ⟨rfl, rfl, id⟩
  | opening R => exact ⟨rfl, rfl, id⟩
  | piece q => exact ⟨rfl, rfl, id⟩
  | closing =>
      show Keeps v v.onEnd
      unfold View.onEnd
      split <;> exact ⟨rfl, rfl, id⟩

theorem giveUp (v : View) : Keeps v v.giveUp :=
  ⟨rfl, rfl, fun h => absurd h (by simp [View.giveUp])⟩

theorem rebase (v : View) : Keeps v v.rebase := ⟨rfl, rfl, fun h => h⟩

theorem enter (t : Nat) (v : View) : Keeps v (v.enter t) := ⟨rfl, rfl, fun h => h⟩

theorem push (v : View) : Keeps v v.push := (enter _ v).trans (rebase _)

theorem ran (ck : Nat) (quiet : Bool) (v : View) : Keeps v ((v.ran ck).pending quiet) := by
  have hran : Keeps v (v.ran ck) := by
    unfold View.ran View.report View.advance
    split <;> exact ⟨rfl, rfl, id⟩
  refine hran.trans ?_
  generalize v.ran ck = w
  unfold View.pending
  split
  · exact .refl
  · split
    · exact .push w
    · exact ⟨rfl, rfl, fun h => h⟩

end Keeps

/-- A step that keeps the match. -/
theorem Standing.of_keeps (h : Standing m) (hact : m'.rd netActive = m.rd netActive)
    (hkeep : Keeps m.view m'.view)
    (hback : m'.view.dropped = 0 → Backed m.view m.hist → Backed m'.view m'.hist) : Standing m' where
  active := hact ▸ h.active
  count := hkeep.count ▸ h.count
  seat := by
    rw [hkeep.seat, hkeep.count]
    exact h.seat
  backed hd := hback hd (h.backed (hkeep.dropped hd))

/-- A step the view and the record do not see. -/
theorem Standing.of_same (h : Standing m) (hact : m'.rd netActive = m.rd netActive)
    (hview : m'.view = m.view) (hhist : m'.hist = m.hist) : Standing m' := by
  refine h.of_keeps hact (hview ▸ .refl) fun _ hb => ?_
  rw [hview, hhist]
  exact hb

theorem Loaded.active {f rest : List Nat} (h : Loaded f rest m m') :
    m'.rd netActive = m.rd netActive := h.frame _ (by decide) (by decide)

theorem Standing.load {f rest : List Nat} (h : Standing m) (hload : Loaded f rest m m') :
    Standing m' := h.of_same hload.active hload.view hload.hist

theorem ofPl_quiet (m : Machine) : Writes Quiet m (ofPl m) := by
  unfold ofPl
  extract_lets m₀ m₁
  have h₁ : Writes Quiet m m₁ := by
    show Writes Quiet m (ite _ _ _)
    split
    · exact .refl
    · refine ((Writes.refl.wr (quiet_of_cell (by decide) (by decide))).copy fun i hi v => ?_).wr
        (quiet_of_cell (by decide) (by decide))
      exact quiet_of_range (by simp only [leftName]; omega) (by simp only [leftName]; omega)
  refine ((h₁.wr ?_).wr ?_).trans (lsIdleRmt_quiet _)
  · exact quiet_of_cell (by decide) (by decide)
  · exact quiet_of_cell (by decide) (by decide)

/-- In a match LOBBY, ROOM and PONG do nothing, and PEER_LEFT ends it. -/
theorem Standing.lobby {f : List Nat} (hf : LobbyFrame f) (hbuf : InBuf f m) (h : Standing m) :
    Standing (sesOnframe m) := by
  have hlong := hf.framed.wellFormed.long
  have hty : m.rd (frmBuf + 1) = f.getD 1 0 := hbuf.getD (by omega)
  have hlog : Standing (logHandled m) := by
    refine h.of_keeps (rd_logHandled m netActive) ?_ fun _ hb => ?_
    · rw [view_logHandled]
      exact .refl
    · rw [view_logHandled]
      exact hb.mono (fun e he => List.mem_append_left _ he) rfl
  have hact : (logHandled m).rd netActive ≠ 0 := h.active
  have hkind := hf.kind
  simp only [List.mem_cons, List.not_mem_nil, or_false] at hkind
  rcases hkind with hk | hk | hk | hk
  · rw [hk] at hty
    rw [sesOnframe_lobby hty]
    unfold ofLobby
    rw [if_pos (Or.inl hact)]
    exact hlog
  · rw [hk] at hty
    rw [sesOnframe_room hty]
    unfold ofRoom
    rw [if_pos (Or.inl hact)]
    exact hlog
  · rw [hk] at hty
    rw [sesOnframe_left hty]
    refine hlog.of_keeps (ofPl_quiet _).quiet_apart.active_eq ?_ fun hd _ => ?_
    · rw [view_ofPl]
      exact .giveUp _
    · rw [view_ofPl] at hd
      exact absurd hd (by simp [View.giveUp])
  · rw [hk] at hty
    rw [sesOnframe_pong hty]
    exact hlog

theorem Standing.msg {x : Msg} (hx : x.Sound) (hbuf : InBuf x.frame m) (h : Standing m)
    (hnext : Next m.view x) : Standing (sesOnframe m) := by
  obtain ⟨htook, hlog⟩ := took_msg hbuf h.count hx
  refine h.of_keeps htook.apart.active_eq ?_ fun _ hb => hb.onMsg hnext htook hlog
  rw [htook.view]
  exact .onMsg x _

/-- What may reach the handlers. -/
def Admitted (ok : View → Msg → Prop) (v : View) (f : List Nat) : Prop :=
  LobbyFrame f ∨ ∃ x : Msg, x.Sound ∧ x.frame = f ∧ ok v x

/-- A step of the console whose frame, if it dispatches one, may reach the handlers. -/
def Pass (ok : View → Msg → Prop) (cart : Cart) (v : Move) (p q : Proc) : Prop :=
  q = p.step cart v ∧ (p.pc.Pumps → ∀ f rest, cut headOk (buffered p.m) = .frame f rest →
    Admitted ok p.m.view f)

/-- Parked, or standing. -/
def Sure (p : Proc) : Prop := p.pc = .parked ∨ Standing p.m

theorem pumpRecv_active (a : Arrival) (m : Machine) :
    (pumpRecv a m).rd netActive = m.rd netActive :=
  (pumpRecv_writes a m).frame fun _ => by simp [RecvCell, Mail]

theorem ppSlip_active (m : Machine) : (ppSlip m).rd netActive = m.rd netActive :=
  (ppSlip_writes m).frame fun _ => by simp

theorem Standing.captured {input : Nat × Nat} (h : Standing m) : Standing (lsCapture input m) := by
  have hseat : m.rd netSeat ≤ 3 := by
    have h₁ := h.seat
    have h₂ := h.count
    have h₃ : m.view.seat = m.rd netSeat := rfl
    omega
  obtain ⟨hcells, hview, l, -, -, hhist⟩ := lsCapture_captured input hseat
  refine h.of_keeps hcells.quiet_apart.active_eq ?_ fun _ hb => ?_
  · rw [hview]
    exact ⟨rfl, rfl, id⟩
  · rw [hview]
    refine hb.put.mono (fun e he => ?_) ?_
    · rw [hhist]
      exact he
    · rw [hhist]

theorem Standing.ran (h : Standing m) (hopen : m.view.dropped ≠ 0 ∨ gateOpen m = true) :
    Standing (lsRun cart m) := by
  obtain ⟨quiet, hrun⟩ := lsRun_spec cart m
  refine h.of_keeps hrun.apart.active_eq ?_ fun hd hb => ?_
  · rw [hrun.view]
    exact .ran _ _ _
  · have hkeep : Keeps m.view (lsRun cart m).view := by
      rw [hrun.view]
      exact .ran _ _ _
    have hopen' : gateOpen m = true := hopen.resolve_left fun hne => hne (hkeep.dropped hd)
    exact hb.ran (gateOpen_lead hopen' h.count) hrun

theorem hist_lsFreeze (m : Machine) : (lsFreeze m).hist = m.hist := by
  unfold lsFreeze
  split <;> simp

/-- One step. -/
theorem Sure.step {v : Move} {p q : Proc} (h : Sure p) (hstep : Pass Next cart v p q) : Sure q := by
  obtain ⟨rfl, hframe⟩ := hstep
  rcases h with h | h
  · refine Or.inl ?_
    obtain ⟨m, pc⟩ := p
    cases h
    rfl
  cases step_change cart v p with
  | still hpc hm => exact Or.inr (hm ▸ h)
  | parked hpc hpc' hdrop hm => exact Or.inl hpc'
  | recv k hpc hk hm =>
      refine Or.inr ?_
      have hs : Standing k := by
        rcases hk with rfl | rfl
        · exact h
        · exact h.of_same (lsFreeze_quiet _).quiet_apart.active_eq (view_lsFreeze _) (hist_lsFreeze _)
      rw [hm]
      exact hs.of_same (pumpRecv_active _ _) (view_pumpRecv _ _) (hist_pumpRecv _ _)
  | slip hpump hpc hcut hm =>
      refine Or.inr ?_
      rw [hm]
      refine h.of_same (ppSlip_active _) (view_ppSlip _) ?_
      unfold ppSlip
      simp
  | frame f rest hpump hpc hcut hm =>
      refine Or.inr ?_
      have hload := ppLoad_loaded hcut
      have hs := h.load hload
      rw [hm]
      rcases hframe hpump f rest hcut with hf | ⟨x, hx, rfl, hok⟩
      · exact hs.lobby hf hload.inBuf
      · refine hs.msg hx hload.inBuf ?_
        rw [hload.view]
        exact hok
  | held hpc hpc' hcut hm =>
      refine Or.inr ?_
      rw [hm]
      exact h.of_same ((rd_wr _ _ _ _).trans (if_neg (by decide))) (view_wr (by simp [ViewCell])) rfl
  | waited hpc hcut hm =>
      refine Or.inr ?_
      rcases hm.view with hview | ⟨hold, -, hview⟩
      · exact h.of_same hm.cells.quiet_apart.active_eq hview hm.hist
      · refine h.of_keeps hm.cells.quiet_apart.active_eq ⟨?_, ?_, fun hd => ?_⟩ fun hd _ => ?_
        · rw [hview]
          rfl
        · rw [hview]
          rfl
        · rw [hview] at hd
          exact absurd hd (by simp [View.giveUp])
        · rw [hview] at hd
          exact absurd hd (by simp [View.giveUp])
  | captured hpc hpc' hcut hm =>
      refine Or.inr ?_
      rw [hm]
      exact h.captured
  | ran hpc hpc' hopen hm =>
      refine Or.inr ?_
      rw [hm]
      exact h.ran hopen

/-! ## From START on -/

theorem cprSlots_keeps (src dst n : Nat) (m : Machine) :
    (cprSlots src dst n m).hist = m.hist ∧ (cprSlots src dst n m).answers = m.answers := by
  induction n generalizing src dst m with
  | zero => exact ⟨rfl, rfl⟩
  | succ n ih => simp [cprSlots, ih]

/-- START sends nothing. -/
theorem ofStart_keeps (m : Machine) : (ofStart m).hist = m.hist ∧ (ofStart m).answers = m.answers := by
  unfold ofStart
  split
  · exact ⟨rfl, rfl⟩
  extract_lets m₁ m₂ m₃ m₄ m₅ m₆ m₇ m₈ m₉
  have h₆ : m₆.hist = m₅.hist ∧ m₆.answers = m₅.answers := cprSlots_keeps _ _ _ _
  have h₇ : m₇.hist = m₆.hist ∧ m₇.answers = m₆.answers :=
    ⟨((hist_fill _ _ _ _).trans (hist_fill _ _ _ _)).trans (hist_fill _ _ _ _),
      ((answers_fill _ _ _ _).trans (answers_fill _ _ _ _)).trans (answers_fill _ _ _ _)⟩
  have h₈ : m₈.hist = m₇.hist ∧ m₈.answers = m₇.answers :=
    ⟨hist_putWm _ _ _ _ _, answers_putWm _ _ _ _ _⟩
  have h₉ : m₉.hist = m₈.hist ∧ m₉.answers = m₈.answers :=
    ⟨(hist_wr _ _ _).trans (hist_wr _ _ _), (answers_wr _ _ _).trans (answers_wr _ _ _)⟩
  rw [hist_wr, answers_wr, h₉.1, h₈.1, h₇.1, h₆.1, h₉.2, h₈.2, h₇.2, h₆.2]
  exact ⟨rfl, rfl⟩

theorem hist_ofStart (m : Machine) : (ofStart m).hist = m.hist := (ofStart_keeps m).1

theorem answers_ofStart (m : Machine) : (ofStart m).answers = m.answers := (ofStart_keeps m).2

theorem active_ofStart (h : m.rd frmBuf = 38) : (ofStart m).rd netActive = 1 := by
  unfold ofStart
  rw [h, if_neg (by decide)]
  extract_lets m₁ m₂ m₃ m₄ m₅ m₆ m₇ m₈ m₉
  rw [rd_wr, if_pos rfl]
  rfl

/-- START puts the console into its match. -/
theorem Standing.start {f : List Nat} (hf : Framed f) (hty : f.getD 1 0 = ftStart)
    (hcount : f.getD 3 0 ≤ 4) (hseat : f.getD 2 0 < f.getD 3 0) (hdelay : f.getD 6 0 ≠ 0)
    (hage : m.hist.stamp.age = 0) (h : HandlesFrame f m m') : Standing m' := by
  obtain ⟨rest, hload, hbuf, rfl⟩ := h.loaded
  have hlen : f.length = 39 := by
    have hok := hf.wellFormed.admitted
    have hlen := hf.wellFormed.length_eq
    rw [hty] at hok
    simp only [headOk, ftStart, sesFlen, decide_eq_true_eq] at hok
    omega
  have hty' : (ppLoad m).rd (frmBuf + 1) = ftStart := by
    rw [hbuf.getD (by omega), hty]
  have hbyte : f.getD 6 0 < 256 := by
    rw [List.getD_eq_getElem _ _ (by omega)]
    exact hf.bytes _ (List.getElem_mem _)
  have h38 : (logHandled (ppLoad m)).rd frmBuf = 38 := by
    have h := hload.len
    show (ppLoad m).rd frmBuf = 38
    omega
  have hview : (sesOnframe (ppLoad m)).view =
      m.view.onStart (f.getD 2 0) (f.getD 3 0) (f.getD 6 0) := by
    rw [sesOnframe_start hty', view_ofStart hbuf.logHandled hlen, view_logHandled, hload.view]
  have hhist : (sesOnframe (ppLoad m)).hist.stamp = m.hist.stamp := by
    rw [sesOnframe_start hty', hist_ofStart, ← hload.hist]
    rfl
  have hfour : ∀ s < f.getD 3 0, s < 4 := fun s hs => Nat.lt_of_lt_of_le hs hcount
  refine ⟨?_, ?_, ?_, fun _ => ?_⟩
  · rw [sesOnframe_start hty', active_ofStart h38]
    decide
  · rw [hview]
    exact hcount
  · rw [hview]
    exact hseat
  · rw [hview]
    refine .baseline hcount hseat hbyte (show 0 < 65536 by decide) (fun s hs => ?_) (fun s hs t => ?_) ?_
    · show (if s < 4 then (f.getD 6 0 + 65535) % 65536 % 256 else 0) =
        (0 + f.getD 6 0 + 65535) % 65536
      rw [if_pos (hfour s hs)]
      omega
    · have hlt : t % 256 < 256 := Nat.mod_lt _ (by decide)
      show (if s < 4 ∧ t % 256 < 256 then 0x40 else 0, 0) = idleCells
      rw [if_pos ⟨hfour s hs, hlt⟩]
      rfl
    · rw [hhist]
      exact hage

/-- When the gate opens, the slot of each remote seat holds an INPUT for that very tick, or
is the idle fill of a tick the baseline covers: in every run from START in which each INPUT
that is taken is the one right after the watermark. -/
theorem gate_served {f : List Nat} {m₀ m₁ : Machine} {vs : List Move} {p : Proc}
    (hf : Framed f) (hty : f.getD 1 0 = ftStart) (hcount : f.getD 3 0 ≤ 4)
    (hseat : f.getD 2 0 < f.getD 3 0) (hdelay : f.getD 6 0 ≠ 0)
    (hage : m₀.hist.stamp.age = 0) (hstart : HandlesFrame f m₀ m₁)
    (hrun : Run (Pass Next cart) ⟨m₁, .pumpSes⟩ vs p) (hgate : p.pc = .gate)
    (hopen : gateOpen p.m = true) (hdrop : p.m.rd netDropped = 0) : Served p.m := by
  have hsure : Sure p := hrun.invariant (P := Sure) (fun _ _ _ hstep h => h.step hstep)
    (Or.inr (.start hf hty hcount hseat hdelay hage hstart))
  rcases hsure with hpark | hstand
  · rw [hgate] at hpark
    exact Pc.noConfusion hpark
  · have hback := hstand.backed hdrop
    intro s hs hne
    exact hback.slots s hs hne 0 (gateOpen_lead hopen hstand.count s hs hne)

/-! ## A lost INPUT -/

/-- A console between two steps of a quiet line. -/
structure At (pc : Pc) (v : View) (handled : List Handled) (stamp : Stamp) (p : Proc) : Prop where
  pc : p.pc = pc
  view : p.m.view = v
  handled : p.m.hist.handled = handled
  stamp : p.m.hist.stamp = stamp
  queue : buffered p.m = []

variable {ok : View → Msg → Prop} {hs : List Handled} {st : Stamp} {p q : Proc}

/-- A move on which nothing arrives. -/
def still : Move := ⟨Arrival.of [], idleCells⟩

theorem wait_of_empty (h : buffered m = []) : cut headOk (buffered m) = .wait := by
  rw [h]
  rfl

/-- With nothing in the queue no frame is dispatched. -/
theorem Pass.of_empty (mv : Move) (h : buffered p.m = []) : Pass ok cart mv p (p.step cart mv) := by
  refine ⟨rfl, fun _ f rest hcut => ?_⟩
  rw [wait_of_empty h] at hcut
  exact Cut.noConfusion hcut

theorem parse_empty (h : buffered m = []) : ppParse m = none := by
  rw [ppParse_eq, wait_of_empty h]

/-- What a pump of at most 64 bytes leaves of an empty queue. -/
theorem queue_pump {bytes : List Nat} (hlen : bytes.length ≤ 64) (hbytes : ∀ b ∈ bytes, b < 256)
    (h : buffered m = []) : buffered (pumpRecv (Arrival.of bytes) m) = bytes := by
  have hmod : bytes.map (· % 256) = bytes :=
    (List.map_congr_left fun b hb => Nat.mod_eq_of_lt (hbytes b hb)).trans (List.map_id bytes)
  rw [buffered_pumpRecv (Arrival.of_delivers hlen) (by simp [h]), h, List.nil_append, hmod]

theorem step_pumpSes (cart : Cart) (i : Move) : Proc.step cart i ⟨m, .pumpSes⟩ =
    match ppParse m with
    | some m => ⟨m, .pumpSes⟩
    | none => sesHeld m := rfl

theorem step_pumpGo (cart : Cart) (i : Move) : Proc.step cart i ⟨m, .pumpGo⟩ =
    match ppParse m with
    | some m => ⟨m, .pumpGo⟩
    | none => afterPump i.input m .pumpGo := rfl

/-- A round of `SES_HOLD` on a quiet line. -/
theorem At.held (cart : Cart) (h : At .pumpSes v hs st p) {r0 : Nat}
    (hr0 : r0 = (p.m.rd sesTmrLo + 65535) % 65536) :
    At (if r0 = 0 then .top else .sesHold) v hs st (p.step cart still) ∧
      (p.step cart still).m.rd sesTmrLo = r0 % 256 := by
  obtain ⟨m, pc⟩ := p
  obtain ⟨rfl, hview, hhandled, hstamp, hqueue⟩ := h
  have hstep : Proc.step cart still ⟨m, .pumpSes⟩ =
      ⟨m.wr sesTmrLo r0, if r0 = 0 then .top else .sesHold⟩ := by
    rw [step_pumpSes, parse_empty hqueue, hr0]
    rfl
  rw [hstep]
  refine ⟨⟨rfl, ?_, hhandled, hstamp, ?_⟩, ?_⟩
  · rw [view_wr (by simp [ViewCell])]
    exact hview
  · rw [← hqueue]
    refine buffered_congr fun a ha => (rd_wr _ _ _ _).trans (if_neg ?_)
    simp only [RxCell, rxWr, rxRd, sesTmrLo] at ha ⊢
    omega
  · rw [rd_wr, if_pos rfl]
    rfl

/-- A pump starts, and `bytes` arrive. -/
theorem At.pumped (bytes : List Nat) {k : Machine} (hlen : bytes.length ≤ 64)
    (hbytes : ∀ b ∈ bytes, b < 256) (hview : k.view = v) (hhandled : k.hist.handled = hs)
    (hstamp : k.hist.stamp = st) (hqueue : buffered k = []) :
    (pumpRecv (Arrival.of bytes) k).view = v ∧
      (pumpRecv (Arrival.of bytes) k).hist.handled = hs ∧
      (pumpRecv (Arrival.of bytes) k).hist.stamp = st ∧
      buffered (pumpRecv (Arrival.of bytes) k) = bytes := by
  refine ⟨?_, ?_, ?_, queue_pump hlen hbytes hqueue⟩
  · rw [view_pumpRecv, hview]
  · rw [hist_pumpRecv, hhandled]
  · rw [hist_pumpRecv, hstamp]

theorem At.session (cart : Cart) (h : At .sesHold v hs st p) :
    At .pumpSes v hs st (p.step cart still) ∧
      (p.step cart still).m.rd sesTmrLo = p.m.rd sesTmrLo := by
  obtain ⟨m, pc⟩ := p
  obtain ⟨rfl, hview, hhandled, hstamp, hqueue⟩ := h
  have hstep : Proc.step cart still ⟨m, .sesHold⟩ = ⟨pumpRecv (Arrival.of []) m, .pumpSes⟩ := rfl
  obtain ⟨h₁, h₂, h₃, h₄⟩ := At.pumped [] (by decide) (by simp) hview hhandled hstamp
    hqueue
  rw [hstep]
  exact ⟨⟨rfl, h₁, h₂, h₃, h₄⟩, (pumpRecv_writes _ m).frame fun _ => by simp [RecvCell, Mail]⟩

/-- `SES_HOLD` counts down to the cart's first pass. -/
theorem hold_count (ok : View → Msg → Prop) (cart : Cart) {t : Nat} (h : At .pumpSes v hs st p) (ht : t < 256)
    (htmr : p.m.rd sesTmrLo = t + 1) : ∃ vs q, Run (Pass ok cart) p vs q ∧ At .top v hs st q := by
  induction t generalizing p with
  | zero =>
      obtain ⟨hat, -⟩ := h.held cart rfl
      rw [htmr] at hat
      exact ⟨_, _, .one (Pass.of_empty still h.queue), hat⟩
  | succ t ih =>
      obtain ⟨hat, htmr'⟩ := h.held cart rfl
      have hr0 : (p.m.rd sesTmrLo + 65535) % 65536 = t + 1 := by omega
      rw [hr0] at hat htmr'
      rw [if_neg (Nat.succ_ne_zero t)] at hat
      obtain ⟨hat', htmr''⟩ := hat.session cart
      obtain ⟨vs, q, hrun, hq⟩ := ih hat' (by omega) (by
        rw [htmr'', htmr']
        omega)
      exact ⟨_, q, .cons (Pass.of_empty still h.queue) (.cons (Pass.of_empty still hat.queue) hrun), hq⟩

theorem hold_run (ok : View → Msg → Prop) (cart : Cart) (h : At .pumpSes v hs st p) :
    ∃ vs q, Run (Pass ok cart) p vs q ∧ At .top v hs st q := by
  have hbyte : p.m.rd sesTmrLo < 256 := p.m.rd_byte (by decide)
  by_cases hz : p.m.rd sesTmrLo = 0
  · -- the counter wraps to 255
    obtain ⟨hat, htmr⟩ := h.held cart rfl
    rw [hz] at hat htmr
    obtain ⟨hat', htmr'⟩ := (show At .sesHold v hs st _ from hat).session cart
    obtain ⟨vs, q, hrun, hq⟩ := hold_count ok cart (t := 254) hat' (by decide) (htmr'.trans htmr)
    exact ⟨_, q, .cons (Pass.of_empty still h.queue) (.cons (Pass.of_empty still hat.queue) hrun), hq⟩
  · exact hold_count ok cart (t := p.m.rd sesTmrLo - 1) h (by omega) (by omega)

theorem netStart_keeps (m : Machine) :
    (netStart m).hist = m.hist ∧ (netStart m).answers = m.answers := by
  unfold netStart seedCounts netClear
  constructor
  · rw [hist_wr, hist_wr, hist_wr, hist_wr, hist_wr, hist_wr, hist_fill]
  · rw [answers_wr, answers_wr, answers_wr, answers_wr, answers_wr, answers_wr, answers_fill]

/-- A console that has just had START on a quiet line. -/
theorem started : ∃ m₀ m₁, HandlesFrame startOf m₀ m₁ ∧ m₀.hist.stamp = ⟨0, 0⟩ ∧
    At .pumpSes (startView startOf) [⟨⟨0, 0⟩, startOf, false⟩] ⟨0, 0⟩ ⟨m₁, .pumpSes⟩ := by
  have hempty := netStart_empty blank
  have hstart := handles_short startOf_framed (by decide) hempty
  have hcut := reads_short startOf_framed (by decide) hempty
  obtain ⟨hmark, hdrop, hcnt⟩ := netStart_view blank
  have hview := (pump_other (Arrival.of startOf) (netStart blank)).1
  have hhist : (pumpRecv (Arrival.of startOf) (netStart blank)).hist = {} := by
    rw [hist_pumpRecv]
    exact (netStart_keeps blank).1
  generalize pumpRecv (Arrival.of startOf) (netStart blank) = m₀ at *
  have hmark' : Unmarked m₀.view := by
    rw [hview]
    exact hmark
  have hstart' := start_view startOf_framed rfl hstart hmark'
  rw [hview, hdrop] at hstart'
  have hload := ppLoad_loaded hcut
  have hbuf := hload.inBuf
  have hty : (ppLoad m₀).rd (frmBuf + 1) = ftStart := hbuf.cell 1 (by decide)
  have htaken : frameTaken (ppLoad m₀) = false := by
    refine frameTaken_other ?_ ?_ <;> rw [hty] <;> decide
  have hrec : (sesOnframe (ppLoad m₀)).hist =
      { m₀.hist with handled := m₀.hist.handled ++ [⟨m₀.hist.stamp, startOf, false⟩] } := by
    rw [sesOnframe_start hty, hist_ofStart, hist_logHandled hbuf, htaken, hload.hist]
  have hqueue : buffered (sesOnframe (ppLoad m₀)) = [] := by
    rw [sesOnframe_start hty, buffered_writes (ofStart_writes _) fun a v hv => ?_]
    · rw [buffered_logHandled, hload.queue]
    · simp only [HandlerCell, RxCell, rxWr, rxRd] at *
      omega
  refine ⟨m₀, _, hstart, by rw [hhist], rfl, hstart', ?_, ?_, hqueue⟩
  · show (sesOnframe (ppLoad m₀)).hist.handled = _
    rw [hrec, hhist]
    rfl
  · show (sesOnframe (ppLoad m₀)).hist.stamp = _
    rw [hrec, hhist]

/-- The pump of a pass, with `bytes` arriving. -/
theorem At.go (cart : Cart) (bytes : List Nat) (h : At .top v hs st p) (hhold : v.hold = 0)
    (hdrop : v.dropped = 0) (hscr : v.peerScr = 0) (input : Nat × Nat) :
    p.step cart ⟨Arrival.of bytes, input⟩ = ⟨pumpRecv (Arrival.of bytes) p.m, .pumpGo⟩ := by
  obtain ⟨m, pc⟩ := p
  obtain ⟨rfl, hview, -, -, -⟩ := h
  have hhold' : ¬ m.rd resyncHold ≠ 0 := by
    have hcell : m.rd resyncHold = m.view.hold := rfl
    rw [hcell, hview, hhold]
    exact fun h => h rfl
  have hdrop' : ¬ m.rd netDropped ≠ 0 := by
    have hcell : m.rd netDropped = m.view.dropped := rfl
    rw [hcell, hview, hdrop]
    exact fun h => h rfl
  have hscr' : ¬ m.rd peerScr ≠ 0 := by
    have hcell : m.rd peerScr = m.view.peerScr := rfl
    rw [hcell, hview, hscr]
    exact fun h => h rfl
  show stepTop (Arrival.of bytes) m = _
  unfold stepTop
  rw [if_neg hscr', if_neg hdrop', if_neg hhold']

/-- A pass on a quiet line comes to its gate. -/
theorem At.captured (cart : Cart) (h : At .pumpGo v hs st p) (hseat : v.seat ≤ 3) :
    At .gate (v.put v.seat ((v.tick + v.delay) % 65536 % 256) idleCells) hs st
      (p.step cart still) := by
  obtain ⟨m, pc⟩ := p
  obtain ⟨rfl, hview, hhandled, hstamp, hqueue⟩ := h
  have hstep : Proc.step cart still ⟨m, .pumpGo⟩ = ⟨lsCapture idleCells m, .gate⟩ := by
    rw [step_pumpGo, parse_empty hqueue]
    rfl
  have hseat' : m.rd netSeat ≤ 3 := by
    have hcell : m.rd netSeat = m.view.seat := rfl
    rw [hcell, hview]
    exact hseat
  obtain ⟨hcells, hput, l, -, -, hhist⟩ := lsCapture_captured idleCells hseat'
  have htick : captureTick m = (v.tick + v.delay) % 65536 := by
    rw [← hview]
    rfl
  rw [hstep]
  generalize lsCapture idleCells m = k at hcells hput hhist
  refine ⟨rfl, ?_, ?_, ?_, ?_⟩
  · show k.view = _
    rw [hput, htick, hview]
    rfl
  · show k.hist.handled = _
    rw [hhist, ← hhandled]
  · show k.hist.stamp = _
    rw [hhist, ← hstamp]
  · show buffered k = _
    rw [hcells.quiet_apart.buffered_eq, hqueue]

/-- Every remote seat is in. -/
def View.ready (v : View) : Bool :=
  (List.range (max v.count 1)).all fun s => s == v.seat || decide
    ((v.wm s + 65536 - v.tick) % 65536 < 32768)

theorem gateOpen_view (hcount : m.view.count ≤ 4) : gateOpen m = m.view.ready := by
  have hready : ∀ s < 4, seatReady m s =
      decide ((m.view.wm s + 65536 - m.view.tick) % 65536 < 32768) := by
    intro s hs
    have hwm : m.view.wm s = m.pair (seatWm + s * 2) (seatWm + s * 2 + 1) := by
      rw [Nat.mul_comm s 2]
      exact if_pos hs
    rw [hwm]
    rfl
  have hmax : max (m.rd netCount) 1 ≤ 4 := Nat.max_le.mpr ⟨hcount, by decide⟩
  refine Bool.eq_iff_iff.mpr ?_
  unfold gateOpen View.ready
  rw [List.all_eq_true, List.all_eq_true]
  constructor
  · intro h s hs
    have hlt : s < max (m.rd netCount) 1 := List.mem_range.mp hs
    rw [← hready s (by omega)]
    exact h s hs
  · intro h s hs
    have hlt : s < max (m.rd netCount) 1 := List.mem_range.mp hs
    rw [hready s (by omega)]
    exact h s hs

/-- A tick without a request. -/
theorem At.ran (cart : Cart) (h : At .gate v hs st p) (hcount : v.count ≤ 4)
    (hopen : v.ready = true) (hpend : v.pend = 0) :
    ∃ ck, At .top (v.ran ck) hs ⟨st.epoch, st.age + 1⟩ (p.step cart still) := by
  obtain ⟨m, pc⟩ := p
  obtain ⟨rfl, hview, hhandled, hstamp, hqueue⟩ := h
  have hgate : m.rd netDropped ≠ 0 ∨ gateOpen m = true := by
    refine Or.inr ?_
    rw [gateOpen_view (by rw [hview]; exact hcount), hview]
    exact hopen
  have hstep : Proc.step cart still ⟨m, .gate⟩ = ⟨lsRun cart m, .top⟩ := by
    show stepGate cart still.arrival m = _
    unfold stepGate
    rw [if_pos hgate]
  obtain ⟨quiet, hrun⟩ := lsRun_spec cart m
  obtain ⟨l, -, -, hhist, -⟩ := hrun.hist
  have hidle : (v.ran (nextCksum cart m)).pend = 0 := by
    unfold View.ran View.report View.advance
    split <;> exact hpend
  have hdue : dueAfter cart quiet m = false := by
    unfold dueAfter
    rw [hview]
    exact not_due_of_idle (Or.inl hidle) quiet
  rw [hdue, if_neg (by decide), if_neg (by decide)] at hhist
  refine ⟨nextCksum cart m, ?_⟩
  rw [hstep]
  generalize lsRun cart m = k at hrun hhist
  refine ⟨rfl, ?_, ?_, ?_, ?_⟩
  · show k.view = _
    rw [hrun.view, hview]
    unfold View.pending
    rw [if_pos (Or.inl hidle)]
  · show k.hist.handled = _
    rw [hhist, ← hhandled]
  · show k.hist.stamp = _
    rw [hhist, ← hstamp]
  · show buffered k = _
    rw [hrun.apart.buffered_eq, hqueue]

/-- A quiet pass, to its gate. -/
theorem pass_run (ok : View → Msg → Prop) (cart : Cart) (h : At .top v hs st p) (hhold : v.hold = 0) (hdrop : v.dropped = 0)
    (hscr : v.peerScr = 0) (hseat : v.seat ≤ 3) : ∃ vs q, Run (Pass ok cart) p vs q ∧
      At .gate (v.put v.seat ((v.tick + v.delay) % 65536 % 256) idleCells) hs st q := by
  have hgo := h.go cart [] hhold hdrop hscr idleCells
  obtain ⟨h₁, h₂, h₃, h₄⟩ := At.pumped [] (by decide) (by simp) h.view h.handled h.stamp
    h.queue
  have hat : At .pumpGo v hs st (p.step cart still) := by
    rw [show p.step cart still = _ from hgo]
    exact ⟨rfl, h₁, h₂, h₃, h₄⟩
  exact ⟨_, _, .cons (Pass.of_empty still h.queue) (.one (Pass.of_empty still hat.queue)), hat.captured cart hseat⟩

/-- A pass whose pump brings one message. -/
theorem heard_run (ok : View → Msg → Prop) (cart : Cart) {x : Msg} (h : At .top v hs st p) (hx : x.Sound) (hlen : x.frame.length ≤ 64)
    (hhold : v.hold = 0) (hdrop : v.dropped = 0) (hscr : v.peerScr = 0) (hcount : v.count ≤ 4)
    (hadopt : v.adopts x = false) (hok : ok v x) : ∃ vs q, Run (Pass ok cart) p vs q ∧
      At .pumpGo (v.onMsg x) (hs ++ [⟨st, x.frame, v.takes x⟩]) st q := by
  have hgo := h.go cart x.frame hhold hdrop hscr idleCells
  obtain ⟨h₁, h₂, h₃, h₄⟩ := At.pumped x.frame hlen hx.framed.bytes h.view h.handled h.stamp h.queue
  generalize pumpRecv (Arrival.of x.frame) p.m = m at *
  have hcut : cut headOk (buffered m) = .frame x.frame [] := by
    have hc := cut_append hx.framed.wellFormed []
    rw [h₄]
    rwa [List.append_nil] at hc
  have hload := ppLoad_loaded hcut
  have hcount' : (ppLoad m).rd netCount ≤ 4 := by
    have hcell : (ppLoad m).rd netCount = (ppLoad m).view.count := rfl
    rw [hcell, hload.view, h₁]
    exact hcount
  obtain ⟨htook, hlog⟩ := took_msg hload.inBuf hcount' hx
  obtain ⟨l, -, -, hhist⟩ := hlog.hist
  rw [hload.hist, hload.view, h₁, h₂, h₃, hadopt] at hhist
  have hstep : Proc.step cart still ⟨m, .pumpGo⟩ = ⟨sesOnframe (ppLoad m), .pumpGo⟩ := by
    rw [step_pumpGo, ppParse_eq, hcut]
  have hview := htook.view
  have hqueue := htook.apart.buffered_eq
  rw [hload.view, h₁] at hview
  rw [hload.queue] at hqueue
  refine ⟨_, _, .cons (Pass.of_empty ⟨Arrival.of x.frame, idleCells⟩ h.queue) (.one
    (e := still) ⟨rfl, fun _ f rest hf => ?_⟩), ?_⟩
  · rw [show p.step cart ⟨Arrival.of x.frame, idleCells⟩ = _ from hgo] at hf ⊢
    have heq : f = x.frame := by
      rw [hcut] at hf
      exact (Cut.frame.inj hf).1.symm
    refine Or.inr ⟨x, hx, heq.symm, ?_⟩
    rw [h₁]
    exact hok
  · rw [show p.step cart ⟨Arrival.of x.frame, idleCells⟩ = _ from hgo, hstep]
    generalize sesOnframe (ppLoad m) = k at hview hqueue hhist
    exact ⟨rfl, hview, by rw [hhist], by rw [hhist]; rfl, hqueue⟩

/-- Frames that are sent are delivered or lost, and never invented: an INPUT of seat `s` for
tick `t` carries what the player of that seat put in for it. -/
def Honest (player : Nat → Nat → Nat × Nat) (_ : View) : Msg → Prop
  | .input s t c => c = player s t
  | _ => True

/-- The INPUT of seat 1 for tick `w`. -/
def otherInput (w : Nat) : Msg := .input 1 w (17, 0)

theorem otherInput_sound {w : Nat} (hw : w < 256) : (otherInput w).Sound := by
  refine ⟨⟨⟨by simp [otherInput, Msg.frame, inputFrame], by simp [otherInput, Msg.frame, inputFrame],
    rfl⟩, fun b hb => ?_⟩, fun q h => Msg.noConfusion h⟩
  simp only [otherInput, Msg.frame, inputFrame, List.mem_cons, List.not_mem_nil, or_false,
    ftInput] at hb
  omega

theorem startOf_fields : Framed startOf ∧ startOf.getD 1 0 = ftStart ∧ startOf.getD 3 0 ≤ 4 ∧
    startOf.getD 2 0 < startOf.getD 3 0 ∧ startOf.getD 6 0 ≠ 0 :=
  ⟨startOf_framed, rfl, by decide, by decide, by decide⟩

/-- A cart whose code does nothing. -/
def idleCart : Cart := ⟨fun _ => 0, fun _ _ _ => id, fun _ => id⟩

/-- Seat 0 of two at tick `t`, delay 2, that has the INPUT of seat 1 for tick `w`. -/
structure Ahead (w t : Nat) (v : View) : Prop where
  seat : v.seat = 0
  count : v.count = 2
  delay : v.delay = 2
  tick : v.tick = t
  wm : v.wm 1 = w
  slot : v.slot 1 w = (17, 0)
  hold : v.hold = 0
  pend : v.pend = 0
  dropped : v.dropped = 0
  peerScr : v.peerScr = 0

namespace Ahead

variable {w t i : Nat} {c : Nat × Nat}

/-- The INPUT of seat 1 comes in before the first tick. -/
theorem start (hlo : 2 ≤ w) (hhi : w ≤ 3) : Ahead w 0 ((startView startOf).onMsg (otherInput w)) := by
  obtain rfl | rfl : w = 2 ∨ w = 3 := by omega
  · exact ⟨rfl, rfl, rfl, rfl, rfl, rfl, rfl, rfl, rfl, rfl⟩
  · exact ⟨rfl, rfl, rfl, rfl, rfl, rfl, rfl, rfl, rfl, rfl⟩

theorem put (h : Ahead w t v) : Ahead w t (v.put v.seat i c) := by
  refine ⟨h.seat, h.count, h.delay, h.tick, h.wm, ?_, h.hold, h.pend, h.dropped, h.peerScr⟩
  have hother : ¬ (1 = v.seat ∧ w % 256 = i) := by
    rw [h.seat]
    exact fun hs => absurd hs.1 (by decide)
  rw [← h.slot]
  exact Prod.ext (if_neg hother) (if_neg hother)

theorem ran (h : Ahead w t v) (ht : t < 3) (ck : Nat) : Ahead w (t + 1) (v.ran ck) := by
  have htick : (v.tick + 1) % 65536 = t + 1 := by
    have := h.tick
    omega
  unfold View.ran View.report View.advance
  split
  · exact ⟨h.seat, h.count, h.delay, htick, h.wm, h.slot, h.hold, h.pend, h.dropped, h.peerScr⟩
  · exact ⟨h.seat, h.count, h.delay, htick, h.wm, h.slot, h.hold, h.pend, h.dropped, h.peerScr⟩

/-- The gate looks at the watermark alone. -/
theorem ready (h : Ahead w t v) (ht : t ≤ w) (hw : w ≤ 3) : v.ready = true := by
  unfold View.ready
  rw [h.count, h.seat, h.tick, List.all_eq_true]
  intro s hs
  have hlt : s < 2 := List.mem_range.mp hs
  by_cases h0 : s = 0
  · rw [h0]
    rfl
  · have h1 : s = 1 := by omega
    rw [h1, h.wm, Bool.or_eq_true, decide_eq_true_eq]
    omega

end Ahead

/-- A quiet pass, and its tick. -/
theorem tick_run {w t : Nat} (ok : View → Msg → Prop) (cart : Cart) (h : At .top v hs st p)
    (hv : Ahead w t v) (ht : t < w) (hw : w ≤ 3) : ∃ vs q v', Run (Pass ok cart) p vs q ∧
      Ahead w (t + 1) v' ∧ At .top v' hs ⟨st.epoch, st.age + 1⟩ q := by
  obtain ⟨vs, p₁, hrun, hat⟩ := pass_run ok cart h hv.hold hv.dropped hv.peerScr
    (by rw [hv.seat]; decide)
  have hput := hv.put (i := (v.tick + v.delay) % 65536 % 256) (c := idleCells)
  obtain ⟨ck, hat'⟩ := hat.ran cart (by rw [hput.count]; decide) (hput.ready (by omega) hw)
    hput.pend
  exact ⟨_, _, _, hrun.append (.one (Pass.of_empty still hat.queue)), hput.ran (by omega) ck, hat'⟩

/-- A run from START to the gate of tick 2, in which the one INPUT that comes is that for tick
`w`. -/
theorem other_run (ok : View → Msg → Prop) {w : Nat} (hlo : 2 ≤ w) (hhi : w ≤ 3)
    (hok : ok (startView startOf) (otherInput w)) :
    ∃ (m₀ m₁ : Machine) (vs : List Move) (p : Proc) (v : View),
      HandlesFrame startOf m₀ m₁ ∧ m₀.hist.stamp.age = 0 ∧
      Run (Pass ok idleCart) ⟨m₁, .pumpSes⟩ vs p ∧ Ahead w 2 v ∧
      At .gate v [⟨⟨0, 0⟩, startOf, false⟩, ⟨⟨0, 0⟩, (otherInput w).frame, true⟩] ⟨0, 2⟩ p := by
  obtain ⟨m₀, m₁, hstart, hstamp, hat⟩ := started
  obtain ⟨vs₁, p₁, hrun₁, hat₁⟩ := hold_run ok idleCart hat
  have htakes : (startView startOf).takes (otherInput w) = true := by
    obtain rfl | rfl : w = 2 ∨ w = 3 := by omega
    · rfl
    · rfl
  obtain ⟨vs₂, p₂, hrun₂, hat₂⟩ := heard_run ok idleCart hat₁ (otherInput_sound (by omega))
    (by simp [otherInput, Msg.frame, inputFrame]) rfl rfl rfl (by decide) rfl hok
  rw [htakes] at hat₂
  have hv₂ := Ahead.start hlo hhi
  generalize (startView startOf).onMsg (otherInput w) = v₂ at hat₂ hv₂
  have hat₃ := hat₂.captured idleCart (by rw [hv₂.seat]; decide)
  have hv₃ := hv₂.put (i := (v₂.tick + v₂.delay) % 65536 % 256) (c := idleCells)
  obtain ⟨c₀, hat₄⟩ := hat₃.ran idleCart (by rw [hv₃.count]; decide)
    (hv₃.ready (Nat.zero_le _) hhi) hv₃.pend
  obtain ⟨vs₅, p₅, v₅, hrun₅, hv₅, hat₅⟩ := tick_run ok idleCart hat₄ (hv₃.ran (by decide) c₀)
    (by omega) hhi
  obtain ⟨vs₆, p₆, hrun₆, hat₆⟩ := pass_run ok idleCart hat₅ hv₅.hold hv₅.dropped hv₅.peerScr
    (by rw [hv₅.seat]; decide)
  have hrun₄ : Run (Pass ok idleCart) p₂ [still, still] _ :=
    .cons (.of_empty still hat₂.queue) (.one (.of_empty still hat₃.queue))
  exact ⟨m₀, m₁, _, p₆, _, hstart, by rw [hstamp],
    (((hrun₁.append hrun₂).append hrun₄).append hrun₅).append hrun₆, hv₅.put, hat₆⟩

/-- The gate of a console at tick 2 that has the other seat's INPUT. -/
theorem At.open_ahead {w : Nat} (h : At .gate v hs st p) (hv : Ahead w 2 v) (hlo : 2 ≤ w)
    (hhi : w ≤ 3) : gateOpen p.m = true ∧ p.m.rd netDropped = 0 := by
  have hdrop : p.m.rd netDropped = p.m.view.dropped := rfl
  constructor
  · rw [gateOpen_view (by rw [h.view, hv.count]; decide), h.view]
    exact hv.ready hlo hhi
  · rw [hdrop, h.view, hv.dropped]

/-- The INPUT for tick 2 comes in and serves it. -/
theorem gate_served_second : ∃ (m₁ : Machine) (vs : List Move) (p : Proc),
    Run (Pass Next idleCart) ⟨m₁, .pumpSes⟩ vs p ∧ p.pc = .gate ∧ p.m.view.tick = 2 ∧
      p.m.view.slot 1 2 = (17, 0) ∧ Served p.m := by
  have hnext : Next (startView startOf) (otherInput 2) := fun _ => by decide
  obtain ⟨m₀, m₁, vs, p, v, hstart, hage, hrun, hv, hat⟩ :=
    other_run Next (Nat.le_refl 2) (by decide) hnext
  obtain ⟨hf, hty, hcount, hseat, hdelay⟩ := startOf_fields
  obtain ⟨hopen, hdrop⟩ := hat.open_ahead hv (Nat.le_refl 2) (by decide)
  refine ⟨m₁, vs, p, hrun, hat.pc, by rw [hat.view, hv.tick], by rw [hat.view, hv.slot], ?_⟩
  exact gate_served hf hty hcount hseat hdelay hage hstart hrun hat.pc hopen hdrop

/-- After a lost INPUT the gate opens on a slot no INPUT was stored in. -/
theorem gate_not_served : ¬ ∀ (cart : Cart) (player : Nat → Nat → Nat × Nat) (f : List Nat)
    (m₀ m₁ : Machine) (vs : List Move) (p : Proc), Framed f → f.getD 1 0 = ftStart →
    f.getD 3 0 ≤ 4 → f.getD 2 0 < f.getD 3 0 → f.getD 6 0 ≠ 0 → m₀.hist.stamp.age = 0 →
    HandlesFrame f m₀ m₁ → Run (Pass (Honest player) cart) ⟨m₁, .pumpSes⟩ vs p → p.pc = .gate →
    gateOpen p.m = true → p.m.rd netDropped = 0 → Served p.m := by
  intro hall
  -- the INPUT for tick 2 was lost, and the one for tick 3 came
  obtain ⟨m₀, m₁, vs, p, v, hstart, hage, hrun, hv, hat⟩ :=
    other_run (Honest fun _ _ => (17, 0)) (w := 3) (by decide) (Nat.le_refl 3) rfl
  obtain ⟨hf, hty, hcount, hseat, hdelay⟩ := startOf_fields
  obtain ⟨hopen, hdrop⟩ := hat.open_ahead hv (by decide) (Nat.le_refl 3)
  have hserved := hall idleCart _ startOf m₀ m₁ vs p hf hty hcount hseat hdelay hage hstart hrun
    hat.pc hopen hdrop
  have hcells : p.m.rd netCount = 2 ∧ p.m.rd netSeat = 0 := by
    have h₁ : p.m.rd netCount = p.m.view.count := rfl
    have h₂ : p.m.rd netSeat = p.m.view.seat := rfl
    rw [h₁, h₂, hat.view]
    exact ⟨hv.count, hv.seat⟩
  have hone := hserved 1 (by rw [hcells.1]; decide) (by rw [hcells.2]; decide)
  unfold ServedAt Received at hone
  rw [hat.view, hat.handled, hat.stamp, hv.tick, hv.delay] at hone
  rcases hone with ⟨c, ⟨e, he, -, hframe, -⟩, -⟩ | ⟨hage', -⟩
  · -- neither START nor the INPUT for tick 3 is an INPUT for tick 2
    rw [List.mem_cons, List.mem_singleton] at he
    rcases he with rfl | rfl
    · exact absurd (congrArg List.length hframe) (by simp [startOf, inputFrame])
    · have htick : (3 : Nat) = 2 := by
        have h := congrArg (fun l => l.getD 3 0) hframe
        exact h
      exact absurd htick (by decide)
  · exact absurd hage' (by decide)

end SharkNetplay.Console
