import SharkNetplay.Console.Lockstep
import SharkNetplay.Console.Handlers

/-!
# The parts of a pass

What each part of `LS_PASS` does to the view and to the record, and what it leaves
alone. The cart's own code moves simulation cells only, so a game tick is a step of the
view that advances the tick.

## Implementation notes

`LS_PEER_LEFT` is not among them: the console that shows its screen is parked.
-/

namespace SharkNetplay.Console

open Lib Lib.Framing Cell Machine

variable {m m' m'' : Machine} {cart : Cart}

/-! ## The game tick -/

/-- Scratch cells of the game tick. -/
def TickCell (a : Nat) : Prop := (0x80C2 ≤ a ∧ a ≤ 0x80C7) ∨ a = vdCtrl ∨ a = ssQuiescent

/-- The cart's code ran: simulation and scratch cells may have moved. -/
structure Ticks (m m' : Machine) : Prop where
  frame : ∀ b, simCell b = false → ¬ TickCell b → m'.rd b = m.rd b
  hist : m'.hist = m.hist
  answers : m'.answers = m.answers

namespace Ticks

theorem refl : Ticks m m := ⟨fun _ _ _ => rfl, rfl, rfl⟩

theorem wr {a v : Nat} (h : Ticks m m') (ha : simCell a = true ∨ TickCell a) :
    Ticks m (m'.wr a v) where
  frame b hs hb := by
    have hne : b ≠ a := by
      rintro rfl
      rcases ha with ha | ha
      · rw [hs] at ha
        exact Bool.noConfusion ha
      · exact hb ha
    rw [rd_wr, if_neg hne]
    exact h.frame b hs hb
  hist := h.hist
  answers := h.answers

theorem runCart (f : (Nat → Nat) → Nat → Nat) (h : Ticks m m') : Ticks m (m'.runCart f) where
  frame b hs hb := by
    have hcell : (m'.runCart f).rd b = m'.rd b := by
      simp only [Machine.rd, Store.rd, Machine.runCart, hs]
      rfl
    rw [hcell]
    exact h.frame b hs hb
  hist := h.hist
  answers := h.answers

end Ticks

theorem lsVcall_ticks (r0 : Nat) (h : Ticks m m') : Ticks m (lsVcall cart r0 m') := by
  unfold lsVcall
  extract_lets r1 r4 r2
  split
  · exact h
  · split
    · exact h
    · exact h.runCart _

theorem lsVdispatch_ticks (h : Ticks m m') : Ticks m (lsVdispatch cart m') := by
  have hvd : ∀ {k : Machine} (v : Nat), Ticks m k → Ticks m (k.wr vdTmp v) :=
    fun v hk => hk.wr (Or.inr (Or.inl (by decide)))
  unfold lsVdispatch
  extract_lets c m₁ m₂ m₃
  have h₁ : Ticks m m₁ := by
    refine (((h.wr ?_).wr ?_).wr ?_).wr ?_
    · exact Or.inr (Or.inl (by decide))
    · exact Or.inr (Or.inl (by decide))
    · exact Or.inr (Or.inl (by decide))
    · exact Or.inr (Or.inl (by decide))
  have h₂ : Ticks m m₂ := by
    show Ticks m (ite _ _ _)
    split
    · exact h₁
    · exact lsVcall_ticks _ (hvd _ h₁)
  have h₃ : Ticks m m₃ := by
    show Ticks m (ite _ _ _)
    split
    · exact h₂
    · exact lsVcall_ticks _ (hvd _ h₂)
  split
  · exact h₃
  · split
    · exact lsVcall_ticks _ (hvd _ h₃)
    · split
      · exact lsVcall_ticks _ (hvd _ h₃)
      · exact h₃

theorem ssInject_ticks (h : Ticks m m') : Ticks m (ssInject cart m') := by
  unfold ssInject
  extract_lets m₁ r0 m₂
  have h₂ : Ticks m m₂ := (h.wr (Or.inr (Or.inr (Or.inl rfl)))).wr (Or.inl (by decide))
  split
  · exact lsVcall_ticks _ (h₂.wr (Or.inr (Or.inl (by decide))))
  · split
    · exact lsVcall_ticks _ (h₂.wr (Or.inr (Or.inl (by decide))))
    · exact h₂

theorem gameEntry_ticks {entry arm cnt int : Nat} (hcnt : simCell cnt = true) (h : Ticks m m') :
    Ticks m (gameEntry cart entry arm cnt int m') := by
  unfold gameEntry
  extract_lets r0
  split
  · exact h
  · split
    · exact (h.runCart _).wr (Or.inl hcnt)
    · exact h.wr (Or.inl hcnt)

theorem ssGameTick_ticks (h : Ticks m m') : Ticks m (ssGameTick cart m') := by
  unfold ssGameTick
  extract_lets m₁ m₂ m₃ m₄ m₅ quiet
  have h₁ : Ticks m m₁ := gameEntry_ticks (by decide) h
  have h₂ : Ticks m m₂ := gameEntry_ticks (by decide) h₁
  have h₃ : Ticks m m₃ := gameEntry_ticks (by decide) h₂
  have h₄ : Ticks m m₄ := gameEntry_ticks (by decide) h₃
  have h₅ : Ticks m m₅ := gameEntry_ticks (by decide) h₄
  exact h₅.wr (Or.inr (Or.inr (Or.inr rfl)))

theorem lsTblAdopt_ticks (h : Ticks m m') : Ticks m (lsTblAdopt m') := by
  unfold lsTblAdopt
  extract_lets r0
  split
  · exact h
  · exact (h.wr (Or.inl (by decide))).wr (Or.inl (by decide))

theorem lsTick_ticks (cart : Cart) (m : Machine) : Ticks m (lsTick cart m) := by
  unfold lsTick
  extract_lets m₁ r1 m₂ m₃ m₄ m₅
  have h₁ : Ticks m m₁ := lsTblAdopt_ticks .refl
  have h₂ : Ticks m m₂ := by
    show Ticks m (ite _ _ _)
    split
    · exact h₁
    · exact h₁.wr (Or.inl (by decide))
  have hside : ∀ (k : Machine) (v w : Nat), Ticks m k → Ticks m ((k.wr vdSide v).wr vdCtrl w) :=
    fun k v w hk => (hk.wr (Or.inr (Or.inl (by decide)))).wr (Or.inr (Or.inr (Or.inl rfl)))
  have h₄ : Ticks m m₄ := by
    show Ticks m (ite _ _ _)
    split
    · exact ssInject_ticks h₂
    · exact lsVdispatch_ticks (hside _ _ _ (lsVdispatch_ticks (hside _ _ _ h₂)))
  exact (lsTblAdopt_ticks (ssGameTick_ticks h₄)).wr (Or.inl (by decide))

/-! ## What no part of a pass writes -/

theorem Ticks.apart (h : Ticks m m') : Apart m m' := by
  intro a ha
  have hrange := aside_range ha
  refine h.frame a (not_sim (by omega)) ?_
  simp only [TickCell, vdCtrl, ssQuiescent]
  omega

theorem Ticks.view_eq (h : Ticks m m') : m'.view = m.view := by
  refine view_congr fun a ha => h.frame a ?_ ?_
  · cases hs : simCell a with
    | false => rfl
    | true => exact absurd ha (not_viewCell_of_sim hs)
  · simp only [ViewCell, TickCell, vdCtrl, ssQuiescent] at *
    omega

theorem quiet_base (h : Writes BaseCell m m') : Writes Quiet m m' := by
  refine h.mono fun a v hv => ?_
  simp only [BaseCell, tickLo, tickHi, resyncHold, rsToLo, rsToHi, lsWaitcLo, lsWaitcHi] at hv
  exact quiet_of_range (by omega) (by omega)

theorem lsFreeze_quiet (m : Machine) : Writes Quiet m (lsFreeze m) := by
  unfold lsFreeze
  extract_lets m₁
  split
  · exact .refl
  · refine ((Writes.refl.wr ?_).wr ?_).wr ?_
    · exact quiet_of_cell (by decide) (by decide)
    · exact quiet_of_cell (by decide) (by decide)
    · exact quiet_of_cell (by decide) (by decide)

theorem lsUnfreeze_quiet (m : Machine) : Writes Quiet m (lsUnfreeze m) := by
  unfold lsUnfreeze
  extract_lets m₁
  split
  · exact .refl
  · refine (((Writes.refl.wr ?_).wr ?_).wr ?_).wr ?_
    · exact quiet_of_cell (by decide) (by decide)
    · exact quiet_of_cell (by decide) (by decide)
    · exact quiet_of_cell (by decide) (by decide)
    · exact quiet_of_cell (by decide) (by decide)

/-! ## Waits -/

theorem lsIdleRmt_quiet (m : Machine) : Writes Quiet m (lsIdleRmt m) :=
  (quiet_base (lsRingInit_base m)).trans (quiet_base (putWm_base (Nat.le_refl _) (by decide) _))

theorem lsTimeout_quiet (m : Machine) : Writes Quiet m (lsTimeout m) := by
  refine (Writes.refl.wr ?_).wr ?_
  · exact quiet_of_cell (by decide) (by decide)
  · exact quiet_of_cell (by decide) (by decide)

/-- A wait of `LS_PASS` counts its round, or gives the match up. -/
structure Waited (m m' : Machine) : Prop where
  cells : Writes Quiet m m'
  hist : m'.hist = m.hist
  answers : m'.answers = m.answers
  view : m'.view = m.view ∨
    ∃ h, (h = 0 ∨ h = m.view.hold) ∧ m'.view = { m.view with hold := h }.giveUp

theorem lsHeld_waited (m : Machine) : Waited m (lsHeld m) := by
  unfold lsHeld
  extract_lets r0 m₁ r1 m₂
  have h₁ : Writes Quiet m m₁ := .wr .refl (quiet_of_cell (by decide) (by decide))
  have hv₁ : m₁.view = m.view := view_wr (by simp [ViewCell])
  have h₂ : Writes Quiet m m₂ := h₁.wr (quiet_of_cell (by decide) (by decide))
  have hv₂ : m₂.view = m.view := (view_wr (by simp [ViewCell])).trans hv₁
  split
  · exact ⟨h₁, rfl, rfl, Or.inl hv₁⟩
  · split
    · exact ⟨h₂, rfl, rfl, Or.inl hv₂⟩
    · have hgone : ((lsTimeout m₂).wr resyncHold 0).view = { m.view with dropped := 1, hold := 0 } := by
        rw [view_wr_hold]
        show { ((m₂.wr peerWhy 0).wr netDropped 1).view with hold := 0 } = _
        rw [view_wr_dropped, view_wr (by simp [ViewCell]), hv₂]
      refine ⟨?_, ?_, ?_, Or.inr ?_⟩
      · exact ((h₂.trans (lsTimeout_quiet m₂)).wr (quiet_of_cell (by decide) (by decide))).trans
          (lsIdleRmt_quiet _)
      · simp [lsIdleRmt, lsRingInit, lsTimeout, m₂, m₁]
      · simp [lsIdleRmt, lsRingInit, lsTimeout, m₂, m₁]
      · refine ⟨0, Or.inl rfl, ?_⟩
        rw [view_lsIdleRmt, hgone]
        generalize m.view = v
        rfl

theorem lsWaited_waited (m : Machine) : Waited m (lsWaited m) := by
  unfold lsWaited
  extract_lets r0 m₁ r1 m₂
  have h₁ : Writes Quiet m m₁ := .wr .refl (quiet_of_cell (by decide) (by decide))
  have hv₁ : m₁.view = m.view := view_wr (by simp [ViewCell])
  have h₂ : Writes Quiet m m₂ := h₁.wr (quiet_of_cell (by decide) (by decide))
  have hv₂ : m₂.view = m.view := (view_wr (by simp [ViewCell])).trans hv₁
  split
  · exact ⟨h₁, rfl, rfl, Or.inl hv₁⟩
  · split
    · exact ⟨h₂, rfl, rfl, Or.inl hv₂⟩
    · have hgone : (lsTimeout m₂).view = { m.view with dropped := 1 } := by
        show ((m₂.wr peerWhy 0).wr netDropped 1).view = _
        rw [view_wr_dropped, view_wr (by simp [ViewCell]), hv₂]
      refine ⟨?_, ?_, ?_, Or.inr ?_⟩
      · exact (h₂.trans (lsTimeout_quiet m₂)).trans (lsIdleRmt_quiet _)
      · simp [lsIdleRmt, lsRingInit, lsTimeout, m₂, m₁]
      · simp [lsIdleRmt, lsRingInit, lsTimeout, m₂, m₁]
      · refine ⟨m.view.hold, Or.inr rfl, ?_⟩
        rw [view_lsIdleRmt, hgone]
        generalize m.view = v
        rfl

/-- `LS_PEER_LEFT` shows its screen. -/
structure Parked (m m' : Machine) : Prop where
  apart : Apart m m'
  view : m'.view = { m.view with peerScr := 1 }
  hist : m'.hist = m.hist
  answers : m'.answers = m.answers

theorem screen_apart (h : Writes Screen m m') : Apart m m' := by
  refine h.apart fun a v hv ha => ?_
  have hrange := aside_range ha
  simp only [Screen, uiColor, ppTmp] at hv
  omega

theorem hist_printFrom (colour a : Nat) (str : List Nat) (m : Machine) :
    (printFrom colour a str m).hist = m.hist ∧ (printFrom colour a str m).answers = m.answers := by
  induction str generalizing a m with
  | nil => exact ⟨rfl, rfl⟩
  | cons ch rest ih => exact ih _ _

theorem hist_printCells (colour a p n : Nat) (m : Machine) :
    (printCells colour a p n m).hist = m.hist ∧
      (printCells colour a p n m).answers = m.answers := by
  induction n generalizing a p m with
  | zero => exact ⟨rfl, rfl⟩
  | succ n ih =>
      unfold printCells
      split
      · exact ⟨rfl, rfl⟩
      · exact ih _ _ _

theorem uiHex2_writes {v off : Nat} (hoff : off + 1 < 240) (h : Writes Screen m m') :
    Writes Screen m (uiHex2 v off m') := by
  refine (h.wr ?_).wr ?_
  · simp only [Screen]
    omega
  · simp only [Screen]
    omega

theorem hist_uiHex2 (v off : Nat) (m : Machine) :
    (uiHex2 v off m).hist = m.hist ∧ (uiHex2 v off m).answers = m.answers := ⟨rfl, rfl⟩

/-- `LS_PEER_LEFT` on the cells of the match and on the record. -/
theorem lsPeerLeft_parked (m : Machine) : Parked m ((lsPeerLeft (lsFreeze m)).wr peerScr 1) := by
  have hfreeze := lsFreeze_quiet m
  generalize hk : lsFreeze m = k at hfreeze
  have hvk : k.view = m.view := hk ▸ view_lsFreeze m
  have hhist : k.hist = m.hist ∧ k.answers = m.answers := by
    rw [← hk]
    unfold lsFreeze
    split <;> exact ⟨rfl, rfl⟩
  have hdance : Writes Quiet k (danceSettle k) ∧ (danceSettle k).view = k.view ∧
      (danceSettle k).hist = k.hist ∧ (danceSettle k).answers = k.answers := by
    unfold danceSettle
    split
    · refine ⟨(Writes.refl.wr ?_).wr ?_, ?_, rfl, rfl⟩
      · exact quiet_of_cell (by decide) (by decide)
      · exact quiet_of_cell (by decide) (by decide)
      · rw [view_wr (by simp [ViewCell]), view_wr (by simp [ViewCell])]
    · exact ⟨.refl, rfl, rfl, rfl⟩
  have hreset : Apart (danceSettle k) (rsDisplayReset (danceSettle k)) := fun a ha =>
    rsDisplayReset_frame (by have := aside_range ha; omega) _
  generalize hd : rsDisplayReset (danceSettle k) = j at hreset
  have hvj : j.view = m.view := by
    rw [← hd, view_rsDisplayReset, hdance.2.1, hvk]
  have hhj : j.hist = m.hist ∧ j.answers = m.answers := by
    rw [← hd]
    constructor
    · simp [rsDisplayReset, hdance.2.2.1, hhist.1]
    · simp [rsDisplayReset, hdance.2.2.2, hhist.2]
  -- from here on only the screen is written
  have hscreen : ∃ j', lsPeerLeft k = j' ∧ Writes Screen j j' ∧ j'.hist = j.hist ∧
      j'.answers = j.answers := by
    refine ⟨_, rfl, ?_⟩
    unfold lsPeerLeft
    rw [hd]
    extract_lets m₁ m₂ m₃ m₄ m₅ m₆ m₇
    have hcls : (uiCls j).hist = j.hist ∧ (uiCls j).answers = j.answers :=
      ⟨hist_fill _ _ _ _, answers_fill _ _ _ _⟩
    have h₂ : Writes Screen j m₂ ∧ m₂.hist = j.hist ∧ m₂.answers = j.answers := by
      have hprint : ∀ off str, (uiPrint off str m₁).hist = j.hist ∧
          (uiPrint off str m₁).answers = j.answers := fun off str =>
        ⟨(hist_printFrom _ _ _ _).1.trans hcls.1, (hist_printFrom _ _ _ _).2.trans hcls.2⟩
      show Writes Screen j (ite _ _ _) ∧ (ite _ _ _ : Machine).hist = _ ∧
        (ite _ _ _ : Machine).answers = _
      split
      · exact ⟨uiPrint_writes (by decide) (uiCls_writes .refl), hprint _ _⟩
      · exact ⟨uiPrint_writes (by decide) (uiCls_writes .refl), hprint _ _⟩
    have hname := hist_printCells (m₂.rd uiColor % 8) (20 * 6 + 6 + 0x200) leftName 8 m₂
    have h₄ : Writes Screen j m₄ := uiPrint_writes (by decide)
      (uiPrint_writes (by decide) (uiPrintN_writes (by decide) h₂.1))
    have hh₄ : m₄.hist = m₃.hist ∧ m₄.answers = m₃.answers :=
      ⟨(hist_printFrom _ _ _ _).1.trans (hist_printFrom _ _ _ _).1,
        (hist_printFrom _ _ _ _).2.trans (hist_printFrom _ _ _ _).2⟩
    refine ⟨?_, ?_, ?_⟩
    · exact uiHex2_writes (by decide) (uiHex2_writes (by decide)
        (uiHex2_writes (by decide) (uiHex2_writes (by decide) h₄)))
    · exact (hist_uiHex2 _ _ m₇).1.trans ((hist_uiHex2 _ _ m₆).1.trans ((hist_uiHex2 _ _ m₅).1.trans
        ((hist_uiHex2 _ _ m₄).1.trans (hh₄.1.trans (hname.1.trans h₂.2.1)))))
    · exact (hist_uiHex2 _ _ m₇).2.trans ((hist_uiHex2 _ _ m₆).2.trans ((hist_uiHex2 _ _ m₅).2.trans
        ((hist_uiHex2 _ _ m₄).2.trans (hh₄.2.trans (hname.2.trans h₂.2.2)))))
  obtain ⟨j', heq, hw, hhist', hans'⟩ := hscreen
  rw [heq]
  refine ⟨?_, ?_, hhist'.trans hhj.1, hans'.trans hhj.2⟩
  · have hend : Apart j' (j'.wr peerScr 1) := fun a ha => by
      rw [rd_wr, if_neg]
      rintro rfl
      have hrange := aside_range ha
      simp only [peerScr] at hrange
      omega
    exact (((hfreeze.quiet_apart.trans hdance.1.quiet_apart).trans hreset).trans
      (screen_apart hw)).trans hend
  · rw [view_wr_peerScr, view_screen hw, hvj]

/-! ## The capture -/

/-- `LS_PASS` stores its input in the slot of tick `T + d` and sends it. -/
structure Captured (input : Nat × Nat) (m m' : Machine) : Prop where
  cells : Writes Quiet m m'
  view : m'.view = m.view.put m.view.seat (captureTick m % 256) (captureInput input)
  hist : ∃ l : List (List Nat),
    l.Sublist [inputFrame m.view.seat (captureTick m) (captureInput input)] ∧
    (Willing m → l = [inputFrame m.view.seat (captureTick m) (captureInput input)] ∧ Willing m') ∧
    m'.hist = { m.hist with
      sent := m.hist.sent ++ l.map fun f => (m.hist.stamp, f)
      captured := m.hist.captured ++ [captureInput input] }

theorem lsCapture_captured (input : Nat × Nat) (hseat : m.rd netSeat ≤ 3) :
    Captured input m (lsCapture input m) := by
  obtain ⟨m₁, heq, ⟨l, hl, hw, hh⟩, hcells, hring, hkp⟩ := lsCapture_spec input m hseat
  have htick : captureTick m < 65536 := Nat.mod_lt _ (by decide)
  have hslot : (captureTick m % 256 + m.rd netSeat * 256 + seatRing) % 65536 =
      seatRing + 256 * m.rd netSeat + captureTick m % 256 := by
    simp only [seatRing]
    omega
  have hslot' : (seatRing + 256 * m.rd netSeat + captureTick m % 256 + (seatKp - seatRing)) % 65536 =
      seatKp + 256 * m.rd netSeat + captureTick m % 256 := by
    simp only [seatRing, seatKp]
    omega
  have hpass : Writes Quiet m m₁ := by
    refine hcells.mono fun a v hv => ?_
    simp only [CaptureCell, Mail, lsTmpb, lsTmpb2, seatRing, seatKp] at hv
    exact quiet_of_range (by omega) (by omega)
  -- outside its own two cells the capture writes nothing of the view
  have hframe : ∀ a, ViewCell a → a ≠ seatRing + 256 * m.rd netSeat + captureTick m % 256 →
      a ≠ seatKp + 256 * m.rd netSeat + captureTick m % 256 → m₁.rd a = m.rd a := by
    intro a ha h₁ h₂
    refine hcells.frame fun v hv => ?_
    simp only [CaptureCell, hslot, hslot', Mail, lsTmpb, lsTmpb2, ViewCell] at hv ha
    omega
  have hview : m₁.view = ((m.wr (seatRing + 256 * m.rd netSeat + captureTick m % 256) input.1).wr
      (seatKp + 256 * m.rd netSeat + captureTick m % 256) input.2).view := by
    refine view_congr fun a ha => ?_
    rw [rd_wr, rd_wr]
    by_cases h₂ : a = seatKp + 256 * m.rd netSeat + captureTick m % 256
    · have hcell : a = captureTick m % 256 + m.rd netSeat * 256 + seatKp := by omega
      rw [if_pos h₂, cellWidth_cart (by simp only [seatKp]; omega) (by simp only [seatKp]; omega),
        hcell, hkp]
    by_cases h₁ : a = seatRing + 256 * m.rd netSeat + captureTick m % 256
    · have hcell : a = captureTick m % 256 + m.rd netSeat * 256 + seatRing := by omega
      rw [if_neg h₂, if_pos h₁, cellWidth_cart (by simp only [seatRing]; omega)
        (by simp only [seatRing]; omega), hcell, hring]
    · rw [if_neg h₂, if_neg h₁]
      exact hframe a ha h₁ h₂
  rw [heq]
  refine ⟨.note hpass, ?_, l, hl, hw, ?_⟩
  · rw [view_note, hview, view_wr_slot (by omega) (Nat.mod_lt _ (by decide))]
    rfl
  · rw [hist_note, hh]

/-! ## The end of a pass -/

namespace View

/-- The checksum report of every 64th tick. -/
def report (ck : Nat) (v : View) : View := if v.tick % 64 = 0 then v.record ck else v

/-- `tick++`. -/
def advance (v : View) : View := { v with tick := (v.tick + 1) % 65536 }

/-- `RS_PUSH`: 16 ticks of headroom. -/
def push (v : View) : View := (v.enter ((v.tick + 16) % 65536)).rebase

/-- `RS_PENDING` pushes: a request waits at the host, and the phase is quiet or the
request has waited `RS_PEND_MAX` passes. -/
def due (quiet : Bool) (v : View) : Bool :=
  decide (v.pend ≠ 0 ∧ v.seat = 0 ∧ v.hold = 0 ∧ (quiet = true ∨ rsPendMax ≤ (v.ptmo + 1) % 256))

/-- `RS_PENDING`. -/
def pending (quiet : Bool) (v : View) : View :=
  if v.pend = 0 ∨ v.seat ≠ 0 ∨ v.hold ≠ 0 then v
  else if v.due quiet then v.push
  else { v with ptmo := (v.ptmo + 1) % 256 }

end View

theorem view_rsRecordCrc {ck : Nat} (h₁ : m.rd lsTmpb = ck % 256) (h₂ : m.rd lsTmpb2 = ck / 256) :
    (rsRecordCrc m).view = m.view.record ck := by
  have hlo : m.rd tickLo < 256 := m.rd_byte (by decide)
  have hhi : m.rd tickHi < 256 := m.rd_byte (by decide)
  have hb₁ : m.rd lsTmpb < 256 := m.rd_byte (by decide)
  have hb₂ : m.rd lsTmpb2 < 256 := m.rd_byte (by decide)
  have htlo : m.view.tick % 256 = m.rd tickLo := by
    show (m.rd tickHi * 256 + m.rd tickLo) % 256 = _
    omega
  have hthi : m.view.tick / 256 = m.rd tickHi := by
    show (m.rd tickHi * 256 + m.rd tickLo) / 256 = _
    omega
  have hslot : crcSlot (m.rd tickLo) = ownCrc + m.rd tickLo / 64 * 4 := by
    simp only [crcSlot]
    omega
  have hcells : ∀ b, (rsRecordCrc m).rd b =
      if b = ownCrc + m.rd tickLo / 64 * 4 + 3 then m.rd lsTmpb2
      else if b = ownCrc + m.rd tickLo / 64 * 4 + 2 then m.rd lsTmpb
      else if b = ownCrc + m.rd tickLo / 64 * 4 + 1 then m.rd tickHi
      else if b = ownCrc + m.rd tickLo / 64 * 4 then m.rd tickLo else m.rd b := by
    intro b
    unfold rsRecordCrc
    extract_lets r4 k₁ k₂ k₃
    have hr4 : r4 = ownCrc + m.rd tickLo / 64 * 4 := hslot
    have hw : ∀ j < 4, cellWidth (r4 + j) = 256 := by
      intro j hj
      simp only [ownCrc] at hr4
      exact cellWidth_cart (by omega) (by omega)
    have hkeep : ∀ t, t < 0x8C00 → k₁.rd t = m.rd t ∧ k₂.rd t = m.rd t ∧ k₃.rd t = m.rd t := by
      intro t ht
      simp only [ownCrc] at hr4
      have e₁ : k₁.rd t = m.rd t := (rd_wr _ _ _ _).trans (if_neg (by omega))
      have e₂ : k₂.rd t = m.rd t := ((rd_wr _ _ _ _).trans (if_neg (by omega))).trans e₁
      have e₃ : k₃.rd t = m.rd t := ((rd_wr _ _ _ _).trans (if_neg (by omega))).trans e₂
      exact ⟨e₁, e₂, e₃⟩
    have hr0 := hw 0 (by decide)
    rw [Nat.add_zero] at hr0
    rw [rd_wr, (hkeep lsTmpb2 (by decide)).2.2, rd_wr, (hkeep lsTmpb (by decide)).2.1, rd_wr,
      (hkeep tickHi (by decide)).1, rd_wr, hw 3 (by decide), hw 2 (by decide), hw 1 (by decide), hr0,
      Nat.mod_eq_of_lt hb₂, Nat.mod_eq_of_lt hb₁, Nat.mod_eq_of_lt hhi, Nat.mod_eq_of_lt hlo, hr4]
  have hout : ∀ b, ¬ (0x8C00 ≤ b ∧ b < 0x8C20) → (rsRecordCrc m).rd b = m.rd b := by
    intro b hb
    have hlow : ownCrc = 0x8C00 := rfl
    rw [hcells, if_neg (by omega), if_neg (by omega), if_neg (by omega), if_neg (by omega)]
  ext s
  case wm =>
    simp only [Machine.view, Machine.wmOf, Machine.pair, View.record]
    split
    · rw [hout _ (by simp only [seatWm]; omega), hout _ (by simp only [seatWm]; omega)]
    · rfl
  case ring =>
    simp only [Machine.view, Machine.pageOf, View.record]
    split
    · rw [hout _ (by simp only [seatRing]; omega)]
    · rfl
  case kp =>
    simp only [Machine.view, Machine.pageOf, View.record]
    split
    · rw [hout _ (by simp only [seatKp]; omega)]
    · rfl
  case own =>
    show (if s < 32 then (rsRecordCrc m).rd (ownCrc + s) else 0) =
      if s = m.view.tick % 256 / 64 * 4 then m.view.tick % 256
      else if s = m.view.tick % 256 / 64 * 4 + 1 then m.view.tick / 256
      else if s = m.view.tick % 256 / 64 * 4 + 2 then ck % 256
      else if s = m.view.tick % 256 / 64 * 4 + 3 then ck / 256
      else if s < 32 then m.rd (ownCrc + s) else 0
    rw [htlo, hthi, ← h₁, ← h₂, hcells]
    by_cases h₀ : s = m.rd tickLo / 64 * 4
    · rw [if_pos h₀, if_pos (by omega), if_neg (by omega), if_neg (by omega), if_neg (by omega),
        if_pos (by omega)]
    by_cases h₁ : s = m.rd tickLo / 64 * 4 + 1
    · rw [if_neg h₀, if_pos h₁, if_pos (by omega), if_neg (by omega), if_neg (by omega),
        if_pos (by omega)]
    by_cases h₂ : s = m.rd tickLo / 64 * 4 + 2
    · rw [if_neg h₀, if_neg h₁, if_pos h₂, if_pos (by omega), if_neg (by omega), if_pos (by omega)]
    by_cases h₃ : s = m.rd tickLo / 64 * 4 + 3
    · rw [if_neg h₀, if_neg h₁, if_neg h₂, if_pos h₃, if_pos (by omega), if_pos (by omega)]
    rw [if_neg h₀, if_neg h₁, if_neg h₂, if_neg h₃]
    split
    · rw [if_neg (by omega), if_neg (by omega), if_neg (by omega), if_neg (by omega)]
    · rfl
  all_goals
    simp only [Machine.view, Machine.pair, View.record]
    first
      | rw [hout _ (by simp), hout _ (by simp)]
      | rw [hout _ (by simp)]

theorem quiet_report (h : Writes ReportCell m m') : Writes Quiet m m' := by
  refine h.mono fun a v hv => ?_
  simp only [ReportCell, Mail, lsTmpb, lsTmpb2] at hv
  exact quiet_of_range (by omega) (by omega)

theorem lsReport_quiet (m : Machine) : Writes Quiet m (lsReport m) := by
  unfold lsReport
  extract_lets m₁ r0 m₂ m₃
  split
  · exact .refl
  · have h₂ : Writes ReportCell m m₂ := by
      refine ((rsDisplayReset_report m).wr ?_).wr ?_ <;> simp [ReportCell]
    exact (quiet_report (h₂.trans (rsRecordCrc_report m₂))).trans
      (quiet_mail (sendFrame_writes (by simp) m₃))

theorem view_lsReport (m : Machine) : (lsReport m).view = m.view.report (lsCksum m) := by
  have htick : m.rd tickLo % 64 = m.view.tick % 64 := boundary_iff m
  unfold lsReport View.report
  rw [htick]
  by_cases h : m.view.tick % 64 = 0
  · rw [if_pos h, if_neg (not_not_intro h)]
    extract_lets m₁ r0 m₂ m₃
    have hck : r0 = lsCksum m := lsCksum_congr fun a ha =>
      (rsDisplayReset_report m).frame (not_reportCell_of_sim ha)
    have hv₂ : m₂.view = m.view := by
      show ((m₁.wr lsTmpb r0).wr lsTmpb2 (r0 / 256)).view = _
      rw [view_wr (by simp [ViewCell]), view_wr (by simp [ViewCell]), view_rsDisplayReset]
    have hlo : m₂.rd lsTmpb = r0 % 256 := by
      rw [rd_wr, if_neg (by decide), rd_wr, if_pos rfl]
      rfl
    have hhi : m₂.rd lsTmpb2 = r0 / 256 := by
      have hlt : r0 < 65536 := lsCksum_lt m₁
      rw [rd_wr, if_pos rfl, show cellWidth lsTmpb2 = 256 by decide]
      omega
    have hv₃ : m₃.view = m₂.view.record r0 := view_rsRecordCrc hlo hhi
    rw [view_mail (sendFrame_writes (by simp) m₃), hv₃, hv₂, hck]
  · rw [if_neg h, if_pos h]

theorem lsTickInc_quiet (m : Machine) : Writes Quiet m (lsTickInc m) := by
  unfold lsTickInc
  extract_lets r0 m₁
  have h₁ : Writes Quiet m m₁ := .wr .refl (quiet_of_cell (by decide) (by decide))
  split
  · exact h₁.wr (quiet_of_cell (by decide) (by decide))
  · exact h₁

theorem view_lsTickInc (m : Machine) : (lsTickInc m).view = m.view.advance := by
  have hlo : m.rd tickLo < 256 := m.rd_byte (by decide)
  have hhi : m.rd tickHi < 256 := m.rd_byte (by decide)
  have htick : m.view.tick = m.rd tickHi * 256 + m.rd tickLo := rfl
  unfold lsTickInc View.advance
  extract_lets r0 m₁
  have hr0 : r0 = m.rd tickLo + 1 := rfl
  have hkeep : m₁.rd tickHi = m.rd tickHi := (rd_wr _ _ _ _).trans (if_neg (by decide))
  split
  · next hwrap =>
      have hnext : (m.rd tickHi + 1) % 256 * 256 + r0 % 256 = (m.view.tick + 1) % 65536 := by
        rw [htick]
        omega
      show ((m.wr tickLo r0).wr tickHi (m₁.rd tickHi + 1)).view = _
      rw [hkeep, view_wr_tick, hnext]
  · next hwrap =>
      have hsame : m₁.view = ((m.wr tickLo r0).wr tickHi (m.rd tickHi)).view := by
        refine view_congr fun a _ => ?_
        show (m.wr tickLo r0).rd a = _
        rw [rd_wr, rd_wr, rd_wr]
        by_cases ha : a = tickHi
        · rw [if_pos ha, ha, if_neg (by decide)]
          exact (Nat.mod_eq_of_lt (show m.rd tickHi < cellWidth tickHi from m.rd_lt _)).symm
        · rw [if_neg ha]
      have hnext : m.rd tickHi % 256 * 256 + r0 % 256 = (m.view.tick + 1) % 65536 := by
        rw [htick]
        omega
      rw [hsame, view_wr_tick, hnext]

/-! ### A push -/

theorem rsSend_apart (m : Machine) : Apart m (rsSend m) := by
  refine (rsSend_writes m).apart fun a v hv ha => ?_
  have hrange := aside_range ha
  simp only [SendCell, HoldCell, PushCell, Mail, resyncHold, rsToLo, rsToHi, rsRLo, rsRHi, rsTmp2,
    lsTmpb, rsPosLo, rsPosHi] at hv
  omega

theorem view_push_cells (h : Writes PushCell m m') : m'.view = m.view := by
  refine view_writes h fun a v hv ha => ?_
  simp only [PushCell, Mail, rsTmp2, lsTmpb, rsPosLo, rsPosHi, ViewCell] at hv ha
  omega

theorem view_rsSend (m : Machine) :
    (rsSend m).view = m.view.enter ((m.view.tick + 16) % 65536) := by
  unfold rsSend
  extract_lets m₁ r1 m₂ m₃ m₄ m₅
  have h₁ : m₁.view = { m.view.clear with hold := 1 } := view_rsEnterHold m
  have hr1 : r1 = (m.view.tick + 16) % 65536 := by
    show (m₁.view.tick + 16) % 65536 = _
    rw [h₁]
    rfl
  have hlt : r1 < 65536 := Nat.mod_lt _ (by decide)
  have h₂ : m₂.view = { m₁.view with resume := r1 } := by
    have hbytes : r1 / 256 % 256 * 256 + r1 % 256 = r1 := by omega
    show ((m₁.wr rsRLo r1).wr rsRHi (r1 / 256)).view = _
    rw [view_wr_resume, hbytes]
  have h₃ : m₃.view = m₂.view := view_mail (sendFrame_writes (by simp) m₂)
  have h₄ : m₄.view = m₃.view :=
    (view_wr (by simp [ViewCell])).trans (view_wr (by simp [ViewCell]))
  have h₅ : m₅.view = m₄.view := view_push_cells (pushChunks_writes _ m₄)
  rw [view_mail (sendFrame_writes (by simp) m₅), h₅, h₄, h₃, h₂, h₁, hr1]
  generalize m.view = v
  rfl

theorem view_rsPush (m : Machine) : (rsPush m).view = m.view.push := by
  rw [rsPush_eq, view_note, view_rsRebase, view_rsSend]
  rfl

/-- A push on the record: its frames, a new baseline, one more push. -/
theorem hist_rsPush (m : Machine) :
    ∃ l : List (List Nat), l.Sublist (pushFrames (resumeTick m) (image m)) ∧
      (Willing m → l = pushFrames (resumeTick m) (image m) ∧ Willing (rsPush m)) ∧
      (rsPush m).hist = { m.hist with
        sent := m.hist.sent ++ l.map fun f => (m.hist.stamp, f)
        stamp := ⟨m.hist.stamp.epoch + 1, 0⟩
        pushes := m.hist.pushes + 1 } := by
  obtain ⟨l, hl, hw, hh⟩ := rsSend_emits m
  refine ⟨l, hl, fun h => ⟨(hw h).1, fun a ha => (hw h).2 a ?_⟩, ?_⟩
  · rw [rsPush_eq, answers_note, answers_rsRebase] at ha
    exact ha
  · rw [rsPush_eq, hist_note, hist_rsRebase, hh]

/-- `SC_PHASE` as `RS_PENDING` reads it. -/
def quietPhase (m : Machine) : Bool := decide (m.rd ssQuiescent % 2 ≠ 0)

/-- `RS_PENDING` with a request at the host: the pass is counted, and the push is made
when it is due. -/
theorem rsPending_asked (h : ¬ (m.view.pend = 0 ∨ m.view.seat ≠ 0 ∨ m.view.hold ≠ 0)) :
    ∃ m₁, Writes Quiet m m₁ ∧ m₁.hist = m.hist ∧ m₁.answers = m.answers ∧
      m₁.view = { m.view with ptmo := (m.view.ptmo + 1) % 256 } ∧
      rsPending m = if m.view.due (quietPhase m) then rsPush m₁ else m₁ := by
  have hptmo : (m.wr rsPtmo (m.rd rsPtmo + 1)).view =
      { m.view with ptmo := (m.view.ptmo + 1) % 256 } := view_wr_ptmo _ m
  have hcount : (m.wr rsPtmo (m.rd rsPtmo + 1)).rd rsPtmo = (m.view.ptmo + 1) % 256 := by
    rw [rd_wr, if_pos rfl]
    rfl
  have hphase : (m.wr rsPtmo (m.rd rsPtmo + 1)).rd ssQuiescent = m.rd ssQuiescent :=
    (rd_wr _ _ _ _).trans (if_neg (by decide))
  have hpass : Writes Quiet m (m.wr rsPtmo (m.rd rsPtmo + 1)) :=
    .wr .refl (quiet_of_cell (by decide) (by decide))
  have hgo : ¬ (m.rd rsPend = 0 ∨ m.rd netSeat ≠ 0 ∨ m.rd resyncHold ≠ 0) := h
  unfold rsPending
  rw [if_neg hgo]
  extract_lets v m₁ quiet m₂
  have hquiet : quiet ↔ quietPhase m = true := by
    simp only [quiet, m₁, hphase, quietPhase, decide_eq_true_eq]
  have hdue : m.view.due (quietPhase m) = true ↔ quiet ∨ rsPendMax ≤ m₁.rd rsPtmo := by
    have hcount' : m₁.rd rsPtmo = (m.view.ptmo + 1) % 256 := hcount
    rw [not_or, not_or, not_not, not_not] at h
    rw [hcount', hquiet]
    simp only [View.due, decide_eq_true_eq]
    constructor
    · exact fun hd => hd.2.2.2
    · exact fun hd => ⟨h.1, h.2.1, h.2.2, hd⟩
  by_cases hd : m.view.due (quietPhase m) = true
  · refine ⟨m₂.wr rsWaited (m₂.rd rsPtmo), ?_, rfl, rfl, ?_, ?_⟩
    · refine (hpass.wr ?_).wr ?_
      · exact quiet_of_cell (by decide) (by decide)
      · exact quiet_of_cell (by decide) (by decide)
    · rw [view_wr (by simp [ViewCell])]
      show (m₁.wr rsGate _).view = _
      rw [view_wr (by simp [ViewCell])]
      exact hptmo
    · have hgo : ¬ (¬ quiet ∧ m₁.rd rsPtmo < rsPendMax) := by
        rintro ⟨hq, hlt⟩
        rcases hdue.mp hd with hd | hd
        · exact hq hd
        · exact Nat.not_le_of_lt hlt hd
      rw [if_pos hd, if_neg hgo]
  · refine ⟨m₁, hpass, rfl, rfl, hptmo, ?_⟩
    have hwait : ¬ quiet ∧ m₁.rd rsPtmo < rsPendMax :=
      ⟨fun hq => hd (hdue.mpr (Or.inl hq)), Nat.lt_of_not_le fun hle => hd (hdue.mpr (Or.inr hle))⟩
    rw [if_neg hd, if_pos hwait]

theorem rsPending_idle (h : m.view.pend = 0 ∨ m.view.seat ≠ 0 ∨ m.view.hold ≠ 0) :
    rsPending m = m := by
  have hidle : m.rd rsPend = 0 ∨ m.rd netSeat ≠ 0 ∨ m.rd resyncHold ≠ 0 := h
  unfold rsPending
  rw [if_pos hidle]

/-- The push of `RS_PENDING`. -/
theorem not_due_of_idle {v : View} (h : v.pend = 0 ∨ v.seat ≠ 0 ∨ v.hold ≠ 0) (quiet : Bool) :
    v.due quiet = false := by
  simp only [View.due, decide_eq_false_iff_not]
  rintro ⟨h₁, h₂, h₃, -⟩
  rcases h with h | h | h
  · exact h₁ h
  · exact h h₂
  · exact h h₃

theorem rsPending_apart (m : Machine) : Apart m (rsPending m) := by
  by_cases h : m.view.pend = 0 ∨ m.view.seat ≠ 0 ∨ m.view.hold ≠ 0
  · rw [rsPending_idle h]
    exact .refl
  · obtain ⟨m₁, hpass, -, -, -, heq⟩ := rsPending_asked h
    rw [heq]
    split
    · rw [rsPush_eq]
      exact .note ((hpass.quiet_apart.trans (rsSend_apart m₁)).trans (rsRebase_apart _))
    · exact hpass.quiet_apart

theorem view_rsPending (m : Machine) : (rsPending m).view = m.view.pending (quietPhase m) := by
  unfold View.pending
  by_cases h : m.view.pend = 0 ∨ m.view.seat ≠ 0 ∨ m.view.hold ≠ 0
  · rw [rsPending_idle h, if_pos h]
  · obtain ⟨m₁, -, -, -, hview, heq⟩ := rsPending_asked h
    rw [heq, if_neg h]
    split
    · rw [view_rsPush, hview]
      generalize m.view = v
      rfl
    · exact hview

/-- What `RS_PENDING` puts on the record. -/
theorem hist_rsPending (m : Machine) :
    ∃ l : List (List Nat),
      l.Sublist (if m.view.due (quietPhase m) then pushFrames (resumeTick m) (image m) else []) ∧
      (Willing m → l = (if m.view.due (quietPhase m) then pushFrames (resumeTick m) (image m)
        else []) ∧ Willing (rsPending m)) ∧
      (rsPending m).hist = { m.hist with
        sent := m.hist.sent ++ l.map fun f => (m.hist.stamp, f)
        stamp := if m.view.due (quietPhase m) then ⟨m.hist.stamp.epoch + 1, 0⟩ else m.hist.stamp
        pushes := if m.view.due (quietPhase m) then m.hist.pushes + 1 else m.hist.pushes } := by
  by_cases h : m.view.pend = 0 ∨ m.view.seat ≠ 0 ∨ m.view.hold ≠ 0
  · rw [rsPending_idle h, not_due_of_idle h]
    exact ⟨[], List.nil_sublist _, fun hw => ⟨rfl, hw⟩, by simp⟩
  · obtain ⟨m₁, hpass, hhist, hans, hview, heq⟩ := rsPending_asked h
    rw [heq]
    by_cases hd : m.view.due (quietPhase m) = true
    · rw [if_pos hd, if_pos hd, if_pos hd, if_pos hd]
      have himg : image m₁ = image m := image_congr fun a ha => hpass.sim_cell ha
      have htick : resumeTick m₁ = resumeTick m := by
        have ht : m₁.view.tick = m.view.tick := by rw [hview]
        show (m₁.view.tick + 16) % 65536 = _
        rw [ht]
        rfl
      obtain ⟨l, hl, hw, hh⟩ := hist_rsPush m₁
      rw [himg, htick] at hl hw
      rw [hhist] at hh
      exact ⟨l, hl, fun hwill => hw fun a ha => hwill a (hans ▸ ha), hh⟩
    · rw [if_neg hd, if_neg hd, if_neg hd, if_neg hd]
      exact ⟨[], List.nil_sublist _, fun hw => ⟨rfl, fun a ha => hw a (hans ▸ ha)⟩,
        by simp [hhist]⟩

/-! ## One tick -/

/-- The slot before a tick's own, as `LS_VDISPATCH` finds it. -/
def prevSlot (t : Nat) : Nat := if t % 256 = 0 then 255 else t % 256 - 1

/-- The cells `LS_VDISPATCH` reads for a seat. -/
def View.cells (s : Nat) (v : View) : VdCells :=
  ⟨v.ring s (v.tick % 256), v.ring s (prevSlot v.tick), v.kp s (v.tick % 256),
    v.kp s (prevSlot v.tick)⟩

theorem vdRead_eq {s : Nat} (hs : s < 4) : vdRead (m.wr vdSide s) = m.view.cells s := by
  have hlo : m.rd tickLo < 256 := m.rd_byte (by decide)
  have hslot : m.view.tick % 256 = m.rd tickLo := by
    show (m.rd tickHi * 256 + m.rd tickLo) % 256 = _
    omega
  have hprev : prevSlot m.view.tick < 256 := by
    unfold prevSlot
    split <;> omega
  have hside : (m.wr vdSide s).rd vdSide = s := by
    rw [rd_wr, if_pos rfl, show cellWidth vdSide = 256 by decide]
    omega
  have hkeep : ∀ a, a ≠ vdSide → (m.wr vdSide s).rd a = m.rd a := fun a ha =>
    (rd_wr _ _ _ _).trans (if_neg ha)
  have hring : ∀ i < 256, (m.wr vdSide s).rd (s * 256 + seatRing + i) = m.view.ring s i := by
    intro i hi
    rw [hkeep _ (by simp only [seatRing, vdSide]; omega)]
    show _ = if s < 4 ∧ i < 256 then m.rd (seatRing + 256 * s + i) else 0
    rw [if_pos ⟨hs, hi⟩, Nat.mul_comm s, Nat.add_comm (256 * s)]
  have hkp : ∀ i < 256, (m.wr vdSide s).rd (s * 256 + seatRing + (seatKp - seatRing) + i) =
      m.view.kp s i := by
    intro i hi
    have hcell : s * 256 + seatRing + (seatKp - seatRing) + i = seatKp + 256 * s + i := by
      simp only [seatRing, seatKp]
      omega
    rw [hcell, hkeep _ (by simp only [seatKp, vdSide]; omega)]
    show _ = if s < 4 ∧ i < 256 then m.rd (seatKp + 256 * s + i) else 0
    rw [if_pos ⟨hs, hi⟩]
  unfold vdRead View.cells
  extract_lets r2 slot prev
  have hr2 : r2 = s * 256 + seatRing := by simp only [r2, hside]
  have hslot' : slot = m.view.tick % 256 := by
    rw [hslot]
    exact hkeep _ (by decide)
  have hprev' : prev = prevSlot m.view.tick := by
    simp only [prev, hslot']
    rfl
  rw [hr2, hslot', hprev', hring _ (by omega), hring _ hprev, hkp _ (by omega), hkp _ hprev]

theorem dispatchCells_eq (m : Machine) : dispatchCells m = (m.view.cells 0, m.view.cells 1) := by
  unfold dispatchCells
  rw [vdRead_eq (by decide), vdRead_eq (by decide)]

/-- The machine as the cart's code leaves it. -/
def lsTicked (cart : Cart) (m : Machine) : Machine := lsTick cart (lsUnfreeze m)

theorem view_lsTicked (cart : Cart) (m : Machine) : (lsTicked cart m).view = m.view :=
  (lsTick_ticks cart _).view_eq.trans (view_lsUnfreeze m)

theorem lsTicked_apart (cart : Cart) (m : Machine) : Apart m (lsTicked cart m) :=
  (lsUnfreeze_quiet m).quiet_apart.trans (lsTick_ticks cart _).apart

theorem hist_lsUnfreeze (m : Machine) :
    (lsUnfreeze m).hist = m.hist ∧ (lsUnfreeze m).answers = m.answers := by
  unfold lsUnfreeze
  split <;> simp

theorem hist_lsTicked (cart : Cart) (m : Machine) :
    (lsTicked cart m).hist = m.hist ∧ (lsTicked cart m).answers = m.answers := by
  have htick := lsTick_ticks cart (lsUnfreeze m)
  have hun := hist_lsUnfreeze m
  exact ⟨htick.hist.trans hun.1, htick.answers.trans hun.2⟩

/-- `@@ls_run` from the end of the game tick to `RS_PENDING`. -/
def lsSettle (cells : VdCells × VdCells) (m : Machine) : Machine :=
  logTick (lsTickInc (lsReport (logRan cells m)))

theorem lsRun_eq (cart : Cart) (m : Machine) :
    lsRun cart m = rsPending (lsSettle (m.view.cells 0, m.view.cells 1) (lsTicked cart m)) := by
  have hcells : dispatchCells (lsUnfreeze m) = (m.view.cells 0, m.view.cells 1) := by
    rw [dispatchCells_eq, view_lsUnfreeze]
  unfold lsRun lsSettle lsTicked
  dsimp only
  rw [hcells]

theorem lsSettle_apart (cells : VdCells × VdCells) (m : Machine) : Apart m (lsSettle cells m) := by
  have h₁ : Apart m (logRan cells m) := .note .refl
  have h₂ := (h₁.trans (lsReport_quiet _).quiet_apart).trans (lsTickInc_quiet _).quiet_apart
  unfold lsSettle logTick
  exact h₂.note

/-- The rest of the pass leaves the simulation where the cart's code left it. -/
theorem lsSettle_sim (cells : VdCells × VdCells) (m : Machine) {a : Nat} (ha : simCell a = true) :
    (lsSettle cells m).rd a = m.rd a :=
  ((lsTickInc_quiet _).sim_cell ha).trans ((lsReport_quiet (logRan cells m)).sim_cell ha)

theorem view_logRan (cells : VdCells × VdCells) (m : Machine) :
    (logRan cells m).view = m.view := view_note m _

theorem cksum_logRan (cells : VdCells × VdCells) (m : Machine) :
    lsCksum (logRan cells m) = lsCksum m := lsCksum_congr fun _ _ => rfl

theorem view_lsSettle (cells : VdCells × VdCells) (m : Machine) :
    (lsSettle cells m).view = (m.view.report (lsCksum m)).advance := by
  unfold lsSettle logTick
  rw [view_note, view_lsTickInc, view_lsReport, view_logRan, cksum_logRan]

/-- The frames of the checksum report. -/
def reportFrames (m : Machine) : List (List Nat) :=
  if m.view.tick % 64 = 0 then [crcFrame m.view.seat m.view.tick (lsCksum m)] else []

theorem hist_lsTickInc (m : Machine) :
    (lsTickInc m).hist = m.hist ∧ (lsTickInc m).answers = m.answers := by
  unfold lsTickInc
  dsimp only
  split <;> exact ⟨rfl, rfl⟩

theorem reportFrames_emits (m : Machine) : Emits (reportFrames m) m (lsReport m) := by
  have htick : m.pair tickLo tickHi = m.view.tick := rfl
  have hseat : m.rd netSeat = m.view.seat := rfl
  have h := lsReport_emits m
  rwa [htick, hseat] at h

/-- What the end of a tick puts on the record. -/
theorem hist_lsSettle (cells : VdCells × VdCells) (m : Machine) :
    ∃ l : List (List Nat), l.Sublist (reportFrames m) ∧
      (Willing m → l = reportFrames m ∧ Willing (lsSettle cells m)) ∧
      (lsSettle cells m).hist = { m.hist with
        ran := m.hist.ran ++ [⟨m.hist.stamp, m.view.tick, cells.1, cells.2, m.sim, lsCksum m⟩]
        sent := m.hist.sent ++ l.map fun f => (m.hist.stamp, f)
        stamp := ⟨m.hist.stamp.epoch, m.hist.stamp.age + 1⟩ } := by
  have hframes : reportFrames (logRan cells m) = reportFrames m := by
    unfold reportFrames
    rw [view_logRan, cksum_logRan]
  obtain ⟨l, hl, hw, hh⟩ := reportFrames_emits (logRan cells m)
  rw [hframes] at hl hw
  obtain ⟨hhist, hans⟩ := hist_lsTickInc (lsReport (logRan cells m))
  refine ⟨l, hl, fun hwill => ?_, ?_⟩
  · obtain ⟨hl', hwill'⟩ := hw hwill
    refine ⟨hl', fun a ha => hwill' a ?_⟩
    rwa [lsSettle, logTick, answers_note, hans] at ha
  · rw [lsSettle, logTick, hist_note, hhist, hh]
    rfl

/-- A tick that has been run. -/
def View.ran (ck : Nat) (v : View) : View := (v.report ck).advance

/-- The checksum of the tick the console is about to run. -/
def nextCksum (cart : Cart) (m : Machine) : Nat := lsCksum (lsTicked cart m)

/-- A push is made after the tick. -/
def dueAfter (cart : Cart) (quiet : Bool) (m : Machine) : Bool :=
  (m.view.ran (nextCksum cart m)).due quiet

/-- The frames of a tick. -/
def runFrames (cart : Cart) (quiet : Bool) (m : Machine) : List (List Nat) :=
  reportFrames (lsTicked cart m) ++
    if dueAfter cart quiet m then
      pushFrames (((m.view.tick + 1) % 65536 + 16) % 65536) (image (lsTicked cart m))
    else []

/-- `@@ls_run`: a tick, its report and what `RS_PENDING` makes of it. -/
structure RunOf (cart : Cart) (quiet : Bool) (m m' : Machine) : Prop where
  apart : Apart m m'
  view : m'.view = (m.view.ran (nextCksum cart m)).pending quiet
  sim : dueAfter cart quiet m = false → ∀ a, simCell a = true → m'.rd a = (lsTicked cart m).rd a
  image : dueAfter cart quiet m = true → image m' = cleanImage (image (lsTicked cart m))
  hist : ∃ l : List (List Nat), l.Sublist (runFrames cart quiet m) ∧
    (Willing m → l = runFrames cart quiet m ∧ Willing m') ∧
    m'.hist = { m.hist with
      ran := m.hist.ran ++ [⟨m.hist.stamp, m.view.tick, m.view.cells 0, m.view.cells 1,
        (lsTicked cart m).sim, nextCksum cart m⟩]
      sent := m'.hist.sent
      stamp := if dueAfter cart quiet m then ⟨m.hist.stamp.epoch + 1, 0⟩
        else ⟨m.hist.stamp.epoch, m.hist.stamp.age + 1⟩
      pushes := if dueAfter cart quiet m then m.hist.pushes + 1 else m.hist.pushes } ∧
    ∃ es, m'.hist.sent = m.hist.sent ++ es ∧ es.map Prod.snd = l ∧
      ∀ e ∈ es, e.1.epoch = m.hist.stamp.epoch

theorem image_rsPush (m : Machine) : image (rsPush m) = cleanImage (image m) := by
  have himg : image (rsPush m) = image (rsRebase (rsSend m)) := by
    rw [rsPush_eq]
    exact image_congr fun a _ => rd_note _ _ a
  rw [himg, image_rsRebase, image_send]

/-- `RS_PENDING` on the simulation. -/
theorem rsPending_sim (h : m.view.due (quietPhase m) = false) {a : Nat} (ha : simCell a = true) :
    (rsPending m).rd a = m.rd a := by
  by_cases hidle : m.view.pend = 0 ∨ m.view.seat ≠ 0 ∨ m.view.hold ≠ 0
  · rw [rsPending_idle hidle]
  · obtain ⟨m₁, hpass, -, -, -, heq⟩ := rsPending_asked hidle
    rw [heq, h, if_neg (by decide)]
    exact hpass.sim_cell ha

theorem image_rsPending (h : m.view.due (quietPhase m) = true) :
    image (rsPending m) = cleanImage (image m) := by
  by_cases hidle : m.view.pend = 0 ∨ m.view.seat ≠ 0 ∨ m.view.hold ≠ 0
  · rw [not_due_of_idle hidle] at h
    exact Bool.noConfusion h
  · obtain ⟨m₁, hpass, -, -, -, heq⟩ := rsPending_asked hidle
    have himg : image m₁ = image m := image_congr fun a ha => hpass.sim_cell ha
    rw [heq, if_pos h, image_rsPush, himg]

/-- `@@ls_run`, with the phase that `RS_PENDING` finds. -/
theorem lsRun_phase (cart : Cart) (m : Machine) :
    RunOf cart (quietPhase (lsSettle (m.view.cells 0, m.view.cells 1) (lsTicked cart m))) m
      (lsRun cart m) := by
  have hk := view_lsTicked cart m
  obtain ⟨hhist, hans⟩ := hist_lsTicked cart m
  have hapart := lsTicked_apart cart m
  have hview : ∀ k, k = lsTicked cart m →
      (lsSettle (m.view.cells 0, m.view.cells 1) k).view = m.view.ran (lsCksum k) := by
    intro k hk'
    rw [view_lsSettle, hk', hk]
    rfl
  have hset := hview _ rfl
  have hsim : ∀ a, simCell a = true → (lsSettle (m.view.cells 0, m.view.cells 1)
      (lsTicked cart m)).rd a = (lsTicked cart m).rd a := fun a ha => lsSettle_sim _ _ ha
  have hapart₁ := hapart.trans (lsSettle_apart (m.view.cells 0, m.view.cells 1) (lsTicked cart m))
  obtain ⟨l₁, hl₁, hw₁, hh₁⟩ := hist_lsSettle (m.view.cells 0, m.view.cells 1) (lsTicked cart m)
  rw [hhist, hk] at hh₁
  rw [lsRun_eq]
  -- from here on the settled machine is any machine with this view and record
  generalize lsSettle (m.view.cells 0, m.view.cells 1) (lsTicked cart m) = k at *
  obtain ⟨l₂, hl₂, hw₂, hh₂⟩ := hist_rsPending k
  have hresume : resumeTick k = ((m.view.tick + 1) % 65536 + 16) % 65536 := by
    have htick : k.view.tick = (m.view.tick + 1) % 65536 := by
      rw [hset]
      unfold View.ran View.advance View.report
      split <;> rfl
    show (k.view.tick + 16) % 65536 = _
    rw [htick]
  have himg : image k = image (lsTicked cart m) := image_congr hsim
  have hdue : k.view.due (quietPhase k) = dueAfter cart (quietPhase k) m := by
    unfold dueAfter nextCksum
    rw [hset]
  rw [hdue, hresume, himg] at hl₂ hw₂
  rw [hdue] at hh₂
  refine ⟨hapart₁.trans (rsPending_apart k), ?_, ?_, ?_, l₁ ++ l₂, ?_, ?_, ?_, ?_⟩
  · rw [view_rsPending, hset]
    rfl
  · intro h a ha
    rw [rsPending_sim (hdue.trans h) ha, hsim a ha]
  · intro h
    rw [image_rsPending (hdue.trans h), himg]
  · exact hl₁.append hl₂
  · intro hwill
    obtain ⟨rfl, hwill₁⟩ := hw₁ fun a ha => hwill a (hans ▸ ha)
    obtain ⟨rfl, hwill₂⟩ := hw₂ hwill₁
    exact ⟨rfl, hwill₂⟩
  · rw [hh₂, hh₁]
    rfl
  · refine ⟨l₁.map (fun f => (m.hist.stamp, f)) ++ l₂.map fun f => (k.hist.stamp, f), ?_, ?_, ?_⟩
    · rw [hh₂, hh₁, List.append_assoc]
    · simp [Function.comp_def]
    · intro e he
      rcases List.mem_append.mp he with he | he
      · obtain ⟨f, -, rfl⟩ := List.mem_map.mp he
        rfl
      · obtain ⟨f, -, rfl⟩ := List.mem_map.mp he
        rw [hh₁]

theorem lsRun_spec (cart : Cart) (m : Machine) : ∃ quiet, RunOf cart quiet m (lsRun cart m) :=
  ⟨_, lsRun_phase cart m⟩

/-! ## One step -/

/-- A pump is under way. -/
def Pc.Pumps (pc : Pc) : Prop := pc = .pumpSes ∨ pc = .pumpHold ∨ pc = .pumpGo ∨ pc = .pumpStall

/-- A pump is entered: from where, to where, and what the console has seen. -/
inductive Pumped (m : Machine) : Pc → Pc → Prop
  | session : Pumped m .sesHold .pumpSes
  | hold (hdrop : m.view.dropped = 0) (hhold : m.view.hold ≠ 0) : Pumped m .top .pumpHold
  | go (hdrop : m.view.dropped = 0) (hhold : m.view.hold = 0) : Pumped m .top .pumpGo
  | stall (hdrop : m.view.dropped = 0) (hshut : gateOpen m = false) : Pumped m .gate .pumpStall

/-- What a step does. -/
inductive Change (cart : Cart) (v : Move) (p q : Proc) : Prop
  | still (hpc : q.pc = p.pc) (hm : q.m = p.m)
  | parked (hpc : p.pc = .top) (hpc' : q.pc = .parked) (hdrop : p.m.view.dropped ≠ 0)
      (hm : Parked p.m q.m)
  | recv (k : Machine) (hpc : Pumped p.m p.pc q.pc) (hk : k = p.m ∨ k = lsFreeze p.m)
      (hm : q.m = pumpRecv v.arrival k)
  | slip (hpump : p.pc.Pumps) (hpc : q.pc = p.pc) (hcut : cut headOk (buffered p.m) = .slip)
      (hm : q.m = ppSlip p.m)
  | frame (f rest : List Nat) (hpump : p.pc.Pumps) (hpc : q.pc = p.pc)
      (hcut : cut headOk (buffered p.m) = .frame f rest) (hm : q.m = sesOnframe (ppLoad p.m))
  | held (hpc : p.pc = .pumpSes) (hpc' : q.pc = .top ∨ q.pc = .sesHold)
      (hcut : cut headOk (buffered p.m) = .wait)
      (hm : q.m = p.m.wr sesTmrLo ((p.m.rd sesTmrLo + 65535) % 65536))
  | waited (hpc : p.pc = .pumpHold ∧ q.pc = .top ∨ p.pc = .pumpStall ∧ q.pc = .gate)
      (hcut : cut headOk (buffered p.m) = .wait) (hm : Waited p.m q.m)
  | captured (hpc : p.pc = .pumpGo) (hpc' : q.pc = .gate)
      (hcut : cut headOk (buffered p.m) = .wait) (hm : q.m = lsCapture v.input p.m)
  | ran (hpc : p.pc = .gate) (hpc' : q.pc = .top)
      (hopen : p.m.view.dropped ≠ 0 ∨ gateOpen p.m = true) (hm : q.m = lsRun cart p.m)

theorem change_top (cart : Cart) (v : Move) (m : Machine) :
    Change cart v ⟨m, .top⟩ (stepTop v.arrival m) := by
  unfold stepTop
  split
  · exact .still rfl rfl
  · split
    · next hdrop => exact .parked rfl rfl hdrop (lsPeerLeft_parked m)
    · next hdrop =>
        have hdrop' : m.view.dropped = 0 := Decidable.not_not.mp hdrop
        split
        · next hhold => exact .recv _ (.hold hdrop' hhold) (Or.inr rfl) rfl
        · next hhold => exact .recv _ (.go hdrop' (Decidable.not_not.mp hhold)) (Or.inl rfl) rfl

theorem change_ran {v : Move} (hopen : m.view.dropped ≠ 0 ∨ gateOpen m = true)
    (hm : m' = lsRun cart m) : Change cart v ⟨m, .gate⟩ ⟨m', .top⟩ := .ran rfl rfl hopen hm

theorem change_captured {v : Move} (hcut : cut headOk (buffered m) = .wait)
    (hm : m' = lsCapture v.input m) : Change cart v ⟨m, .pumpGo⟩ ⟨m', .gate⟩ :=
  .captured rfl rfl hcut hm

theorem change_held {v : Move} {pc : Pc} (hcut : cut headOk (buffered m) = .wait)
    (hpc : pc = .top ∨ pc = .sesHold)
    (hm : m' = m.wr sesTmrLo ((m.rd sesTmrLo + 65535) % 65536)) :
    Change cart v ⟨m, .pumpSes⟩ ⟨m', pc⟩ := .held rfl hpc hcut hm

theorem change_gate (cart : Cart) (v : Move) (m : Machine) :
    Change cart v ⟨m, .gate⟩ (stepGate cart v.arrival m) := by
  unfold stepGate
  split
  · next hopen => exact change_ran hopen rfl
  · next hshut =>
      rw [not_or, not_not, Bool.not_eq_true] at hshut
      exact .recv _ (.stall hshut.1 hshut.2) (Or.inr rfl) rfl

/-- After the pump, at each control point. -/
theorem change_after (cart : Cart) (v : Move) {p : Proc} (hpump : p.pc.Pumps)
    (hcut : cut headOk (buffered p.m) = .wait) :
    Change cart v p (afterPump v.input p.m p.pc) := by
  obtain ⟨m, pc⟩ := p
  rcases hpump with rfl | rfl | rfl | rfl
  · refine change_held hcut ?_ rfl
    split
    · exact Or.inl rfl
    · exact Or.inr rfl
  · exact .waited (Or.inl ⟨rfl, rfl⟩) hcut (lsHeld_waited m)
  · exact change_captured hcut rfl
  · exact .waited (Or.inr ⟨rfl, rfl⟩) hcut (lsWaited_waited m)

theorem change_pump (cart : Cart) (v : Move) {p : Proc} (hpump : p.pc.Pumps) :
    Change cart v p (match ppParse p.m with
      | some m => ⟨m, p.pc⟩
      | none => afterPump v.input p.m p.pc) := by
  rw [ppParse_eq]
  match hcut : cut headOk (buffered p.m) with
  | .wait => exact change_after cart v hpump hcut
  | .slip => exact .slip hpump rfl hcut rfl
  | .frame f rest => exact .frame f rest hpump rfl hcut rfl

theorem step_change (cart : Cart) (v : Move) (p : Proc) : Change cart v p (p.step cart v) := by
  obtain ⟨m, pc⟩ := p
  cases pc with
  | sesHold => exact .recv _ .session (Or.inl rfl) rfl
  | top => exact change_top cart v m
  | gate => exact change_gate cart v m
  | parked => exact .still rfl rfl
  | pumpSes => exact change_pump cart v (Or.inl rfl)
  | pumpHold => exact change_pump cart v (Or.inr (Or.inl rfl))
  | pumpGo => exact change_pump cart v (Or.inr (Or.inr (Or.inl rfl)))
  | pumpStall => exact change_pump cart v (Or.inr (Or.inr (Or.inr rfl)))

end SharkNetplay.Console
