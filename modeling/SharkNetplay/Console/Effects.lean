import SharkNetplay.Console.View

/-!
# What the routines do to the view

Frame handlers and the parts of `LS_PASS`, each as an equation on the view, with what
it leaves alone: the simulation state, the receive queue and the record.
-/

namespace SharkNetplay.Console

open Lib Lib.Framing Cell Machine

variable {m m' m'' : Machine}

/-! ## Footprint -/

/-- The receive path and `NET_ACTIVE`: no handler of a running match and no part of a
pass writes them. -/
def Aside (a : Nat) : Prop :=
  RxCell a ∨ (0x8300 ≤ a ∧ a ≤ 0x837F) ∨ a = diagSlip ∨ a = netActive

/-- The cells set aside are as they were. -/
def Apart (m m' : Machine) : Prop := ∀ a, Aside a → m'.rd a = m.rd a

namespace Apart

theorem refl : Apart m m := fun _ _ => rfl

theorem trans (h₁ : Apart m m') (h₂ : Apart m' m'') : Apart m m'' :=
  fun a ha => (h₂ a ha).trans (h₁ a ha)

theorem note {f : Record → Record} (h : Apart m m') : Apart m (m'.note f) := h

theorem buffered_eq (h : Apart m m') : buffered m' = buffered m :=
  buffered_congr fun a ha => h a (Or.inl ha)

theorem active_eq (h : Apart m m') : m'.rd netActive = m.rd netActive :=
  h netActive (Or.inr (Or.inr (Or.inr rfl)))

end Apart

/-- Where the cells set aside lie. -/
theorem aside_range {a : Nat} (h : Aside a) :
    (0x8134 ≤ a ∧ a ≤ 0x8135) ∨ a = 0x8162 ∨ a = 0x8180 ∨ (0x8200 ≤ a ∧ a ≤ 0x837F) := by
  simp only [Aside, RxCell, rxWr, rxRd, diagSlip, netActive] at h
  omega

theorem Machine.Writes.apart {S : Nat → Nat → Prop} (h : Writes S m m')
    (hS : ∀ a v, S a v → ¬ Aside a) : Apart m m' :=
  fun _ ha => h.frame fun v hv => hS _ v hv ha

/-- Cells of the netcode outside the simulation state that are not set aside. -/
def Quiet (a _v : Nat) : Prop := simCell a = false ∧ ¬ Aside a

theorem quiet_of_cell {a v : Nat} (hsim : simCell a = false)
    (hrx : ¬ (0x8200 ≤ a ∧ a ≤ 0x837F) ∧ a ≠ rxWr ∧ a ≠ rxRd ∧ a ≠ diagSlip ∧ a ≠ netActive) :
    Quiet a v := by
  refine ⟨hsim, fun ha => ?_⟩
  have hrange := aside_range ha
  simp only [rxWr, rxRd, diagSlip, netActive] at hrx
  omega

theorem sim_congr (h : ∀ a, simCell a = true → m'.rd a = m.rd a) : m'.sim = m.sim := by
  funext a
  unfold Machine.sim
  split
  · next ha => exact h a ha
  · rfl

/-- A simulation cell is out of reach of a quiet routine. -/
theorem Machine.Writes.sim_cell (h : Writes Quiet m m') {a : Nat} (ha : simCell a = true) :
    m'.rd a = m.rd a :=
  h.frame fun v hv => by
    have hs := hv.1
    rw [ha] at hs
    exact Bool.noConfusion hs

theorem Machine.Writes.sim_eq (h : Writes Quiet m m') : m'.sim = m.sim :=
  sim_congr fun _ ha => h.sim_cell ha

theorem Machine.Writes.quiet_apart (h : Writes Quiet m m') : Apart m m' :=
  h.apart fun _ _ hv => hv.2

/-- Cells outside the simulation areas. -/
theorem not_sim {a : Nat} (h : ¬ ((0x15D ≤ a ∧ a ≤ 0x1EF) ∨ (0x200 ≤ a ∧ a ≤ 0x2EF) ∨
    (0x31D ≤ a ∧ a ≤ 0x35D) ∨ (0x80C0 ≤ a ∧ a ≤ 0x80C1) ∨ (0x8102 ≤ a ∧ a ≤ 0x8104) ∨
    (0x8106 ≤ a ∧ a ≤ 0x8107) ∨ a = 0x810F ∨ (0x8196 ≤ a ∧ a ≤ 0x819B) ∨ a = 0x819F)) :
    simCell a = false := by
  cases hs : simCell a with
  | false => rfl
  | true => exact absurd (simCell_range hs) h

/-- A cell that lies in neither. -/
theorem quiet_of_range {a v : Nat} (hsim : ¬ ((0x15D ≤ a ∧ a ≤ 0x1EF) ∨ (0x200 ≤ a ∧ a ≤ 0x2EF) ∨
    (0x31D ≤ a ∧ a ≤ 0x35D) ∨ (0x80C0 ≤ a ∧ a ≤ 0x80C1) ∨ (0x8102 ≤ a ∧ a ≤ 0x8104) ∨
    (0x8106 ≤ a ∧ a ≤ 0x8107) ∨ a = 0x810F ∨ (0x8196 ≤ a ∧ a ≤ 0x819B) ∨ a = 0x819F))
    (haside : ¬ ((0x8134 ≤ a ∧ a ≤ 0x8135) ∨ a = 0x8162 ∨ a = 0x8180 ∨
      (0x8200 ≤ a ∧ a ≤ 0x837F))) : Quiet a v :=
  ⟨not_sim hsim, fun ha => haside (aside_range ha)⟩

theorem quiet_mail (h : Writes Mail m m') : Writes Quiet m m' := by
  refine h.mono fun a v hv => quiet_of_cell (not_sim ?_) ?_
  · simp only [Mail] at hv
    omega
  · simp only [Mail, rxWr, rxRd, diagSlip, netActive] at *
    omega

theorem quiet_ring {a v : Nat} (h : 0x8400 ≤ a ∧ a ≤ 0x8C1F) : Quiet a v := by
  refine quiet_of_cell (not_sim (by omega)) ?_
  simp only [rxWr, rxRd, diagSlip, netActive]
  omega

theorem quiet_wm {a v : Nat} (h : 0x81A0 ≤ a ∧ a ≤ 0x81A7) : Quiet a v := by
  refine quiet_of_cell (not_sim (by omega)) ?_
  simp only [rxWr, rxRd, diagSlip, netActive]
  omega

/-! ## Blocks -/

@[simp] theorem view_lsRingInit (m : Machine) : (lsRingInit m).view = m.view.idle := by
  have hout : ∀ b, ¬ (0x8400 ≤ b ∧ b < 0x8C00) → (lsRingInit m).rd b = m.rd b := by
    intro b hb
    simp only [lsRingInit, rd_fill, seatRing, seatKp]
    rw [if_neg (by omega), if_neg (by omega)]
  have hring : ∀ b, 0x8400 ≤ b ∧ b < 0x8800 → (lsRingInit m).rd b = 0x40 := by
    intro b hb
    simp only [lsRingInit, rd_fill, seatRing, seatKp]
    rw [if_neg (by omega), if_pos (by omega), cellWidth_cart (by omega) (by omega)]
  have hkp : ∀ b, 0x8800 ≤ b ∧ b < 0x8C00 → (lsRingInit m).rd b = 0 := by
    intro b hb
    simp only [lsRingInit, rd_fill, seatKp]
    rw [if_pos (by omega), Nat.zero_mod]
  ext s i
  case wm =>
    simp only [Machine.view, Machine.wmOf, Machine.pair, View.idle]
    split
    · rw [hout _ (by simp only [seatWm]; omega), hout _ (by simp only [seatWm]; omega)]
    · rfl
  case ring =>
    simp only [Machine.view, Machine.pageOf, View.idle]
    split
    · exact hring _ (by simp only [seatRing]; omega)
    · rfl
  case kp =>
    simp only [Machine.view, Machine.pageOf, View.idle]
    split
    · exact hkp _ (by simp only [seatKp]; omega)
    · rfl
  case own =>
    simp only [Machine.view, View.idle]
    split
    · exact hout _ (by simp only [ownCrc]; omega)
    · rfl
  all_goals
    simp only [Machine.view, Machine.pair, View.idle]
    first
      | rw [hout _ (by simp), hout _ (by simp)]
      | rw [hout _ (by simp)]

@[simp] theorem view_rsClrCrc (m : Machine) : (rsClrCrc m).view = m.view.clear := by
  have hcell : ∀ b, ¬ (0x8C00 ≤ b ∧ b < 0x8C20) → (rsClrCrc m).rd b = m.rd b := by
    intro b hb
    simp only [rsClrCrc, rd_fill, ownCrc]
    rw [if_neg hb]
  ext s i
  case wm =>
    simp only [Machine.view, Machine.wmOf, Machine.pair, View.clear]
    split
    · rw [hcell _ (by simp only [seatWm]; omega), hcell _ (by simp only [seatWm]; omega)]
    · rfl
  case ring =>
    simp only [Machine.view, Machine.pageOf, View.clear]
    split
    · rw [hcell _ (by simp only [seatRing]; omega)]
    · rfl
  case kp =>
    simp only [Machine.view, Machine.pageOf, View.clear]
    split
    · rw [hcell _ (by simp only [seatKp]; omega)]
    · rfl
  case own =>
    simp only [Machine.view, View.clear, rsClrCrc, rd_fill, ownCrc]
    split
    · rw [if_pos (by omega), cellWidth_cart (by omega) (by omega)]
    · rfl
  all_goals
    simp only [Machine.view, Machine.pair, View.clear]
    first
      | rw [hcell _ (by simp), hcell _ (by simp)]
      | rw [hcell _ (by simp)]

/-- A view has four watermarks. -/
theorem view_wm_four (m : Machine) {s : Nat} (hs : ¬ s < 4) : m.view.wm s = 0 := if_neg hs

theorem view_putWm (lo hi : Nat) (m : Machine) :
    (putWm seatWm 4 lo hi m).view = m.view.markAll (hi % 256 * 256 + lo % 256) := by
  have h : (putWm seatWm 4 lo hi m).view =
      (((m.view.mark 0 (hi % 256 * 256 + lo % 256)).mark 1 (hi % 256 * 256 + lo % 256)).mark 2
        (hi % 256 * 256 + lo % 256)).mark 3 (hi % 256 * 256 + lo % 256) := by
    rw [← view_wr_wm (by decide), ← view_wr_wm (by decide), ← view_wr_wm (by decide),
      ← view_wr_wm (by decide)]
    rfl
  rw [h]
  ext s i
  case wm =>
    simp only [View.mark, View.markAll]
    by_cases h₃ : s = 3
    · rw [if_pos h₃, if_pos (by omega)]
    by_cases h₂ : s = 2
    · rw [if_neg h₃, if_pos h₂, if_pos (by omega)]
    by_cases h₁ : s = 1
    · rw [if_neg h₃, if_neg h₂, if_pos h₁, if_pos (by omega)]
    by_cases h₀ : s = 0
    · rw [if_neg h₃, if_neg h₂, if_neg h₁, if_pos h₀, if_pos (by omega)]
    · rw [if_neg h₃, if_neg h₂, if_neg h₁, if_neg h₀, if_neg (by omega),
        view_wm_four m (by omega)]
  all_goals rfl

/-! ## Baselines -/

theorem rsDisplayReset_frame {b : Nat} (hb : ¬ (0x28 ≤ b ∧ b ≤ 0x32)) (m : Machine) :
    (rsDisplayReset m).rd b = m.rd b := by
  refine Writes.frame (S := fun a _ => 0x28 ≤ a ∧ a ≤ 0x32) ?_ (fun _ => hb)
  exact .copy (.wr .refl (by omega)) fun i hi v => by omega

@[simp] theorem view_rsDisplayReset (m : Machine) : (rsDisplayReset m).view = m.view :=
  view_congr fun a ha => rsDisplayReset_frame (by simp only [ViewCell] at ha; omega) m

@[simp] theorem view_rsClampIsr (m : Machine) : (rsClampIsr m).view = m.view := by
  unfold rsClampIsr
  rw [view_wr (by simp [ViewCell]), view_wr (by simp [ViewCell]), view_wr (by simp [ViewCell]),
    view_wr (by simp [ViewCell])]

@[simp] theorem view_ssRebaseHook (m : Machine) : (ssRebaseHook m).view = m.view :=
  view_wr (by simp [ViewCell])

theorem tick_lt (m : Machine) : m.view.tick < 65536 := pair_lt m (by decide) (by decide)

theorem resume_lt (m : Machine) : m.view.resume < 65536 := pair_lt m (by decide) (by decide)

theorem pair_mod (m : Machine) {lo hi : Nat} (hlo : cellWidth lo = 256) (hhi : cellWidth hi = 256) :
    m.rd hi % 256 * 256 + m.rd lo % 256 = m.pair lo hi := by
  rw [Nat.mod_eq_of_lt (m.rd_byte hlo), Nat.mod_eq_of_lt (m.rd_byte hhi)]
  rfl

/-- `RS_REBASE`. -/
@[simp] theorem view_rsRebase (m : Machine) : (rsRebase m).view = m.view.rebase := by
  unfold rsRebase
  extract_lets m₁ m₂ m₃ m₄ r1 m₅ m₆ m₇ m₈
  have h₂ : m₂.view = { m.view with pend := 0, ptmo := 0 } := by
    show (ssRebaseHook (rsClampIsr (rsDisplayReset m₁))).view = _
    rw [view_ssRebaseHook, view_rsClampIsr, view_rsDisplayReset]
    show ((m.wr rsPend 0).wr rsPtmo 0).view = _
    rw [view_wr_ptmo, view_wr_pend]
  have h₃ : m₃.view = { m.view with pend := 0, ptmo := 0, tick := m.view.resume } := by
    show ((m₂.wr tickLo (m₂.rd rsRLo)).wr tickHi (m₂.rd rsRHi)).view = _
    rw [view_wr_tick, h₂, pair_mod m₂ (by decide) (by decide),
      show m₂.pair rsRLo rsRHi = m₂.view.resume from rfl, h₂]
  have h₄ : m₄.view = m₃.view.idle := view_lsRingInit m₃
  have hr1 : r1 = (m.view.resume + m.view.delay + 65535) % 65536 := by
    show (m₄.view.resume + m₄.view.delay + 65535) % 65536 = _
    rw [h₄, h₃]
    rfl
  have hlt : r1 < 65536 := Nat.mod_lt _ (by decide)
  have hbytes : r1 / 256 % 256 * 256 + r1 % 256 % 256 = r1 := by omega
  have h₅ : m₅.view = m₄.view.markAll r1 := by
    show (putWm seatWm 4 (r1 % 256) (r1 / 256) m₄).view = _
    rw [view_putWm, hbytes]
  have h₆ : m₆.view = m₅.view.clear := view_rsClrCrc m₅
  have h₈ : m₈.view = { m₆.view with hold := 0 } := by
    simp only [m₈, m₇]
    rw [view_wr (by simp [ViewCell]), view_wr (by simp [ViewCell]), view_wr (by simp [ViewCell]),
      view_wr (by simp [ViewCell]), view_wr_hold]
  rw [view_note, h₈, h₆, h₅, h₄, h₃, hr1]
  generalize m.view = v
  rfl

/-- `RS_ENTER_HOLD`. -/
@[simp] theorem view_rsEnterHold (m : Machine) :
    (rsEnterHold m).view = { m.view.clear with hold := 1 } := by
  unfold rsEnterHold
  rw [view_rsClrCrc, view_wr (by simp [ViewCell]), view_wr (by simp [ViewCell]), view_wr_hold]
  rfl

/-- `LS_IDLE_RMT`. -/
theorem view_lsIdleRmt (m : Machine) :
    (lsIdleRmt m).view = m.view.idle.markAll ((m.view.tick + 0x4000) % 65536) := by
  have hlo : (lsRingInit m).rd tickLo = m.rd tickLo := by
    simp [lsRingInit, rd_fill]
  have hhi : (lsRingInit m).rd tickHi = m.rd tickHi := by
    simp [lsRingInit, rd_fill]
  have hb₁ := m.rd_byte (a := tickLo) (by decide)
  have hb₂ := m.rd_byte (a := tickHi) (by decide)
  have hwm : (m.rd tickHi + 0x40) % 256 * 256 + m.rd tickLo % 256 =
      (m.view.tick + 0x4000) % 65536 := by
    show _ = (m.rd tickHi * 256 + m.rd tickLo + 0x4000) % 65536
    omega
  unfold lsIdleRmt
  dsimp only
  rw [view_putWm, view_lsRingInit, hlo, hhi, hwm]

end SharkNetplay.Console
