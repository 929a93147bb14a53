import Mathlib.Data.List.GetD
import SharkNetplay.Console.ScreenBounds

/-!
# Where the resync handlers write

The areas the netcode may write, what of them a frame handler writes, and the
footprint of the image writer and of the handlers of `resync.asm`.
-/

namespace SharkNetplay.Console

open Lib Cell Machine

variable {m m' : Machine}

/-- The areas the netcode may write: cart RAM, the ring pages, `OWN_CRC`, BACKTAB,
the cells of the resync image, the display block, the ISR vector with the EXEC
default, and the mailbox. -/
def Area (a v : Nat) : Prop :=
  (0x8080 ≤ a ∧ a ≤ 0x83FF) ∨ (0x8400 ≤ a ∧ a ≤ 0x8BFF) ∨ (0x8C00 ≤ a ∧ a ≤ 0x8C1F) ∨
    (0x200 ≤ a ∧ a ≤ 0x2EF) ∨ (∃ p < imgTotal, a = imgCell p) ∨
    (0x28 ≤ a ∧ a ≤ 0x2C) ∨ a = 0x32 ∨ (a = isrLo ∧ v = execIsrDef % 256) ∨
    (a = isrHi ∧ v = execIsrDef / 256) ∨ (0x9C00 ≤ a ∧ a ≤ 0x9FFF)

/-- What a frame handler writes: an area cell other than the receive accumulator,
its pointers, the frame buffer and `DIAG_SLIP`, and no `LOBBY_CNT` above 8. -/
def HandlerCell (a v : Nat) : Prop :=
  Area a v ∧ ¬ (0x8200 ≤ a ∧ a ≤ 0x837F) ∧ a ≠ rxWr ∧ a ≠ rxRd ∧ a ≠ diagSlip ∧
    (a = lobbyCnt → v ≤ 8)

theorem handlerCell_of_screen {a v : Nat} (h : Screen a v) : HandlerCell a v := by
  simp only [Screen, HandlerCell, Area, uiColor, ppTmp, rxWr, rxRd, diagSlip, lobbyCnt] at *
  omega

theorem handlerCell_of_mail {a v : Nat} (h : Mail a v) (ha : a ≠ diagSlip) :
    HandlerCell a v := by
  simp only [Mail, HandlerCell, Area, rxWr, rxRd, diagSlip, lobbyCnt] at *
  omega

/-! ## The image writer -/

theorem imgCell_scratch {p : Nat} (hp : p < imgS1) : imgCell p = p + 0x15D := if_pos hp

theorem imgCell_backtab {p : Nat} (h : imgS1 ≤ p) (hp : p < imgS2) :
    imgCell p = (p - imgS1) / 2 + 0x200 := by
  rw [imgCell, if_neg (by omega), if_pos hp]

theorem imgCell_objects {p : Nat} (h : imgS2 ≤ p) (hp : p < imgS3) :
    imgCell p = (p - imgS2) / 2 + 0x31D := by
  have h₁ : ¬ p < imgS1 := by simp only [imgS1, imgS2] at *; omega
  rw [imgCell, if_neg h₁, if_neg (by omega), if_pos hp]

theorem imgCell_tail {p : Nat} (h : imgS3 ≤ p) : imgCell p = rsTailtbl.getD (p - imgS3) 0 := by
  have h₁ : ¬ p < imgS1 := by simp only [imgS1, imgS3] at *; omega
  have h₂ : ¬ p < imgS2 := by simp only [imgS2, imgS3] at *; omega
  rw [imgCell, if_neg h₁, if_neg h₂, if_neg (by omega)]

/-- Where the cells of the image lie. -/
theorem imgCell_mem {p : Nat} (hp : p < imgTotal) :
    (0x15D ≤ imgCell p ∧ imgCell p ≤ 0x1EF) ∨ (0x200 ≤ imgCell p ∧ imgCell p ≤ 0x2EF) ∨
      (0x31D ≤ imgCell p ∧ imgCell p ≤ 0x35C) ∨ imgCell p ∈ rsTailtbl := by
  by_cases h₁ : p < imgS1
  · rw [imgCell_scratch h₁]
    simp only [imgS1] at *
    omega
  by_cases h₂ : p < imgS2
  · rw [imgCell_backtab (by omega) h₂]
    simp only [imgS1, imgS2] at *
    omega
  by_cases h₃ : p < imgS3
  · rw [imgCell_objects (by omega) h₃]
    simp only [imgS2, imgS3] at *
    omega
  · have hlt : p - imgS3 < rsTailtbl.length := by
      simp only [imgS3, imgTotal, rsTailtbl, List.length_cons, List.length_nil] at *
      omega
    rw [imgCell_tail (by omega), List.getD_eq_getElem _ _ hlt]
    exact Or.inr (Or.inr (Or.inr (List.getElem_mem hlt)))

theorem handlerCell_imgCell {p : Nat} (hp : p < imgTotal) (v : Nat) :
    HandlerCell (imgCell p) v := by
  refine ⟨by simp only [Area]; grind, ?_⟩
  have htail : ∀ t ∈ rsTailtbl, ¬ (0x8200 ≤ t ∧ t ≤ 0x837F) ∧ t ≠ rxWr ∧ t ≠ rxRd ∧
      t ≠ diagSlip ∧ t ≠ lobbyCnt := by decide
  simp only [rxWr, rxRd, diagSlip, lobbyCnt] at *
  rcases imgCell_mem hp with h | h | h | h
  · omega
  · omega
  · omega
  · have := htail _ h
    omega

theorem putHalf_writes {S : Nat → Nat → Prop} {a hi : Nat} (hS : ∀ v, S a v)
    (h : Writes S m m') : Writes S m (putHalf a hi m') := by
  unfold putHalf
  dsimp only
  split
  · exact h.wr (hS _)
  · exact h.wr (hS _)

/-- `IMG_PUT` writes its scratch cell and the cell of its position. -/
theorem imgPut_writes (r0 p : Nat) (m : Machine) :
    Writes (fun a _ => a = rsTmp ∨ a = imgCell p) m (imgPut r0 p m) := by
  have h₁ : Writes (fun a _ => a = rsTmp ∨ a = imgCell p) m (m.wr rsTmp r0) :=
    .wr .refl (Or.inl rfl)
  unfold imgPut imgCell at *
  split_ifs at *
  · exact h₁.wr (Or.inr rfl)
  · exact putHalf_writes (fun _ => Or.inr rfl) h₁
  · exact putHalf_writes (fun _ => Or.inr rfl) h₁
  · exact h₁.wr (Or.inr rfl)

theorem imgPut_handler {r0 p : Nat} (hp : p < imgTotal) (h : Writes HandlerCell m m') :
    Writes HandlerCell m (imgPut r0 p m') := by
  refine h.trans ((imgPut_writes r0 p m').mono ?_)
  rintro a v (rfl | rfl)
  · simp [HandlerCell, Area]
  · exact handlerCell_imgCell hp v

theorem simCell_imgCell {p : Nat} (hp : p < imgTotal) : simCell (imgCell p) = true := by
  have htail : ∀ t ∈ rsTailtbl, simCell t = true := by decide
  rcases imgCell_mem hp with h | h | h | h
  · simp [simCell, h.1, h.2]
  · simp [simCell, h.1, h.2]
  · have : imgCell p ≤ 0x35D := by omega
    simp [simCell, h.1, this]
  · exact htail _ h

theorem rd_imgPut_ne {r0 p b : Nat} (hp : p < imgTotal) (hb : simCell b = false)
    (hne : b ≠ rsTmp) (m : Machine) : (imgPut r0 p m).rd b = m.rd b := by
  refine (imgPut_writes r0 p m).frame fun _ hw => ?_
  rcases hw with rfl | rfl
  · exact hne rfl
  · rw [simCell_imgCell hp] at hb
    exact Bool.noConfusion hb

/-- The position cells advance by one, carrying into the high byte. -/
theorem pair_advance {pos : Nat} (hpos : m.pair rsPosLo rsPosHi = pos) (hlt : pos < 65535) :
    (if m.rd rsPosLo + 1 = 0x100 then
        (m.wr rsPosLo (m.rd rsPosLo + 1)).wr rsPosHi
          ((m.wr rsPosLo (m.rd rsPosLo + 1)).rd rsPosHi + 1)
      else m.wr rsPosLo (m.rd rsPosLo + 1)).pair rsPosLo rsPosHi = pos + 1 := by
  have hlo : m.rd rsPosLo < 256 := m.rd_byte (by decide)
  have hhi : m.rd rsPosHi < 256 := m.rd_byte (by decide)
  subst hpos
  simp only [Machine.pair, rsPosLo, rsPosHi] at *
  by_cases h : m.rd 0x8096 + 1 = 0x100
  · simp [h, cellWidth]
    omega
  · simp [h, cellWidth]
    omega

/-- `@@rs_dl` from a checked position stays inside the image. -/
theorem rsApply_writes (n : Nat) {r3 : Nat} (hpos : m'.pair rsPosLo rsPosHi + n ≤ imgTotal)
    (h : Writes HandlerCell m m') : Writes HandlerCell m (rsApply n r3 m') := by
  induction n generalizing r3 m' with
  | zero => exact h
  | succ n ih =>
      have hp : m'.pair rsPosLo rsPosHi < imgTotal := by omega
      unfold rsApply
      extract_lets m₁ r0 m₂ m₃
      have h₁ : Writes HandlerCell m m₁ := imgPut_handler hp h
      have hpair₁ : m₁.pair rsPosLo rsPosHi = m'.pair rsPosLo rsPosHi := by
        simp only [Machine.pair]
        rw [rd_imgPut_ne hp (by decide) (by decide), rd_imgPut_ne hp (by decide) (by decide)]
      have hlt : m'.pair rsPosLo rsPosHi < 65535 := by
        simp only [imgTotal] at hp
        omega
      have hpair₃ : m₃.pair rsPosLo rsPosHi = m'.pair rsPosLo rsPosHi + 1 :=
        pair_advance hpair₁ hlt
      have h₂ : Writes HandlerCell m m₂ := h₁.wr (by simp [HandlerCell, Area])
      have h₃ : Writes HandlerCell m m₃ := by
        show Writes HandlerCell m (ite _ _ _)
        split
        · exact h₂.wr (by simp [HandlerCell, Area])
        · exact h₂
      refine ih ?_ (h₃.wr (by simp [HandlerCell, Area]))
      have : (m₃.wr rsTmp2 n).pair rsPosLo rsPosHi = m₃.pair rsPosLo rsPosHi := by
        simp [Machine.pair]
      omega

/-! ## Resync handlers -/

theorem rsClrCrc_writes (h : Writes HandlerCell m m') : Writes HandlerCell m (rsClrCrc m') := by
  refine h.fill fun i hi => ?_
  simp only [HandlerCell, Area, ownCrc, rxWr, rxRd, diagSlip, lobbyCnt]
  omega

theorem rsEnterHold_writes (h : Writes HandlerCell m m') :
    Writes HandlerCell m (rsEnterHold m') := by
  refine rsClrCrc_writes (((h.wr ?_).wr ?_).wr ?_) <;> simp [HandlerCell, Area]

theorem rsDisplayReset_writes (h : Writes HandlerCell m m') :
    Writes HandlerCell m (rsDisplayReset m') := by
  refine .copy (h.wr (by simp [HandlerCell, Area])) fun i hi v => ?_
  simp only [HandlerCell, Area, rxWr, rxRd, diagSlip, lobbyCnt]
  omega

theorem rsClampIsr_writes (h : Writes HandlerCell m m') :
    Writes HandlerCell m (rsClampIsr m') := by
  have hsave : ∀ v, HandlerCell scIsrSave v := handlerCell_imgCell (p := 2) (by decide)
  have hsave₁ : ∀ v, HandlerCell (scIsrSave + 1) v := handlerCell_imgCell (p := 3) (by decide)
  refine (((h.wr (hsave _)).wr ?_).wr (hsave₁ _)).wr ?_ <;> simp [HandlerCell, Area]

theorem ssRebaseHook_writes (h : Writes HandlerCell m m') :
    Writes HandlerCell m (ssRebaseHook m') :=
  h.wr (handlerCell_imgCell (p := 21) (by decide) _)

theorem lsRingInit_cells (m : Machine) :
    Writes (fun a _ => 0x8400 ≤ a ∧ a ≤ 0x8BFF) m (lsRingInit m) := by
  refine (Writes.refl.fill fun i hi => ?_).fill fun i hi => ?_
  all_goals
    simp only [seatRing, seatKp]
    omega

theorem lsRingInit_writes (h : Writes HandlerCell m m') :
    Writes HandlerCell m (lsRingInit m') := by
  refine h.trans ((lsRingInit_cells m').mono fun a v ha => ?_)
  simp only [HandlerCell, Area, rxWr, rxRd, diagSlip, lobbyCnt]
  omega

theorem putWm_cells (a n lo hi : Nat) (m : Machine) :
    Writes (fun b _ => a ≤ b ∧ b < a + 2 * n) m (putWm a n lo hi m) := by
  induction n generalizing a m with
  | zero => exact .refl
  | succ n ih =>
      have hpair : Writes (fun b _ => a ≤ b ∧ b < a + 2 * (n + 1)) m
          ((m.wr a lo).wr (a + 1) hi) := by
        refine (Writes.refl.wr ?_).wr ?_
        · omega
        · omega
      refine hpair.trans ((ih (a + 2) _).mono fun b v hb => ?_)
      omega

theorem putWm_writes {a n lo hi : Nat} (ha : seatWm ≤ a) (hn : a + 2 * n ≤ seatWm + 8)
    (h : Writes HandlerCell m m') : Writes HandlerCell m (putWm a n lo hi m') := by
  refine h.trans ((putWm_cells a n lo hi m').mono fun b v hb => ?_)
  simp only [HandlerCell, Area, seatWm, rxWr, rxRd, diagSlip, lobbyCnt] at *
  omega

theorem rsRebase_writes (h : Writes HandlerCell m m') :
    Writes HandlerCell m (rsRebase m') := by
  unfold rsRebase
  extract_lets m₁ m₂ m₃ m₄ r1 m₅ m₆ m₇ m₈
  have h₁ : Writes HandlerCell m m₁ := by
    refine (h.wr ?_).wr ?_ <;> simp [HandlerCell, Area]
  have h₂ : Writes HandlerCell m m₂ :=
    ssRebaseHook_writes (rsClampIsr_writes (rsDisplayReset_writes h₁))
  have h₃ : Writes HandlerCell m m₃ := by
    refine (h₂.wr ?_).wr ?_ <;> simp [HandlerCell, Area]
  have h₅ : Writes HandlerCell m m₅ :=
    putWm_writes (Nat.le_refl _) (by decide) (lsRingInit_writes h₃)
  have h₇ : Writes HandlerCell m m₇ := by
    refine (((rsClrCrc_writes h₅).wr ?_).wr ?_).wr ?_ <;> simp [HandlerCell, Area]
  have h₈ : Writes HandlerCell m m₈ := by
    refine (h₇.wr ?_).wr ?_ <;> simp [HandlerCell, Area]
  exact h₈.note

theorem mail_handler (h : Writes Mail m m') : Writes HandlerCell m m' := by
  refine h.mono fun a v hs => handlerCell_of_mail hs ?_
  rintro rfl
  simp [Mail] at hs

theorem rsOnCrc_writes (h : Writes HandlerCell m m') : Writes HandlerCell m (rsOnCrc m') := by
  unfold rsOnCrc
  split
  · have h₁ : Writes HandlerCell m ((m'.wr rsPend 1).wr rsPtmo 0) := by
      refine (h.wr ?_).wr ?_ <;> simp [HandlerCell, Area]
    dsimp only
    split
    · exact h₁
    · exact h₁.trans (mail_handler (sendFrame_writes (by simp) _))
  · exact h

theorem rsOnReq_writes (h : Writes HandlerCell m m') : Writes HandlerCell m (rsOnReq m') := by
  unfold rsOnReq
  split
  · refine (h.wr ?_).wr ?_ <;> simp [HandlerCell, Area]
  · exact h

theorem rej_writes (h : Writes HandlerCell m m') :
    Writes HandlerCell m (diagBump diagRej m') :=
  diagBump_writes (by simp [HandlerCell, Area]) h

/-- Data of a STATE frame: the bounds test keeps the position inside the image. -/
theorem rsOnData_writes (h : Writes HandlerCell m m') :
    Writes HandlerCell m (rsOnData m') := by
  unfold rsOnData
  extract_lets r0 m₁ m₂
  split_ifs with hnone hbad
  · exact rej_writes h
  · exact rej_writes (h.wr (by simp [HandlerCell, Area]))
  · have h₂ : Writes HandlerCell m m₂ := by
      refine ((h.wr ?_).wr ?_).wr ?_ <;> simp [HandlerCell, Area]
    refine rsApply_writes r0 ?_ h₂
    have hpair : m₂.pair rsPosLo rsPosHi = m₁.pair (frmBuf + 2) (frmBuf + 3) := by
      have hlo := m₁.rd_byte (a := frmBuf + 2) (by decide)
      have hhi := m₁.rd_byte (a := frmBuf + 3) (by decide)
      simp only [Machine.pair, m₂, rd_wr, frmBuf, rsPosLo, rsPosHi] at *
      simp [cellWidth, Nat.mod_eq_of_lt hlo, Nat.mod_eq_of_lt hhi]
    omega

theorem rsOnState_writes (h : Writes HandlerCell m m') :
    Writes HandlerCell m (rsOnState m') := by
  unfold rsOnState
  split_ifs
  · exact rej_writes h
  · unfold rsOnCtl
    dsimp only
    split_ifs
    · exact rej_writes h
    · refine ((rsEnterHold_writes h).wr ?_).wr ?_ <;> simp [HandlerCell, Area]
    · exact rsRebase_writes h
    · exact h
  · exact rsOnData_writes h

end SharkNetplay.Console
