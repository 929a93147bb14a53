import SharkNetplay.Console.ResyncBounds
import SharkNetplay.Console.Stream

/-!
# Where the session writes

The footprint of `SES_ONFRAME` and of the pump. Two wire values reach an address
without a bound of their own: the count of a ROOM frame runs the roster rows, and
the seat of an INPUT selects a ring page. `Tame` bounds them; under it every
write stays in the console's own areas.
-/

namespace SharkNetplay.Console

open Lib Cell Machine

variable {m m' : Machine}

/-- The frame in `FRMBUF` keeps what is indexed by its fields in bounds. -/
structure Tame (m : Machine) : Prop where
  input : m.rd (frmBuf + 1) = ftInput → inputFresh m = true → m.rd (frmBuf + 2) ≤ 3
  room : m.rd (frmBuf + 1) = ftRoom → m.rd netActive = 0 → 34 ≤ m.rd frmBuf →
    m.rd (frmBuf + 2) ≤ 9

/-! ## Handlers -/

/-- The cached lobby never grows past 8 entries. -/
theorem lobbyCnt_keeps (h : Writes HandlerCell m m') (hm : m.rd lobbyCnt ≤ 8) :
    m'.rd lobbyCnt ≤ 8 := by
  refine h.keeps (P := fun v => v ≤ 8) (fun v hv => ?_) hm
  exact Nat.le_trans (Nat.mod_le _ _) (hv.2.2.2.2.2 rfl)

theorem screen_handler (h : Writes Screen m m') : Writes HandlerCell m m' :=
  h.mono fun _ _ => handlerCell_of_screen

theorem cprSlots_writes (src dst n : Nat) (m : Machine) :
    Writes (fun a _ => dst ≤ a ∧ a < dst + 9 * n) m (cprSlots src dst n m) := by
  induction n generalizing src dst m with
  | zero => exact .refl
  | succ n ih =>
      have hslot : Writes (fun a _ => dst ≤ a ∧ a < dst + 9 * (n + 1)) m
          ((m.copy src dst 8).wr (dst + 8) 0) := by
        refine .wr (.copy .refl fun i hi v => ?_) ?_
        · omega
        · omega
      refine hslot.trans ((ih (src + 8) (dst + 9) _).mono fun a v ha => ?_)
      omega

/-- The roster goes to `NAME_TBL`. -/
theorem sesCproster_names (src : Nat) (m : Machine) :
    Writes (fun a _ => 0x81C0 ≤ a ∧ a ≤ 0x81E3) m (sesCproster src m) := by
  refine (cprSlots_writes src nameTbl 4 m).mono fun a v ha => ?_
  simp only [nameTbl] at ha
  omega

theorem sesCproster_writes {src : Nat} (h : Writes HandlerCell m m') :
    Writes HandlerCell m (sesCproster src m') := by
  refine h.trans ((sesCproster_names src m').mono fun a v ha => ?_)
  simp only [HandlerCell, Area, rxWr, rxRd, diagSlip, lobbyCnt]
  omega

/-- An INPUT of seat 0 to 3 lands in the ring pages. -/
theorem ofInput_writes (hseat : inputFresh m = true → m.rd (frmBuf + 2) ≤ 3) :
    Writes HandlerCell m (ofInput m) := by
  unfold ofInput
  split
  case isTrue hfresh =>
    have hs := hseat hfresh
    have hlo : m.rd (frmBuf + 3) < 256 := m.rd_byte (by decide)
    extract_lets r3 r4 m₁ m₂
    have h3 : 0x81A0 ≤ r3 ∧ r3 ≤ 0x81A6 := by
      simp only [r3, seatWm]
      omega
    have h4 : 0x8400 ≤ r4 ∧ r4 ≤ 0x87FF := by
      simp only [r4, seatRing]
      omega
    refine (((Writes.refl.wr ?_).wr ?_).wr ?_).wr ?_
    all_goals
      simp only [HandlerCell, Area, seatRing, seatKp, rxWr, rxRd, diagSlip, lobbyCnt]
      omega
  case isFalse => exact .refl

theorem ofLobby_writes (m : Machine) : Writes HandlerCell m (ofLobby m) := by
  unfold ofLobby
  split
  · exact .refl
  extract_lets r2 m₁ m₂ m₃
  split
  · exact .refl
  have hr2 : r2 ≤ 8 := Nat.min_le_right _ _
  have h₁ : Writes HandlerCell m m₁ := by
    refine .wr .refl ⟨by simp [Area], by simp, by simp, by simp, by simp, fun _ => hr2⟩
  have hcnt₁ : m₁.rd lobbyCnt ≤ 8 := by
    rw [rd_wr, if_pos rfl]
    exact Nat.le_trans (Nat.mod_le _ _) hr2
  have h₁₂ : Writes HandlerCell m₁ m₂ := by
    show Writes HandlerCell m₁ (ite _ _ _)
    split
    · exact .refl
    · exact .wr .refl (by simp [HandlerCell, Area])
  have h₁₃ : Writes HandlerCell m₁ m₃ := by
    refine h₁₂.copy fun i hi v => ?_
    simp only [HandlerCell, Area, lobbyCache, rxWr, rxRd, diagSlip, lobbyCnt]
    omega
  split
  · exact h₁.trans h₁₃
  · exact (h₁.trans h₁₃).trans (screen_handler (sesRender_writes (lobbyCnt_keeps h₁₃ hcnt₁)))

theorem ofStart_writes (m : Machine) : Writes HandlerCell m (ofStart m) := by
  unfold ofStart
  split
  · exact .refl
  extract_lets m₁ m₂ m₃ m₄ m₅ m₆ m₇ m₈ m₉
  have h₅ : Writes HandlerCell m m₅ := by
    refine ((((Writes.refl.wr ?_).wr ?_).wr ?_).wr ?_).wr ?_ <;> simp [HandlerCell, Area]
  have h₈ : Writes HandlerCell m m₈ :=
    putWm_writes (Nat.le_refl _) (by decide)
      (rsClrCrc_writes (lsRingInit_writes (sesCproster_writes h₅)))
  refine ((h₈.wr ?_).wr ?_).wr ?_ <;> simp [HandlerCell, Area]

theorem sesCproster_frame {src b : Nat} (m : Machine) (hb : b < nameTbl ∨ nameTbl + 36 ≤ b) :
    (sesCproster src m).rd b = m.rd b := by
  refine (sesCproster_names src m).frame fun v hv => ?_
  simp only [nameTbl] at hb
  omega

theorem ofRoom_writes (hcount : m.rd netActive = 0 → 34 ≤ m.rd frmBuf → m.rd (frmBuf + 2) ≤ 9)
    (hl : m.rd lobbyCnt ≤ 8) : Writes HandlerCell m (ofRoom m) := by
  unfold ofRoom
  split
  case isTrue => exact .refl
  case isFalse hgo =>
    have hact : m.rd netActive = 0 := by
      by_contra h
      exact hgo (Or.inl h)
    have hc : m.rd (frmBuf + 2) ≤ 9 := hcount hact (by
      by_contra h
      exact hgo (Or.inr (by omega)))
    extract_lets m₁ m₂ m₃ m₄
    have h₁ : Writes HandlerCell m m₁ := .wr .refl (by simp [HandlerCell, Area])
    have hcnt₁ : m₁.rd roomCnt ≤ 9 := by
      rw [rd_wr, if_pos rfl]
      exact Nat.le_trans (Nat.mod_le _ _) hc
    split
    · have h₃ : Writes HandlerCell m m₃ :=
        (sesCproster_writes h₁).wr (by simp [HandlerCell, Area])
      have hcnt₃ : m₃.rd roomCnt ≤ 9 := by
        rw [rd_wr, if_neg (by decide), sesCproster_frame _ (by decide)]
        exact hcnt₁
      have hact₃ : m₃.rd netActive = 0 := by
        rw [rd_wr, if_neg (by decide), sesCproster_frame _ (by decide), rd_wr, if_neg (by decide)]
        exact hact
      exact h₃.trans (screen_handler (sesRoomscr_writes hact₃ hcnt₃))
    · have h₄ : Writes HandlerCell m m₄ := by
        refine (h₁.wr ?_).wr ?_ <;> simp [HandlerCell, Area]
      have h₅ : Writes HandlerCell m (uiPrint 0 strTitle (uiCls m₄)) :=
        h₄.trans (screen_handler (uiPrint_writes (by decide) (uiCls_writes .refl)))
      exact h₅.trans (screen_handler (sesRender_writes (lobbyCnt_keeps h₅ hl)))

theorem lsIdleRmt_writes (h : Writes HandlerCell m m') :
    Writes HandlerCell m (lsIdleRmt m') :=
  putWm_writes (Nat.le_refl _) (by decide) (lsRingInit_writes h)

theorem ofPl_writes (m : Machine) : Writes HandlerCell m (ofPl m) := by
  unfold ofPl
  extract_lets m₀ m₁
  have h₁ : Writes HandlerCell m m₁ := by
    show Writes HandlerCell m (ite _ _ _)
    split
    · exact .refl
    · refine .wr (.copy (.wr .refl ?_) fun i hi v => ?_) ?_
      · simp [HandlerCell, Area]
      · simp only [HandlerCell, Area, leftName, rxWr, rxRd, diagSlip, lobbyCnt]
        omega
      · simp [HandlerCell, Area]
  refine lsIdleRmt_writes ((h₁.wr ?_).wr ?_) <;> simp [HandlerCell, Area]

/-- `SES_ONFRAME` on a tame frame. -/
theorem sesOnframe_writes (ht : Tame m) (hl : m.rd lobbyCnt ≤ 8) :
    Writes HandlerCell m (sesOnframe m) := by
  unfold sesOnframe
  extract_lets m₁ ty
  have h₁ : Writes HandlerCell m m₁ := Writes.note .refl
  split_ifs with hi hlb hs hp hr hc hst hq
  · exact h₁.trans (ofInput_writes (ht.input hi))
  · exact h₁.trans (ofLobby_writes m₁)
  · exact h₁.trans (ofStart_writes m₁)
  · exact h₁.trans (ofPl_writes m₁)
  · exact h₁.trans (ofRoom_writes (ht.room hr) hl)
  · exact rsOnCrc_writes h₁
  · exact rsOnState_writes h₁
  · exact rsOnReq_writes h₁
  · exact h₁

end SharkNetplay.Console
