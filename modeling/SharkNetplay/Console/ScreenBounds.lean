import SharkNetplay.Console.Footprint

/-!
# Where the screens write

The roster, waiting-room and lobby screens stay in BACKTAB while the counts that
run their loops are bounded.
-/

namespace SharkNetplay.Console

open Lib Cell Machine

variable {m m' : Machine}

/-- BACKTAB and the two scratch cells of the screen code. -/
def Screen (a _v : Nat) : Prop := (0x200 ≤ a ∧ a ≤ 0x2EF) ∨ a = uiColor ∨ a = ppTmp

theorem printFrom_writes {S : Nat → Nat → Prop} (colour : Nat) (str : List Nat) {a : Nat}
    (h : Writes S m m') (hS : ∀ i < str.length, ∀ v, S (a + i) v) :
    Writes S m (printFrom colour a str m') := by
  induction str generalizing a m' with
  | nil => exact h
  | cons ch rest ih =>
      refine ih (h.wr (by simpa using hS 0 (by simp) _)) fun i hi v => ?_
      simpa [Nat.add_assoc, Nat.add_comm 1 i] using hS (i + 1) (by simpa using hi) v

theorem printCells_writes {S : Nat → Nat → Prop} (colour n : Nat) {a p : Nat}
    (h : Writes S m m') (hS : ∀ i < n, ∀ v, S (a + i) v) :
    Writes S m (printCells colour a p n m') := by
  induction n generalizing a p m' with
  | zero => exact h
  | succ n ih =>
      unfold printCells
      split
      · exact h
      · refine ih (h.wr (by simpa using hS 0 (by omega) _)) fun i hi v => ?_
        simpa [Nat.add_assoc, Nat.add_comm 1 i] using hS (i + 1) (by omega) v

theorem uiPrint_writes {off : Nat} {str : List Nat} (hfit : off + str.length ≤ 240)
    (h : Writes Screen m m') : Writes Screen m (uiPrint off str m') := by
  refine printFrom_writes _ _ h fun i hi v => ?_
  simp only [Screen]
  omega

theorem uiPrintN_writes {off p n : Nat} (hfit : off + n ≤ 240)
    (h : Writes Screen m m') : Writes Screen m (uiPrintN off p n m') := by
  refine printCells_writes _ _ h fun i hi v => ?_
  simp only [Screen]
  omega

theorem uiCls_writes (h : Writes Screen m m') : Writes Screen m (uiCls m') := by
  refine .fill (h.wr (by simp [Screen])) fun i hi => ?_
  simp only [Screen, backtab]
  omega

theorem rd_printCells_ne {colour n a p b : Nat} (hb : b < a ∨ a + n ≤ b) (m : Machine) :
    (printCells colour a p n m).rd b = m.rd b := by
  have h := printCells_writes (S := fun c _ => a ≤ c ∧ c < a + n) (p := p) colour n (a := a)
    (Writes.refl (m := m)) (by omega)
  exact h.frame (by omega)

theorem rd_uiPrintN_ppTmp {off p n : Nat} (hfit : off + n ≤ 240) (m : Machine) :
    (uiPrintN off p n m).rd ppTmp = m.rd ppTmp := by
  refine rd_printCells_ne (Or.inr ?_) m
  simp only [ppTmp]
  omega

/-- Row `r3` of the roster stays in BACKTAB up to seat 8. -/
theorem rosterRow_writes {r3 : Nat} (hr : r3 ≤ 8) (h : Writes Screen m m') :
    Writes Screen m (rosterRow r3 m') := by
  unfold rosterRow
  extract_lets m₁ r1 m₂ m₃ m₄
  have hr1 : r1 = 20 * (r3 + 3) + 4 := rfl
  have h₃ : Writes Screen m m₃ := by
    refine ((h.wr (by simp [Screen])).wr (by simp [Screen])).wr ?_
    simp only [Screen]
    omega
  have hpp₃ : m₃.rd ppTmp = r1 := by
    have hne : ppTmp ≠ r1 + 0x200 - 2 := by simp only [ppTmp]; omega
    have hlt : r1 < 256 := by omega
    rw [rd_wr, if_neg hne, rd_wr, if_pos rfl]
    exact Nat.mod_eq_of_lt hlt
  have h₄ : Writes Screen m m₄ := uiPrintN_writes (by rw [hpp₃]; omega) h₃
  have hpp₄ : m₄.rd ppTmp = r1 := by
    rw [← hpp₃]
    exact rd_uiPrintN_ppTmp (by rw [hpp₃]; omega) m₃
  split
  · refine h₄.wr ?_
    rw [hpp₄]
    simp only [Screen]
    omega
  · exact h₄

theorem rosterRows_writes {n : Nat} {r3 : Nat} (hn : r3 + n ≤ 9) (h : Writes Screen m m') :
    Writes Screen m (rosterRows r3 n m') := by
  induction n generalizing r3 m' with
  | zero => exact h
  | succ n ih => exact ih (by omega) (rosterRow_writes (by omega) h)

/-- `SES_ROSTER` with a count of at most 9. -/
theorem sesRoster_writes
    (hcount : (if m'.rd netActive = 0 then m'.rd roomCnt else m'.rd netCount) ≤ 9)
    (h : Writes Screen m m') : Writes Screen m (sesRoster m') := by
  refine (rosterRows_writes ?_ h).wr (by simp [Screen])
  omega

theorem screen_ne {a v : Nat} (h : Screen a v) {b : Nat} (hb : 0x2F0 ≤ b) (hc : b ≠ uiColor)
    (hp : b ≠ ppTmp) : a ≠ b := by
  rintro rfl
  rcases h with h | h | h
  · omega
  · exact hc h
  · exact hp h

/-- Screens leave every cell above BACKTAB but their scratch cells alone. -/
theorem Writes.screen_frame (h : Writes Screen m m') {b : Nat} (hb : 0x2F0 ≤ b)
    (hc : b ≠ uiColor) (hp : b ≠ ppTmp) : m'.rd b = m.rd b :=
  Machine.Writes.frame h fun _ hs => screen_ne hs hb hc hp rfl

theorem sesRoomscr_writes (hinactive : m.rd netActive = 0) (hcount : m.rd roomCnt ≤ 9) :
    Writes Screen m (sesRoomscr m) := by
  have h₁ : Writes Screen m (uiPrint 20 strRoom (uiPrint 0 strTitle (uiCls m))) :=
    uiPrint_writes (by decide) (uiPrint_writes (by decide) (uiCls_writes .refl))
  have h₂ := h₁.wr (a := 0x200 + 20 + 13)
    (v := (m.rd roomCnt + 48 - 32) * 8 ^^^ cWhite) (by simp [Screen])
  have hact := Writes.screen_frame h₂ (b := netActive) (by simp) (by simp) (by simp)
  have hcnt := Writes.screen_frame h₂ (b := roomCnt) (by simp) (by simp) (by simp)
  have hcnt₁ := Writes.screen_frame h₁ (b := roomCnt) (by simp) (by simp) (by simp)
  unfold sesRoomscr
  dsimp only
  rw [hcnt₁]
  have h₃ := sesRoster_writes (by rw [hact, hcnt, if_pos hinactive]; exact hcount) h₂
  split
  · exact uiPrint_writes (by decide) h₃
  · exact uiPrint_writes (by decide) h₃

theorem renderRow_writes {r3 : Nat} (hr : r3 ≤ 7) (h : Writes Screen m m') :
    Writes Screen m (renderRow r3 m') := by
  unfold renderRow
  extract_lets m₁ r2 status m₂ m₃ m₄
  have hpp₂ : m₂.rd ppTmp = 20 * (r3 + 4) + 2 := by
    rw [rd_wr, if_neg (by decide), rd_wr, if_pos rfl]
    exact Nat.mod_eq_of_lt (show 20 * (r3 + 4) + 2 < 256 by omega)
  have h₂ : Writes Screen m m₂ := (h.wr (by simp [Screen])).wr (by simp [Screen])
  have h₃ : Writes Screen m m₃ := uiPrintN_writes (by rw [hpp₂]; omega) h₂
  have hpp₃ : m₃.rd ppTmp = 20 * (r3 + 4) + 2 := by
    rw [← hpp₂]
    exact rd_uiPrintN_ppTmp (by rw [hpp₂]; omega) m₂
  have h₄ : Writes Screen m m₄ ∧ m₄.rd ppTmp = 20 * (r3 + 4) + 2 := by
    show Writes Screen m (ite _ _ _) ∧ (ite _ _ _ : Machine).rd ppTmp = _
    split
    · exact ⟨h₃, hpp₃⟩
    · constructor
      · refine h₃.wr ?_
        rw [hpp₃]
        simp only [Screen]
        omega
      · rw [rd_wr, hpp₃, if_neg (by simp only [ppTmp]; omega)]
  split
  · refine h₄.1.wr ?_
    rw [h₄.2]
    simp only [Screen]
    omega
  · exact h₄.1

theorem renderRows_writes {n : Nat} {r3 : Nat} (hn : r3 + n ≤ 8) (h : Writes Screen m m') :
    Writes Screen m (renderRows r3 n m') := by
  induction n generalizing r3 m' with
  | zero => exact h
  | succ n ih => exact ih (by omega) (renderRow_writes (by omega) h)

/-- The matched screen stays in BACKTAB while the seat count is at most 9. -/
theorem sesGo_writes (hactive : m.rd netActive ≠ 0) (hcount : m.rd netCount ≤ 9) :
    Writes Screen m (sesGo m) := by
  have h₁ : Writes Screen m (uiPrint 0 strTitle (uiCls m)) :=
    uiPrint_writes (by decide) (uiCls_writes .refl)
  have hact := Writes.screen_frame h₁ (b := netActive) (by simp) (by simp) (by simp)
  have hcnt := Writes.screen_frame h₁ (b := netCount) (by simp) (by simp) (by simp)
  have h₂ := sesRoster_writes (by rw [hact, hcnt, if_neg hactive]; exact hcount) h₁
  unfold sesGo
  extract_lets m₁ m₂ m₃ m₄
  have h₃ : Writes Screen m m₃ := uiPrint_writes (by decide) (h₂.wr (by simp [Screen]))
  have h₄ : Writes Screen m m₄ := h₃.wr (by simp [Screen])
  exact uiPrint_writes (by decide) h₄

/-- `SES_RENDER` stays on screen while the cached list has at most 8 entries. -/
theorem sesRender_writes (hcnt : m.rd lobbyCnt ≤ 8) : Writes Screen m (sesRender m) := by
  have h₁ : Writes Screen m (uiPrint (20 * 3) strPick (m.wr uiColor cWhite)) :=
    uiPrint_writes (by decide) (.wr .refl (by simp [Screen]))
  have h₂ : Writes Screen m
      ((uiPrint (20 * 3) strPick (m.wr uiColor cWhite)).fill (0x200 + 20 * 4) 160 0) := by
    refine h₁.fill fun i hi => ?_
    simp only [Screen]
    omega
  have hc := Writes.screen_frame h₂ (b := lobbyCnt) (by simp) (by simp) (by simp)
  unfold sesRender
  dsimp only
  refine (renderRows_writes ?_ h₂).wr (by simp [Screen])
  rw [hc]
  omega

end SharkNetplay.Console
