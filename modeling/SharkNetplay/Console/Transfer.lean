import Mathlib.Data.List.Nodup
import SharkNetplay.Lib.Patch
import SharkNetplay.Console.Effects

/-!
# Applying the state image

Writing image bytes through `IMG_PUT` is overwriting the image as a list: each byte
lands at its own position and at no other, although BACKTAB and the object table keep
two positions in a word.

## Implementation notes

The image determines every simulation cell but the live table pointer `$035D`.
-/

namespace SharkNetplay.Console

open Lib Cell Machine

variable {m m' : Machine}

/-- The content of the cell of position `p` after its byte became `b`. -/
def imgWord (p w b : Nat) : Nat :=
  if p < imgS1 ∨ imgS3 ≤ p then b
  else if (if p < imgS2 then p - imgS1 else p - imgS2) % 2 = 0 then w / 256 * 256 + b
  else w % 256 + b * 256

theorem rd_rsTmp {b : Nat} (hb : b < 256) (m : Machine) : (m.wr rsTmp b).rd rsTmp = b := by
  rw [rd_wr, if_pos rfl]
  exact Nat.mod_eq_of_lt hb

/-- `IMG_PUT` writes one cell. -/
theorem imgPut_eq {p b : Nat} (hp : p < imgTotal) (hb : b < 256) (m : Machine) :
    imgPut b p m = (m.wr rsTmp b).wr (imgCell p) (imgWord p (m.rd (imgCell p)) b) := by
  have htmp := rd_rsTmp hb m
  have hcell : (m.wr rsTmp b).rd (imgCell p) = m.rd (imgCell p) := by
    rw [rd_wr, if_neg]
    intro h
    have hsim := simCell_imgCell hp
    rw [h] at hsim
    exact absurd hsim (by decide)
  have hle : imgS1 ≤ imgS2 ∧ imgS2 ≤ imgS3 := by decide
  unfold imgPut imgWord
  dsimp only
  by_cases h₁ : p < imgS1
  · rw [if_pos h₁, if_pos (Or.inl h₁), htmp, imgCell_scratch h₁]
  by_cases h₂ : p < imgS2
  · rw [imgCell_backtab (by omega) h₂] at hcell ⊢
    rw [if_neg h₁, if_pos h₂, if_neg (not_or.mpr ⟨h₁, by omega⟩), if_pos h₂]
    unfold putHalf
    dsimp only
    rw [hcell, htmp]
    split <;> rfl
  by_cases h₃ : p < imgS3
  · rw [imgCell_objects (by omega) h₃] at hcell ⊢
    rw [if_neg h₁, if_neg h₂, if_pos h₃, if_neg (not_or.mpr ⟨h₁, by omega⟩), if_neg h₂]
    unfold putHalf
    dsimp only
    rw [hcell, htmp]
    split <;> rfl
  · rw [if_neg h₁, if_neg h₂, if_neg h₃, if_pos (Or.inr (by omega)), htmp,
      imgCell_tail (by omega)]

theorem rsTailtbl_range : ∀ t ∈ rsTailtbl, 0x80C0 ≤ t ∧ t ≤ 0x9FFF := by decide

/-- The tail cell of a position. -/
theorem imgCell_tail_mem {p : Nat} (h : imgS3 ≤ p) (hp : p < imgTotal) :
    imgCell p ∈ rsTailtbl := by
  have hlt : p - imgS3 < rsTailtbl.length := by
    simp only [imgS3, imgTotal, rsTailtbl, List.length_cons, List.length_nil] at *
    omega
  rw [imgCell_tail h, List.getD_eq_getElem _ _ hlt]
  exact List.getElem_mem hlt

/-- Two positions share a cell only as the halves of a word. -/
theorem imgCell_eq {p q : Nat} (hp : p < imgTotal) (hq : q < imgTotal)
    (h : imgCell q = imgCell p) :
    q = p ∨ (imgS1 ≤ p ∧ p < imgS2 ∧ imgS1 ≤ q ∧ q < imgS2 ∧ (q - imgS1) / 2 = (p - imgS1) / 2) ∨
      (imgS2 ≤ p ∧ p < imgS3 ∧ imgS2 ≤ q ∧ q < imgS3 ∧ (q - imgS2) / 2 = (p - imgS2) / 2) := by
  -- each section has its own range of cells
  have hsection : ∀ r, r < imgTotal → (r < imgS1 ∧ imgCell r = r + 0x15D) ∨
      (imgS1 ≤ r ∧ r < imgS2 ∧ imgCell r = (r - imgS1) / 2 + 0x200) ∨
      (imgS2 ≤ r ∧ r < imgS3 ∧ imgCell r = (r - imgS2) / 2 + 0x31D) ∨
      (imgS3 ≤ r ∧ 0x80C0 ≤ imgCell r) := by
    intro r hr
    by_cases h₁ : r < imgS1
    · exact Or.inl ⟨h₁, imgCell_scratch h₁⟩
    by_cases h₂ : r < imgS2
    · exact Or.inr (Or.inl ⟨by omega, h₂, imgCell_backtab (by omega) h₂⟩)
    by_cases h₃ : r < imgS3
    · exact Or.inr (Or.inr (Or.inl ⟨by omega, h₃, imgCell_objects (by omega) h₃⟩))
    · exact Or.inr (Or.inr (Or.inr ⟨by omega,
        (rsTailtbl_range _ (imgCell_tail_mem (by omega) hr)).1⟩))
  have htail : imgS3 ≤ p → imgS3 ≤ q → q = p := by
    intro h₁ h₂
    have hlen : rsTailtbl.length = 15 := rfl
    have hnodup : rsTailtbl.Nodup := by decide
    simp only [imgS3, imgTotal] at *
    rw [imgCell_tail h₁, imgCell_tail h₂, List.getD_eq_getElem _ _ (by simp only [imgS3]; omega),
      List.getD_eq_getElem _ _ (by simp only [imgS3]; omega)] at h
    have := (List.Nodup.getElem_inj_iff hnodup).mp h
    simp only [imgS3] at this
    omega
  have hp' := hsection p hp
  have hq' := hsection q hq
  simp only [imgS1, imgS2, imgS3, imgTotal] at *
  omega

/-! A byte and its word, section by section. -/

theorem imgByte_whole {p : Nat} (h : p < imgS1 ∨ imgS3 ≤ p) (w : Nat) : imgByte p w = w :=
  if_pos h

theorem imgWord_whole {p : Nat} (h : p < imgS1 ∨ imgS3 ≤ p) (w b : Nat) : imgWord p w b = b :=
  if_pos h

/-- The section a half word belongs to starts here. -/
def halfBase (p : Nat) : Nat := if p < imgS2 then imgS1 else imgS2

theorem imgByte_half {p : Nat} (h : imgS1 ≤ p) (hp : p < imgS3) (w : Nat) :
    imgByte p w = if (p - halfBase p) % 2 = 0 then w % 256 else w / 256 % 256 := by
  unfold imgByte halfBase
  rw [if_neg (by omega)]
  by_cases h₂ : p < imgS2
  · rw [if_pos h₂, if_pos h₂]
  · rw [if_neg h₂, if_neg h₂]

theorem imgWord_half {p : Nat} (h : imgS1 ≤ p) (hp : p < imgS3) (w b : Nat) :
    imgWord p w b = if (p - halfBase p) % 2 = 0 then w / 256 * 256 + b else w % 256 + b * 256 := by
  unfold imgWord halfBase
  rw [if_neg (by omega)]
  by_cases h₂ : p < imgS2
  · rw [if_pos h₂, if_pos h₂]
  · rw [if_neg h₂, if_neg h₂]

/-- A byte put at a position is read back there, and the other half of a word keeps its
own. -/
theorem imgByte_imgWord {p q w b : Nat} (hp : p < imgTotal) (hq : q < imgTotal) (hb : b < 256)
    (h : imgCell q = imgCell p) :
    imgByte q (imgWord p w b) = if q = p then b else imgByte q w := by
  have hsame : imgByte p (imgWord p w b) = b := by
    by_cases hwhole : p < imgS1 ∨ imgS3 ≤ p
    · rw [imgByte_whole hwhole, imgWord_whole hwhole]
    · rw [imgByte_half (by omega) (by omega), imgWord_half (by omega) (by omega)]
      by_cases hpar : (p - halfBase p) % 2 = 0
      · rw [if_pos hpar, if_pos hpar]
        omega
      · rw [if_neg hpar, if_neg hpar]
        omega
  by_cases hqp : q = p
  · rw [if_pos hqp, hqp, hsame]
  -- two positions of one word: the halves differ
  have hhalves : imgS1 ≤ p ∧ p < imgS3 ∧ imgS1 ≤ q ∧ q < imgS3 ∧ halfBase q = halfBase p ∧
      (q - halfBase p) / 2 = (p - halfBase p) / 2 ∧ halfBase p ≤ p ∧ halfBase p ≤ q := by
    have hle : imgS1 ≤ imgS2 ∧ imgS2 ≤ imgS3 := by decide
    rcases imgCell_eq hp hq h with hcase | ⟨h₁, h₂, h₃, h₄, h₅⟩ | ⟨h₁, h₂, h₃, h₄, h₅⟩
    · exact absurd hcase hqp
    · unfold halfBase
      rw [if_pos h₂, if_pos h₄]
      exact ⟨h₁, by omega, h₃, by omega, rfl, h₅, h₁, h₃⟩
    · unfold halfBase
      rw [if_neg (by omega), if_neg (by omega)]
      exact ⟨by omega, h₂, by omega, h₄, rfl, h₅, h₁, h₃⟩
  obtain ⟨h₁, h₂, h₃, h₄, hbase, hdiv, hle₁, hle₂⟩ := hhalves
  rw [if_neg hqp, imgByte_half h₃ h₄, imgByte_half h₃ h₄, imgWord_half h₁ h₂, hbase]
  by_cases hpar : (p - halfBase p) % 2 = 0
  · have hodd : ¬ (q - halfBase p) % 2 = 0 := by omega
    rw [if_neg hodd, if_neg hodd, if_pos hpar]
    omega
  · have heven : (q - halfBase p) % 2 = 0 := by omega
    rw [if_pos heven, if_pos heven, if_neg hpar]
    omega

theorem imgWord_lt {p b : Nat} (hb : b < 256) (m : Machine) :
    imgWord p (m.rd (imgCell p)) b < cellWidth (imgCell p) := by
  by_cases hwhole : p < imgS1 ∨ imgS3 ≤ p
  · rw [imgWord_whole hwhole]
    unfold cellWidth
    split <;> omega
  · have hle : imgS1 ≤ imgS2 ∧ imgS2 ≤ imgS3 := by decide
    have hrange : 0x200 ≤ imgCell p ∧ imgCell p ≤ 0x35C := by
      by_cases h₂ : p < imgS2
      · rw [imgCell_backtab (by omega) h₂]
        simp only [imgS1, imgS2, imgS3] at *
        omega
      · rw [imgCell_objects (by omega) (by omega)]
        simp only [imgS1, imgS2, imgS3] at *
        omega
    have hwide : cellWidth (imgCell p) = 65536 := by
      unfold cellWidth
      rw [if_neg (by omega)]
    have hw := m.rd_lt (imgCell p)
    rw [imgWord_half (by omega) (by omega), hwide]
    rw [hwide] at hw
    split <;> omega

/-- `IMG_PUT` sets one image byte. -/
theorem image_imgPut {p b : Nat} (hp : p < imgTotal) (hb : b < 256) (m : Machine) :
    image (imgPut b p m) = (image m).set p b := by
  refine List.ext_getElem (by simp [image_length]) fun q h₁ h₂ => ?_
  have hq : q < imgTotal := by
    rw [image_length] at h₁
    exact h₁
  have htmp : ∀ a, simCell a = true → (m.wr rsTmp b).rd a = m.rd a := by
    intro a ha
    rw [rd_wr, if_neg]
    rintro rfl
    exact absurd ha (by decide)
  rw [List.getElem_set]
  simp only [image, List.getElem_map, List.getElem_range]
  rw [imgGet_eq, imgGet_eq, imgPut_eq hp hb, rd_wr]
  by_cases hcell : imgCell q = imgCell p
  · have hw := m.rd_lt (imgCell p)
    have hle : cellWidth (imgCell p) ≤ 65536 := by
      unfold cellWidth
      split <;> decide
    rw [if_pos hcell, Nat.mod_eq_of_lt (imgWord_lt hb m),
      imgByte_imgWord hp hq hb hcell, hcell]
    by_cases hqp : q = p
    · rw [if_pos hqp, if_pos hqp.symm]
    · rw [if_neg hqp, if_neg (Ne.symm hqp)]
  · rw [if_neg hcell, if_neg (fun h => hcell (by rw [h])), htmp _ (simCell_imgCell hq)]

theorem range_succ (m : Machine) (a n : Nat) :
    m.range a (n + 1) = m.rd a :: m.range (a + 1) n := by
  have htail : ∀ i, (fun i => m.rd (a + i)) (Nat.succ i) = m.rd (a + 1 + i) := fun i => by
    rw [show a + 1 + i = a + Nat.succ i by omega]
  rw [Machine.range, List.range_succ_eq_map, List.map_cons, List.map_map]
  exact congrArg _ (List.map_congr_left fun i _ => htail i)

/-- What `@@rs_dl` writes. -/
def ApplyCell (a _v : Nat) : Prop :=
  (simCell a = true ∧ a ≠ execHtbl) ∨ a = rsTmp ∨ a = rsTmp2 ∨ a = rsPosLo ∨ a = rsPosHi

/-- The live table pointer is no part of the image. -/
theorem imgCell_ne_htbl {p : Nat} (hp : p < imgTotal) : imgCell p ≠ execHtbl := by
  intro h
  rcases imgCell_mem hp with hm | hm | hm | hm
  · simp only [execHtbl] at h
    omega
  · simp only [execHtbl] at h
    omega
  · simp only [execHtbl] at h
    omega
  · have := (rsTailtbl_range _ hm).1
    simp only [execHtbl] at h
    omega

theorem exists_tail {a : Nat} (ha : a ∈ rsTailtbl) : ∃ p < imgTotal, imgCell p = a := by
  obtain ⟨i, hi, rfl⟩ := List.mem_iff_getElem.mp ha
  have hlen : i < 15 := hi
  refine ⟨imgS3 + i, Nat.add_lt_add_left hlen 755, ?_⟩
  rw [imgCell_tail (Nat.le_add_right _ _), Nat.add_sub_cancel_left]
  exact List.getD_eq_getElem _ _ hi

theorem mem_tail_of_sim {a : Nat} (ha : simCell a = true) (hcart : 0x35D < a) :
    a ∈ rsTailtbl := by
  have h₁ : ¬ a ≤ 0x1EF := by omega
  have h₂ : ¬ a ≤ 0x2EF := by omega
  have h₃ : ¬ a ≤ 0x35D := by omega
  simp only [simCell, h₁, h₂, h₃, decide_false, Bool.and_false, Bool.false_or, Bool.or_eq_true,
    beq_iff_eq, or_assoc] at ha
  simpa only [rsTailtbl, List.mem_cons, List.not_mem_nil, or_false] using ha

/-- Every simulation cell but the live table pointer stands at some position. -/
theorem exists_imgCell {a : Nat} (ha : simCell a = true) (hne : a ≠ execHtbl) :
    ∃ p < imgTotal, imgCell p = a := by
  simp only [execHtbl] at hne
  have hsim := simCell_range ha
  by_cases h₁ : a ≤ 0x1EF
  · refine ⟨a - 0x15D, by simp only [imgTotal]; omega, ?_⟩
    rw [imgCell_scratch (by simp only [imgS1]; omega)]
    omega
  by_cases h₂ : a ≤ 0x2EF
  · refine ⟨imgS1 + 2 * (a - 0x200), by simp only [imgS1, imgTotal]; omega, ?_⟩
    rw [imgCell_backtab (by omega) (by simp only [imgS1, imgS2]; omega)]
    omega
  by_cases h₃ : a ≤ 0x35D
  · refine ⟨imgS2 + 2 * (a - 0x31D), by simp only [imgS2, imgTotal]; omega, ?_⟩
    rw [imgCell_objects (by omega) (by simp only [imgS2, imgS3]; omega)]
    omega
  · exact exists_tail (mem_tail_of_sim ha (by omega))

/-- `@@rs_dl` overwrites the image with the bytes of the frame. -/
theorem rsApply_spec (n : Nat) {r3 pos : Nat} (hpos : m.pair rsPosLo rsPosHi = pos)
    (hle : pos + n ≤ imgTotal) (hlo : 0x8300 ≤ r3) (hhi : r3 + n ≤ 0x8400) :
    Writes ApplyCell m (rsApply n r3 m) ∧
      image (rsApply n r3 m) = patch pos (m.range r3 n) (image m) := by
  induction n generalizing r3 pos m with
  | zero => exact ⟨.refl, by simp [rsApply, Machine.range]⟩
  | succ n ih =>
      have hp : pos < imgTotal := by omega
      have hbyte : m.rd r3 < 256 := m.rd_byte (cellWidth_cart (by omega) (by omega))
      unfold rsApply
      rw [hpos]
      extract_lets m₁ r0 m₂ m₃
      have h₁ : Writes ApplyCell m m₁ := (imgPut_writes (m.rd r3) pos m).mono fun a v ha => by
        rcases ha with rfl | rfl
        · exact Or.inr (Or.inl rfl)
        · exact Or.inl ⟨simCell_imgCell hp, imgCell_ne_htbl hp⟩
      have hpair₁ : m₁.pair rsPosLo rsPosHi = pos := by
        rw [← hpos]
        simp only [Machine.pair]
        rw [rd_imgPut_ne hp (by decide) (by decide), rd_imgPut_ne hp (by decide) (by decide)]
      have hpair₃ : m₃.pair rsPosLo rsPosHi = pos + 1 :=
        pair_advance hpair₁ (by simp only [imgTotal] at hp; omega)
      have h₃ : Writes (fun a _ => a = rsPosLo ∨ a = rsPosHi ∨ a = rsTmp2) m₁ (m₃.wr rsTmp2 n) := by
        refine .wr ?_ (by simp)
        show Writes _ m₁ (ite _ _ _)
        split
        · exact (Writes.refl.wr (by simp)).wr (by simp)
        · exact .wr .refl (by simp)
      have hpair : (m₃.wr rsTmp2 n).pair rsPosLo rsPosHi = pos + 1 := by
        rw [← hpair₃]
        simp [Machine.pair]
      obtain ⟨hw, himg⟩ := @ih (m₃.wr rsTmp2 n) (r3 + 1) _ hpair (by omega) (by omega) (by omega)
      have hsim₃ : image (m₃.wr rsTmp2 n) = image m₁ := by
        refine image_congr fun a ha => h₃.frame fun v hv => ?_
        rcases hv with rfl | rfl | rfl <;> exact absurd ha (by decide)
      have hrange : (m₃.wr rsTmp2 n).range (r3 + 1) n = m.range (r3 + 1) n := by
        refine range_congr fun i hi => ?_
        have hw₁ : Writes ApplyCell m (m₃.wr rsTmp2 n) := h₁.trans (h₃.mono fun a v hv => by
          rcases hv with rfl | rfl | rfl
          · exact Or.inr (Or.inr (Or.inr (Or.inl rfl)))
          · exact Or.inr (Or.inr (Or.inr (Or.inr rfl)))
          · exact Or.inr (Or.inr (Or.inl rfl)))
        refine hw₁.frame fun v hv => ?_
        rcases hv with ⟨hsim, -⟩ | hv | hv | hv | hv
        · have := simCell_range hsim
          omega
        · simp only [rsTmp] at hv
          omega
        · simp only [rsTmp2] at hv
          omega
        · simp only [rsPosLo] at hv
          omega
        · simp only [rsPosHi] at hv
          omega
      refine ⟨(h₁.trans (h₃.mono fun a v hv => ?_)).trans hw, ?_⟩
      · rcases hv with rfl | rfl | rfl
        · exact Or.inr (Or.inr (Or.inr (Or.inl rfl)))
        · exact Or.inr (Or.inr (Or.inr (Or.inr rfl)))
        · exact Or.inr (Or.inr (Or.inl rfl))
      · rw [himg, hrange, hsim₃, show image m₁ = _ from image_imgPut hp hbyte m]
        have hlen : (m.range (r3 + 1) n).length = n := by simp [Machine.range]
        rw [range_succ, patch_cons (by rw [hlen, image_length]; omega)]

end SharkNetplay.Console
