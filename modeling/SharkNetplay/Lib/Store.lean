import Mathlib.Logic.Function.Basic
import Mathlib.Data.List.Basic

/-!
# Cell stores with a write log

A store is an address space whose cells hold a bounded number of values. Reads
truncate to the width of the cell, so a store needs no well-formedness
hypothesis. Every write is logged with its address and value. The relation
`Writes` says which writes led from one store to another: it bounds them and
gives the frame of the unwritten cells at the same time.
-/

namespace SharkNetplay.Lib

/-- An address space and the writes made to it, newest first. -/
structure Store where
  cells : Nat → Nat
  log : List (Nat × Nat)

namespace Store

/-- Replace one cell and record the write. -/
def wr (s : Store) (a v : Nat) : Store :=
  ⟨Function.update s.cells a v, (a, v) :: s.log⟩

/-- The cell's content, truncated to the width of the cell. -/
def rd (width : Nat → Nat) (s : Store) (a : Nat) : Nat := s.cells a % width a

@[simp] theorem rd_wr (width : Nat → Nat) (s : Store) (a v b : Nat) :
    (s.wr a v).rd width b = if b = a then v % width a else s.rd width b := by
  by_cases h : b = a
  · subst h
    simp [rd, wr]
  · simp [rd, wr, h]

theorem rd_lt {width : Nat → Nat} (hw : ∀ a, 0 < width a) (s : Store) (a : Nat) :
    s.rd width a < width a := Nat.mod_lt _ (hw a)

/-- Only writes allowed by `S` lead from `s` to `s'`: each cell is as it was or
holds a value one of them wrote. -/
def Writes (S : Nat → Nat → Prop) (s s' : Store) : Prop :=
  ∃ l, s'.log = l ++ s.log ∧ (∀ p ∈ l, S p.1 p.2) ∧
    ∀ b, s'.cells b = s.cells b ∨ (b, s'.cells b) ∈ l

namespace Writes

variable {S T : Nat → Nat → Prop} {s s' s'' : Store}

theorem refl : Writes S s s := ⟨[], by simp⟩

theorem wr {a v : Nat} (h : S a v) : Writes S s (s.wr a v) := by
  refine ⟨[(a, v)], rfl, by simpa using h, ?_⟩
  intro b
  by_cases hb : b = a
  · subst hb
    exact Or.inr (by simp [Store.wr])
  · exact Or.inl (Function.update_of_ne hb _ _)

theorem trans (h₁ : Writes S s s') (h₂ : Writes S s' s'') : Writes S s s'' := by
  obtain ⟨l₁, hl₁, hs₁, hf₁⟩ := h₁
  obtain ⟨l₂, hl₂, hs₂, hf₂⟩ := h₂
  refine ⟨l₂ ++ l₁, by rw [hl₂, hl₁, List.append_assoc], ?_, ?_⟩
  · intro p hp
    rcases List.mem_append.mp hp with hp | hp
    · exact hs₂ p hp
    · exact hs₁ p hp
  · intro b
    rcases hf₂ b with h | h
    · rw [h]
      exact (hf₁ b).imp_right (List.mem_append_right _)
    · exact Or.inr (List.mem_append_left _ h)

theorem mono (h : Writes S s s') (hST : ∀ a v, S a v → T a v) : Writes T s s' := by
  obtain ⟨l, hl, hs, hf⟩ := h
  exact ⟨l, hl, fun p hp => hST _ _ (hs p hp), hf⟩

/-- What holds of a cell and of every value that may be written to it holds
afterwards. -/
theorem keeps (h : Writes S s s') {b : Nat} {P : Nat → Prop} (hb : ∀ v, S b v → P v)
    (hs : P (s.cells b)) : P (s'.cells b) := by
  obtain ⟨l, -, hS, hf⟩ := h
  rcases hf b with h | h
  · rw [h]
    exact hs
  · exact hb _ (hS _ h)

/-- A cell no allowed write names is read as before. -/
theorem frame (h : Writes S s s') {b : Nat} (hb : ∀ v, ¬ S b v) :
    s'.cells b = s.cells b :=
  h.keeps (P := fun v => v = s.cells b) (fun v hv => absurd hv (hb v)) rfl

theorem frame_rd (h : Writes S s s') (width : Nat → Nat) {b : Nat} (hb : ∀ v, ¬ S b v) :
    s'.rd width b = s.rd width b := by
  simp only [rd, h.frame hb]

/-- The log only grows, and only by allowed writes. -/
theorem mem_log (h : Writes S s s') {p : Nat × Nat} (hp : p ∈ s'.log) :
    S p.1 p.2 ∨ p ∈ s.log := by
  obtain ⟨l, hl, hs, -⟩ := h
  rw [hl, List.mem_append] at hp
  exact hp.imp_left (hs p)

theorem log_subset (h : Writes S s s') : s.log ⊆ s'.log := by
  obtain ⟨l, hl, -, -⟩ := h
  rw [hl]
  exact List.subset_append_right _ _

end Writes

end Store

end SharkNetplay.Lib
