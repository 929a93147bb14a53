import Mathlib.Data.List.Basic
import Mathlib.Data.List.Nodup

/-!
# Folds that show every change of one item

A fold whose step can be cancelled in the accumulator and in the item distinguishes two
lists of items that differ at one place.
-/

namespace SharkNetplay.Lib

variable {α β ι : Type*}

/-- On the accumulators `S` and the items `V` the step can be cancelled in each argument. -/
structure Cancels (S : α → Prop) (V : β → Prop) (f : α → β → α) : Prop where
  maps (a : α) (b : β) : S (f a b)
  acc {a a' : α} {b : β} (ha : S a) (ha' : S a') (h : f a b = f a' b) : a = a'
  item {a : α} {b b' : β} (hb : V b) (hb' : V b') (h : f a b = f a b') : b = b'

namespace Cancels

variable {S : α → Prop} {V : β → Prop} {f : α → β → α} {g g' : ι → β} {l : List ι}

/-- The items read through `g`, folded from `a`. -/
theorem foldl_acc (h : Cancels S V f) {a a' : α} (ha : S a) (ha' : S a')
    (heq : l.foldl (fun a i => f a (g i)) a = l.foldl (fun a i => f a (g i)) a') : a = a' := by
  induction l generalizing a a' with
  | nil => exact heq
  | cons i l ih => exact h.acc ha ha' (ih (h.maps _ _) (h.maps _ _) heq)

theorem foldl_congr {a : α} (hsame : ∀ j ∈ l, g' j = g j) :
    l.foldl (fun a i => f a (g' i)) a = l.foldl (fun a i => f a (g i)) a := by
  induction l generalizing a with
  | nil => rfl
  | cons i l ih =>
      simp only [List.foldl_cons]
      rw [hsame i (List.mem_cons_self ..)]
      exact ih fun j hj => hsame j (List.mem_cons_of_mem _ hj)

/-- One item of a list without duplicates reads differently: the folds differ. -/
theorem foldl_ne (h : Cancels S V f) {a : α} (ha : S a) (hg : ∀ j, V (g j)) (hg' : ∀ j, V (g' j))
    {i : ι} (hnodup : l.Nodup) (hi : i ∈ l) (hsame : ∀ j ∈ l, j ≠ i → g' j = g j)
    (hdiff : g' i ≠ g i) :
    l.foldl (fun a i => f a (g' i)) a ≠ l.foldl (fun a i => f a (g i)) a := by
  induction l generalizing a with
  | nil => exact absurd hi List.not_mem_nil
  | cons j l ih =>
      obtain ⟨hj, hnodup⟩ := List.nodup_cons.mp hnodup
      simp only [List.foldl_cons]
      rcases List.mem_cons.mp hi with rfl | hi
      · -- the rest reads the same, so equal folds give equal accumulators
        have hrest : ∀ k ∈ l, g' k = g k := fun k hk =>
          hsame k (List.mem_cons_of_mem _ hk) fun hki => hj (hki ▸ hk)
        intro heq
        rw [foldl_congr hrest] at heq
        have hacc := h.foldl_acc (h.maps _ _) (h.maps _ _) heq
        exact hdiff (h.item (hg' i) (hg i) hacc)
      · rw [hsame j (List.mem_cons_self ..) fun hji => hj (hji ▸ hi)]
        exact ih (h.maps _ _) hnodup hi fun k hk => hsame k (List.mem_cons_of_mem _ hk)

end Cancels

end SharkNetplay.Lib
