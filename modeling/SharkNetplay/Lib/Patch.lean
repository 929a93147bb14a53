import Mathlib.Data.List.Basic

/-!
# Patching a list piece by piece

A list is overwritten by pieces, each a run of values at a position. When the pieces
are all taken from one source and together cover it, the list becomes the source.
-/

namespace SharkNetplay.Lib

variable {α : Type*}

/-- Overwrite the values from position `p` on. -/
def patch (p : Nat) (bs l : List α) : List α := l.take p ++ bs ++ l.drop (p + bs.length)

/-- A run of values and where it goes. -/
structure Piece (α : Type*) where
  pos : Nat
  values : List α
  deriving DecidableEq

namespace Piece

/-- Position `i` is in the piece. -/
def Has (q : Piece α) (i : Nat) : Prop := q.pos ≤ i ∧ i < q.pos + q.values.length

instance (q : Piece α) (i : Nat) : Decidable (q.Has i) := inferInstanceAs (Decidable (_ ∧ _))

/-- The piece ends within the first `n` positions. -/
def Fits (n : Nat) (q : Piece α) : Prop := q.pos + q.values.length ≤ n

instance (n : Nat) (q : Piece α) : Decidable (q.Fits n) := inferInstanceAs (Decidable (_ ≤ _))

/-- The values are those `src` has at the piece's positions. -/
def From (src : List α) (q : Piece α) : Prop :=
  q.values = (src.drop q.pos).take q.values.length

end Piece

/-- Pieces applied one after the other. -/
def patchAll (qs : List (Piece α)) (l : List α) : List α :=
  qs.foldl (fun l q => patch q.pos q.values l) l

/-- Every position below `n` is in one of the pieces. -/
def Covers (n : Nat) (qs : List (Piece α)) : Prop := ∀ i < n, ∃ q ∈ qs, q.Has i

instance (n : Nat) (qs : List (Piece α)) : Decidable (Covers n qs) :=
  inferInstanceAs (Decidable (∀ i < n, _))

@[simp] theorem patch_nil (p : Nat) (l : List α) : patch p [] l = l := by
  simp [patch]

theorem patch_length {p : Nat} {bs l : List α} (h : p + bs.length ≤ l.length) :
    (patch p bs l).length = l.length := by
  simp only [patch, List.length_append, List.length_take, List.length_drop]
  omega

/-- A patched list has the new values in the patch and the old ones around it. -/
theorem patch_getElem? {p : Nat} {bs l : List α} (h : p + bs.length ≤ l.length) (i : Nat) :
    (patch p bs l)[i]? = if p ≤ i ∧ i < p + bs.length then bs[i - p]? else l[i]? := by
  have htake : (l.take p).length = p := by
    rw [List.length_take]
    omega
  unfold patch
  by_cases h₁ : i < p
  · rw [if_neg (by omega), List.append_assoc, List.getElem?_append_left (by omega),
      List.getElem?_take_of_lt h₁]
  by_cases h₂ : i < p + bs.length
  · rw [if_pos ⟨by omega, h₂⟩, List.append_assoc, List.getElem?_append_right (by omega), htake,
      List.getElem?_append_left (by omega)]
  · rw [if_neg (by omega), List.getElem?_append_right (by rw [List.length_append]; omega),
      List.getElem?_drop, List.length_append, htake]
    congr 1
    omega

/-- A patch is its first value, then the rest one position on. -/
theorem patch_cons {p : Nat} {b : α} {bs l : List α} (h : p + (bs.length + 1) ≤ l.length) :
    patch p (b :: bs) l = patch (p + 1) bs (l.set p b) := by
  refine List.ext_getElem? fun i => ?_
  rw [patch_getElem? (by rw [List.length_cons]; omega),
    patch_getElem? (by rw [List.length_set]; omega), List.length_cons, List.getElem?_set]
  by_cases hp : i = p
  · subst hp
    rw [if_pos (by omega), if_neg (by omega), if_pos rfl, if_pos (by omega), Nat.sub_self]
    rfl
  by_cases hin : p ≤ i ∧ i < p + (bs.length + 1)
  · have hsub : i - p = i - (p + 1) + 1 := by omega
    rw [if_pos hin, if_pos (by omega), hsub, List.getElem?_cons_succ]
  · rw [if_neg hin, if_neg (by omega), if_neg (Ne.symm hp)]

@[simp] theorem patchAll_nil (l : List α) : patchAll [] l = l := rfl

@[simp] theorem patchAll_cons (q : Piece α) (qs : List (Piece α)) (l : List α) :
    patchAll (q :: qs) l = patchAll qs (patch q.pos q.values l) := rfl

theorem patchAll_append (qs rs : List (Piece α)) (l : List α) :
    patchAll (qs ++ rs) l = patchAll rs (patchAll qs l) := List.foldl_append

/-- Pieces that cover their source turn the list into it. -/
theorem patchAll_eq {src l : List α} {qs : List (Piece α)} (hlen : l.length = src.length)
    (hfits : ∀ q ∈ qs, q.Fits src.length) (hsrc : ∀ q ∈ qs, q.From src)
    (hcov : Covers src.length qs) : patchAll qs l = src := by
  -- what is already right stays right, and every piece puts its positions right
  have hmain : ∀ (qs : List (Piece α)) (l : List α), l.length = src.length →
      (∀ q ∈ qs, q.Fits src.length) → (∀ q ∈ qs, q.From src) →
      (patchAll qs l).length = src.length ∧
      ∀ i, ((∃ q ∈ qs, q.Has i) ∨ l[i]? = src[i]?) → (patchAll qs l)[i]? = src[i]? := by
    intro qs
    induction qs with
    | nil =>
        intro l hlen _ _
        exact ⟨hlen, fun i h => h.elim (by simp) id⟩
    | cons q qs ih =>
        intro l hlen hfits hsrc
        have hq := hfits q (by simp)
        simp only [Piece.Fits] at hq
        have hlen' : (patch q.pos q.values l).length = src.length := by
          rw [patch_length (by omega), hlen]
        have hstep := ih (patch q.pos q.values l) hlen' (fun r hr => hfits r (by simp [hr]))
          (fun r hr => hsrc r (by simp [hr]))
        refine ⟨hstep.1, fun i hi => hstep.2 i ?_⟩
        by_cases hrest : ∃ r ∈ qs, r.Has i
        · exact Or.inl hrest
        refine Or.inr ?_
        rw [patch_getElem? (by omega)]
        by_cases hin : q.pos ≤ i ∧ i < q.pos + q.values.length
        · have hfrom : q.values = (src.drop q.pos).take q.values.length := hsrc q (by simp)
          have hpos : q.pos + (i - q.pos) = i := by omega
          rw [if_pos hin, hfrom, List.getElem?_take_of_lt (by omega), List.getElem?_drop, hpos]
        · rw [if_neg hin]
          rcases hi with ⟨r, hr, hhas⟩ | hi
          · rcases List.mem_cons.mp hr with rfl | hr
            · exact absurd hhas hin
            · exact absurd ⟨r, hr, hhas⟩ hrest
          · exact hi
  obtain ⟨hlen', hall⟩ := hmain qs l hlen hfits hsrc
  refine List.ext_getElem? fun i => ?_
  by_cases hi : i < src.length
  · exact hall i (Or.inl (hcov i hi))
  · rw [List.getElem?_eq_none (by omega), List.getElem?_eq_none (by omega)]

end SharkNetplay.Lib
