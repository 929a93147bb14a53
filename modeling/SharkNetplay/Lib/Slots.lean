import Mathlib.Algebra.Order.BigOperators.Group.Finset
import Mathlib.Data.List.Count
import Mathlib.Logic.Function.Basic
import SharkNetplay.Lib.Dict

/-!
# Dictionaries in a fixed table

A table of `n` slots, some of them in use, each with a key. Such a table stores a
dictionary as long as there is a free slot for every new key: an entry is found, replaced,
put into the first free slot, and removed by freeing its slot.

## Implementation notes

`used` and `key` read a slot, and the relation `V` says which value a slot stands for, so
that the slots of one table may be tables again. A free slot may hold anything.
-/

namespace SharkNetplay.Lib

namespace Slots

variable {α β : Type*} (used : α → Bool) (key : α → Nat) (n : Nat) (tbl : Nat → α)

/-- The slot that has a key. -/
def find (k : Nat) : Option Nat :=
  (List.range n).find? fun i => used (tbl i) && key (tbl i) == k

/-- The first free slot. -/
def free : Option Nat := (List.range n).find? fun i => !used (tbl i)

/-- Whether slot `i` has a lower key than the lowest so far. -/
def below (low : Option Nat) (i : Nat) : Bool :=
  match low with
  | none => true
  | some j => decide (key (tbl i) < key (tbl j))

/-- The slot with the lowest key, the first one among equals. -/
def lowest : Option Nat :=
  (List.range n).foldl (fun low i => if used (tbl i) && below key tbl low i then some i else low) none

/-- Slots in use. -/
def count : Nat := (List.range n).countP fun i => used (tbl i)

variable {used key n tbl}

theorem find_some {k i : Nat} (h : find used key n tbl k = some i) :
    i < n ∧ used (tbl i) = true ∧ key (tbl i) = k := by
  have hmem := List.mem_range.mp (List.mem_of_find?_eq_some h)
  have hp := List.find?_some h
  rw [Bool.and_eq_true, beq_iff_eq] at hp
  exact ⟨hmem, hp⟩

theorem find_none {k : Nat} (h : find used key n tbl k = none) {i : Nat} (hi : i < n)
    (hu : used (tbl i) = true) : key (tbl i) ≠ k := by
  have hp := List.find?_eq_none.mp h i (List.mem_range.mpr hi)
  rw [hu, Bool.true_and, beq_iff_eq] at hp
  exact hp

theorem free_some {i : Nat} (h : free used n tbl = some i) : i < n ∧ used (tbl i) = false := by
  have hmem := List.mem_range.mp (List.mem_of_find?_eq_some h)
  have hp := List.find?_some h
  exact ⟨hmem, by simpa using hp⟩

/-- A table that is not full has a free slot. -/
theorem free_isSome (h : count used n tbl < n) : ∃ i, free used n tbl = some i := by
  cases hfree : free used n tbl with
  | some i => exact ⟨i, rfl⟩
  | none =>
      have hall : ∀ i ∈ List.range n, used (tbl i) = true := fun i hi => by
        simpa using List.find?_eq_none.mp hfree i hi
      have hfull : count used n tbl = (List.range n).length := List.countP_eq_length.mpr hall
      rw [List.length_range] at hfull
      omega

/-- A table in which each slot in use owns `k` things of its own is not full while there are
fewer than `k * n` things. -/
theorem free_of_owners {ι : Type*} [DecidableEq ι] {own : Nat → Finset ι} {things : Finset ι}
    {k : Nat} (hown : ∀ i < n, used (tbl i) = true → k ≤ (own i).card)
    (hapart : ∀ i < n, ∀ j < n, used (tbl i) = true → used (tbl j) = true → i ≠ j →
      Disjoint (own i) (own j))
    (hsub : ∀ i < n, used (tbl i) = true → own i ⊆ things) (hfew : things.card < n * k) :
    ∃ i, free used n tbl = some i := by
  cases hfree : free used n tbl with
  | some i => exact ⟨i, rfl⟩
  | none =>
      have hall : ∀ i ∈ Finset.range n, i < n ∧ used (tbl i) = true := fun i hi => by
        have hin := Finset.mem_range.mp hi
        exact ⟨hin, by simpa using List.find?_eq_none.mp hfree i (List.mem_range.mpr hin)⟩
      have hle : n * k ≤ ((Finset.range n).biUnion own).card := by
        rw [Finset.card_biUnion fun i hi j hj hij =>
          hapart i (hall i hi).1 j (hall j hj).1 (hall i hi).2 (hall j hj).2 hij]
        calc n * k = ∑ _i ∈ Finset.range n, k := by
              rw [Finset.sum_const_nat fun _ _ => rfl, Finset.card_range]
          _ ≤ ∑ i ∈ Finset.range n, (own i).card :=
              Finset.sum_le_sum fun i hi => hown i (hall i hi).1 (hall i hi).2
      have hge := Finset.card_le_card (Finset.biUnion_subset.mpr fun i hi =>
        hsub i (hall i hi).1 (hall i hi).2)
      omega

theorem count_congr {tbl' : Nat → α} (h : ∀ i, used (tbl' i) = used (tbl i)) :
    count used n tbl' = count used n tbl := by
  refine List.countP_congr fun i _ => ?_
  rw [h i]

/-- The counter after one slot was written. -/
theorem count_update {i : Nat} (hi : i < n) (v : α) :
    count used n (Function.update tbl i v) + (used (tbl i)).toNat =
      count used n tbl + (used v).toNat := by
  unfold count
  induction n with
  | zero => exact absurd hi (Nat.not_lt_zero i)
  | succ n ih =>
      rw [List.range_succ, List.countP_append, List.countP_append]
      by_cases hin : i = n
      · subst hin
        have hsame : (List.range i).countP (fun j => used (Function.update tbl i v j)) =
            (List.range i).countP fun j => used (tbl j) := by
          refine List.countP_congr fun j hj => ?_
          have hne : j ≠ i := Nat.ne_of_lt (List.mem_range.mp hj)
          rw [Function.update_of_ne hne]
        rw [hsame, List.countP_singleton, List.countP_singleton, Function.update_self]
        cases used v <;> cases used (tbl i) <;> rfl
      · have hrest := ih (by omega)
        have hlast : used (Function.update tbl i v n) = used (tbl n) := by
          rw [Function.update_of_ne fun h => hin h.symm]
        rw [List.countP_singleton, List.countP_singleton, hlast]
        omega

theorem lowest_spec :
    match lowest used key n tbl with
    | none => ∀ i < n, used (tbl i) = false
    | some j => j < n ∧ used (tbl j) = true ∧
        ∀ i < n, used (tbl i) = true → key (tbl j) ≤ key (tbl i) := by
  unfold lowest
  induction n with
  | zero => exact fun i hi => absurd hi (Nat.not_lt_zero i)
  | succ n ih =>
      rw [List.range_succ, List.foldl_append, List.foldl_cons, List.foldl_nil]
      generalize (List.range n).foldl
        (fun low i => if used (tbl i) && below key tbl low i then some i else low) none = low at ih
      cases low with
      | none =>
          dsimp only at ih
          cases hu : used (tbl n) with
          | true =>
              refine ⟨by omega, hu, fun i hi hui => ?_⟩
              rcases Nat.lt_succ_iff_lt_or_eq.mp hi with hlt | rfl
              · rw [ih i hlt] at hui
                exact Bool.noConfusion hui
              · exact Nat.le_refl _
          | false =>
              refine fun i hi => ?_
              rcases Nat.lt_succ_iff_lt_or_eq.mp hi with hlt | rfl
              · exact ih i hlt
              · exact hu
      | some j =>
          obtain ⟨hj, huj, hmin⟩ := ih
          by_cases hlow : (used (tbl n) && below key tbl (some j) n) = true
          · rw [if_pos hlow]
            rw [Bool.and_eq_true] at hlow
            have hlt : key (tbl n) < key (tbl j) := by simpa [below] using hlow.2
            refine ⟨by omega, hlow.1, fun i hi hui => ?_⟩
            rcases Nat.lt_succ_iff_lt_or_eq.mp hi with hin | rfl
            · exact Nat.le_trans (Nat.le_of_lt hlt) (hmin i hin hui)
            · exact Nat.le_refl _
          · rw [if_neg hlow]
            refine ⟨by omega, huj, fun i hi hui => ?_⟩
            rcases Nat.lt_succ_iff_lt_or_eq.mp hi with hin | rfl
            · exact hmin i hin hui
            · rw [hui, Bool.true_and] at hlow
              simpa [below] using hlow

/-! ## The dictionary in a table -/

variable (used key n tbl) (V : α → β → Prop)

/-- The table stores the dictionary `d`. -/
structure Stores (d : List (Nat × β)) : Prop where
  keyed : Dict.Keyed d
  distinct : ∀ i < n, ∀ j < n, used (tbl i) = true → used (tbl j) = true →
    key (tbl i) = key (tbl j) → i = j
  sound : ∀ i < n, used (tbl i) = true → ∃ b, Dict.get (key (tbl i)) d = some b ∧ V (tbl i) b
  cover : ∀ k b, Dict.get k d = some b → ∃ i < n, used (tbl i) = true ∧ key (tbl i) = k
  count : count used n tbl = d.length

variable {used key n tbl V} {d : List (Nat × β)}

namespace Stores

theorem empty (h : ∀ i < n, used (tbl i) = false) : Stores used key n tbl V [] where
  keyed := List.nodup_nil
  distinct i hi _ _ hu _ _ := by rw [h i hi] at hu; exact Bool.noConfusion hu
  sound i hi hu := by rw [h i hi] at hu; exact Bool.noConfusion hu
  cover _ _ hb := nomatch hb
  count := by
    unfold Slots.count
    refine List.countP_eq_zero.mpr fun i hi => ?_
    rw [h i (List.mem_range.mp hi)]
    decide

/-- The table finds a key exactly when the dictionary has it. -/
theorem find_iff (h : Stores used key n tbl V d) (k : Nat) :
    find used key n tbl k = none ↔ Dict.get k d = none := by
  constructor
  · intro hfind
    cases hget : Dict.get k d with
    | none => rfl
    | some b =>
        obtain ⟨i, hi, hu, hk⟩ := h.cover k b hget
        exact absurd hk (find_none hfind hi hu)
  · intro hget
    cases hfind : find used key n tbl k with
    | none => rfl
    | some i =>
        obtain ⟨hi, hu, hk⟩ := find_some hfind
        obtain ⟨b, hb, -⟩ := h.sound i hi hu
        rw [hk, hget] at hb
        exact nomatch hb

theorem find_get (h : Stores used key n tbl V d) {k i : Nat}
    (hfind : find used key n tbl k = some i) : ∃ b, Dict.get k d = some b ∧ V (tbl i) b := by
  obtain ⟨hi, hu, rfl⟩ := find_some hfind
  exact h.sound i hi hu

/-- Write a slot that is free or has the key already. -/
theorem assign (h : Stores used key n tbl V d) {i k : Nat} {v : α} {b : β} (hi : i < n)
    (hslot : find used key n tbl k = some i ∨
      find used key n tbl k = none ∧ used (tbl i) = false)
    (hu : used v = true) (hk : key v = k) (hV : V v b) :
    Stores used key n (Function.update tbl i v) V (Dict.assign k b d) := by
  -- no other slot has the key
  have hother : ∀ j < n, j ≠ i → used (tbl j) = true → key (tbl j) ≠ k := by
    intro j hj hji huj hkj
    rcases hslot with hfind | ⟨hfind, -⟩
    · obtain ⟨-, hui, hki⟩ := find_some hfind
      exact hji (h.distinct j hj i hi huj hui (hkj.trans hki.symm))
    · exact find_none hfind hj huj hkj
  refine ⟨h.keyed.assign k b, ?_, ?_, ?_, ?_⟩
  · intro j hj l hl huj hul heq
    by_cases hji : j = i
    · by_cases hli : l = i
      · rw [hji, hli]
      · rw [hji, Function.update_self, Function.update_of_ne hli, hk] at heq
        rw [Function.update_of_ne hli] at hul
        exact absurd heq.symm (hother l hl hli hul)
    · by_cases hli : l = i
      · rw [hli, Function.update_self, Function.update_of_ne hji, hk] at heq
        rw [Function.update_of_ne hji] at huj
        exact absurd heq (hother j hj hji huj)
      · rw [Function.update_of_ne hji] at huj heq
        rw [Function.update_of_ne hli] at hul heq
        exact h.distinct j hj l hl huj hul heq
  · intro j hj huj
    by_cases hji : j = i
    · rw [hji, Function.update_self, Dict.get_assign, if_pos hk]
      exact ⟨b, rfl, hV⟩
    · rw [Function.update_of_ne hji] at huj ⊢
      rw [Dict.get_assign, if_neg (hother j hj hji huj)]
      exact h.sound j hj huj
  · intro k' b' hget
    rw [Dict.get_assign] at hget
    by_cases hkk : k' = k
    · exact ⟨i, hi, by rw [Function.update_self]; exact hu, by
        rw [Function.update_self, hk, hkk]⟩
    · rw [if_neg hkk] at hget
      obtain ⟨j, hj, huj, hkj⟩ := h.cover k' b' hget
      have hji : j ≠ i := by
        rintro rfl
        rcases hslot with hfind | ⟨-, hfree⟩
        · exact hkk (hkj.symm.trans (find_some hfind).2.2)
        · rw [hfree] at huj
          exact Bool.noConfusion huj
      exact ⟨j, hj, by rw [Function.update_of_ne hji]; exact huj, by
        rw [Function.update_of_ne hji]; exact hkj⟩
  · have hcount := @count_update _ used n tbl i hi v
    rw [hu] at hcount
    rw [Dict.length_assign]
    rcases hslot with hfind | ⟨hfind, hfree⟩
    · obtain ⟨b', hb', -⟩ := h.find_get hfind
      rw [(find_some hfind).2.1] at hcount
      rw [hb', Option.isSome_some, if_pos rfl, ← h.count]
      omega
    · rw [hfree] at hcount
      rw [(h.find_iff k).mp hfind, Option.isSome_none, if_neg Bool.false_ne_true, ← h.count]
      simpa using hcount

/-- Free a slot in use. -/
theorem remove (h : Stores used key n tbl V d) {i : Nat} {v : α} (hi : i < n)
    (hui : used (tbl i) = true) (hv : used v = false) :
    Stores used key n (Function.update tbl i v) V (Dict.erase (key (tbl i)) d) := by
  have hused : ∀ j, used (Function.update tbl i v j) = true → j ≠ i := by
    rintro j huj rfl
    rw [Function.update_self, hv] at huj
    exact Bool.noConfusion huj
  refine ⟨h.keyed.erase _, ?_, ?_, ?_, ?_⟩
  · intro j hj l hl huj hul heq
    have hji := hused j huj
    have hli := hused l hul
    rw [Function.update_of_ne hji] at huj heq
    rw [Function.update_of_ne hli] at hul heq
    exact h.distinct j hj l hl huj hul heq
  · intro j hj huj
    have hji := hused j huj
    rw [Function.update_of_ne hji] at huj ⊢
    have hne : key (tbl j) ≠ key (tbl i) := fun heq => hji (h.distinct j hj i hi huj hui heq)
    rw [Dict.get_erase, if_neg hne]
    exact h.sound j hj huj
  · intro k b hget
    rw [Dict.get_erase] at hget
    by_cases hk : k = key (tbl i)
    · rw [if_pos hk] at hget
      exact nomatch hget
    · rw [if_neg hk] at hget
      obtain ⟨j, hj, huj, hkj⟩ := h.cover k b hget
      have hji : j ≠ i := by
        rintro rfl
        exact hk hkj.symm
      exact ⟨j, hj, by rw [Function.update_of_ne hji]; exact huj, by
        rw [Function.update_of_ne hji]; exact hkj⟩
  · have hcount := @count_update _ used n tbl i hi v
    obtain ⟨b, hb, -⟩ := h.sound i hi hui
    have hlen := Dict.length_erase h.keyed (k := key (tbl i)) (by rw [hb]; rfl)
    rw [hui, hv, h.count] at hcount
    simp only [Bool.toNat_true, Bool.toNat_false] at hcount
    omega

/-- The lowest slot has the least key. -/
theorem lowest_key (h : Stores used key n tbl V d) (hd : d ≠ []) :
    ∃ i, lowest used key n tbl = some i ∧ i < n ∧ used (tbl i) = true ∧
      key (tbl i) = Dict.minKey d := by
  obtain ⟨⟨b, hb⟩, hle⟩ := Dict.minKey_spec hd
  obtain ⟨j, hj, huj, hkj⟩ := h.cover _ b ((Dict.get_iff_mem h.keyed).mpr hb)
  have hspec := @lowest_spec _ used key n tbl
  cases hlow : lowest used key n tbl with
  | none =>
      rw [hlow] at hspec
      rw [hspec j hj] at huj
      exact Bool.noConfusion huj
  | some i =>
      rw [hlow] at hspec
      obtain ⟨hi, hui, hmin⟩ := hspec
      refine ⟨i, rfl, hi, hui, Nat.le_antisymm ?_ ?_⟩
      · rw [← hkj]
        exact hmin j hj huj
      · obtain ⟨b', hb', -⟩ := h.sound i hi hui
        exact hle _ (Dict.mem_of_get hb')

end Stores

end Slots

end SharkNetplay.Lib
