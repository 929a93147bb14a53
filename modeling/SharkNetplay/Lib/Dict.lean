import Mathlib.Data.List.Nodup

/-!
# Insertion-ordered dictionaries

A dictionary is the list of its entries in insertion order. Assigning to a key
that is there keeps its place; a new key goes last. Lookup is `List.lookup`.
-/

namespace SharkNetplay.Lib

variable {κ ν : Type*} [DecidableEq κ]

namespace Dict

/-- `d.get(k)`. -/
def get (k : κ) (d : List (κ × ν)) : Option ν := d.lookup k

/-- `d[k] = v`. -/
def assign (k : κ) (v : ν) : List (κ × ν) → List (κ × ν)
  | [] => [(k, v)]
  | e :: rest => if e.1 = k then (k, v) :: rest else e :: assign k v rest

/-- No key has two entries. -/
def Keyed (d : List (κ × ν)) : Prop := (d.map Prod.fst).Nodup

theorem mem_of_get {d : List (κ × ν)} {k : κ} {v : ν} (h : get k d = some v) :
    (k, v) ∈ d := by
  obtain ⟨l₁, l₂, rfl, -⟩ := List.lookup_eq_some_iff.mp h
  simp

theorem get_isSome {d : List (κ × ν)} {e : κ × ν} (h : e ∈ d) : (get e.1 d).isSome = true :=
  List.lookup_isSome_iff.mpr ⟨e, h, beq_self_eq_true e.1⟩

theorem get_eq_none {d : List (κ × ν)} {k : κ} (h : ∀ e ∈ d, e.1 ≠ k) : get k d = none := by
  cases hget : get k d with
  | none => rfl
  | some v => exact absurd rfl (h _ (mem_of_get hget))

theorem get_iff_mem {d : List (κ × ν)} (hd : Keyed d) {k : κ} {v : ν} :
    get k d = some v ↔ (k, v) ∈ d := by
  refine ⟨mem_of_get, fun h => ?_⟩
  obtain ⟨l₁, l₂, rfl⟩ := List.append_of_mem h
  refine List.lookup_eq_some_iff.mpr ⟨l₁, l₂, rfl, fun p hp => ?_⟩
  have hkeys : ((l₁ ++ (k, v) :: l₂).map Prod.fst).Nodup := hd
  rw [List.map_append, List.nodup_append] at hkeys
  have hne := hkeys.2.2 p.1 (List.mem_map_of_mem (f := Prod.fst) hp) k (by simp)
  simpa using hne.symm

theorem mem_assign {d : List (κ × ν)} {k : κ} {v : ν} {e : κ × ν} (h : e ∈ assign k v d) :
    e = (k, v) ∨ (e ∈ d ∧ (Keyed d → e.1 ≠ k)) := by
  induction d with
  | nil => exact Or.inl (by simpa [assign] using h)
  | cons x rest ih =>
      unfold assign at h
      by_cases hx : x.1 = k
      · rw [if_pos hx, List.mem_cons] at h
        rcases h with h | h
        · exact Or.inl h
        · refine Or.inr ⟨List.mem_cons_of_mem _ h, fun hd hk => ?_⟩
          refine (List.nodup_cons.mp hd).1 ?_
          rw [hx, ← hk]
          exact List.mem_map_of_mem (f := Prod.fst) h
      · rw [if_neg hx, List.mem_cons] at h
        rcases h with rfl | h
        · exact Or.inr ⟨List.mem_cons_self, fun _ => hx⟩
        · exact (ih h).imp_right fun h' =>
            ⟨List.mem_cons_of_mem _ h'.1, fun hd => h'.2 (List.nodup_cons.mp hd).2⟩

theorem assign_mem (d : List (κ × ν)) (k : κ) (v : ν) : (k, v) ∈ assign k v d := by
  induction d with
  | nil => simp [assign]
  | cons x rest ih =>
      unfold assign
      split
      · exact List.mem_cons_self
      · exact List.mem_cons_of_mem _ ih

/-- Entries of other keys stay. -/
theorem mem_assign_of_ne {d : List (κ × ν)} {k : κ} {v : ν} {e : κ × ν} (h : e ∈ d)
    (hne : e.1 ≠ k) : e ∈ assign k v d := by
  induction d with
  | nil => exact absurd h (by simp)
  | cons x rest ih =>
      unfold assign
      rcases List.mem_cons.mp h with rfl | h
      · rw [if_neg hne]
        exact List.mem_cons_self
      · split
        · exact List.mem_cons_of_mem _ h
        · exact List.mem_cons_of_mem _ (ih h)

theorem keys_assign (d : List (κ × ν)) (k : κ) (v : ν) :
    (assign k v d).map Prod.fst =
      if k ∈ d.map Prod.fst then d.map Prod.fst else d.map Prod.fst ++ [k] := by
  induction d with
  | nil => simp [assign]
  | cons x rest ih =>
      unfold assign
      by_cases hx : x.1 = k
      · rw [if_pos hx]
        simp [hx]
      · rw [if_neg hx, List.map_cons, List.map_cons, ih]
        by_cases hk : k ∈ rest.map Prod.fst
        · rw [if_pos hk, if_pos (List.mem_cons_of_mem _ hk)]
        · rw [if_neg hk, if_neg (by simpa [Ne.symm hx] using hk), List.cons_append]

theorem Keyed.assign {d : List (κ × ν)} (hd : Keyed d) (k : κ) (v : ν) :
    Keyed (assign k v d) := by
  unfold Keyed
  rw [keys_assign]
  split
  · exact hd
  · next hk =>
      refine List.nodup_append.mpr ⟨hd, List.nodup_singleton k, fun a ha b hb hab => ?_⟩
      rw [List.mem_singleton] at hb
      exact hk (by rw [← hb, ← hab]; exact ha)

omit [DecidableEq κ] in
theorem Keyed.filter {d : List (κ × ν)} (hd : Keyed d) (p : κ × ν → Bool) :
    Keyed (d.filter p) :=
  List.Nodup.sublist (List.Sublist.map _ List.filter_sublist) hd

omit [DecidableEq κ] in
/-- A value that only one key has occurs in one entry. -/
theorem Keyed.filter_eq_singleton [BEq ν] [LawfulBEq ν] {d : List (κ × ν)} (hd : Keyed d) {k : κ}
    {v : ν} (h : (k, v) ∈ d) (hv : ∀ e ∈ d, e.2 = v → e.1 = k) :
    d.filter (fun e => e.2 == v) = [(k, v)] := by
  obtain ⟨l₁, l₂, rfl⟩ := List.append_of_mem h
  have hkeys : ((l₁ ++ (k, v) :: l₂).map Prod.fst).Nodup := hd
  rw [List.map_append, List.map_cons, List.nodup_append, List.nodup_cons] at hkeys
  have hleft : l₁.filter (fun e => e.2 == v) = [] := by
    refine List.filter_eq_nil_iff.mpr fun e he hev => ?_
    have hk := hv e (by simp [he]) (by simpa using hev)
    exact hkeys.2.2 e.1 (List.mem_map_of_mem he) k (by simp) hk
  have hright : l₂.filter (fun e => e.2 == v) = [] := by
    refine List.filter_eq_nil_iff.mpr fun e he hev => ?_
    have hk := hv e (by simp [he]) (by simpa using hev)
    exact hkeys.2.1.1 (List.mem_map.mpr ⟨e, he, hk⟩)
  rw [List.filter_append, List.filter_cons, hleft, hright]
  simp

/-! ## Lookup after an update -/

theorem get_cons (e : κ × ν) (d : List (κ × ν)) (k : κ) :
    get k (e :: d) = if k = e.1 then some e.2 else get k d := by
  unfold get
  rw [List.lookup_cons]
  by_cases h : k = e.1
  · rw [if_pos h, beq_iff_eq.mpr h]
  · rw [if_neg h, beq_eq_false_iff_ne.mpr h]

theorem get_assign (d : List (κ × ν)) (k k' : κ) (v : ν) :
    get k' (assign k v d) = if k' = k then some v else get k' d := by
  induction d with
  | nil => exact get_cons (k, v) [] k'
  | cons e d ih =>
      unfold assign
      by_cases he : e.1 = k
      · rw [if_pos he, get_cons, get_cons, he]
        by_cases h : k' = k
        · rw [if_pos h, if_pos h]
        · rw [if_neg h, if_neg h, if_neg h]
      · rw [if_neg he, get_cons, get_cons, ih]
        by_cases h : k' = e.1
        · rw [if_pos h, if_neg fun hk => he (h.symm.trans hk)]
          exact (if_pos h).symm
        · rw [if_neg h, if_neg h]

theorem length_assign (d : List (κ × ν)) (k : κ) (v : ν) :
    (assign k v d).length = if (get k d).isSome then d.length else d.length + 1 := by
  induction d with
  | nil => rfl
  | cons e d ih =>
      unfold assign
      by_cases he : e.1 = k
      · rw [if_pos he, get_cons, if_pos he.symm]
        rfl
      · have hne : ¬ k = e.1 := fun h => he h.symm
        rw [if_neg he, get_cons, if_neg hne, List.length_cons, ih, List.length_cons]
        split <;> rfl

/-- A new key goes last. -/
theorem assign_of_none {d : List (κ × ν)} {k : κ} (h : get k d = none) (v : ν) :
    assign k v d = d ++ [(k, v)] := by
  induction d with
  | nil => rfl
  | cons e d ih =>
      rw [get_cons] at h
      by_cases he : e.1 = k
      · rw [if_pos he.symm] at h
        exact nomatch h
      · rw [if_neg fun hk => he hk.symm] at h
        unfold assign
        rw [if_neg he, ih h, List.cons_append]

/-- `d.pop(k, None)`. -/
def erase (k : κ) (d : List (κ × ν)) : List (κ × ν) := d.filter fun e => e.1 != k

theorem get_filter (d : List (κ × ν)) (p : κ → Bool) (k : κ) :
    get k (d.filter fun e => p e.1) = if p k then get k d else none := by
  induction d with
  | nil => exact (ite_self _).symm
  | cons e d ih =>
      rw [List.filter_cons]
      by_cases he : p e.1 = true
      · rw [if_pos he, get_cons, get_cons, ih]
        by_cases h : k = e.1
        · rw [if_pos h, if_pos h, h, if_pos he]
        · rw [if_neg h, if_neg h]
      · rw [if_neg he, get_cons, ih]
        by_cases h : k = e.1
        · rw [h, if_neg he, if_neg he]
        · rw [if_neg h]

theorem get_erase (d : List (κ × ν)) (k k' : κ) :
    get k' (erase k d) = if k' = k then none else get k' d := by
  have hfilter := get_filter d (fun a => a != k) k'
  by_cases h : k' = k
  · rw [if_pos h]
    rw [if_neg (by simp [h])] at hfilter
    exact hfilter
  · rw [if_neg h]
    rw [if_pos (by simp [h])] at hfilter
    exact hfilter

theorem Keyed.erase {d : List (κ × ν)} (hd : Keyed d) (k : κ) : Keyed (erase k d) := hd.filter _

theorem erase_of_none {d : List (κ × ν)} {k : κ} (h : get k d = none) : erase k d = d := by
  refine List.filter_eq_self.mpr fun e he => ?_
  simp only [bne_iff_ne, ne_eq]
  rintro rfl
  have hsome := get_isSome he
  rw [h] at hsome
  exact Bool.noConfusion hsome

/-- Among distinct keys, erasing the first entry of a key erases the key. -/
theorem Keyed.eraseP_eq {d : List (κ × ν)} (hd : Keyed d) {k : κ} {p : κ × ν → Bool}
    (hp : ∀ e, p e = true ↔ e.1 = k) : d.eraseP p = Dict.erase k d := by
  unfold Dict.erase
  induction d with
  | nil => rfl
  | cons e d ih =>
      obtain ⟨hhead, htail⟩ := List.nodup_cons.mp hd
      by_cases he : e.1 = k
      · have hnone : ∀ x ∈ d, (x.1 != k) = true := fun x hx => by
          rw [bne_iff_ne]
          exact fun hxk => hhead (List.mem_map.mpr ⟨x, hx, hxk.trans he.symm⟩)
        rw [List.eraseP_cons_of_pos ((hp e).mpr he),
          List.filter_cons_of_neg (by simpa using he), List.filter_eq_self.mpr hnone]
      · rw [List.eraseP_cons_of_neg (fun hpe => he ((hp e).mp hpe)),
          List.filter_cons_of_pos (by simpa using he), ih htail]

theorem length_erase {d : List (κ × ν)} (hd : Keyed d) {k : κ} (h : (get k d).isSome = true) :
    (erase k d).length + 1 = d.length := by
  obtain ⟨v, hv⟩ := Option.isSome_iff_exists.mp h
  obtain ⟨l₁, l₂, rfl⟩ := List.append_of_mem (mem_of_get hv)
  have hkeys : ((l₁ ++ (k, v) :: l₂).map Prod.fst).Nodup := hd
  rw [List.map_append, List.map_cons, List.nodup_append, List.nodup_cons] at hkeys
  have hleft : ∀ e ∈ l₁, (e.1 != k) = true := fun e he => by
    simpa using hkeys.2.2 e.1 (List.mem_map_of_mem he) k (by simp)
  have hright : ∀ e ∈ l₂, (e.1 != k) = true := fun e he => by
    simp only [bne_iff_ne, ne_eq]
    intro hek
    exact hkeys.2.1.1 (List.mem_map.mpr ⟨e, he, hek⟩)
  unfold erase
  rw [List.filter_append, List.filter_cons, List.filter_eq_self.mpr hleft,
    List.filter_eq_self.mpr hright]
  simp
  omega

/-- The least key of a dictionary with numbers as keys. -/
def minKey (d : List (Nat × ν)) : Nat := (d.map Prod.fst).min?.getD 0

theorem minKey_spec {d : List (Nat × ν)} (h : d ≠ []) :
    (∃ v, (minKey d, v) ∈ d) ∧ ∀ e ∈ d, minKey d ≤ e.1 := by
  unfold minKey
  cases hmin : (d.map Prod.fst).min? with
  | none => exact absurd (List.map_eq_nil_iff.mp (List.min?_eq_none_iff.mp hmin)) h
  | some m =>
      obtain ⟨hmem, hle⟩ := List.min?_eq_some_iff.mp hmin
      obtain ⟨e, he, rfl⟩ := List.mem_map.mp hmem
      exact ⟨⟨e.2, he⟩, fun e' he' => hle _ (List.mem_map_of_mem he')⟩

end Dict

end SharkNetplay.Lib
