import SharkNetplay.Relay.CrcLog

/-!
# The rows of the C comparator

A row of eight slots stores the dictionary `entry` that Python keeps for the tick: the
insertion finds a slot as long as fewer than eight seats have reported, the comparison of
every value with the first one is `len(set(entry.values())) == 1`, and the passes of the
mismatch loop are `sorted(entry.items())`.

## Implementation notes

A row is followed by its value, so that it may be freed while it is at hand, as the C code
keeps its pointer.
-/

namespace SharkNetplay.Relay

open Lib CrcPayload

namespace C

/-- The slots of the row store the entry, and its counter is right. -/
structure SameRow (row : CrcRow) (entry : List (Nat × Nat)) : Prop where
  stores : Slots.Stores CrcSlot.inUse CrcSlot.seat crcSeats row.s (fun v b => v.crc = b) entry
  nseats : row.nseats = entry.length
  bytes : ∀ e ∈ entry, e.1 < 256

namespace SameRow

variable {row : CrcRow} {entry : List (Nat × Nat)}

/-- A row fresh from `memset`. -/
theorem fresh (tick : Nat) : SameRow { inUse := true, tick := tick } [] where
  stores := Slots.Stores.empty fun _ _ => rfl
  nseats := rfl
  bytes _ he := nomatch he

/-- Only the slots and the counter matter. -/
theorem congr {row' : CrcRow} (h : SameRow row entry) (hs : row'.s = row.s)
    (hn : row'.nseats = row.nseats) : SameRow row' entry where
  stores := by rw [hs]; exact h.stores
  nseats := hn.trans h.nseats
  bytes := h.bytes

/-- The insertion finds a slot unless eight seats have reported the tick. -/
theorem put (h : SameRow row entry) {seat : Nat} (hseat : seat < 256)
    (hlen : entry.length < crcSeats) (crc : Nat) :
    ∃ row', row.put seat crc = some row' ∧ SameRow row' (Dict.assign seat crc entry) ∧
      row'.inUse = row.inUse ∧ row'.tick = row.tick := by
  have hbytes : ∀ e ∈ Dict.assign seat crc entry, e.1 < 256 := by
    intro e he
    rcases Dict.mem_assign he with rfl | ⟨hmem, -⟩
    · exact hseat
    · exact h.bytes e hmem
  have hlength := Dict.length_assign entry seat crc
  unfold CrcRow.put CrcRow.findSlot
  cases hfind : Slots.find CrcSlot.inUse CrcSlot.seat crcSeats row.s seat with
  | some j =>
      obtain ⟨hj, hused, hkey⟩ := Slots.find_some hfind
      obtain ⟨b, hb, -⟩ := h.stores.find_get hfind
      refine ⟨_, rfl, ⟨?_, ?_, hbytes⟩, rfl, rfl⟩
      · exact h.stores.assign hj (Or.inl hfind) hused hkey rfl
      · rw [hlength, hb, Option.isSome_some, if_pos rfl]
        exact h.nseats
  | none =>
      obtain ⟨j, hfree⟩ := Slots.free_isSome (by rw [h.stores.count]; exact hlen)
      obtain ⟨hj, hunused⟩ := Slots.free_some hfree
      have hget := (h.stores.find_iff seat).mp hfind
      dsimp only
      rw [hfree]
      refine ⟨_, rfl, ⟨?_, ?_, hbytes⟩, rfl, rfl⟩
      · exact h.stores.assign hj (Or.inr ⟨hfind, hunused⟩) rfl rfl rfl
      · rw [hlength, hget, Option.isSome_none, if_neg Bool.false_ne_true, ← h.nseats]

/-- What a slot in use holds is in the entry, and the other way round. -/
theorem mem_iff (h : SameRow row entry) (seat crc : Nat) :
    (seat, crc) ∈ entry ↔
      ∃ j < crcSeats, (row.s j).inUse = true ∧ (row.s j).seat = seat ∧ (row.s j).crc = crc := by
  rw [← Dict.get_iff_mem h.stores.keyed]
  constructor
  · intro hget
    obtain ⟨j, hj, hused, hkey⟩ := h.stores.cover seat crc hget
    obtain ⟨b, hb, hv⟩ := h.stores.sound j hj hused
    rw [hkey, hget, Option.some.injEq] at hb
    exact ⟨j, hj, hused, hkey, hv.trans hb.symm⟩
  · rintro ⟨j, hj, hused, rfl, rfl⟩
    obtain ⟨b, hb, rfl⟩ := h.stores.sound j hj hused
    exact hb

end SameRow

/-! ## Agreement -/

/-- The comparison of the slots `js` with the first value seen. -/
private theorem compared_seen (s : Nat → CrcSlot) (js : List Nat) (count first : Nat) (agree : Bool) :
    (js.foldl (fun st j =>
      if (s j).inUse then
        if st.1 = 0 then (1, (s j).crc, st.2.2)
        else (st.1 + 1, st.2.1, st.2.2 && (s j).crc == st.2.1)
      else st) (count + 1, first, agree)).2.2 = true ↔
      agree = true ∧ ∀ j ∈ js, (s j).inUse = true → (s j).crc = first := by
  induction js generalizing count agree with
  | nil => simp
  | cons j js ih =>
      rw [List.foldl_cons]
      by_cases hused : (s j).inUse = true
      · rw [if_pos hused, if_neg (Nat.succ_ne_zero count), ih]
        simp [hused, and_assoc]
      · rw [if_neg hused, ih]
        simp [hused]

private theorem compared_iff (s : Nat → CrcSlot) (js : List Nat) :
    (js.foldl (fun st j =>
      if (s j).inUse then
        if st.1 = 0 then (1, (s j).crc, st.2.2)
        else (st.1 + 1, st.2.1, st.2.2 && (s j).crc == st.2.1)
      else st) (0, 0, true)).2.2 = true ↔
      ∀ j ∈ js, (s j).inUse = true → ∀ l ∈ js, (s l).inUse = true → (s l).crc = (s j).crc := by
  induction js with
  | nil => simp
  | cons j js ih =>
      rw [List.foldl_cons]
      by_cases hused : (s j).inUse = true
      · rw [if_pos hused, if_pos rfl, compared_seen]
        constructor
        · rintro ⟨-, hall⟩
          have hfirst : ∀ l ∈ j :: js, (s l).inUse = true → (s l).crc = (s j).crc := by
            intro l hl hul
            rcases List.mem_cons.mp hl with rfl | hl
            · rfl
            · exact hall l hl hul
          intro a ha hua b hb hub
          exact (hfirst b hb hub).trans (hfirst a ha hua).symm
        · intro hall
          exact ⟨rfl, fun l hl hul =>
            hall j List.mem_cons_self hused l (List.mem_cons_of_mem j hl) hul⟩
      · rw [if_neg hused, ih]
        simp [hused]

/-- `agree` is `len(set(entry.values())) == 1`. -/
theorem SameRow.agree_iff {row : CrcRow} {entry : List (Nat × Nat)} (h : SameRow row entry)
    (hne : entry ≠ []) : row.agree = true ↔ (entry.map Prod.snd).dedup.length = 1 := by
  have hvalues : ∀ v, v ∈ entry.map Prod.snd ↔
      ∃ j < crcSeats, (row.s j).inUse = true ∧ (row.s j).crc = v := by
    intro v
    rw [List.mem_map]
    constructor
    · rintro ⟨e, he, rfl⟩
      obtain ⟨j, hj, hused, -, hcrc⟩ := (h.mem_iff e.1 e.2).mp he
      exact ⟨j, hj, hused, hcrc⟩
    · rintro ⟨j, hj, hused, hcrc⟩
      exact ⟨((row.s j).seat, v), (h.mem_iff _ _).mpr ⟨j, hj, hused, rfl, hcrc⟩, rfl⟩
  rw [dedup_length_eq_one fun hnil => hne (List.map_eq_nil_iff.mp hnil)]
  unfold CrcRow.agree CrcRow.compared
  rw [compared_iff]
  constructor
  · intro hall a ha b hb
    obtain ⟨j, hj, huj, rfl⟩ := (hvalues a).mp ha
    obtain ⟨l, hl, hul, rfl⟩ := (hvalues b).mp hb
    exact hall j (List.mem_range.mpr hj) huj l (List.mem_range.mpr hl) hul
  · intro hall j hj huj l hl hul
    exact hall _ ((hvalues _).mpr ⟨j, List.mem_range.mp hj, huj, rfl⟩) _
      ((hvalues _).mpr ⟨l, List.mem_range.mp hl, hul, rfl⟩)

/-! ## The pairs of a mismatch -/

/-- A loop that stops at `limit` elements loses nothing when there are no more. -/
private theorem foldl_until {α β : Type*} (f : α → List β) (limit : Nat) (xs : List α)
    (out : List β) (h : (out ++ xs.flatMap f).length = limit) :
    xs.foldl (fun out x => if out.length < limit then out ++ f x else out) out =
      out ++ xs.flatMap f := by
  induction xs generalizing out with
  | nil => simp
  | cons x xs ih =>
      rw [List.flatMap_cons, ← List.append_assoc] at h ⊢
      rw [List.foldl_cons]
      by_cases hlt : out.length < limit
      · rw [if_pos hlt]
        exact ih _ h
      · have hnil : f x = [] := by
          refine List.eq_nil_of_length_eq_zero ?_
          rw [List.length_append, List.length_append] at h
          omega
        rw [hnil, List.append_nil] at h ⊢
        rw [if_neg hlt]
        exact ih _ h

/-- The seat of a pair. -/
private theorem seat_of_mem_pairsAt {row : CrcRow} {pass : Nat} {e : Nat × Nat}
    (he : e ∈ row.pairsAt pass) :
    e.1 = pass ∧ ∃ j < crcSeats, (row.s j).inUse = true ∧ (row.s j).seat = e.1 ∧
      (row.s j).crc = e.2 := by
  obtain ⟨j, hj, rfl⟩ := List.mem_map.mp he
  rw [List.mem_filter, Bool.and_eq_true, beq_iff_eq] at hj
  exact ⟨hj.2.2, j, List.mem_range.mp hj.1, hj.2.1, rfl, rfl⟩

namespace SameRow

variable {row : CrcRow} {entry : List (Nat × Nat)}

/-- One pass finds one slot at most. -/
theorem pairsAt_length (h : SameRow row entry) (pass : Nat) : (row.pairsAt pass).length ≤ 1 := by
  unfold CrcRow.pairsAt
  rw [List.length_map]
  generalize hjs : (List.range crcSeats).filter
    (fun j => (row.s j).inUse && (row.s j).seat == pass) = js
  have hnodup : js.Nodup := hjs ▸ List.nodup_range.filter _
  have hsame : ∀ a ∈ js, ∀ b ∈ js, a = b := by
    intro a ha b hb
    rw [← hjs, List.mem_filter, Bool.and_eq_true, beq_iff_eq] at ha hb
    exact h.stores.distinct a (List.mem_range.mp ha.1) b (List.mem_range.mp hb.1) ha.2.1 hb.2.1
      (ha.2.2.trans hb.2.2.symm)
  cases js with
  | nil => exact Nat.zero_le 1
  | cons a js =>
      cases js with
      | nil => exact Nat.le_refl 1
      | cons b js =>
          have hab := hsame a List.mem_cons_self b (List.mem_cons_of_mem a List.mem_cons_self)
          exact absurd (hab ▸ List.mem_cons_self) (List.nodup_cons.mp hnodup).1

/-- The passes in order are sorted by seat. -/
theorem passes_sorted (h : SameRow row entry) (passes : List Nat) (hp : passes.Pairwise (· < ·)) :
    (passes.flatMap row.pairsAt).Pairwise fun a b => a.1 < b.1 := by
  induction passes with
  | nil => exact List.Pairwise.nil
  | cons pass passes ih =>
      obtain ⟨hhead, htail⟩ := List.pairwise_cons.mp hp
      rw [List.flatMap_cons, List.pairwise_append]
      refine ⟨?_, ih htail, ?_⟩
      · generalize hl : row.pairsAt pass = l
        have hlen := h.pairsAt_length pass
        rw [hl] at hlen
        match l, hlen with
        | [], _ => exact List.Pairwise.nil
        | [e], _ => exact List.pairwise_singleton _ e
      · intro a ha b hb
        obtain ⟨p, hpass, hb⟩ := List.mem_flatMap.mp hb
        rw [(seat_of_mem_pairsAt ha).1, (seat_of_mem_pairsAt hb).1]
        exact hhead p hpass

/-- The passes give the entries. -/
theorem passes_perm (h : SameRow row entry) :
    ((List.range 256).flatMap row.pairsAt).Perm entry := by
  have hsorted := h.passes_sorted (List.range 256) List.pairwise_lt_range
  have hnodup : ((List.range 256).flatMap row.pairsAt).Nodup :=
    hsorted.imp fun hlt heq => by rw [heq] at hlt; exact Nat.lt_irrefl _ hlt
  refine (List.perm_ext_iff_of_nodup hnodup (List.Nodup.of_map _ h.stores.keyed)).mpr fun e => ?_
  rw [List.mem_flatMap]
  constructor
  · rintro ⟨pass, -, he⟩
    exact (h.mem_iff e.1 e.2).mpr (seat_of_mem_pairsAt he).2
  · intro he
    obtain ⟨j, hj, hused, hseat, hcrc⟩ := (h.mem_iff e.1 e.2).mp he
    refine ⟨e.1, List.mem_range.mpr (h.bytes e he), List.mem_map.mpr ⟨j, ?_, ?_⟩⟩
    · rw [List.mem_filter, hused, hseat]
      exact ⟨List.mem_range.mpr hj, by simp⟩
    · rw [hseat, hcrc]

/-- The mismatch loop prints `sorted(entry.items())`. -/
theorem pairs_eq (h : SameRow row entry) : row.pairs = Py.sortedItems entry := by
  have hperm := h.passes_perm
  have hall : row.pairs = (List.range 256).flatMap row.pairsAt :=
    foldl_until row.pairsAt row.nseats (List.range 256) [] (by
      rw [List.nil_append, hperm.length_eq, h.nseats])
  have hitems : (Py.sortedItems entry).Pairwise fun a b =>
      (decide (a.1 < b.1) || (decide (a.1 = b.1) && decide (a.2 ≤ b.2))) = true := by
    refine List.pairwise_mergeSort ?_ ?_ entry
    · intro a b c hab hbc
      simp only [Bool.or_eq_true, Bool.and_eq_true, decide_eq_true_eq] at hab hbc ⊢
      omega
    · intro a b
      simp only [Bool.or_eq_true, Bool.and_eq_true, decide_eq_true_eq]
      omega
  rw [hall]
  refine List.Perm.eq_of_pairwise ?_ ((h.passes_sorted _ List.pairwise_lt_range).imp ?_) hitems
    (hperm.trans (List.mergeSort_perm entry _).symm)
  · intro a b _ _ hab hba
    simp only [Bool.or_eq_true, Bool.and_eq_true, decide_eq_true_eq] at hab hba
    exact Prod.ext (by omega) (by omega)
  · intro a b hlt
    simp only [Bool.or_eq_true, Bool.and_eq_true, decide_eq_true_eq]
    exact Or.inl hlt

end SameRow

end C

end SharkNetplay.Relay
