import SharkNetplay.Relay.CrcRows

/-!
# The two comparators compute the same

The C table of 65 rows stores the dictionary of the Python room: a row is found or made
when Python's `setdefault` finds or makes the entry, the row with the lowest tick is freed
when Python pops the least key, and a completed row is freed if it is still there. Hence
one payload gives the same lines and the same dictionary, and so does a whole match.

## Implementation notes

The relation also says that no entry is complete: a complete one has been popped. That is
why eight slots are enough in a room of at most eight members.
-/

namespace SharkNetplay.Relay

open Lib CrcPayload

namespace C

/-- The rows store the dictionary. -/
abbrev SameTable (t : CrcTable) (d : List (Nat × List (Nat × Nat))) : Prop :=
  Slots.Stores CrcRow.inUse CrcRow.tick (crcTicks + 1) t.crc SameRow d ∧ t.ncrc = d.length

/-- The table of a room of `n` members and what Python has for it. -/
structure SameLog (n : Nat) (t : CrcTable) (log : Py.CrcLog) : Prop where
  table : SameTable t log.crc
  few : log.crc.length ≤ crcTicks
  incomplete : ∀ tick entry, Dict.get tick log.crc = some entry → entry.length < n
  rounds : t.crcOk = log.crcOk % 2 ^ 32

/-- A line of the Python log with the counter as C prints it. -/
def CrcLine.wrap : CrcLine → CrcLine
  | .mismatch tick pairs => .mismatch tick pairs
  | .ok tick rounds => .ok tick (rounds % 2 ^ 32)

namespace CrcTable

/-! ## One step at a time -/

/-- What `evict` does to a row: nothing, or it frees it. -/
theorem evict_row (t : CrcTable) (i : Nat) :
    t.evict.crc i = t.crc i ∨ t.evict.crc i = { t.crc i with inUse := false } := by
  unfold evict
  split
  · split
    · exact Or.inl rfl
    · next low _ =>
        by_cases h : i = low
        · right
          rw [h]
          exact Function.update_self ..
        · left
          exact Function.update_of_ne h ..
  · exact Or.inl rfl

@[simp] theorem evict_crcOk (t : CrcTable) : t.evict.crcOk = t.crcOk := by
  unfold evict
  split
  · split <;> rfl
  · rfl

@[simp] theorem pop_crcOk (i : Nat) (t : CrcTable) : (t.pop i).crcOk = t.crcOk := by
  unfold pop
  split <;> rfl

end CrcTable

namespace SameTable

variable {t : CrcTable} {d : List (Nat × List (Nat × Nat))}

/-- There is a row for every tick: it is found, or a free one is made into it. Whatever is
written into it afterwards is the entry of the tick. -/
theorem rowFor (h : SameTable t d) (hfew : d.length ≤ crcTicks) (tick : Nat) :
    ∃ i t', t.rowFor tick = some (i, t') ∧ i < crcTicks + 1 ∧ t'.crcOk = t.crcOk ∧
      (t'.crc i).inUse = true ∧ (t'.crc i).tick = tick ∧
      SameRow (t'.crc i) ((Dict.get tick d).getD []) ∧
      ∀ row entry, row.inUse = true → row.tick = tick → SameRow row entry →
        SameTable { t' with crc := Function.update t'.crc i row } (Dict.assign tick entry d) := by
  obtain ⟨hstores, hcount⟩ := h
  have hlength := fun entry => Dict.length_assign d tick entry
  unfold CrcTable.rowFor CrcTable.findRow
  cases hfind : Slots.find CrcRow.inUse CrcRow.tick (crcTicks + 1) t.crc tick with
  | some i =>
      obtain ⟨hi, hused, hkey⟩ := Slots.find_some hfind
      obtain ⟨entry, hentry, hrow⟩ := hstores.find_get hfind
      refine ⟨i, t, rfl, hi, rfl, hused, hkey, by rw [hentry]; exact hrow, ?_⟩
      intro row entry' hu hk hV
      refine ⟨hstores.assign hi (Or.inl hfind) hu hk hV, ?_⟩
      rw [hlength, hentry, Option.isSome_some, if_pos rfl]
      exact hcount
  | none =>
      have hroom : Slots.count CrcRow.inUse (crcTicks + 1) t.crc < crcTicks + 1 := by
        rw [hstores.count]
        exact Nat.lt_succ_of_le hfew
      obtain ⟨i, hfree⟩ := Slots.free_isSome hroom
      obtain ⟨hi, hunused⟩ := Slots.free_some hfree
      have hget := (hstores.find_iff tick).mp hfind
      dsimp only
      rw [hfree, Option.map_some]
      refine ⟨i, _, rfl, hi, rfl, ?_, ?_, ?_, ?_⟩
      · dsimp only
        rw [Function.update_self]
      · dsimp only
        rw [Function.update_self]
      · dsimp only
        rw [Function.update_self, hget]
        exact SameRow.fresh tick
      · intro row entry' hu hk hV
        dsimp only
        rw [Function.update_idem]
        refine ⟨hstores.assign hi (Or.inr ⟨hfind, hunused⟩) hu hk hV, ?_⟩
        rw [hlength, hget, Option.isSome_none, if_neg Bool.false_ne_true, hcount]

/-- Free a row in use. -/
theorem free (h : SameTable t d) {i : Nat} (hi : i < crcTicks + 1)
    (hused : (t.crc i).inUse = true) :
    SameTable { t with
      crc := Function.update t.crc i { t.crc i with inUse := false }
      ncrc := t.ncrc - 1 } (Dict.erase (t.crc i).tick d) := by
  obtain ⟨b, hb, -⟩ := h.1.sound i hi hused
  have hlen := Dict.length_erase h.1.keyed (k := (t.crc i).tick) (by rw [hb]; rfl)
  refine ⟨h.1.remove hi hused rfl, ?_⟩
  have hcount := h.2
  dsimp only
  omega

/-- The eviction pops the least key when there are more than 64. -/
theorem evict (h : SameTable t d) :
    SameTable t.evict (if crcTicks < d.length then Dict.erase (Dict.minKey d) d else d) := by
  have hcount := h.2
  unfold CrcTable.evict
  by_cases hmany : crcTicks < d.length
  · rw [if_pos (hcount ▸ hmany), if_pos hmany]
    obtain ⟨i, hlow, hi, hused, hkey⟩ := h.1.lowest_key (List.ne_nil_of_length_pos (by omega))
    rw [hlow, ← hkey]
    exact h.free hi hused
  · rw [if_neg (hcount ▸ hmany), if_neg hmany]
    exact h

/-- `room.crc.pop(tick, None)`: the row at hand is the only one of its tick. -/
theorem pop (h : SameTable t d) {i : Nat} (hi : i < crcTicks + 1)
    (hgone : (t.crc i).inUse = false → Dict.get (t.crc i).tick d = none) :
    SameTable (t.pop i) (Dict.erase (t.crc i).tick d) := by
  unfold CrcTable.pop
  by_cases hused : (t.crc i).inUse = true
  · rw [if_pos hused]
    exact h.free hi hused
  · rw [if_neg hused, Dict.erase_of_none (hgone (by simpa using hused))]
    exact h

/-- A row that the eviction freed left no entry of its tick. -/
theorem evicted_gone (h : SameTable t d) {i : Nat} (hi : i < crcTicks + 1)
    (hused : (t.crc i).inUse = true) (hfreed : (t.evict.crc i).inUse = false) :
    Dict.get (t.evict.crc i).tick
      (if crcTicks < d.length then Dict.erase (Dict.minKey d) d else d) = none := by
  have hstores := h.evict.1
  rw [← hstores.find_iff]
  cases hfind : Slots.find CrcRow.inUse CrcRow.tick (crcTicks + 1) t.evict.crc
    (t.evict.crc i).tick with
  | none => rfl
  | some j =>
      obtain ⟨hj, huj, hkey⟩ := Slots.find_some hfind
      -- a row in use now was in use before, under the same tick
      have hji : j = i := by
        refine h.1.distinct j hj i hi ?_ hused ?_
        · rcases t.evict_row j with hrow | hrow
          · rw [← hrow]; exact huj
          · rw [hrow] at huj; exact Bool.noConfusion huj
        · have htick : ∀ a, (t.evict.crc a).tick = (t.crc a).tick := fun a => by
            rcases t.evict_row a with hrow | hrow <;> rw [hrow]
          rw [← htick, ← htick]
          exact hkey
      rw [hji, hfreed] at huj
      exact Bool.noConfusion huj

end SameTable

/-! ## One payload -/

theorem SameLog.start (n : Nat) : SameLog n {} {} where
  table := ⟨Slots.Stores.empty fun _ _ => rfl, rfl⟩
  few := Nat.zero_le _
  incomplete _ _ h := nomatch h
  rounds := rfl

variable {n : Nat} {t : CrcTable} {log : Py.CrcLog}

/-- The entry of a tick has room for one more seat. -/
theorem SameLog.entry_lt (h : SameLog n t log) (hn : n ≤ crcSeats) (tick : Nat) :
    ((Dict.get tick log.crc).getD []).length < crcSeats := by
  cases hget : Dict.get tick log.crc with
  | none => exact Nat.succ_pos 7
  | some entry => exact Nat.lt_of_lt_of_le (h.incomplete tick entry hget) hn

/-- What Python keeps has at most 64 ticks again. -/
theorem SameLog.stored_few (h : SameLog n t log) (payload : List Nat) :
    (Py.crcStored payload log).length ≤ crcTicks := by
  unfold Py.crcStored
  have hlength := Dict.length_assign log.crc (tick payload) (Py.crcEntry payload log)
  have hfew := h.few
  by_cases hmany : crcTicks < (Dict.assign (tick payload) (Py.crcEntry payload log) log.crc).length
  · rw [if_pos hmany]
    have hne : Dict.assign (tick payload) (Py.crcEntry payload log) log.crc ≠ [] :=
      List.ne_nil_of_length_pos (by omega)
    obtain ⟨⟨v, hv⟩, -⟩ := Dict.minKey_spec hne
    have hlen := Dict.length_erase (h.table.1.keyed.assign (tick payload) _)
      (Dict.get_isSome hv)
    split at hlength <;> simp only [crcTicks] at * <;> omega
  · rw [if_neg hmany]
    omega

/-- Every entry that is kept was there before, or is the entry of the tick. -/
theorem SameLog.stored_get (h : SameLog n t log) (payload : List Nat) {tick' : Nat}
    {entry : List (Nat × Nat)} (hget : Dict.get tick' (Py.crcStored payload log) = some entry) :
    (tick' = tick payload ∧ entry = Py.crcEntry payload log) ∨
      (tick' ≠ tick payload ∧ entry.length < n) := by
  have hassign : Dict.get tick' (Dict.assign (tick payload) (Py.crcEntry payload log) log.crc) =
      some entry := by
    unfold Py.crcStored at hget
    dsimp only at hget
    split at hget
    · rw [Dict.get_erase] at hget
      split at hget
      · cases hget
      · exact hget
    · exact hget
  rw [Dict.get_assign] at hassign
  split at hassign
  · next htick => exact Or.inl ⟨htick, (Option.some.inj hassign).symm⟩
  · next htick => exact Or.inr ⟨htick, h.incomplete _ _ hassign⟩

/-- The counter wraps the way the Python one is read modulo `2 ^ 32`. -/
private theorem rounds_succ (rounds : Nat) :
    (rounds % 2 ^ 32 + 1) % 2 ^ 32 = (rounds + 1) % 2 ^ 32 ∧
      ((rounds + 1) % 2 ^ 32) % 4 = (rounds + 1) % 4 := by
  omega

/-- One payload gives the same lines and keeps the logs the same. -/
theorem SameLog.logCrc (h : SameLog n t log) (hn : n ≤ crcSeats) {payload : List Nat}
    (hseat : seat payload < 256) :
    SameLog n (C.logCrc n payload t).1 (Py.logCrc n payload log).1 ∧
      (C.logCrc n payload t).2 = (Py.logCrc n payload log).2.map CrcLine.wrap := by
  obtain ⟨i, t₁, hrowFor, hi, hok₁, hused₁, htick₁, hrow₁, hwrite⟩ :=
    SameTable.rowFor h.table h.few (tick payload)
  obtain ⟨row, hput, hrow, hused, htick⟩ := hrow₁.put hseat (h.entry_lt hn _) (crc payload)
  rw [hused₁] at hused
  rw [htick₁] at htick
  have hstored := hwrite row (Py.crcEntry payload log) hused htick hrow
  generalize ht₂ : ({ t₁ with crc := Function.update t₁.crc i row } : CrcTable) = t₂ at hstored
  have hrow₂ : t₂.crc i = row := by
    rw [← ht₂]
    exact Function.update_self ..
  have hok₂ : t₂.crcOk = t.crcOk := by
    rw [← ht₂]
    exact hok₁
  -- the table after the eviction, and the row at hand in it
  have hevict : SameTable t₂.evict (Py.crcStored payload log) := SameTable.evict hstored
  have hgone := SameTable.evicted_gone hstored hi (by rw [hrow₂]; exact hused)
  obtain ⟨hs₃, hn₃, htick₃⟩ : (t₂.evict.crc i).s = row.s ∧
      (t₂.evict.crc i).nseats = row.nseats ∧ (t₂.evict.crc i).tick = tick payload := by
    rcases t₂.evict_row i with heq | heq <;> rw [heq, hrow₂] <;> exact ⟨rfl, rfl, htick⟩
  have hrow₃ : SameRow (t₂.evict.crc i) (Py.crcEntry payload log) := hrow.congr hs₃ hn₃
  unfold C.logCrc
  rw [hrowFor]
  dsimp only
  rw [hput]
  dsimp only
  rw [ht₂, hrow₃.nseats]
  unfold Py.logCrc
  dsimp only
  by_cases hfull : (Py.crcEntry payload log).length < n
  · rw [if_pos hfull, if_pos hfull]
    refine ⟨⟨hevict, h.stored_few payload, ?_, ?_⟩, rfl⟩
    · intro tick' entry hget
      rcases h.stored_get payload hget with ⟨-, rfl⟩ | ⟨-, hlt⟩
      · exact hfull
      · exact hlt
    · rw [CrcTable.evict_crcOk, hok₂]
      exact h.rounds
  · rw [if_neg hfull, if_neg hfull]
    have hpop : SameTable (t₂.evict.pop i)
        (Dict.erase (tick payload) (Py.crcStored payload log)) := by
      have hpopped := SameTable.pop hevict hi hgone
      rw [htick₃] at hpopped
      exact hpopped
    have hfew : (Dict.erase (tick payload) (Py.crcStored payload log)).length ≤ crcTicks :=
      Nat.le_trans (List.length_filter_le ..) (h.stored_few payload)
    have hincomplete : ∀ tick' entry,
        Dict.get tick' (Dict.erase (tick payload) (Py.crcStored payload log)) = some entry →
        entry.length < n := by
      intro tick' entry hget
      rw [Dict.get_erase] at hget
      split at hget
      · cases hget
      · next hne =>
          rcases h.stored_get payload hget with ⟨heq, -⟩ | ⟨-, hlt⟩
          · exact absurd heq hne
          · exact hlt
    have hok₃ : (t₂.evict.pop i).crcOk = log.crcOk % 2 ^ 32 := by
      rw [CrcTable.pop_crcOk, CrcTable.evict_crcOk, hok₂]
      exact h.rounds
    have hagree := hrow₃.agree_iff (List.ne_nil_of_mem (Dict.assign_mem _ _ _))
    by_cases heq : (t₂.evict.crc i).agree = true
    · rw [if_pos heq, if_neg (not_not.mpr (hagree.mp heq))]
      obtain ⟨hwrap, hfour⟩ := rounds_succ log.crcOk
      refine ⟨⟨hpop, hfew, hincomplete, ?_⟩, ?_⟩
      · dsimp only
        rw [hok₃]
        exact hwrap
      · dsimp only
        rw [hok₃, hwrap, hfour]
        split <;> rfl
    · rw [if_neg heq, if_pos fun hone => heq (hagree.mpr hone)]
      refine ⟨⟨hpop, hfew, hincomplete, hok₃⟩, ?_⟩
      dsimp only
      rw [hrow₃.pairs_eq]
      rfl

/-! ## A match -/

/-- Whatever is reported in whatever order, the logs stay the same. -/
theorem SameLog.logCrcs (hn : n ≤ crcSeats) (payloads : List (List Nat))
    (hbytes : ∀ payload ∈ payloads, ∀ b ∈ payload, b < 256) (h : SameLog n t log) :
    SameLog n (C.logCrcs n payloads t).1 (Py.logCrcs n payloads log).1 ∧
      (C.logCrcs n payloads t).2 = (Py.logCrcs n payloads log).2.map CrcLine.wrap := by
  induction payloads generalizing t log with
  | nil => exact ⟨h, rfl⟩
  | cons payload rest ih =>
      have hseat : seat payload < 256 := by
        have hbyte := hbytes payload List.mem_cons_self
        match payload, hbyte with
        | [], _ => exact Nat.zero_lt_succ 255
        | b :: _, hbyte => exact hbyte b List.mem_cons_self
      obtain ⟨hstep, hlines⟩ := h.logCrc hn hseat
      obtain ⟨hrun, hrest⟩ := ih (fun p hp => hbytes p (List.mem_cons_of_mem _ hp)) hstep
      refine ⟨hrun, ?_⟩
      change (C.logCrc n payload t).2 ++ (C.logCrcs n rest (C.logCrc n payload t).1).2 =
        ((Py.logCrc n payload log).2 ++
          (Py.logCrcs n rest (Py.logCrc n payload log).1).2).map CrcLine.wrap
      rw [List.map_append, hlines, hrest]

/-- Equal logs are read back equal. -/
theorem SameLog.view_eq (h : SameLog n t log) : t.view = log.view := by
  funext tick
  unfold CrcTable.view Py.CrcLog.view
  cases hfind : t.findRow tick with
  | none =>
      rw [(h.table.1.find_iff tick).mp hfind]
      rfl
  | some i =>
      obtain ⟨entry, hentry, hrow⟩ := h.table.1.find_get hfind
      rw [hentry]
      refine congrArg some (funext fun seat => ?_)
      change ((t.crc i).findSlot seat).map (fun j => ((t.crc i).s j).crc) = Dict.get seat entry
      cases hslot : (t.crc i).findSlot seat with
      | none => exact ((hrow.stores.find_iff seat).mp hslot).symm
      | some j =>
          obtain ⟨crc, hcrc, hv⟩ := hrow.stores.find_get hslot
          exact (congrArg some hv).trans hcrc.symm

/-- In a match of `n ≤ 8` members both comparators write the same lines, keep the same
checksums and count the same rounds. -/
theorem logCrcs_same (n : Nat) (hn : n ≤ crcSeats) (payloads : List (List Nat))
    (hbytes : ∀ payload ∈ payloads, ∀ b ∈ payload, b < 256) :
    (C.logCrcs n payloads {}).2 = (Py.logCrcs n payloads {}).2.map CrcLine.wrap ∧
      (C.logCrcs n payloads {}).1.view = (Py.logCrcs n payloads {}).1.view ∧
      (C.logCrcs n payloads {}).1.crcOk = (Py.logCrcs n payloads {}).1.crcOk % 2 ^ 32 := by
  obtain ⟨hsame, hlines⟩ := SameLog.logCrcs hn payloads hbytes (SameLog.start n)
  exact ⟨hlines, hsame.view_eq, hsame.rounds⟩

/-- A room of two in which the guest reports under a seat it does not own. -/
theorem logCrcs_same_lying :
    let payloads := [[0, 5, 0, 1, 2], [200, 5, 0, 1, 3]]
    (C.logCrcs 2 payloads {}).2 = (Py.logCrcs 2 payloads {}).2.map CrcLine.wrap ∧
      (C.logCrcs 2 payloads {}).1.view = (Py.logCrcs 2 payloads {}).1.view ∧
      (C.logCrcs 2 payloads {}).1.crcOk = (Py.logCrcs 2 payloads {}).1.crcOk % 2 ^ 32 :=
  logCrcs_same 2 (by decide) _ (by decide)

end C

end SharkNetplay.Relay
