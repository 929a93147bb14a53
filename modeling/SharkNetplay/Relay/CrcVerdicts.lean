import Mathlib.Data.List.Induction
import SharkNetplay.Relay.CrcLog

/-!
# The verdicts of a room

What the Python comparator decides when every member reports under its own seat and no
tick twice. A retained entry is then a sublist of the reports of its tick, so that an entry
with as many seats as the room has members is all the reports of the tick, however many
ticks were evicted. As long as at most 64 ticks are incomplete nothing is evicted: the
table is what the reports so far say it is.

## Implementation notes

A verdict is read off the entry that `log_crc` compares. `Emits` says what the code does
with it: an agreed round is counted, and the others are logged.
-/

namespace SharkNetplay.Relay.Py

open Lib CrcPayload

/-- What `log_crc` decides about a tick: the reports compared, and whether they agreed. -/
structure Verdict where
  tick : Nat
  pairs : List (Nat × Nat)
  agreed : Bool
  deriving Repr, DecidableEq

/-- The verdict that a payload brings about. -/
def verdict (n : Nat) (payload : List Nat) (log : CrcLog) : Option Verdict :=
  let entry := crcEntry payload log
  if entry.length < n then none
  else some ⟨tick payload, entry, decide ((entry.map Prod.snd).dedup.length = 1)⟩

/-- What the code does with a verdict, `out` being what it returns. -/
def Emits (log : CrcLog) (out : CrcLog × List CrcLine) : Option Verdict → Prop
  | none => out.1.crcOk = log.crcOk ∧ out.2 = []
  | some v =>
    if v.agreed then out.1.crcOk = log.crcOk + 1 ∧ ∀ tick pairs, .mismatch tick pairs ∉ out.2
    else out.1.crcOk = log.crcOk ∧ out.2 = [.mismatch v.tick (sortedItems v.pairs)]

/-- The reports of a tick: seat and checksum, in the order they came. -/
def reports (t : Nat) (payloads : List (List Nat)) : List (Nat × Nat) :=
  (payloads.filter fun p => tick p == t).map fun p => (seat p, crc p)

/-- Every member reports under its own seat and no tick twice. -/
structure Honest (n : Nat) (payloads : List (List Nat)) : Prop where
  own : ∀ p ∈ payloads, seat p < n
  once : (payloads.map fun p => (tick p, seat p)).Nodup

/-- The ticks that some but not all members have reported. -/
def incomplete (n : Nat) (payloads : List (List Nat)) : List Nat :=
  (payloads.map tick).dedup.filter fun t => decide ((reports t payloads).length < n)

/-- The ticks that all members have reported, with one value. -/
def agreedTicks (n : Nat) (payloads : List (List Nat)) : List Nat :=
  (payloads.map tick).dedup.filter fun t =>
    decide ((reports t payloads).length = n ∧
      ((reports t payloads).map Prod.snd).dedup.length = 1)

/-! ## What the code does -/

/-- `log_crc` in terms of its verdict. -/
theorem logCrc_eq (n : Nat) (payload : List Nat) (log : CrcLog) :
    logCrc n payload log =
      match verdict n payload log with
      | none => ({ log with crc := crcStored payload log }, [])
      | some v =>
        ({ crc := Dict.erase (tick payload) (crcStored payload log)
           crcOk := log.crcOk + v.agreed.toNat },
          if v.agreed then
            if (log.crcOk + 1) % 4 = 0 then [.ok v.tick (log.crcOk + 1)] else []
          else [.mismatch v.tick (sortedItems v.pairs)]) := by
  unfold logCrc verdict
  dsimp only
  by_cases hfull : (crcEntry payload log).length < n
  · rw [if_pos hfull, if_pos hfull]
  · rw [if_neg hfull, if_neg hfull]
    by_cases hone : ((crcEntry payload log).map Prod.snd).dedup.length = 1
    · simp [hone]
    · simp [hone]

theorem logCrc_emits (n : Nat) (payload : List Nat) (log : CrcLog) :
    Emits log (logCrc n payload log) (verdict n payload log) := by
  rw [logCrc_eq]
  cases verdict n payload log with
  | none => exact ⟨rfl, rfl⟩
  | some v =>
      simp only [Emits]
      by_cases hagreed : v.agreed = true
      · rw [if_pos hagreed, if_pos hagreed, hagreed]
        refine ⟨rfl, fun t pairs hmem => ?_⟩
        split at hmem
        · exact nomatch List.mem_singleton.mp hmem
        · exact nomatch hmem
      · have hno : v.agreed = false := by simpa using hagreed
        rw [if_neg hagreed, if_neg hagreed, hno]
        exact ⟨rfl, rfl⟩

theorem logCrcs_concat (n : Nat) (pre : List (List Nat)) (p : List Nat) (log : CrcLog) :
    (logCrcs n (pre ++ [p]) log).1 = (logCrc n p (logCrcs n pre log).1).1 := by
  induction pre generalizing log with
  | nil => rfl
  | cons payload pre ih => exact ih _

/-! ## Reports -/

theorem reports_concat (t : Nat) (pre : List (List Nat)) (p : List Nat) :
    reports t (pre ++ [p]) =
      if tick p = t then reports t pre ++ [(seat p, crc p)] else reports t pre := by
  unfold reports
  rw [List.filter_append, List.map_append, List.filter_singleton]
  by_cases h : tick p = t
  · rw [if_pos h, beq_iff_eq.mpr h]
    rfl
  · rw [if_neg h, beq_eq_false_iff_ne.mpr h]
    exact List.append_nil _

theorem mem_ticks (t : Nat) (payloads : List (List Nat)) :
    t ∈ payloads.map tick ↔ reports t payloads ≠ [] := by
  unfold reports
  rw [Ne, List.map_eq_nil_iff, List.filter_eq_nil_iff]
  simp

theorem reports_perm {payloads payloads' : List (List Nat)} (h : payloads.Perm payloads')
    (t : Nat) : (reports t payloads).Perm (reports t payloads') := (h.filter _).map _

namespace Honest

variable {n : Nat} {payloads pre : List (List Nat)} {p : List Nat}

theorem init (h : Honest n (pre ++ [p])) : Honest n pre where
  own q hq := h.own q (List.mem_append_left _ hq)
  once := by
    have honce := h.once
    rw [List.map_append] at honce
    exact (List.nodup_append.mp honce).1

theorem prefix_of (h : Honest n payloads) (hpre : pre <+: payloads) : Honest n pre where
  own q hq := h.own q (hpre.subset hq)
  once := List.Nodup.sublist (hpre.sublist.map _) h.once

/-- No seat reports a tick twice. -/
theorem keyed (h : Honest n payloads) (t : Nat) : Dict.Keyed (reports t payloads) := by
  unfold Dict.Keyed reports
  rw [List.map_map]
  have hfilter : ((payloads.filter fun p => tick p == t).map fun p => (tick p, seat p)).Nodup :=
    List.Nodup.sublist (List.filter_sublist.map _) h.once
  refine List.Nodup.of_map (fun s => (t, s)) ?_
  rw [List.map_map]
  have hsame : ((payloads.filter fun p => tick p == t).map
      ((fun s => (t, s)) ∘ (Prod.fst ∘ fun p => (seat p, crc p)))) =
      (payloads.filter fun p => tick p == t).map fun p => (tick p, seat p) := by
    refine List.map_congr_left fun q hq => ?_
    rw [List.mem_filter, beq_iff_eq] at hq
    exact Prod.ext hq.2.symm rfl
  rw [hsame]
  exact hfilter

theorem seat_lt (h : Honest n payloads) {t : Nat} {e : Nat × Nat} (he : e ∈ reports t payloads) :
    e.1 < n := by
  obtain ⟨q, hq, rfl⟩ := List.mem_map.mp he
  exact h.own q (List.mem_of_mem_filter hq)

/-- The seats of a tick are among the `n` of the room. -/
theorem seats_subperm (h : Honest n payloads) (t : Nat) :
    List.Subperm ((reports t payloads).map Prod.fst) (List.range n) := by
  refine List.subperm_of_subset (h.keyed t) fun s hs => ?_
  obtain ⟨e, he, rfl⟩ := List.mem_map.mp hs
  exact List.mem_range.mpr (h.seat_lt he)

theorem length_le (h : Honest n payloads) (t : Nat) : (reports t payloads).length ≤ n := by
  have hle := (h.seats_subperm t).length_le
  rw [List.length_map, List.length_range] at hle
  exact hle

/-- A tick with `n` reports has one of each seat. -/
theorem seats_perm (h : Honest n payloads) {t : Nat} (hfull : (reports t payloads).length = n) :
    ((reports t payloads).map Prod.fst).Perm (List.range n) := by
  refine (h.seats_subperm t).perm_of_length_le ?_
  rw [List.length_map, List.length_range, hfull]

/-- The seat has not reported the tick before. -/
theorem seat_new (h : Honest n (pre ++ [p])) {e : Nat × Nat} (he : e ∈ reports (tick p) pre) :
    e.1 ≠ seat p := by
  have hkeyed := h.keyed (tick p)
  rw [reports_concat, if_pos rfl] at hkeyed
  unfold Dict.Keyed at hkeyed
  rw [List.map_append, List.nodup_append] at hkeyed
  exact hkeyed.2.2 e.1 (List.mem_map_of_mem he) (seat p) (List.mem_singleton.mpr rfl)

end Honest

/-! ## However many ticks were evicted -/

/-- Entries hold reports of their tick, in order, and are not complete. -/
structure Kept (n : Nat) (pre : List (List Nat)) (table : List (Nat × List (Nat × Nat))) :
    Prop where
  keyed : Dict.Keyed table
  entries : ∀ t e, Dict.get t table = some e → e.Sublist (reports t pre) ∧ e.length < n

variable {n : Nat} {payloads pre : List (List Nat)} {p : List Nat} {log : CrcLog}

/-- The entry of the tick is reports of the tick again. -/
theorem Kept.entry (h : Kept n pre log.crc) (hon : Honest n (pre ++ [p])) :
    (crcEntry p log).Sublist (reports (tick p) (pre ++ [p])) := by
  have hsub : ((Dict.get (tick p) log.crc).getD []).Sublist (reports (tick p) pre) := by
    cases hget : Dict.get (tick p) log.crc with
    | none => exact List.nil_sublist _
    | some e => exact (h.entries _ _ hget).1
  have hnew : Dict.get (seat p) ((Dict.get (tick p) log.crc).getD []) = none :=
    Dict.get_eq_none fun e he => hon.seat_new (hsub.subset he)
  rw [crcEntry, Dict.assign_of_none hnew, reports_concat, if_pos rfl]
  exact hsub.append (List.Sublist.refl _)

/-- What is kept of the table, unless the entry of the tick is complete. -/
private theorem Kept.assign (h : Kept n pre log.crc) (hon : Honest n (pre ++ [p])) {t : Nat}
    {e : List (Nat × Nat)}
    (hget : Dict.get t (Dict.assign (tick p) (crcEntry p log) log.crc) = some e)
    (hopen : t = tick p → (crcEntry p log).length < n) :
    e.Sublist (reports t (pre ++ [p])) ∧ e.length < n := by
  rw [Dict.get_assign] at hget
  by_cases ht : t = tick p
  · rw [if_pos ht] at hget
    obtain rfl := Option.some.inj hget
    subst ht
    exact ⟨h.entry hon, hopen rfl⟩
  · rw [if_neg ht] at hget
    rw [reports_concat, if_neg fun heq => ht heq.symm]
    exact h.entries t e hget

theorem crcStored_keyed (h : Dict.Keyed log.crc) (p : List Nat) :
    Dict.Keyed (crcStored p log) := by
  unfold crcStored
  dsimp only
  split
  · exact (h.assign _ _).erase _
  · exact h.assign _ _

theorem crcStored_get {t : Nat} {e : List (Nat × Nat)}
    (h : Dict.get t (crcStored p log) = some e) :
    Dict.get t (Dict.assign (tick p) (crcEntry p log) log.crc) = some e := by
  unfold crcStored at h
  dsimp only at h
  split at h
  · rw [Dict.get_erase] at h
    split at h
    · cases h
    · exact h
  · exact h

/-- One report keeps the entries reports. -/
theorem Kept.step (h : Kept n pre log.crc) (hon : Honest n (pre ++ [p])) :
    Kept n (pre ++ [p]) (logCrc n p log).1.crc := by
  have hkeyed := crcStored_keyed h.keyed p
  rw [logCrc_eq]
  cases hv : verdict n p log with
  | none =>
      refine ⟨hkeyed, fun t e hget => h.assign hon (crcStored_get hget) fun _ => ?_⟩
      unfold verdict at hv
      dsimp only at hv
      split at hv
      · assumption
      · cases hv
  | some v =>
      refine ⟨hkeyed.erase _, fun t e hget => ?_⟩
      dsimp only at hget
      rw [Dict.get_erase] at hget
      split at hget
      · cases hget
      · next hne => exact h.assign hon (crcStored_get hget) fun heq => absurd heq hne

theorem kept_logCrcs (h : Honest n pre) : Kept n pre (logCrcs n pre {}).1.crc := by
  induction pre using List.reverseRecOn with
  | nil => exact ⟨List.nodup_nil, fun _ _ hget => nomatch hget⟩
  | append_singleton pre p ih =>
      rw [logCrcs_concat]
      exact (ih h.init).step h

/-- The verdict compares one report of each seat, and agrees when they are equal. -/
structure Verdict.Exact (n : Nat) (seen : List (List Nat)) (v : Verdict) : Prop where
  pairs : v.pairs = reports v.tick seen
  seats : (v.pairs.map Prod.fst).Perm (List.range n)
  agreed : v.agreed = true ↔ ∀ a ∈ v.pairs, ∀ b ∈ v.pairs, b.2 = a.2

private theorem values_agree {l : List (Nat × Nat)} (hl : l ≠ []) :
    (l.map Prod.snd).dedup.length = 1 ↔ ∀ a ∈ l, ∀ b ∈ l, b.2 = a.2 := by
  rw [dedup_length_eq_one fun hnil => hl (List.map_eq_nil_iff.mp hnil)]
  constructor
  · exact fun h a ha b hb => h _ (List.mem_map_of_mem ha) _ (List.mem_map_of_mem hb)
  · intro h x hx y hy
    obtain ⟨a, ha, rfl⟩ := List.mem_map.mp hx
    obtain ⟨b, hb, rfl⟩ := List.mem_map.mp hy
    exact h a ha b hb

/-- A verdict after any reports is exact. -/
theorem Kept.exact (h : Kept n pre log.crc) (hon : Honest n (pre ++ [p])) {v : Verdict}
    (hv : verdict n p log = some v) : v.Exact n (pre ++ [p]) := by
  unfold verdict at hv
  dsimp only at hv
  split at hv
  · exact nomatch hv
  · next hfull =>
      obtain rfl := Option.some.inj hv
      have hle := hon.length_le (tick p)
      have hall : crcEntry p log = reports (tick p) (pre ++ [p]) :=
        (h.entry hon).eq_of_length_le (by omega)
      have hlength : (reports (tick p) (pre ++ [p])).length = n := by
        rw [hall] at hfull
        omega
      refine ⟨hall, ?_, ?_⟩
      · dsimp only
        rw [hall]
        exact hon.seats_perm hlength
      · dsimp only
        rw [decide_eq_true_eq]
        exact values_agree (List.ne_nil_of_mem (Dict.assign_mem _ _ _))

/-! ## As long as nothing is evicted -/

/-- The table has the reports of the incomplete ticks. -/
structure Tracks (n : Nat) (pre : List (List Nat)) (table : List (Nat × List (Nat × Nat))) :
    Prop where
  keyed : Dict.Keyed table
  get : ∀ t, Dict.get t table =
    if reports t pre = [] ∨ n ≤ (reports t pre).length then none else some (reports t pre)

/-- Its ticks are the incomplete ones. -/
theorem Tracks.length {table : List (Nat × List (Nat × Nat))} (h : Tracks n pre table) :
    table.length = (incomplete n pre).length := by
  rw [← List.length_map (f := Prod.fst)]
  refine List.Perm.length_eq ?_
  refine (List.perm_ext_iff_of_nodup h.keyed ((List.nodup_dedup _).filter _)).mpr fun t => ?_
  have hget := h.get t
  rw [List.mem_filter, List.mem_dedup, mem_ticks, decide_eq_true_eq]
  constructor
  · intro ht
    obtain ⟨e, he, rfl⟩ := List.mem_map.mp ht
    have hsome := Dict.get_isSome he
    rw [hget] at hsome
    split at hsome
    · exact Bool.noConfusion hsome
    · next hno => exact ⟨fun hnil => hno (Or.inl hnil), by omega⟩
  · rintro ⟨hne, hlt⟩
    rw [if_neg (by rintro (hnil | hge) <;> [exact hne hnil; omega])] at hget
    exact List.mem_map_of_mem (f := Prod.fst) (Dict.mem_of_get hget)

/-- The entry of the tick is all its reports. -/
theorem Tracks.entry (h : Tracks n pre log.crc) (hon : Honest n (pre ++ [p])) :
    crcEntry p log = reports (tick p) (pre ++ [p]) := by
  have hlt : (reports (tick p) pre).length < n := by
    have hle := hon.length_le (tick p)
    rw [reports_concat, if_pos rfl, List.length_append, List.length_singleton] at hle
    omega
  have hold : (Dict.get (tick p) log.crc).getD [] = reports (tick p) pre := by
    rw [h.get]
    by_cases hnil : reports (tick p) pre = []
    · rw [if_pos (Or.inl hnil), hnil]
      rfl
    · rw [if_neg (by rintro (h | h) <;> [exact hnil h; omega])]
      rfl
  have hnew : Dict.get (seat p) (reports (tick p) pre) = none :=
    Dict.get_eq_none fun e he => hon.seat_new he
  rw [crcEntry, hold, Dict.assign_of_none hnew, reports_concat, if_pos rfl]

/-- The table once the entry is in it. -/
private theorem Tracks.assign (h : Tracks n pre log.crc) {t : Nat} (ht : t ≠ tick p) :
    Dict.get t (Dict.assign (tick p) (crcEntry p log) log.crc) =
      if reports t (pre ++ [p]) = [] ∨ n ≤ (reports t (pre ++ [p])).length then none
      else some (reports t (pre ++ [p])) := by
  have hsame : reports t (pre ++ [p]) = reports t pre := by
    rw [reports_concat, if_neg fun heq => ht heq.symm]
  rw [Dict.get_assign, if_neg ht, hsame]
  exact h.get t

private theorem reports_ne_nil (pre : List (List Nat)) (p : List Nat) :
    reports (tick p) (pre ++ [p]) ≠ [] := by
  rw [reports_concat, if_pos rfl]
  exact List.append_ne_nil_of_right_ne_nil _ (List.cons_ne_nil _ _)

/-- A verdict comes with the last of the `n` reports. -/
theorem Tracks.verdict_iff (h : Tracks n pre log.crc) (hon : Honest n (pre ++ [p])) :
    (verdict n p log).isSome = true ↔ (reports (tick p) (pre ++ [p])).length = n := by
  have hle := hon.length_le (tick p)
  unfold verdict
  dsimp only
  rw [h.entry hon]
  split
  · next hlt => simp [Nat.ne_of_lt hlt]
  · next hge =>
      rw [Option.isSome_some]
      exact ⟨fun _ => by omega, fun _ => rfl⟩

/-- Nothing is evicted while at most 64 ticks are incomplete. -/
theorem Tracks.stored (h : Tracks n pre log.crc) (hon : Honest n (pre ++ [p])) (hn : 2 ≤ n)
    (hbefore : (incomplete n pre).length ≤ crcTicks)
    (hafter : (incomplete n (pre ++ [p])).length ≤ crcTicks) :
    crcStored p log = Dict.assign (tick p) (crcEntry p log) log.crc := by
  refine if_neg (Nat.not_lt_of_le ?_)
  have hlength := Dict.length_assign log.crc (tick p) (crcEntry p log)
  have hcount := h.length
  by_cases hnew : reports (tick p) pre = []
  · -- the tick is new, and incomplete with its first report
    have hone : (reports (tick p) (pre ++ [p])).length = 1 := by
      rw [reports_concat, if_pos rfl, hnew]
      rfl
    have htracks : Tracks n (pre ++ [p])
        (Dict.assign (tick p) (crcEntry p log) log.crc) := by
      refine ⟨h.keyed.assign _ _, fun t => ?_⟩
      by_cases ht : t = tick p
      · subst ht
        rw [Dict.get_assign, if_pos rfl, h.entry hon, if_neg]
        rintro (hnil | hge)
        · exact reports_ne_nil pre p hnil
        · omega
      · exact h.assign ht
    rw [htracks.length]
    exact hafter
  · have hlt : (reports (tick p) pre).length < n := by
      have hle := hon.length_le (tick p)
      rw [reports_concat, if_pos rfl, List.length_append, List.length_singleton] at hle
      omega
    have hold : (Dict.get (tick p) log.crc).isSome = true := by
      rw [h.get, if_neg (by rintro (hnil | hge) <;> [exact hnew hnil; omega])]
      rfl
    rw [hlength, if_pos hold, hcount]
    exact hbefore

/-- One report keeps the table what the reports say. -/
theorem Tracks.step (h : Tracks n pre log.crc) (hon : Honest n (pre ++ [p])) (hn : 2 ≤ n)
    (hbefore : (incomplete n pre).length ≤ crcTicks)
    (hafter : (incomplete n (pre ++ [p])).length ≤ crcTicks) :
    Tracks n (pre ++ [p]) (logCrc n p log).1.crc := by
  have hstored := h.stored hon hn hbefore hafter
  have hverdict := h.verdict_iff hon
  have hle := hon.length_le (tick p)
  rw [logCrc_eq]
  cases hv : verdict n p log with
  | none =>
      rw [hv] at hverdict
      have hlt : (reports (tick p) (pre ++ [p])).length ≠ n := fun heq =>
        Bool.noConfusion (hverdict.mpr heq)
      dsimp only
      rw [hstored]
      refine ⟨h.keyed.assign _ _, fun t => ?_⟩
      by_cases ht : t = tick p
      · subst ht
        rw [Dict.get_assign, if_pos rfl, h.entry hon, if_neg]
        rintro (hnil | hge)
        · exact reports_ne_nil pre p hnil
        · omega
      · exact h.assign ht
  | some v =>
      rw [hv] at hverdict
      have hfull := hverdict.mp rfl
      dsimp only
      rw [hstored]
      refine ⟨(h.keyed.assign _ _).erase _, fun t => ?_⟩
      rw [Dict.get_erase]
      by_cases ht : t = tick p
      · subst ht
        rw [if_pos rfl, if_pos (Or.inr (Nat.le_of_eq hfull.symm))]
      · rw [if_neg ht]
        exact h.assign ht

theorem tracks_logCrcs (hn : 2 ≤ n) (hon : Honest n pre)
    (hfew : ∀ q, q <+: pre → (incomplete n q).length ≤ crcTicks) :
    Tracks n pre (logCrcs n pre {}).1.crc := by
  induction pre using List.reverseRecOn with
  | nil => exact ⟨List.nodup_nil, fun _ => rfl⟩
  | append_singleton pre p ih =>
      have hpre : pre <+: pre ++ [p] := List.prefix_append _ _
      rw [logCrcs_concat]
      exact (ih hon.init fun q hq => hfew q (hq.trans hpre)).step hon hn (hfew pre hpre)
        (hfew _ (List.prefix_refl _))

/-! ## The number of agreed rounds -/

theorem mem_agreedTicks (t : Nat) (payloads : List (List Nat)) :
    t ∈ agreedTicks n payloads ↔ reports t payloads ≠ [] ∧ (reports t payloads).length = n ∧
      ∀ a ∈ reports t payloads, ∀ b ∈ reports t payloads, b.2 = a.2 := by
  unfold agreedTicks
  rw [List.mem_filter, List.mem_dedup, mem_ticks, decide_eq_true_eq]
  exact and_congr_right fun hne => and_congr_right fun _ => values_agree hne

theorem agreedTicks_nodup (n : Nat) (payloads : List (List Nat)) :
    (agreedTicks n payloads).Nodup := (List.nodup_dedup _).filter _

/-- The order of the reports does not matter for which ticks agree. -/
theorem agreedTicks_perm {payloads' : List (List Nat)} (h : payloads'.Perm payloads) :
    (agreedTicks n payloads').Perm (agreedTicks n payloads) := by
  refine (List.perm_ext_iff_of_nodup (agreedTicks_nodup n payloads')
    (agreedTicks_nodup n payloads)).mpr fun t => ?_
  have hperm := reports_perm h t
  rw [mem_agreedTicks, mem_agreedTicks, hperm.length_eq]
  refine and_congr (not_congr ?_) (and_congr_right fun _ => ?_)
  · exact ⟨fun hnil => List.perm_nil.mp (hnil ▸ hperm).symm,
      fun hnil => List.perm_nil.mp (hnil ▸ hperm)⟩
  · constructor
    · exact fun hall a ha b hb => hall a (hperm.mem_iff.mpr ha) b (hperm.mem_iff.mpr hb)
    · exact fun hall a ha b hb => hall a (hperm.mem_iff.mp ha) b (hperm.mem_iff.mp hb)

/-- A report adds its tick to the agreed ones when its verdict does. -/
private theorem agreedTicks_concat (hon : Honest n (pre ++ [p])) :
    (agreedTicks n (pre ++ [p])).length = (agreedTicks n pre).length +
      (decide (tick p ∈ agreedTicks n (pre ++ [p]))).toNat := by
  have hnew : tick p ∉ agreedTicks n pre := by
    intro hmem
    have hfull := ((mem_agreedTicks _ _).mp hmem).2.1
    have hle := hon.length_le (tick p)
    rw [reports_concat, if_pos rfl, List.length_append, List.length_singleton] at hle
    omega
  have hother : ∀ t, t ≠ tick p → (t ∈ agreedTicks n (pre ++ [p]) ↔ t ∈ agreedTicks n pre) := by
    intro t ht
    rw [mem_agreedTicks, mem_agreedTicks, reports_concat, if_neg fun heq => ht heq.symm]
  have hnodup := agreedTicks_nodup n (pre ++ [p])
  have hnodup' := agreedTicks_nodup n pre
  by_cases hmem : tick p ∈ agreedTicks n (pre ++ [p])
  · rw [decide_eq_true hmem]
    have hcons : (agreedTicks n (pre ++ [p])).Perm (tick p :: agreedTicks n pre) := by
      refine (List.perm_ext_iff_of_nodup hnodup (List.nodup_cons.mpr ⟨hnew, hnodup'⟩)).mpr ?_
      intro t
      by_cases ht : t = tick p
      · subst ht
        exact iff_of_true hmem List.mem_cons_self
      · rw [List.mem_cons, or_iff_right ht]
        exact hother t ht
    exact hcons.length_eq
  · rw [decide_eq_false hmem]
    refine List.Perm.length_eq ((List.perm_ext_iff_of_nodup hnodup hnodup').mpr fun t => ?_)
    by_cases ht : t = tick p
    · subst ht
      exact iff_of_false hmem hnew
    · exact hother t ht

/-- `crc_ok` is the number of agreed ticks. -/
theorem crcOk_logCrcs (hn : 2 ≤ n) (hon : Honest n pre)
    (hfew : ∀ q, q <+: pre → (incomplete n q).length ≤ crcTicks) :
    (logCrcs n pre {}).1.crcOk = (agreedTicks n pre).length := by
  induction pre using List.reverseRecOn with
  | nil => rfl
  | append_singleton pre p ih =>
      have hpre : pre <+: pre ++ [p] := List.prefix_append _ _
      have hfewer := fun q hq => hfew q (List.IsPrefix.trans hq hpre)
      have htracks := tracks_logCrcs hn hon.init hfewer
      rw [logCrcs_concat, agreedTicks_concat hon, ← ih hon.init hfewer, logCrc_eq]
      have hiff := htracks.verdict_iff hon
      have hentry := htracks.entry hon
      cases hv : verdict n p (logCrcs n pre {}).1 with
      | none =>
          rw [hv] at hiff
          have hno : tick p ∉ agreedTicks n (pre ++ [p]) := fun hmem =>
            Bool.noConfusion (hiff.mpr ((mem_agreedTicks _ _).mp hmem).2.1)
          rw [decide_eq_false hno]
          rfl
      | some v =>
          rw [hv] at hiff
          have hexact := (kept_logCrcs hon.init).exact hon hv
          have htick : v.tick = tick p := by
            unfold verdict at hv
            dsimp only at hv
            split at hv
            · exact nomatch hv
            · rw [← Option.some.inj hv]
          have hagreed : decide (tick p ∈ agreedTicks n (pre ++ [p])) = v.agreed := by
            rw [Bool.eq_iff_iff, decide_eq_true_eq, hexact.agreed, hexact.pairs, htick,
              mem_agreedTicks]
            exact ⟨fun h => h.2.2, fun h => ⟨reports_ne_nil pre p, hiff.mp rfl, h⟩⟩
          rw [hagreed]

/-! ## Exact verdicts -/

/-- Whatever was evicted, a verdict compares one report of each seat. If moreover never
more than 64 ticks are incomplete, every tick that all `n` members report has its verdict
with its last report, and the agreed rounds do not depend on the order of the reports. -/
theorem verdicts_exact (hn : 2 ≤ n) (hon : Honest n payloads) :
    (∀ pre p rest, payloads = pre ++ p :: rest →
      Emits (logCrcs n pre {}).1 (logCrc n p (logCrcs n pre {}).1)
        (verdict n p (logCrcs n pre {}).1) ∧
      ∀ v, verdict n p (logCrcs n pre {}).1 = some v → v.Exact n (pre ++ [p])) ∧
    ((∀ pre, pre <+: payloads → (incomplete n pre).length ≤ crcTicks) →
      (∀ pre p rest, payloads = pre ++ p :: rest →
        ((verdict n p (logCrcs n pre {}).1).isSome = true ↔
          (reports (tick p) payloads).length = n ∧ reports (tick p) rest = [])) ∧
      (logCrcs n payloads {}).1.crcOk = (agreedTicks n payloads).length ∧
      ∀ payloads', payloads'.Perm payloads →
        (∀ pre, pre <+: payloads' → (incomplete n pre).length ≤ crcTicks) →
        (logCrcs n payloads' {}).1.crcOk = (logCrcs n payloads {}).1.crcOk) := by
  have hsplit : ∀ {pre p rest}, payloads = pre ++ p :: rest → pre ++ [p] <+: payloads := by
    rintro pre p rest rfl
    exact ⟨rest, by rw [List.append_assoc]; rfl⟩
  refine ⟨fun pre p rest heq => ⟨logCrc_emits n p _, fun v hv => ?_⟩, fun hfew => ?_⟩
  · have hseen := hon.prefix_of (hsplit heq)
    exact (kept_logCrcs hseen.init).exact hseen hv
  · refine ⟨fun pre p rest heq => ?_, crcOk_logCrcs hn hon hfew, fun payloads' hperm hfew' => ?_⟩
    · have hseen := hon.prefix_of (hsplit heq)
      have htracks := tracks_logCrcs hn hseen.init fun q hq =>
        hfew q ((hq.trans (List.prefix_append _ _)).trans (hsplit heq))
      have hreports : reports (tick p) payloads =
          reports (tick p) (pre ++ [p]) ++ reports (tick p) rest := by
        rw [heq]
        unfold reports
        rw [← List.map_append, ← List.filter_append, List.append_assoc]
        rfl
      have hle := hon.length_le (tick p)
      rw [htracks.verdict_iff hseen]
      rw [hreports, List.length_append] at hle ⊢
      constructor
      · intro hfull
        have hnone : reports (tick p) rest = [] := List.eq_nil_of_length_eq_zero (by omega)
        exact ⟨by rw [hnone]; exact hfull, hnone⟩
      · rintro ⟨hfull, hnone⟩
        rw [hnone] at hfull
        exact hfull
    · have hon' : Honest n payloads' :=
        ⟨fun q hq => hon.own q (hperm.mem_iff.mp hq), (hperm.map _).nodup_iff.mpr hon.once⟩
      rw [crcOk_logCrcs hn hon' hfew', crcOk_logCrcs hn hon hfew]
      exact (agreedTicks_perm hperm).length_eq

/-- Both members of a room report tick 5 with the same checksum. -/
theorem verdicts_exact_agreed :
    let payloads := [[0, 5, 0, 1, 2], [1, 5, 0, 1, 2]]
    Verdict.Exact 2 payloads ⟨5, [(0, 513), (1, 513)], true⟩ ∧
      (logCrcs 2 payloads {}).1.crcOk = (agreedTicks 2 payloads).length := by
  have hexact := verdicts_exact (n := 2) (by decide)
    (⟨by decide, by decide⟩ : Honest 2 [[0, 5, 0, 1, 2], [1, 5, 0, 1, 2]])
  refine ⟨(hexact.1 [[0, 5, 0, 1, 2]] [1, 5, 0, 1, 2] [] rfl).2 _ (by decide),
    (hexact.2 fun pre hpre => ?_).2.1⟩
  have hshort := hpre.length_le
  have hincomplete : (incomplete 2 pre).length ≤ pre.length := by
    have hdedup := (List.dedup_sublist (pre.map tick)).length_le
    rw [List.length_map] at hdedup
    exact (List.length_filter_le ..).trans hdedup
  exact (hincomplete.trans hshort).trans (by decide)

end SharkNetplay.Relay.Py
