import Mathlib.Data.List.Induction
import SharkNetplay.Relay.CrcPairs

/-!
# The verdicts of a v1 pair

When neither partner reports a tick twice or has more than 64 unanswered ticks, the logs of
the two clients are what the reports so far leave unanswered. The second report of a tick
finds the first one, and both counters are the number of ticks reported with equal values.

## Implementation notes

What a client has reported is a dictionary in the order of the reports. The log of a client
is the part of it that the partner has not answered, as a list, so that one report is
appended to the one and erased from the other.
-/

namespace SharkNetplay.Relay.C

open Lib CrcPayloadV1

/-- What a client has reported: ticks and checksums. -/
def told (x : Nat) (reports : List (Nat × List Nat)) : List (Nat × Nat) :=
  (reports.filter fun r => r.1 == x).map fun r => (tick r.2, crc r.2)

/-- What a client has reported and its partner has not. -/
def unanswered (x y : Nat) (reports : List (Nat × List Nat)) : List (Nat × Nat) :=
  (told x reports).filter fun e => (Dict.get e.1 (told y reports)).isNone

/-- The ticks that both have reported with the same checksum. -/
def matched (x y : Nat) (reports : List (Nat × List Nat)) : List (Nat × Nat) :=
  (told x reports).filter fun e => Dict.get e.1 (told y reports) == some e.2

/-- Reports of two partners, each of which reports no tick twice. -/
structure Paired (a b : Nat) (reports : List (Nat × List Nat)) : Prop where
  ne : a ≠ b
  members : ∀ r ∈ reports, r.1 = a ∨ r.1 = b
  host : Dict.Keyed (told a reports)
  guest : Dict.Keyed (told b reports)

/-! ## One more report -/

variable {a b x y : Nat} {pre reports : List (Nat × List Nat)} {p : List Nat}

theorem told_self (x : Nat) (pre : List (Nat × List Nat)) (p : List Nat) :
    told x (pre ++ [(x, p)]) = told x pre ++ [(tick p, crc p)] := by
  simp [told]

theorem told_other (hxy : x ≠ y) (pre : List (Nat × List Nat)) (p : List Nat) :
    told y (pre ++ [(x, p)]) = told y pre := by
  simp [told, hxy]

theorem told_initial (x : Nat) (h : pre <+: reports) : told x pre <+: told x reports :=
  (h.filter _).map _

theorem Paired.prefix_of (h : Paired a b reports) (hpre : pre <+: reports) : Paired a b pre where
  ne := h.ne
  members r hr := h.members r (hpre.subset hr)
  host := List.Nodup.sublist ((told_initial a hpre).sublist.map _) h.host
  guest := List.Nodup.sublist ((told_initial b hpre).sublist.map _) h.guest

theorem Paired.symm (h : Paired a b reports) : Paired b a reports :=
  ⟨h.ne.symm, fun r hr => (h.members r hr).symm, h.guest, h.host⟩

/-- The reporter has not reported the tick before. -/
theorem Paired.tick_new (h : Paired x y (pre ++ [(x, p)])) : Dict.get (tick p) (told x pre) = none := by
  have hkeyed := h.host
  rw [told_self] at hkeyed
  unfold Dict.Keyed at hkeyed
  rw [List.map_append, List.nodup_append] at hkeyed
  exact Dict.get_eq_none fun e he =>
    hkeyed.2.2 e.1 (List.mem_map_of_mem he) (tick p) (List.mem_singleton.mpr rfl)

theorem get_unanswered (t x y : Nat) (pre : List (Nat × List Nat)) :
    Dict.get t (unanswered x y pre) =
      if (Dict.get t (told y pre)).isNone then Dict.get t (told x pre) else none :=
  Dict.get_filter (told x pre) (fun t => (Dict.get t (told y pre)).isNone) t

/-- The reporter's unanswered ticks. -/
theorem unanswered_self (hxy : x ≠ y) (pre : List (Nat × List Nat)) (p : List Nat) :
    unanswered x y (pre ++ [(x, p)]) = unanswered x y pre ++
      if (Dict.get (tick p) (told y pre)).isNone then [(tick p, crc p)] else [] := by
  unfold unanswered
  rw [told_self, told_other hxy, List.filter_append, List.filter_cons, List.filter_nil]

/-- The partner's unanswered ticks. -/
theorem unanswered_other (h : Paired x y (pre ++ [(x, p)])) :
    unanswered y x (pre ++ [(x, p)]) = Dict.erase (tick p) (unanswered y x pre) := by
  unfold unanswered Dict.erase
  rw [told_self, told_other h.ne, List.filter_filter, ← Dict.assign_of_none h.tick_new]
  refine List.filter_congr fun e _ => ?_
  rw [Dict.get_assign]
  by_cases he : e.1 = tick p
  · rw [if_pos he]
    simp [he]
  · rw [if_neg he]
    simp [he]

theorem matched_self (hxy : x ≠ y) (pre : List (Nat × List Nat)) (p : List Nat) :
    matched x y (pre ++ [(x, p)]) = matched x y pre ++
      if Dict.get (tick p) (told y pre) == some (crc p) then [(tick p, crc p)] else [] := by
  unfold matched
  rw [told_self, told_other hxy, List.filter_append, List.filter_cons, List.filter_nil]

theorem mem_matched (h : Paired a b reports) (e : Nat × Nat) :
    e ∈ matched a b reports ↔
      Dict.get e.1 (told a reports) = some e.2 ∧ Dict.get e.1 (told b reports) = some e.2 := by
  unfold matched
  rw [List.mem_filter, beq_iff_eq, Dict.get_iff_mem h.host]

/-- It does not matter who is the host. -/
theorem matched_symm (h : Paired a b reports) :
    (matched a b reports).length = (matched b a reports).length := by
  have hnodup : (matched a b reports).Nodup := (List.Nodup.of_map _ h.host).filter _
  have hnodup' : (matched b a reports).Nodup := (List.Nodup.of_map _ h.guest).filter _
  refine ((List.perm_ext_iff_of_nodup hnodup hnodup').mpr fun e => ?_).length_eq
  rw [mem_matched h, mem_matched h.symm]
  exact and_comm

/-- There are `2 ^ 16` ticks. -/
theorem matched_length (h : Paired a b reports) (hbytes : ∀ r ∈ reports, ∀ byte ∈ r.2, byte < 256) :
    (matched a b reports).length ≤ 2 ^ 16 := by
  have hsub : List.Subperm ((matched a b reports).map Prod.fst) (List.range (2 ^ 16)) := by
    refine List.subperm_of_subset (Dict.Keyed.filter h.host _) fun t ht => ?_
    obtain ⟨e, he, rfl⟩ := List.mem_map.mp ht
    obtain ⟨r, hr, rfl⟩ := List.mem_map.mp (List.mem_of_mem_filter he)
    have hbyte : ∀ i, r.2.getD i 0 < 256 := by
      intro i
      rw [List.getD_eq_getElem?_getD]
      cases hget : r.2[i]? with
      | none => exact Nat.zero_lt_succ 255
      | some byte =>
          exact hbytes r (List.mem_of_mem_filter hr) byte (List.mem_of_getElem? hget)
    have hlow := hbyte 0
    have hhigh := hbyte 1
    refine List.mem_range.mpr ?_
    unfold tick
    omega
  have hlength := hsub.length_le
  rw [List.length_map, List.length_range] at hlength
  exact hlength

/-! ## The logs of the pair -/

/-- The logs are what is unanswered, and the counters what is matched. -/
structure PairLogs (a b : Nat) (pre : List (Nat × List Nat)) (clients : Nat → CrcClient) :
    Prop where
  host : Logs (clients a) (unanswered a b pre)
  guest : Logs (clients b) (unanswered b a pre)
  hostOk : (clients a).crcOk = (matched a b pre).length % 2 ^ 32
  guestOk : (clients b).crcOk = (matched a b pre).length % 2 ^ 32

/-- What a report does: `v` is what the partner has reported for the tick. -/
def Judges (clients : Nat → CrcClient) (out : (Nat → CrcClient) × List CrcLineV1) (x y : Nat)
    (p : List Nat) : Option Nat → Prop
  | none => out.2 = [] ∧ (out.1 x).crcOk = (clients x).crcOk ∧
      (out.1 y).crcOk = (clients y).crcOk
  | some v =>
    if v = crc p then
      (∀ t i c j d, .mismatch t i c j d ∉ out.2) ∧
        (out.1 x).crcOk = ((clients x).crcOk + 1) % 2 ^ 32 ∧
        (out.1 y).crcOk = ((clients y).crcOk + 1) % 2 ^ 32
    else out.2 = [.mismatch (tick p) x (crc p) y v] ∧ (out.1 x).crcOk = (clients x).crcOk ∧
      (out.1 y).crcOk = (clients y).crcOk

namespace PairLogs

variable {clients : Nat → CrcClient}

theorem symm (h : PairLogs a b pre clients) (hp : Paired a b pre) : PairLogs b a pre clients :=
  ⟨h.guest, h.host, by rw [← matched_symm hp]; exact h.guestOk, by
    rw [← matched_symm hp]; exact h.hostOk⟩

theorem start (hab : a ≠ b) (clients : Nat → CrcClient) :
    PairLogs a b [] (startLogs a b clients) := by
  have ha : startLogs a b clients a = {} := by
    unfold startLogs
    rw [Function.update_of_ne hab, Function.update_self]
  have hb : startLogs a b clients b = {} := Function.update_self ..
  constructor
  · rw [ha]
    exact Logs.empty
  · rw [hb]
    exact Logs.empty
  · rw [ha]
    rfl
  · rw [hb]
    rfl

/-- The first report of a tick is recorded, and nothing else happens. -/
private theorem first (h : PairLogs x y pre clients) (hp : Paired x y (pre ++ [(x, p)]))
    {members : List Nat} (hpartner : crcPartner members x = some y)
    (hfew : (unanswered x y (pre ++ [(x, p)])).length ≤ crcTicks)
    (htold : Dict.get (tick p) (told y pre) = none) :
    PairLogs x y (pre ++ [(x, p)]) (logCrcV1 members x p clients).1 ∧
      Judges clients (logCrcV1 members x p clients) x y p none := by
  have hself := unanswered_self hp.ne pre p
  rw [htold, Option.isNone_none, if_pos rfl] at hself
  have hnone : Dict.get (tick p) (unanswered y x pre) = none := by
    rw [get_unanswered, htold]
    exact ite_self _
  have hnew : Dict.get (tick p) (unanswered x y pre) = none := by
    rw [get_unanswered, hp.tick_new]
    exact ite_self _
  have hmatched := matched_self hp.ne pre p
  rw [htold, if_neg (by simp), List.append_nil] at hmatched
  obtain ⟨c, hout, hok, hlogs⟩ := logCrcV1_first hpartner h.guest h.host hnone
  rw [Dict.assign_of_none hnew, ← hself, trimmed, if_neg (Nat.not_lt_of_le hfew)] at hlogs
  have hc : (logCrcV1 members x p clients).1 x = c := by
    rw [hout]
    exact Function.update_self ..
  have hy : (logCrcV1 members x p clients).1 y = clients y := by
    rw [hout]
    exact Function.update_of_ne hp.ne.symm ..
  refine ⟨⟨?_, ?_, ?_, ?_⟩, by rw [hout], by rw [hc, hok], by rw [hy]⟩
  · rw [hc]
    exact hlogs
  · rw [hy, unanswered_other hp, Dict.erase_of_none hnone]
    exact h.guest
  · rw [hc, hok, hmatched]
    exact h.hostOk
  · rw [hy, hmatched]
    exact h.guestOk

/-- The second report of a tick is judged. -/
private theorem second (h : PairLogs x y pre clients) (hp : Paired x y (pre ++ [(x, p)]))
    {members : List Nat} (hpartner : crcPartner members x = some y) {v : Nat}
    (htold : Dict.get (tick p) (told y pre) = some v) :
    PairLogs x y (pre ++ [(x, p)]) (logCrcV1 members x p clients).1 ∧
      Judges clients (logCrcV1 members x p clients) x y p (some v) := by
  have hself := unanswered_self hp.ne pre p
  rw [htold, Option.isNone_some, if_neg Bool.false_ne_true, List.append_nil] at hself
  have hfound : Dict.get (tick p) (unanswered y x pre) = some v := by
    rw [get_unanswered, hp.tick_new, htold]
    rfl
  have hmatched := matched_self hp.ne pre p
  rw [htold] at hmatched
  simp only [Judges]
  by_cases hv : v = crc p
  · rw [if_pos (by rw [hv]; exact beq_self_eq_true _)] at hmatched
    obtain ⟨q, hout, hok, hlogs, hlines⟩ :=
      logCrcV1_same hpartner hp.ne h.guest (hfound.trans (congrArg some hv))
    have hx : (logCrcV1 members x p clients).1 x = (clients x).agree := by
      rw [hout, Function.update_of_ne hp.ne, Function.update_self]
    have hy : (logCrcV1 members x p clients).1 y = q.agree := by
      rw [hout, Function.update_self]
    have hsucc : ∀ m, (m % 2 ^ 32 + 1) % 2 ^ 32 = (m + 1) % 2 ^ 32 := fun m => by omega
    rw [if_pos hv]
    refine ⟨⟨?_, ?_, ?_, ?_⟩, hlines, by rw [hx]; rfl, ?_⟩
    · rw [hx, hself]
      exact h.host.agree
    · rw [hy, unanswered_other hp]
      exact hlogs.agree
    · rw [hx, hmatched, List.length_append, List.length_singleton, ← hsucc, ← h.hostOk]
      rfl
    · rw [hy, hmatched, List.length_append, List.length_singleton, ← hsucc, ← h.guestOk, ← hok]
      rfl
    · rw [hy, ← hok]
      rfl
  · rw [if_neg (by simp [hv]), List.append_nil] at hmatched
    obtain ⟨q, hout, hok, hlogs⟩ := logCrcV1_differs hpartner h.guest hfound hv
    have hx : (logCrcV1 members x p clients).1 x = clients x := by
      rw [hout]
      exact Function.update_of_ne hp.ne ..
    have hy : (logCrcV1 members x p clients).1 y = q := by
      rw [hout]
      exact Function.update_self ..
    rw [if_neg hv]
    refine ⟨⟨?_, ?_, ?_, ?_⟩, by rw [hout], by rw [hx], by rw [hy, hok]⟩
    · rw [hx, hself]
      exact h.host
    · rw [hy, unanswered_other hp]
      exact hlogs
    · rw [hx, hmatched]
      exact h.hostOk
    · rw [hy, hok, hmatched]
      exact h.guestOk

/-- One report of either partner. -/
theorem step (h : PairLogs x y pre clients) (hp : Paired x y (pre ++ [(x, p)]))
    {members : List Nat} (hpartner : crcPartner members x = some y)
    (hfew : (unanswered x y (pre ++ [(x, p)])).length ≤ crcTicks) :
    PairLogs x y (pre ++ [(x, p)]) (logCrcV1 members x p clients).1 ∧
      Judges clients (logCrcV1 members x p clients) x y p (Dict.get (tick p) (told y pre)) := by
  cases htold : Dict.get (tick p) (told y pre) with
  | none => exact h.first hp hpartner hfew htold
  | some v => exact h.second hp hpartner htold

/-- A tick that both have reported is in neither log. -/
theorem gone (h : PairLogs a b pre clients) {t : Nat}
    (ha : (Dict.get t (told a pre)).isSome = true) (hb : (Dict.get t (told b pre)).isSome = true) :
    (clients a).findEntry t = none ∧ (clients b).findEntry t = none := by
  have hnot : ∀ {o : Option Nat}, o.isSome = true → ¬ o.isNone = true := by
    intro o ho hn
    cases o with
    | none => exact Bool.noConfusion ho
    | some v => exact Bool.noConfusion hn
  constructor
  · refine (h.host.stores.find_iff t).mpr ?_
    rw [get_unanswered, if_neg (hnot hb)]
  · refine (h.guest.stores.find_iff t).mpr ?_
    rw [get_unanswered, if_neg (hnot ha)]

end PairLogs

/-! ## A match -/

theorem logCrcsV1_concat (members : List Nat) (pre : List (Nat × List Nat)) (r : Nat × List Nat)
    (clients : Nat → CrcClient) :
    (logCrcsV1 members (pre ++ [r]) clients).1 =
      (logCrcV1 members r.1 r.2 (logCrcsV1 members pre clients).1).1 := by
  induction pre generalizing clients with
  | nil => rfl
  | cons s pre ih => exact ih _

/-- Never more than 64 ticks are unanswered on either side. -/
def FewUnanswered (a b : Nat) (reports : List (Nat × List Nat)) : Prop :=
  ∀ pre, pre <+: reports →
    (unanswered a b pre).length ≤ crcTicks ∧ (unanswered b a pre).length ≤ crcTicks

theorem FewUnanswered.prefix_of (h : FewUnanswered a b reports) (hpre : pre <+: reports) :
    FewUnanswered a b pre := fun q hq => h q (hq.trans hpre)

theorem pairLogs_logCrcsV1 (hp : Paired a b pre) (hfew : FewUnanswered a b pre)
    (clients : Nat → CrcClient) :
    PairLogs a b pre (logCrcsV1 [a, b] pre (startLogs a b clients)).1 := by
  induction pre using List.reverseRecOn with
  | nil => exact PairLogs.start hp.ne clients
  | append_singleton pre r ih =>
      have hpre : pre <+: pre ++ [r] := List.prefix_append _ _
      have hlogs := ih (hp.prefix_of hpre) (hfew.prefix_of hpre)
      obtain ⟨hhost, hguest⟩ := crcPartner_pair hp.ne
      obtain ⟨x, p⟩ := r
      rw [logCrcsV1_concat]
      rcases hp.members (x, p) (by simp) with hx | hx
      · obtain rfl : x = a := hx
        exact (hlogs.step hp hhost (hfew _ (List.prefix_refl _)).1).1
      · obtain rfl : x = b := hx
        exact (((hlogs.symm (hp.prefix_of hpre)).step hp.symm hguest
          (hfew _ (List.prefix_refl _)).2).1).symm hp.symm

/-- Every tick that both partners report is judged once, by the second report, and is in
neither log afterwards; both counters are the number of ticks with equal values, and
`ncrclog` is the number of entries in use. -/
theorem paired_exact (hp : Paired a b reports) (hfew : FewUnanswered a b reports)
    (hbytes : ∀ r ∈ reports, ∀ byte ∈ r.2, byte < 256) (clients : Nat → CrcClient) :
    (∀ pre x y p rest, reports = pre ++ (x, p) :: rest → crcPartner [a, b] x = some y →
      Judges (logCrcsV1 [a, b] pre (startLogs a b clients)).1
        (logCrcV1 [a, b] x p (logCrcsV1 [a, b] pre (startLogs a b clients)).1) x y p
        (Dict.get (tick p) (told y pre))) ∧
    (∀ t, (Dict.get t (told a reports)).isSome = true →
      (Dict.get t (told b reports)).isSome = true →
      ∀ x ∈ [a, b], ((logCrcsV1 [a, b] reports (startLogs a b clients)).1 x).findEntry t = none) ∧
    ∀ x ∈ [a, b],
      ((logCrcsV1 [a, b] reports (startLogs a b clients)).1 x).crcOk =
        (matched a b reports).length ∧
      ((logCrcsV1 [a, b] reports (startLogs a b clients)).1 x).ncrclog =
        Slots.count CrcEntry.inUse (crcTicks + 1)
          ((logCrcsV1 [a, b] reports (startLogs a b clients)).1 x).crclog := by
  have hlogs := pairLogs_logCrcsV1 hp hfew clients
  have hsmall := matched_length hp hbytes
  have hexact : (matched a b reports).length % 2 ^ 32 = (matched a b reports).length := by omega
  refine ⟨fun pre x y p rest heq hpartner => ?_, fun t ha hb => ?_, ?_⟩
  · have hseen : pre ++ [(x, p)] <+: reports := ⟨rest, by rw [heq, List.append_assoc]; rfl⟩
    have hpre : pre <+: pre ++ [(x, p)] := List.prefix_append _ _
    have hp' := hp.prefix_of hseen
    have hbefore := pairLogs_logCrcsV1 (hp'.prefix_of hpre)
      ((hfew.prefix_of hseen).prefix_of hpre) clients
    obtain ⟨hhost, hguest⟩ := crcPartner_pair hp.ne
    rcases hp'.members (x, p) (by simp) with hx | hx
    · obtain rfl : x = a := hx
      obtain rfl : b = y := Option.some.inj (hhost.symm.trans hpartner)
      exact (hbefore.step hp' hhost (hfew _ hseen).1).2
    · obtain rfl : x = b := hx
      obtain rfl : a = y := Option.some.inj (hguest.symm.trans hpartner)
      exact ((hbefore.symm (hp'.prefix_of hpre)).step hp'.symm hguest (hfew _ hseen).2).2
  · obtain ⟨hnone, hnone'⟩ := hlogs.gone ha hb
    simp [hnone, hnone']
  · intro x hx
    rw [← hexact]
    rcases List.mem_cons.mp hx with rfl | hx
    · exact ⟨hlogs.hostOk, hlogs.host.count⟩
    · obtain rfl := List.mem_singleton.mp hx
      exact ⟨hlogs.guestOk, hlogs.guest.count⟩

/-- Clients 3 and 7 report tick 9, with the same checksum. -/
theorem paired_exact_tick :
    let reports := [(3, [9, 0, 1, 2]), (7, [9, 0, 1, 2])]
    let clients := (logCrcsV1 [3, 7] reports (startLogs 3 7 fun _ => {})).1
    (clients 3).crcOk = (matched 3 7 reports).length ∧
      (clients 7).crcOk = (matched 3 7 reports).length ∧ (clients 3).findEntry 9 = none := by
  have hp : Paired 3 7 [(3, [9, 0, 1, 2]), (7, [9, 0, 1, 2])] :=
    ⟨by decide, by decide, by unfold Dict.Keyed; decide, by unfold Dict.Keyed; decide⟩
  have hfew : FewUnanswered 3 7 [(3, [9, 0, 1, 2]), (7, [9, 0, 1, 2])] := by
    intro pre hpre
    have hlength : ∀ x y, (unanswered x y pre).length ≤ pre.length := fun x y => by
      refine (List.length_filter_le ..).trans ?_
      rw [told, List.length_map]
      exact List.length_filter_le ..
    have hshort : pre.length ≤ crcTicks := hpre.length_le.trans (by decide)
    exact ⟨(hlength 3 7).trans hshort, (hlength 7 3).trans hshort⟩
  have hexact := paired_exact hp hfew (by decide) fun _ => {}
  exact ⟨(hexact.2.2 3 (by decide)).1, (hexact.2.2 7 (by decide)).1,
    hexact.2.1 9 (by decide) (by decide) 3 (by decide)⟩

end SharkNetplay.Relay.C
