import SharkNetplay.Relay.CSettled
import SharkNetplay.Relay.CTables

/-!
# Room in the tables of the C relay

What the handlers of names and rooms keep, and that they find what they look for: a place for
a name, and a room for two clients that are in none.

## Implementation notes

A room is free because each one in use has two members of its own, and the two who want one
are in none. A name has a place because every other entry is for another live client.
-/

namespace SharkNetplay.Relay.C

open Lib Server

variable {s s' : Server} {N : Nat → Nat} {K : Nat → Prop} {c r : Nat}

/-- Between handlers nobody is being dropped. -/
abbrev Ready (N : Nat → Nat) (s : Server) : Prop := Settled N (fun _ => False) s

/-- What `room_alloc` returns. -/
theorem roomAlloc_fresh {host : Nat} {s₁ : Server} (h : roomAlloc host s = some (r, s₁)) :
    (s₁.room r).started = false ∧ (s₁.room r).members = [host] ∧ s₁.nClients = s.nClients ∧
      s₁.client = s.client := by
  obtain ⟨-, rfl⟩ := roomAlloc_eq h
  exact ⟨by simp, by simp, rfl, rfl⟩

/-- The room of a pair is started before its members are linked to it. -/
theorem paired_start (host guest r seed : Nat) (s : Server) :
    (((s.seat r [host, guest]).start r seed).link host (some r)).link guest (some r) =
      (paired host guest r s).start r seed := rfl

namespace Settled

theorem sendTo (h : Ready N s) (hc : Connected c s) (alloc : Option Nat) (data : List Nat) :
    Ready N (C.sendRaw C.drop c alloc data s) :=
  h.sendRaw (dropN_settles maxClients) hc (lives_le s) alloc data

theorem onList (h : Ready N s) (hc : Connected c s) : Ready N (onList c s) := h.sendTo hc _ _

/-! ### Names -/

/-- No client has two entries. -/
theorem clients_nodup (h : Named s) : (s.byName.map Prod.snd).Nodup := by
  have hnodup : s.byName.Nodup := List.Nodup.of_map _ h.keyed
  apply (List.nodup_map_iff_inj_on hnodup).mpr
  intro e he e' he' heq
  apply Prod.ext
  · rw [← h.own e he, ← h.own e' he', heq]
  · exact heq

theorem withNames (h : Settled N K s) {d : List (Name × Nat)} (hd : ∀ e ∈ d, Live e.2 s)
    (hnames : Named { s with byName := d }) : Settled N K { s with byName := d } :=
  { h with
    toShape := h.toShape.withNames hd
    names := hnames }

/-- The client takes the name, once its entry under another name is deleted. -/
theorem setName {name : Name} (h : Settled N K s) :
    Settled N K ((if (s.client c).name ≠ [] ∧ (s.client c).name ≠ name ∧
        nameFind (s.client c).name s = some c then nameDel (s.client c).name s else s).setName c
      name) := by
  generalize hs₁ : (if (s.client c).name ≠ [] ∧ (s.client c).name ≠ name ∧
    nameFind (s.client c).name s = some c then nameDel (s.client c).name s else s) = s₁
  -- what is left of the entries: those of the client are under the new name
  have hleft : ∃ d, d.Sublist s.byName ∧ s₁ = { s with byName := d } ∧
      ∀ e ∈ d, e.2 = c → e.1 = name := by
    have hfound : ∀ e ∈ s.byName, e.2 = c → (s.client c).name = e.1 ∧
        nameFind (s.client c).name s = some c := by
      intro e he hec
      have hown : (s.client c).name = e.1 := hec ▸ h.names.own e he
      refine ⟨hown, (Dict.get_iff_mem h.names.keyed).mpr ?_⟩
      rw [hown, ← hec]
      exact he
    by_cases hold : (s.client c).name ≠ [] ∧ (s.client c).name ≠ name ∧
        nameFind (s.client c).name s = some c
    · rw [if_pos hold] at hs₁
      refine ⟨_, List.eraseP_sublist, hs₁.symm, fun e he hec => ?_⟩
      rw [h.names.keyed.eraseP_eq (k := (s.client c).name) fun e => beq_iff_eq] at he
      obtain ⟨hmem, hne⟩ := List.mem_filter.mp he
      rw [(hfound e hmem hec).1] at hne
      exact absurd hne (by simp)
    · rw [if_neg hold] at hs₁
      refine ⟨s.byName, List.Sublist.refl _, hs₁.symm, fun e he hec => ?_⟩
      obtain ⟨hown, hget⟩ := hfound e he hec
      rw [← hown]
      by_contra hne
      exact hold ⟨hown ▸ h.names.named e he, hne, hget⟩
  obtain ⟨d, hsub, rfl, hc⟩ := hleft
  have hkept : Settled N K { s with byName := d } := by
    apply h.withNames fun e he => h.keyed e (hsub.subset he)
    exact ⟨h.names.keyed.sublist (hsub.map _), fun e he => h.names.own e (hsub.subset he),
      fun e he => h.names.named e (hsub.subset he)⟩
  have hsame : Same { s with byName := d } ({ s with byName := d }.setName c name) :=
    ⟨rfl, rfl, rfl, fun _ => by simp, fun _ => by simp, fun _ => by simp, fun _ => by simp,
      rfl, rfl, rfl, rfl⟩
  exact
    { toShape := hkept.toShape.same hsame
      names :=
        { keyed := hkept.names.keyed
          own := fun e he => by
            rw [setName_client_name]
            split
            · next hec => exact (hc e he hec).symm
            · exact hkept.names.own e he
          named := hkept.names.named }
      busy := hkept.busy
      seated := hkept.seated
      count := by
        rw [Slots.count_congr hsame.inUse]
        exact hkept.count
      held := fun k hk => by
        rw [hsame.dead, hsame.inUse]
        exact hkept.held k hk }

/-- Every other entry is for another live client, so there is a place for a new one. -/
theorem nameFull_false {name : Name} (h : Settled N K s) (hc : Live c s)
    (hname : (s.client c).name = name) : nameFull name s = false := by
  unfold nameFull
  cases hfind : nameFind name s with
  | some _ => rfl
  | none =>
    have hsub : (s.byName.map Prod.snd).toFinset ⊆ (Finset.range maxClients).erase c := by
      intro m hm
      obtain ⟨e, he, rfl⟩ := List.mem_map.mp (List.mem_toFinset.mp hm)
      refine Finset.mem_erase.mpr ⟨?_, Finset.mem_range.mpr (h.slot _ (h.keyed e he).inUse)⟩
      intro hec
      have hkey : e.1 = name := by rw [← h.names.own e he, hec, hname]
      have hget := Dict.get_isSome he
      rw [hkey, show Dict.get name s.byName = none from hfind] at hget
      exact absurd hget (by simp)
    have hcard := Finset.card_le_card hsub
    rw [List.toFinset_card_of_nodup (clients_nodup h.names), List.length_map,
      Finset.card_erase_of_mem (Finset.mem_range.mpr (h.slot c hc.inUse)),
      Finset.card_range] at hcard
    have hpos : 0 < maxClients := by decide
    simp only [Option.isNone_none, Bool.true_and, decide_eq_false_iff_not, not_le]
    omega

theorem nameSet {name : Name} (h : Settled N K s) (hc : Live c s)
    (hname : (s.client c).name = name) (hne : name ≠ []) : Settled N K (nameSet name c s) := by
  unfold C.nameSet
  split
  · exact h
  · apply h.withNames
    · intro e he
      rcases Dict.mem_assign he with rfl | he
      · exact hc
      · exact h.keyed e he.1
    · refine ⟨h.names.keyed.assign name c, fun e he => ?_, fun e he => ?_⟩
      · rcases Dict.mem_assign he with rfl | he
        · exact hname
        · exact h.names.own e he.1
      · rcases Dict.mem_assign he with rfl | he
        · exact hne
        · exact h.names.named e he.1

/-! ### Rooms -/

/-- The log of a room may be for another number of members when it is cleared. -/
theorem renumber (h : Settled N K s) {n : Nat}
    (hn : (s.room r).members ≠ [] → (s.room r).members.length = n) :
    Settled (Function.update N r n) K s :=
  { h with
    seated := fun q hq hstarted => by
      by_cases hqr : q = r
      · subst hqr
        rw [Function.update_self]
        exact hn hq
      · rw [Function.update_of_ne hqr]
        exact h.seated q hq hstarted }

theorem start (h : Settled N K s) (hn : (s.room r).members ≠ [] → (s.room r).members.length = N r)
    (seed : Nat) : Settled N K (s.start r seed) where
  toShape := h.toShape.start r seed
  names := ⟨h.names.keyed, h.names.own, h.names.named⟩
  busy q hq := by
    rw [start_members]
    exact h.busy q (by simpa using hq)
  seated q hq hstarted := by
    rw [start_members] at hq ⊢
    rw [start_started] at hstarted
    by_cases hqr : q = r
    · subst hqr
      exact hn hq
    · rw [if_neg hqr] at hstarted
      exact h.seated q hq hstarted
  count := h.count
  held := h.held

/-- Clients have entered a room. -/
theorem joined {ms : List Nat} (hs : Settled N K s) (h : Joined r ms s s')
    (hsub : ∀ m ∈ (s.room r).members, m ∈ ms) (hnodup : ms.Nodup)
    (hsize : 2 ≤ ms.length ∧ ms.length ≤ s.maxSeats) (hlive : ∀ m ∈ ms, Live m s)
    (hnew : ∀ m ∈ ms, m ∈ (s.room r).members ∨ (s.client m).room = none)
    (hforming : (s'.room r).started = false) (hcount : s'.nClients = s.nClients)
    (hname : ∀ m, (s'.client m).name = (s.client m).name) : Settled N K s' where
  toShape := h.shape hs.toShape hsub hnodup hsize hlive hnew
  names := hs.names.filtered (p := fun _ => true) (by rw [List.filter_true, h.byName]) hname
  busy q hq := by
    by_cases hqr : q = r
    · subst hqr
      rw [h.members]
      exact List.ne_nil_of_length_pos (by omega)
    · rw [h.rooms q hqr] at hq ⊢
      exact hs.busy q hq
  seated q hq hstarted := by
    by_cases hqr : q = r
    · subst hqr
      rw [hforming] at hstarted
      exact absurd hstarted (by simp)
    · rw [h.rooms q hqr] at hq hstarted ⊢
      exact hs.seated q hq hstarted
  count := by
    rw [hcount, Slots.count_congr h.inUse]
    exact hs.count
  held k hk := by
    rw [h.dead, h.inUse]
    exact hs.held k hk

/-- Two live clients in no room: there is a free room. -/
theorem roomAlloc_some {host : Nat} (h : Settled N K s) (hhost : Live host s) (hc : Live c s)
    (hne : host ≠ c) (hrh : (s.client host).room = none) (hrc : (s.client c).room = none) :
    ∃ r s₁, C.roomAlloc host s = some (r, s₁) := by
  have hother : ∀ {m : Nat}, (s.client m).room = none → ∀ r, m ∉ (s.room r).members := by
    intro m hm r hin
    rw [(h.link m r).mp hin] at hm
    exact absurd hm (by simp)
  have hcard : (((Finset.range maxClients).erase host).erase c).card < maxRooms * 2 := by
    have hin : host ∈ Finset.range maxClients := Finset.mem_range.mpr (h.slot host hhost.inUse)
    have hin' : c ∈ (Finset.range maxClients).erase host :=
      Finset.mem_erase.mpr ⟨hne.symm, Finset.mem_range.mpr (h.slot c hc.inUse)⟩
    rw [Finset.card_erase_of_mem hin', Finset.card_erase_of_mem hin, Finset.card_range]
    decide
  have hpair : ∀ i < maxRooms, (s.room i).used = true →
      2 ≤ (s.room i).members.toFinset.card := by
    intro i _ hu
    rw [List.toFinset_card_of_nodup (h.nodup i)]
    exact ((h.size i).resolve_left (h.busy i hu)).1
  have hapart : ∀ i < maxRooms, ∀ j < maxRooms, (s.room i).used = true →
      (s.room j).used = true → i ≠ j →
        Disjoint (s.room i).members.toFinset (s.room j).members.toFinset := by
    intro i _ j _ _ _ hij
    rw [Finset.disjoint_left]
    intro m hmi hmj
    have hlink := (h.link m i).mp (List.mem_toFinset.mp hmi)
    rw [(h.link m j).mp (List.mem_toFinset.mp hmj), Option.some.injEq] at hlink
    exact hij hlink.symm
  have hsub : ∀ i < maxRooms, (s.room i).used = true →
      (s.room i).members.toFinset ⊆ ((Finset.range maxClients).erase host).erase c := by
    intro i _ _ m hm
    have hmem := List.mem_toFinset.mp hm
    have hlive := h.lively m (by rw [(h.link m i).mp hmem]; simp)
    have hrange := Finset.mem_range.mpr (h.slot m hlive.inUse)
    apply Finset.mem_erase.mpr
    constructor
    · rintro rfl
      exact hother hrc i hmem
    apply Finset.mem_erase.mpr
    constructor
    · rintro rfl
      exact hother hrh i hmem
    · exact hrange
  obtain ⟨i, hi⟩ := Slots.free_of_owners hpair hapart hsub hcard
  exact ⟨i, _, congrArg (Option.map _) hi⟩

/-- Two clients in the room that was found for them, the log of which is cleared. -/
theorem paired {host guest : Nat} {s₁ : Server} (h : Ready N s) (hhost : Live host s)
    (hguest : Live guest s) (hne : host ≠ guest) (hrh : (s.client host).room = none)
    (hrg : (s.client guest).room = none) (halloc : roomAlloc host s = some (r, s₁)) :
    Ready (Function.update N r 2) (paired host guest r s₁) := by
  have hjoin := @paired_joined _ _ _ guest _ halloc
  obtain ⟨hforming, -, hcount, hclient⟩ := roomAlloc_fresh halloc
  have hvacant : (s.room r).members = [] := h.vacant r (roomAlloc_eq halloc).1
  apply (h.renumber (r := r) fun hm => absurd hvacant hm).joined hjoin
  · intro m hm
    rw [hvacant] at hm
    exact absurd hm (by simp)
  · simpa using hne
  · exact ⟨Nat.le_refl _, h.seats.1⟩
  · intro m hm
    rcases List.mem_pair.mp hm with rfl | rfl
    · exact hhost
    · exact hguest
  · intro m hm
    rcases List.mem_pair.mp hm with rfl | rfl
    · exact .inr hrh
    · exact .inr hrg
  · simpa [C.paired] using hforming
  · exact hcount
  · intro m
    simp [C.paired, hclient]

theorem startRoom (h : Ready N s) (r : Nat) :
    Ready (Function.update N r (s.room r).members.length) (startRoom r s) := by
  have hseeds : Ready N { s with seeds := s.seeds.tail } :=
    h.same ⟨rfl, rfl, rfl, fun _ => rfl, fun _ => rfl, fun _ => rfl, fun _ => rfl, rfl, rfl, rfl,
      rfl⟩ rfl fun _ => rfl
  have hstart := (hseeds.renumber (r := r) fun _ => rfl).start (r := r)
    (fun _ => by rw [Function.update_self]) (s.seeds.headD default).val
  exact hstart.sendEach (dropN_settles maxClients) _ (fun m hm => hstart.connected_member hm)
    (lives_le _) _ _ _ _

end Settled

end SharkNetplay.Relay.C
