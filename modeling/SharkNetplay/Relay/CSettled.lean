import SharkNetplay.Lib.Slots
import SharkNetplay.Relay.CInvariant

/-!
# Tables of the C relay under failing sends

What the tables of the relay rest on whatever a send does to its caller: rooms in use have
their members, a started room those it had when its log was cleared, names and clients
belong to each other, and the counter counts the slots in use.

## Implementation notes

`K` are the clients that are being dropped further up the stack. They are dead and still hold
their slots, so that freeing a slot counts it once. A loop over a copied member list may go on
to clients that are no longer in the room, or are dead: here it is enough that they are still
connected or dead.
-/

namespace SharkNetplay.Relay.C

open Lib Server

variable {s s' : Server} {N : Nat → Nat} {K : Nat → Prop} {c r : Nat}

/-- A client has at most one entry, under its name. -/
structure Named (s : Server) : Prop where
  keyed : Dict.Keyed s.byName
  own : ∀ e ∈ s.byName, (s.client e.2).name = e.1
  named : ∀ e ∈ s.byName, e.1 ≠ []

/-- What holds of the tables at any time; `N` are the members the started rooms have. -/
structure Settled (N : Nat → Nat) (K : Nat → Prop) (s : Server) : Prop extends Shape s where
  names : Named s
  busy : ∀ r, (s.room r).used = true → (s.room r).members ≠ []
  seated : ∀ r, (s.room r).members ≠ [] → (s.room r).started = true →
    (s.room r).members.length = N r
  count : s.nClients = Slots.count Client.inUse maxClients s.client
  held : ∀ k, K k → (s.client k).dead = true ∧ (s.client k).inUse = true

/-- A client that can be sent to. -/
def Connected (m : Nat) (s : Server) : Prop :=
  (s.client m).inUse = true ∨ (s.client m).dead = true

theorem Live.connected {m : Nat} (h : Live m s) : Connected m s := .inl h.inUse

theorem Connected.live {m : Nat} (h : Connected m s) (halive : ¬ (s.client m).dead = true) :
    Live m s := live_of_handle h halive

theorem Connected.sendRaw {n m : Nat} {alloc : Option Nat} {data : List Nat}
    (h : Connected m s) : Connected m (sendRaw (dropN n) c alloc data s) :=
  (lasting_connected m).toSteady.sendRaw
    (fun c s hs => (lasting_connected m).toSteady.dropN n c s hs) c alloc data s h

theorem lives_sendRaw {n : Nat} {alloc : Option Nat} {data : List Nat} :
    (lives (sendRaw (dropN n) c alloc data s)).card ≤ (lives s).card :=
  lives_mono fun m hm => (steady_dead m).sendRaw
    (fun c s hs => (steady_dead m).dropN n c s hs) c alloc data s hm

theorem Named.same (h : Named s) (hs : Same s s')
    (hname : ∀ m, (s'.client m).name = (s.client m).name) : Named s' where
  keyed := hs.byName ▸ h.keyed
  own e he := (hname e.2).trans (h.own e (hs.byName ▸ he))
  named e he := h.named e (hs.byName ▸ he)

/-- Names of others are kept. -/
theorem Named.filtered (h : Named s) {p : Name × Nat → Bool} (hp : s'.byName = s.byName.filter p)
    (hname : ∀ m, (s'.client m).name = (s.client m).name) : Named s' where
  keyed := by
    rw [hp]
    exact h.keyed.filter p
  own e he := by
    rw [hp] at he
    exact (hname e.2).trans (h.own e (List.mem_of_mem_filter he))
  named e he := by
    rw [hp] at he
    exact h.named e (List.mem_of_mem_filter he)

namespace Settled

theorem same (h : Settled N K s) (hs : Same s s') (hcount : s'.nClients = s.nClients)
    (hname : ∀ m, (s'.client m).name = (s.client m).name) : Settled N K s' where
  toShape := h.toShape.same hs
  names := h.names.same hs hname
  busy := hs.room ▸ h.busy
  seated := hs.room ▸ h.seated
  count := by
    rw [hcount, Slots.count_congr hs.inUse]
    exact h.count
  held k hk := by
    rw [hs.dead, hs.inUse]
    exact h.held k hk

theorem staged (h : Settled N K s) (c : Nat) (alloc : Option Nat) (data : List Nat) :
    Settled N K (staged c alloc data s) :=
  h.same (staged_same c alloc data s) rfl fun m => staged_client_name c m alloc data s

theorem tried (h : Settled N K s) (c : Nat) (alloc : Option Nat) (data : List Nat) :
    Settled N K (tried c alloc data s) := by
  unfold C.tried
  split
  · exact h.same ⟨rfl, rfl, rfl, fun _ => rfl, fun _ => rfl, fun _ => rfl, fun _ => rfl, rfl, rfl,
      rfl, rfl⟩ rfl fun _ => rfl
  · exact h.staged c alloc data

/-- Burying a client that is in no room. -/
theorem bury (h : Settled N K s) (hlive : Live c s) (hroom : (s.client c).room = none) :
    Settled N (fun k => K k ∨ k = c) (bury c s) where
  toShape := h.toShape.bury hroom
  names := h.names.filtered rfl fun m => bury_client_name c m s
  busy := h.busy
  seated := h.seated
  count := by
    rw [Slots.count_congr fun m => bury_client_inUse c m s]
    exact h.count
  held k hk := by
    rw [bury_client_dead, bury_client_inUse]
    rcases hk with hk | rfl
    · refine ⟨?_, (h.held k hk).2⟩
      split
      · rfl
      · exact (h.held k hk).1
    · exact ⟨if_pos rfl, hlive.inUse⟩

/-- Freeing the slot of a client that was being dropped. -/
theorem clientFree (h : Settled N (fun k => K k ∨ k = c) s) (hc : ¬ K c) :
    Settled N K (clientFree c s) := by
  obtain ⟨hdead, hin⟩ := h.held c (.inr rfl)
  exact
    { toShape := h.toShape.clientFree hdead
      names := h.names.filtered (p := fun _ => true) (by rw [List.filter_true]; rfl)
        fun m => clientFree_client_name c m s
      busy := h.busy
      seated := h.seated
      count := by
        have hwritten : Slots.count Client.inUse maxClients (C.clientFree c s).client +
            (s.client c).inUse.toNat =
              Slots.count Client.inUse maxClients s.client + false.toNat :=
          Slots.count_update (h.slot c hin) _
        rw [hin, ← h.count, Bool.toNat_true, Bool.toNat_false] at hwritten
        show s.nClients - 1 = _
        omega
      held := fun k hk => by
        have hkc : k ≠ c := by
          rintro rfl
          exact hc hk
        rw [clientFree_client_dead, clientFree_client_inUse, if_neg hkc]
        exact h.held k (.inl hk) }

/-- A client that is being dropped is not live. -/
theorem not_held (h : Settled N K s) (hlive : Live c s) : ¬ K c := by
  intro hk
  have hdead := (h.held c hk).1
  rw [hlive.alive] at hdead
  exact absurd hdead (by simp)

end Settled

/-! ## Dropping -/

/-- A drop keeps the tables as they should be. -/
def DropSettles (n : Nat) : Prop :=
  ∀ (N : Nat → Nat) (K : Nat → Prop) (s : Server) (c : Nat), Settled N K s → Live c s →
    (lives s).card ≤ n → Settled N K (dropN n c s)

namespace Settled

variable {n : Nat}

theorem sendRaw (h : Settled N K s) (hd : DropSettles n) (hc : Connected c s)
    (hfuel : (lives s).card ≤ n) (alloc : Option Nat) (data : List Nat) :
    Settled N K (sendRaw (dropN n) c alloc data s) := by
  have hsame := tried_same c alloc data s
  rw [sendRaw_eq]
  split
  · exact h
  next halive =>
  split
  · apply hd N K _ c (h.tried c alloc data)
    · exact hsame.live.mpr (hc.live halive)
    · exact (lives_mono fun m hm => (hsame.dead m).trans hm).trans hfuel
  · exact h.staged c alloc data

/-- A loop over a copied member list, wherever it goes on. -/
theorem sendEach (h : Settled N K s) (hd : DropSettles n) (mm : List Nat)
    (hmm : ∀ m ∈ mm, Connected m s) (hfuel : (lives s).card ≤ n) (alloc : Option Nat)
    (data : Nat → List Nat) (i : Nat) (failed : Bool) :
    Settled N K (sendEach (dropN n) alloc data i failed mm s) := by
  induction mm generalizing i failed s with
  | nil => exact h
  | cons m rest ih =>
    rw [sendEach_cons]
    have htorn : Settled N K { s with torn := s.torn || (failed && !(s.client m).dead) } :=
      h.same ⟨rfl, rfl, rfl, fun _ => rfl, fun _ => rfl, fun _ => rfl, fun _ => rfl, rfl, rfl, rfl,
        rfl⟩ rfl fun _ => rfl
    apply ih
    · exact htorn.sendRaw hd (hmm m List.mem_cons_self) hfuel alloc (data i)
    · intro q hq
      apply Connected.sendRaw
      exact hmm q (List.mem_cons_of_mem m hq)
    · exact lives_sendRaw.trans hfuel

theorem notifyAll (h : Settled N K s) (hd : DropSettles n) (cs : List Nat)
    (hcs : ∀ m ∈ cs, Connected m s) (hfuel : (lives s).card ≤ n) (alloc : Option Nat)
    (data : List Nat) : Settled N K (notifyAll (dropN n) cs alloc data s) := by
  induction cs generalizing s with
  | nil => exact h
  | cons m cs ih =>
    apply ih (h.sendRaw hd (hcs m List.mem_cons_self) hfuel alloc data)
    · intro q hq
      exact (hcs q (List.mem_cons_of_mem m hq)).sendRaw
    · exact lives_sendRaw.trans hfuel

theorem connected_member (h : Settled N K s) {m : Nat} (hm : m ∈ (s.room r).members) :
    Connected m s := by
  apply Live.connected
  apply h.lively
  rw [(h.link m r).mp hm]
  simp

theorem roomBroadcast (h : Settled N K s) (hd : DropSettles n) (hfuel : (lives s).card ≤ n)
    (r : Nat) : Settled N K (roomBroadcast (dropN n) r s) :=
  h.sendEach hd _ (fun _ hm => h.connected_member hm) hfuel _ _ _ _

/-- A client has left its room, alone or with everybody else. -/
theorem parted {ms : List Nat} (hs : Settled N K s) (h : Parted c r ms s s')
    (hsub : ∀ m ∈ ms, m ∈ (s.room r).members) (hnodup : ms.Nodup) (hlive : Live c s)
    (hroom : (s.client c).room = some r) (hcms : c ∉ ms) (hsize : ms = [] ∨ 2 ≤ ms.length)
    (hforming : ms ≠ [] → (s'.room r).started = false)
    (hused : (s'.room r).used = true → ms ≠ []) (hcount : s'.nClients = s.nClients)
    (hname : ∀ m, (s'.client m).name = (s.client m).name) :
    Settled N (fun k => K k ∨ k = c) s' where
  toShape := h.shape hs.toShape hsub hnodup ((hs.link c r).mpr hroom) hcms hsize
  names := hs.names.filtered h.byName hname
  busy q hq := by
    by_cases hqr : q = r
    · subst hqr
      rw [h.members]
      exact hused hq
    · rw [h.rooms q hqr] at hq ⊢
      exact hs.busy q hq
  seated q hq hstarted := by
    by_cases hqr : q = r
    · subst hqr
      rw [h.members] at hq
      rw [hforming hq] at hstarted
      exact absurd hstarted (by simp)
    · rw [h.rooms q hqr] at hq hstarted ⊢
      exact hs.seated q hq hstarted
  count := by
    rw [hcount, Slots.count_congr h.inUse]
    exact hs.count
  held k hk := by
    rw [h.dead, h.inUse]
    rcases hk with hk | rfl
    · refine ⟨?_, (hs.held k hk).2⟩
      split
      · rfl
      · exact (hs.held k hk).1
    · exact ⟨if_pos rfl, hlive.inUse⟩

/-- The room is vacant. -/
theorem disbanded (h : Settled N K s) (hlive : Live c s) (hroom : (s.client c).room = some r) :
    Settled N (fun k => K k ∨ k = c) (disbanded c r s) := by
  apply h.parted (disbanded_parted h.toShape hroom) (by simp) List.nodup_nil hlive hroom (by simp)
    (.inl rfl)
  · exact fun hne => absurd rfl hne
  · intro hused
    rw [C.disbanded, foldl_link] at hused
    simp [vacate] at hused
  · rw [C.disbanded, foldl_link]
    rfl
  · intro m
    rw [C.disbanded, foldl_link, vacate_client]
    dsimp only
    split
    · simp [removed]
    · simp [removed]

/-- The others are notified, whatever comes of it. -/
theorem disbanded_notify (h : Settled N K s) (hd : DropSettles n) (hlive : Live c s)
    (hroom : (s.client c).room = some r) (hfuel : (lives s).card ≤ n + 1) {notify : List Nat}
    (hsub : ∀ m ∈ notify, m ∈ (s.room r).members.erase c) (alloc : Option Nat)
    (data : List Nat) :
    Settled N (fun k => K k ∨ k = c)
      (C.notifyAll (dropN n) notify alloc data (C.disbanded c r s)) := by
  apply (h.disbanded hlive hroom).notifyAll hd
  · intro m hm
    have hloose := disbanded_loose h.toShape hroom (hsub m hm)
    by_cases hdead : ((C.disbanded c r s).client m).dead = true
    · exact .inr hdead
    · exact (hloose.live (by simpa using hdead)).connected
  · exact parted_lives h.toShape hlive hfuel (disbanded_parted h.toShape hroom)

/-- The v2 part of `drop`. -/
theorem leave (h : Settled N K s) (hd : DropSettles n) (hlive : Live c s)
    (hroom : (s.client c).room = some r) (hfuel : (lives s).card ≤ n + 1) :
    Settled N (fun k => K k ∨ k = c)
      (leave (dropN n) c r ((s.room r).members.idxOf c) (removed c r s)) := by
  have hp := removed_parted h.toShape hroom
  have hc : c ∈ (s.room r).members := (h.link c r).mpr hroom
  have hdissolve : Settled N (fun k => K k ∨ k = c)
      (dissolve (dropN n) r ((removed c r s).room r).members (removed c r s)) := by
    rw [hp.members, dissolve_removed h.toShape hlive hroom hfuel fun m hm => hm]
    exact h.disbanded_notify hd hlive hroom hfuel (fun m hm => hm) _ _
  unfold C.leave
  split
  · dsimp only
    rw [hp.members, dissolve_removed h.toShape hlive hroom hfuel (by simp)]
    exact h.disbanded_notify hd hlive hroom hfuel (fun m hm => hm) _ _
  next hforming =>
  split
  · exact hdissolve
  split
  · exact hdissolve
  next hmany =>
  rw [hp.members] at hmany
  have hremoved : Settled N (fun k => K k ∨ k = c) (removed c r s) := by
    apply h.parted hp (fun m hm => List.mem_of_mem_erase hm) ((h.nodup r).erase c) hlive hroom
      (h.nodup r).not_mem_erase (.inr (by omega))
    · exact fun _ => by simpa using hforming
    · exact fun _ => List.ne_nil_of_length_pos (by omega)
    · rfl
    · intro m
      simp [removed]
  exact hremoved.roomBroadcast hd (parted_lives h.toShape hlive hfuel hp) r

/-- The v1 part of `drop`: rooms are pairs. -/
theorem unpair (h : Settled N K s) (hd : DropSettles n) (hlive : Live c s)
    (hroom : (s.client c).room = some r) (hfuel : (lives s).card ≤ n + 1)
    (hproto : s.proto = .v1) :
    Settled N (fun k => K k ∨ k = c) (unpair (dropN n) r (removed c r s)) := by
  have hp := removed_parted h.toShape hroom
  obtain ⟨p, herase⟩ := pair_erase h.toShape hroom hproto
  have hstate : ((removed c r s).vacate r).link p none = C.disbanded c r s := by
    rw [C.disbanded, herase]
    rfl
  have hnotify := h.disbanded_notify hd hlive hroom hfuel
    (fun m (hm : m ∈ (s.room r).members.erase c) => hm) (allocOf r (removed c r s)) (frameBuild tPeerLeft [])
  rw [herase] at hnotify
  unfold C.unpair
  rw [hp.members, herase]
  dsimp only [List.head?_cons]
  rw [hstate]
  exact hnotify

end Settled

theorem dropN_settles (n : Nat) : DropSettles n := by
  induction n with
  | zero =>
    intro N K s c h hlive hfuel
    exact absurd (lives_pos h.slot hlive hfuel) (by omega)
  | succ n ih =>
    intro N K s c h hlive hfuel
    have hheld := h.not_held hlive
    cases hroom : (s.client c).room with
    | none =>
      rw [dropN_solo hlive.alive hroom]
      exact (h.bury hlive hroom).clientFree hheld
    | some r =>
      rw [dropN_room h.toShape hlive.alive hroom]
      cases hproto : s.proto with
      | v1 => exact (h.unpair ih hlive hroom hfuel hproto).clientFree hheld
      | v2 => exact (h.leave ih hlive hroom hfuel).clientFree hheld

/-- `drop`. -/
theorem Settled.drop (h : Settled N K s) (hc : Connected c s) : Settled N K (drop c s) := by
  by_cases hdead : (s.client c).dead = true
  · rw [C.drop, dropN_dead hdead]
    exact h
  · exact dropN_settles maxClients N K s c h (hc.live hdead) (lives_le s)

end SharkNetplay.Relay.C
