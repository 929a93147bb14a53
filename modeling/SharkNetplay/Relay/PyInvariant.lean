import SharkNetplay.Relay.PyRooms

/-!
# The room invariant of the Python relay

Every handler and every event restores the link between clients and rooms and
what each client was told of it.
-/

namespace SharkNetplay.Relay.Py

open Server

variable {s : Server} {X : Nat → Prop} {c : Nat}

/-- The invariant between events. -/
abbrev Settled (s : Server) : Prop := Inv (fun _ => False) s

/-- Rooms, links and lives are as before. -/
structure SameRooms (s s' : Server) : Prop where
  room : s'.room = s.room
  link : ∀ m, (s'.client m).room = (s.client m).room
  dead : ∀ m, (s'.client m).dead = (s.client m).dead

theorem SameRooms.fits {s' : Server} (h : SameRooms s s') {f : Option (List Nat)} {m : Nat}
    (hf : Fits f m s) : Fits f m s' :=
  hf.congr (h.link m) fun r _ => by rw [h.room]

/-- A frame about something else than membership. -/
theorem send_data {data : List Nat} (h : Settled s) (hc : c < s.nextClient)
    (hdata : isMembership data = false) :
    Settled (send drop c data s) ∧ (send drop c data s).nextClient = s.nextClient ∧
      ∀ q, ((send drop c data s).room q).members = (s.room q).members ∨
        ((send drop c data s).room q).members = [] := by
  have hnext := (steady_nextClient s.nextClient).send_drop c data s rfl
  rcases Inv.send h hc (fun h' => by rw [hdata] at h'; exact absurd h' (by simp)) with
    ⟨hinv, hroom, -⟩ | ⟨hinv, hroom⟩
  · exact ⟨hinv.mono fun _ hm => hm.1, hnext, fun q => Or.inl (by rw [hroom])⟩
  · refine ⟨hinv.mono fun _ hm => hm.1, hnext, fun q => ?_⟩
    rw [hroom q]
    split
    · exact Or.inr rfl
    · exact Or.inl rfl

theorem drop_settled (h : Settled s) (hc : c < s.nextClient) : Settled (Py.drop c s) := by
  cases hlive : (s.client c).dead with
  | true =>
      rw [drop_dead hlive]
      exact h
  | false => exact (h.drop hc hlive).1.mono fun _ hm => hm.1

theorem forMembers_some {r fuel i m : Nat} {body : Nat → Nat → Server → Server}
    (h : (s.room r).members[i]? = some m) :
    forMembers r body (fuel + 1) i s = forMembers r body fuel (i + 1) (body i m s) := by
  simp only [forMembers, h]

theorem forMembers_none {r fuel i : Nat} {body : Nat → Nat → Server → Server}
    (h : (s.room r).members[i]? = none) : forMembers r body fuel i s = s := by
  cases fuel with
  | zero => exact expect_pos (by simpa using h) s
  | succ fuel => simp only [forMembers, h]

/-- A round over the members keeps what its body keeps, while no room grows. -/
theorem forMembers_inv {P : Server → Prop} {r k : Nat} {body : Nat → Nat → Server → Server}
    (hlen : ∀ s, P s → (s.room r).members.length ≤ k)
    (hbody : ∀ i m s, P s → m ∈ (s.room r).members → P (body i m s)) (fuel i : Nat)
    (hfuel : k ≤ i + fuel) (hs : P s) : P (forMembers r body fuel i s) := by
  induction fuel generalizing i s with
  | zero =>
      have hle := hlen s hs
      rw [forMembers_none (by simpa using (by omega : (s.room r).members.length ≤ i))]
      exact hs
  | succ fuel ih =>
      cases hm : (s.room r).members[i]? with
      | none =>
          rw [forMembers_none hm]
          exact hs
      | some m =>
          rw [forMembers_some hm]
          exact ih (i + 1) (by omega) (hbody i m s hs (List.mem_of_getElem? hm))

/-- Both members are sent a frame that is true of them. Either both still are
members, or a failed send ended the room. -/
theorem announce {r a b : Nat} {f : Nat → List Nat} (h : Inv X s)
    (hX : ∀ m, X m → m = a ∨ m = b) (hm : (s.room r).members = [a, b])
    (hmem : ∀ i, isMembership (f i) = true)
    (hfits : ∀ i m, m = a ∨ m = b → Fits (some (f i)) m s) :
    Settled (forMembers r (fun i m => send drop m (f i)) 2 0 s) ∧
      (forMembers r (fun i m => send drop m (f i)) 2 0 s).nextClient = s.nextClient ∧
      (((forMembers r (fun i m => send drop m (f i)) 2 0 s).room r).members = [] ∨
        SameRooms s (forMembers r (fun i m => send drop m (f i)) 2 0 s)) := by
  have hin : ∀ m, m = a ∨ m = b → (s.client m).room = some r := fun m hm' =>
    (h.link m r).mp (by rw [hm]; simpa using hm')
  have hlt : ∀ m, m = a ∨ m = b → m < s.nextClient := fun m hm' => h.lt_of_room (hin m hm')
  have hnext₁ := (steady_nextClient s.nextClient).send_drop a (f 0) s rfl
  rw [forMembers_some (m := a) (by rw [hm]; rfl)]
  rcases Inv.send h (hlt a (Or.inl rfl)) (fun _ => hfits 0 a (Or.inl rfl)) with
    ⟨hinv, hroom, hsame⟩ | ⟨hinv, hroom⟩
  · generalize send drop a (f 0) s = s₁ at hinv hroom hsame hnext₁ ⊢
    have hs₁ : SameRooms s s₁ := ⟨hroom, fun m => (hsame m).1, fun m => (hsame m).2⟩
    have hm₁ : (s₁.room r).members = [a, b] := by rw [hroom, hm]
    have hnext₂ := (steady_nextClient s.nextClient).send_drop b (f 1) s₁ hnext₁
    rw [forMembers_some (m := b) (by rw [hm₁]; rfl)]
    rcases Inv.send hinv (by rw [hnext₁]; exact hlt b (Or.inr rfl))
        (fun _ => hs₁.fits (hfits 1 b (Or.inr rfl))) with
      ⟨hinv₂, hroom₂, hsame₂⟩ | ⟨hinv₂, hroom₂⟩
    · rw [forMembers_none (by rw [hroom₂, hm₁]; rfl)]
      refine ⟨hinv₂.mono fun m hm' => ?_, hnext₂, Or.inr ⟨?_, fun m => ?_, fun m => ?_⟩⟩
      · rw [hmem, hmem] at hm'
        obtain ⟨⟨hXm, hma⟩, hmb⟩ := hm'
        rcases hX m hXm with rfl | rfl
        · exact hma.elim (fun h' => absurd h' (by simp)) fun h' => h' rfl
        · exact hmb.elim (fun h' => absurd h' (by simp)) fun h' => h' rfl
      · rw [hroom₂, hroom]
      · rw [(hsame₂ m).1, (hsame m).1]
      · rw [(hsame₂ m).2, (hsame m).2]
    · have hb : (s₁.client b).room = some r := by rw [(hsame b).1, hin b (Or.inr rfl)]
      have hempty : ((send drop b (f 1) s₁).room r).members = [] := by
        rw [hroom₂, if_pos hb]
      rw [forMembers_none (by rw [hempty]; rfl)]
      refine ⟨hinv₂.mono fun m hm' => ?_, hnext₂, Or.inl hempty⟩
      refine hm'.2.2 r hb ?_
      rw [hm₁]
      simpa using hX m hm'.1.1
  · have ha : (s.client a).room = some r := hin a (Or.inl rfl)
    have hempty : ((send drop a (f 0) s).room r).members = [] := by
      rw [hroom, if_pos ha]
    rw [forMembers_none (by rw [hempty]; rfl)]
    refine ⟨hinv.mono fun m hm' => ?_, hnext₁, Or.inl hempty⟩
    refine hm'.2.2 r ha ?_
    rw [hm]
    simpa using hX m hm'.1

/-! ## Names -/

theorem Inv.withByName (h : Inv X s) {d : List (Name × Nat)}
    (hd : ∀ e ∈ d, e.2 < s.nextClient) : Inv X { s with byName := d } :=
  { h with keyed := hd }

/-- Changes of a client's own data leave the rooms alone. -/
theorem Inv.ofSame {s' : Server} (h : Inv X s) (hs : SameRooms s s')
    (hpresent : s'.present = s.present) (hnext : s'.nextClient = s.nextClient)
    (hname : ∀ m, (s.client m).name.isSome = true → (s'.client m).name.isSome = true)
    (hbyName : s'.byName = s.byName) (hroom : s'.nextRoom = s.nextRoom)
    (hqueued : s'.queued = s.queued) (hcrashed : s'.crashed = s.crashed) : Inv X s' where
  present m := by
    rw [hpresent, hnext, hs.dead]
    exact h.present m
  nodup := hpresent ▸ h.nodup
  link m r := by
    rw [hs.room, hs.link]
    exact h.link m r
  pair := hs.room ▸ h.pair
  named m hm := hname m (h.named m (by rw [← hs.link]; exact hm))
  newcomer m hm := by
    rw [hs.link, hs.dead]
    exact h.newcomer m (hnext ▸ hm)
  vacant r hr := by
    rw [hs.room]
    exact h.vacant r (hroom ▸ hr)
  keyed e he := by
    rw [hnext]
    exact h.keyed e (hbyName ▸ he)
  sane := hcrashed.trans h.sane
  agrees m hm hX := by
    rw [hs.dead] at hm
    unfold Agrees
    rw [hqueued]
    exact hs.fits (h.agrees m hm hX)

theorem Inv.setName (h : Inv X s) (c : Nat) (name : Name) : Inv X (s.setName c name) := by
  refine h.ofSame ⟨rfl, fun m => by simp, fun m => by simp⟩ rfl rfl (fun m hm => ?_) rfl rfl rfl rfl
  rw [setName_client_name]
  split
  · rfl
  · exact hm

theorem Inv.setRx (h : Inv X s) (c : Nat) (rx : List Nat) : Inv X (s.setRx c rx) :=
  h.ofSame ⟨rfl, fun m => by simp, fun m => by simp⟩ rfl rfl (fun m hm => by simpa using hm)
    rfl rfl rfl rfl

theorem onList_settled (h : Settled s) (hc : c < s.nextClient) :
    Settled (onList c s) ∧ (onList c s).nextClient = s.nextClient := by
  have hdata := @send_data _ c
    (frame tLobby ((others c s).length ::
      ((others c s).map fun o => padName (nameOf o s) ++ [status o s]).flatten)) h hc
    (by simp [isMembership, frame])
  exact ⟨hdata.1, hdata.2.1⟩

theorem lookup_lt (h : Inv X s) {name : Name} {o : Nat} (ho : lookup name s = some o) :
    o < s.nextClient := h.keyed _ (Lib.Dict.mem_of_get ho)

/-- `on_hello`. -/
theorem register_settled (h : Settled s) (hc : c < s.nextClient) (name : Name) :
    Settled (register c name s) ∧ (register c name s).nextClient = s.nextClient := by
  unfold register
  extract_lets s₁ s₂ s₃
  have h₁ : Settled s₁ ∧ s₁.nextClient = s.nextClient := by
    simp only [s₁]
    split
    · next old hold =>
        split
        · exact ⟨drop_settled h (lookup_lt h hold),
            (steady_nextClient s.nextClient).drop old s rfl⟩
        · exact ⟨h, rfl⟩
    · exact ⟨h, rfl⟩
  have h₂ : Settled s₂ ∧ s₂.nextClient = s.nextClient := by
    simp only [s₂]
    split
    · split
      · exact ⟨h₁.1.withByName fun e he => h₁.1.keyed e (List.mem_of_mem_filter he), h₁.2⟩
      · exact h₁
    · exact h₁
  have h₃ : Settled s₃ ∧ s₃.nextClient = s.nextClient := ⟨h₂.1.setName c name, h₂.2⟩
  have hkeyed : ∀ e ∈ Lib.Dict.assign name c s₃.byName, e.2 < s₃.nextClient := by
    intro e he
    rcases Lib.Dict.mem_assign he with rfl | he'
    · rw [h₃.2]
      exact hc
    · exact h₃.1.keyed e he'.1
  have hlist := onList_settled (c := c) (h₃.1.withByName hkeyed)
    (show c < s₃.nextClient by rw [h₃.2]; exact hc)
  exact ⟨hlist.1, hlist.2.trans h₃.2⟩

/-! ## Rooms -/

theorem allNamed_members (h : Inv X s) (r : Nat) : allNamed (s.room r).members s = true := by
  rw [allNamed, List.all_eq_true]
  intro m hm
  refine h.named m ?_
  rw [(h.link m r).mp hm]
  simp

/-- What a handler leaves behind. It is settled; or it raised, and then only the
live client it served and its mate are still to be told. -/
structure Outcome (c : Nat) (s : Server) (p : Server × Bool) : Prop where
  nextClient : p.1.nextClient = s.nextClient
  inv : ∃ X, Inv X p.1 ∧
    ∀ m, X m → p.2 = true ∧ (p.1.client c).dead = false ∧ ¬ Elsewhere c p.1 m

theorem Outcome.settled {b : Bool} {s' : Server} (h : Settled s')
    (hn : s'.nextClient = s.nextClient) : Outcome c s (s', b) :=
  ⟨hn, _, h, fun _ hm => hm.elim⟩

/-- `room_broadcast` to a forming pair. -/
theorem roomBroadcast_pair {r a b : Nat} (h : Inv X s) (hX : ∀ m, X m → m = a ∨ m = b)
    (hm : (s.room r).members = [a, b]) (hforming : (s.room r).started = false) :
    Settled (roomBroadcast drop r s) ∧ (roomBroadcast drop r s).nextClient = s.nextClient ∧
      (((roomBroadcast drop r s).room r).members = [] ∨
        SameRooms s (roomBroadcast drop r s)) := by
  have hin : ∀ m, m = a ∨ m = b → (s.client m).room = some r := fun m hm' =>
    (h.link m r).mp (by rw [hm]; simpa using hm')
  have hlen : (s.room r).members.length = 2 := by rw [hm]; rfl
  simp only [roomBroadcast, expect_pos (allNamed_members h r), hlen]
  refine announce (f := fun _ => frame tRoom (2 :: roster r s)) h hX hm (fun _ => ?_)
    fun _ m hm' => ?_
  · simp [isMembership, frame]
  · exact ⟨r, hin m hm', hforming, by simpa [frame] using hlen⟩

theorem start_inv {r seed : Nat} (h : Settled s) :
    Inv (fun m => m ∈ (s.room r).members) (s.start r seed) := by
  refine ⟨⟨h.present, h.nodup⟩, fun m q => ?_, fun q => ?_, h.named, h.newcomer, fun q hq => ?_,
    h.keyed, h.sane, fun m hm hX => ?_⟩
  · rw [start_members]
    exact h.link m q
  · rw [start_members]
    exact h.pair q
  · rw [start_members]
    exact h.vacant q hq
  · refine (h.agrees m hm fun hf => hf).congr rfl fun q hq => start_room_ne s ?_ seed
    rintro rfl
    exact hX ((h.link m q).mpr hq)

/-- Values drawn for seeds do not matter. -/
theorem Inv.withSeeds (h : Inv X s) (seeds : List Seed) : Inv X { s with seeds := seeds } :=
  { h with }

/-- `start_room` on a room that ended meanwhile. -/
theorem startRoom_empty {r : Nat} (h : Settled s) (hempty : (s.room r).members = []) :
    Settled (startRoom r s).1 ∧ (startRoom r s).1.nextClient = s.nextClient := by
  unfold startRoom
  extract_lets seed s₁ s₂ s₃ common
  have hmem : ∀ q, (s₂.room q).members = (s.room q).members := fun q => start_members s₁ r q seed
  have hset : Settled s₂ := (start_inv (h.withSeeds s.seeds.tail)).mono fun m hm => by
    have hm' : m ∈ (s.room r).members := hm
    rw [hempty] at hm'
    exact absurd hm' (by simp)
  split
  · exact ⟨hset, rfl⟩
  · have hnamed : s₃ = s₂ := expect_pos (allNamed_members hset r) s₂
    rw [hnamed, forMembers_none (by rw [hmem, hempty]; rfl)]
    exact ⟨hset, rfl⟩

/-- `start_room` on a forming pair. -/
theorem startRoom_outcome {r : Nat} (h : Settled s) (hc : (s.client c).dead = false)
    (hroom : (s.client c).room = some r) : Outcome c s (startRoom r s) := by
  unfold startRoom
  extract_lets seed s₁ s₂ s₃ common
  have hmem : ∀ q, (s₂.room q).members = (s.room q).members := fun q => start_members s₁ r q seed
  have hinv : Inv (fun m => m ∈ (s.room r).members) s₂ := start_inv (h.withSeeds s.seeds.tail)
  have hroom₂ : (s₂.client c).room = some r := hroom
  split
  · refine ⟨rfl, _, hinv, fun m hm => ⟨rfl, hc, fun he => ?_⟩⟩
    exact he.2 r hroom₂ (by rw [hmem]; exact hm)
  · obtain ⟨a, b, hab, hm⟩ : ∃ a b, a ≠ b ∧ (s.room r).members = [a, b] := by
      rcases h.pair r with hnil | hpair
      · have hcm := (h.link c r).mpr hroom
        rw [hnil] at hcm
        exact absurd hcm (by simp)
      · exact hpair
    have hnamed : s₃ = s₂ := expect_pos (allNamed_members hinv r) s₂
    have hm₂ : (s₂.room r).members = [a, b] := by rw [hmem, hm]
    have hin : ∀ m, m = a ∨ m = b → (s₂.client m).room = some r := fun m hm' =>
      (h.link m r).mp (by rw [hm]; simpa using hm')
    have hstarted : (s₂.room r).started = true := start_started s₁ r seed
    have hann := announce (f := fun i => frame tStart (i :: common)) hinv
      (fun m hm' => by rw [hm] at hm'; simpa using hm') hm₂
      (fun i => by simp [isMembership, frame])
      (fun i m hm' => by
        simp only [Fits, frame, List.getD_cons_succ, List.getD_cons_zero, if_true]
        exact ⟨r, hin m hm', hstarted⟩)
    rw [hnamed, hm₂]
    exact .settled hann.1 hann.2.1

/-- The state once `c` has joined the roomless `target` in a new room. -/
def joined (c target : Nat) (s : Server) : Server :=
  (((({ s with nextRoom := s.nextRoom + 1 }.setRoom s.nextRoom { members := [target] }).link
    target (some s.nextRoom)).seat s.nextRoom [target, c]).link c (some s.nextRoom))

/-- A refused target apart, `on_join` always makes a new room: with two seats a
room that exists is full. -/
theorem roomless_of_joinable (h : Inv X s) {target : Nat}
    (hjoin : unjoinable c target s = false) : (s.client target).room = none := by
  cases hroom : (s.client target).room with
  | none => rfl
  | some r =>
      obtain ⟨o, hmates, -⟩ := h.mates hroom
      have hfull : maxSeats ≤ (s.room r).members.length := by
        rcases hmates.members with hm | hm <;> simp [hm]
      simp only [unjoinable, hroom, hfull, decide_true, Bool.or_true] at hjoin
      exact absurd hjoin (by simp)

theorem ne_of_joinable {target : Nat} (hjoin : unjoinable c target s = false) : target ≠ c := by
  rintro rfl
  simp [unjoinable] at hjoin

/-- What `on_join` makes of an accepted target. -/
theorem roomFor_joined (h : Inv X s) {target : Nat} (hjoin : unjoinable c target s = false) :
    (roomFor target s).2 = s.nextRoom ∧
      ((roomFor target s).1.seat (roomFor target s).2
        (((roomFor target s).1.room (roomFor target s).2).members ++ [c])).link c
          (some (roomFor target s).2) = joined c target s := by
  have htroom := roomless_of_joinable h hjoin
  have hroomFor : roomFor target s =
      (({ s with nextRoom := s.nextRoom + 1 }.setRoom s.nextRoom { members := [target] }).link
        target (some s.nextRoom), s.nextRoom) := by
    simp only [roomFor, htroom]
  constructor
  · rw [hroomFor]
  · simp only [hroomFor, joined, link_room, room_setRoom, if_true, List.singleton_append]

theorem joined_inv {target : Nat} (h : Settled s) (hne : target ≠ c)
    (hc : c < s.nextClient) (ht : target < s.nextClient)
    (hcroom : (s.client c).room = none) (htroom : (s.client target).room = none)
    (hcname : (s.client c).name.isSome = true) (htname : (s.client target).name.isSome = true) :
    Inv (fun m => m = target ∨ m = c) (joined c target s) := by
  have hmem : ∀ q, ((joined c target s).room q).members =
      if q = s.nextRoom then [target, c] else (s.room q).members := by
    intro q
    simp only [joined, link_room, seat_members, room_setRoom]
    split <;> rfl
  have hlink : ∀ m, ((joined c target s).client m).room =
      if m = target ∨ m = c then some s.nextRoom else (s.client m).room := by
    intro m
    simp only [joined, seat_client, link_client_room, client_setRoom]
    by_cases hm : m = c
    · simp [hm]
    · by_cases hm' : m = target
      · simp [hm']
      · simp [hm']
  have hdead : ∀ m, ((joined c target s).client m).dead = (s.client m).dead := by
    intro m
    simp [joined]
  have hname : ∀ m, ((joined c target s).client m).name = (s.client m).name := by
    intro m
    simp [joined]
  have hout : ∀ m, (s.client m).room ≠ some s.nextRoom := by
    intro m hm
    have := (h.link m _).mpr hm
    rw [h.vacant _ (Nat.le_refl _)] at this
    exact absurd this (by simp)
  refine ⟨⟨fun m => ?_, h.nodup⟩, fun m q => ?_, fun q => ?_, fun m hm => ?_, fun m hm => ?_,
    fun q hq => ?_, h.keyed, h.sane, fun m hm hX => ?_⟩
  · rw [hdead]
    exact h.present m
  · rw [hmem, hlink]
    by_cases hq : q = s.nextRoom
    · subst hq
      by_cases hm : m = target ∨ m = c
      · simp [hm]
      · rw [if_pos rfl, if_neg hm]
        simp [hm, hout m]
    · rw [if_neg hq, h.link]
      by_cases hm : m = target ∨ m = c
      · rw [if_pos hm]
        have hnone : (s.client m).room = none := by
          rcases hm with rfl | rfl
          · exact htroom
          · exact hcroom
        simp [hnone, Ne.symm hq]
      · rw [if_neg hm]
  · rw [hmem]
    split
    · exact Or.inr ⟨target, c, hne, rfl⟩
    · exact h.pair q
  · rw [hlink] at hm
    rw [hname]
    by_cases hm' : m = target ∨ m = c
    · rcases hm' with rfl | rfl
      · exact htname
      · exact hcname
    · rw [if_neg hm'] at hm
      exact h.named m hm
  · have hm₁ : s.nextClient ≤ m := hm
    rw [hlink, hdead, if_neg (by omega)]
    exact h.newcomer m hm
  · have hq₁ : s.nextRoom + 1 ≤ q := hq
    rw [hmem, if_neg (by omega)]
    exact h.vacant q (by omega)
  · rw [hdead] at hm
    refine (h.agrees m hm fun hf => hf).congr (by rw [hlink, if_neg hX]) fun q hq => ?_
    have hqn : q ≠ s.nextRoom := by
      rintro rfl
      exact hout m hq
    simp [joined, seat, hqn]

/-- `on_join`. -/
theorem onJoin_outcome (h : Settled s) (hc : c < s.nextClient)
    (hlive : (s.client c).dead = false) (payload : List Nat) :
    Outcome c s (onJoin c payload s) := by
  have hlist := onList_settled h hc
  rw [onJoin_eq]
  split
  · exact .settled h rfl
  next hcname =>
  split
  · exact .settled h rfl
  next hcroom =>
  split
  · exact .settled hlist.1 hlist.2
  next target htarget =>
  split
  · exact .settled hlist.1 hlist.2
  next hjoin =>
  have hjoin' : unjoinable c target s = false := by simpa using hjoin
  have htroom := roomless_of_joinable h hjoin'
  have hne : target ≠ c := ne_of_joinable hjoin'
  have htname : (s.client target).name.isSome = true := by
    cases hn : (s.client target).name with
    | none => simp [unjoinable, hn] at hjoin'
    | some _ => rfl
  have hcroom' : (s.client c).room = none := by
    cases hn : (s.client c).room with
    | none => rfl
    | some _ => simp [hn] at hcroom
  have hcname' : (s.client c).name.isSome = true := by
    cases hn : (s.client c).name with
    | none => simp [hn] at hcname
    | some _ => rfl
  have hinv := joined_inv h hne hc (lookup_lt h htarget) hcroom' htroom hcname' htname
  extract_lets p r s₁ s₂
  have hr : r = s.nextRoom := (roomFor_joined h hjoin').1
  have hs₁ : s₁ = joined c target s := (roomFor_joined h hjoin').2
  have hm : (s₁.room r).members = [target, c] := by
    rw [hs₁, hr]
    simp [joined]
  have hforming : (s₁.room r).started = false := by
    rw [hs₁, hr]
    simp [joined]
  obtain ⟨hset, hnext, hrooms⟩ := roomBroadcast_pair (s := s₁) (r := r)
    (X := fun m => m = target ∨ m = c) (by rw [hs₁]; exact hinv) (fun m hX => hX) hm hforming
  have hnext₂ : s₂.nextClient = s.nextClient := by
    rw [show s₂.nextClient = s₁.nextClient from hnext, hs₁]
    rfl
  split
  next hauto =>
    rcases hrooms with hempty | hsame
    · have hstart := startRoom_empty (s := s₂) hset hempty
      exact .settled hstart.1 (hstart.2.trans hnext₂)
    · have hdead : (s₂.client c).dead = false := by
        rw [hsame.dead, hs₁]
        simpa [joined] using hlive
      have hroom₂ : (s₂.client c).room = some r := by
        rw [hsame.link, hs₁, hr]
        simp [joined]
      have hstart := startRoom_outcome (c := c) (s := s₂) hset hdead hroom₂
      exact ⟨hstart.nextClient.trans hnext₂, hstart.inv⟩
  next => exact .settled hset hnext₂

/-- `on_go`. -/
theorem onGo_outcome (h : Settled s) (hlive : (s.client c).dead = false) :
    Outcome c s (onGo c s) := by
  unfold onGo
  split
  · exact .settled h rfl
  next r hroom =>
  have hcontains : ((s.room r).members.contains c) = true := by
    simpa using (h.link c r).mpr hroom
  split
  · exact .settled h rfl
  simp only [expect_pos hcontains]
  split_ifs
  · exact .settled h rfl
  · exact startRoom_outcome h hlive hroom
  · exact .settled h rfl

/-- The relay branch of `handle`. -/
theorem relay_settled {ftype : Nat} (h : Settled s) (htype : ftype ∈ relayTypes)
    (payload : List Nat) : Settled (relay c ftype payload s) := by
  have hdata : isMembership (frame ftype payload) = false := by
    simp only [relayTypes, List.mem_cons, List.not_mem_nil, or_false] at htype
    rcases htype with rfl | rfl | rfl | rfl <;> simp [isMembership, frame]
  unfold relay
  split
  · exact h
  next r _ =>
  split
  · have hround := @forMembers_inv _
      (fun s' => Settled s' ∧ (s'.room r).members.length ≤ (s.room r).members.length) r
      (s.room r).members.length
      (fun _ m s' => if m = c then s' else send drop m (frame ftype payload) s')
      (fun _ hs => hs.2) (fun _ m s' hs hm => ?_) (s.room r).members.length 0 (by omega)
      ⟨h, Nat.le_refl _⟩
    · exact hround.1
    · have hmlt : m < s'.nextClient := hs.1.lt_of_room ((hs.1.link m r).mp hm)
      obtain ⟨hset, -, hmem⟩ := send_data hs.1 hmlt hdata
      split
      · exact hs
      · refine ⟨hset, ?_⟩
        rcases hmem r with h' | h'
        · rw [h']
          exact hs.2
        · rw [h']
          exact Nat.zero_le _
  · exact h

/-- `handle`. -/
theorem handle_outcome (h : Settled s) (hc : c < s.nextClient)
    (hlive : (s.client c).dead = false) (ftype : Nat) (payload : List Nat) :
    Outcome c s (handle c ftype payload s) := by
  have hnext := (lasting_nextClient s.nextClient).handle c ftype payload s rfl
  unfold handle at hnext ⊢
  split_ifs at hnext ⊢ with hrel hhello hlist hjoin hgo hbye hping
  · exact .settled (relay_settled h hrel payload) hnext
  · split
    · exact .settled h rfl
    · exact .settled (register_settled h hc _).1 (register_settled h hc _).2
  · exact .settled (onList_settled h hc).1 hnext
  · exact onJoin_outcome h hc hlive payload
  · exact onGo_outcome h hlive
  · exact .settled (drop_settled h hc) hnext
  · exact .settled (send_data h hc (by simp [isMembership, frame])).1 hnext
  · exact .settled h rfl

/-- An exception drops the client, which settles what the handler left open. -/
theorem Outcome.dropped {p : Server × Bool} (h : Outcome c s p) (hc : c < s.nextClient) :
    Settled (drop c p.1) := by
  obtain ⟨X, hinv, hX⟩ := h.inv
  cases hdead : (p.1.client c).dead with
  | true =>
      rw [drop_dead hdead]
      refine hinv.mono fun m hm => ?_
      rw [hdead] at hX
      exact absurd (hX m hm).2.1 (by simp)
  | false =>
      refine (hinv.drop (by rw [h.nextClient]; exact hc) hdead).1.mono fun m hm => ?_
      exact (hX m hm.1).2.2 hm.2

theorem Outcome.quiet {p : Server × Bool} (h : Outcome c s p) (hp : p.2 = false) :
    Settled p.1 := by
  obtain ⟨X, hinv, hX⟩ := h.inv
  refine hinv.mono fun m hm => ?_
  rw [hp] at hX
  exact absurd (hX m hm).1 (by simp)

/-- The frame loop of `service`. -/
theorem feed_settled (fuel : Nat) (h : Settled s) (hc : c < s.nextClient)
    (hlive : (s.client c).dead = false) (hfuel : (s.client c).rx.length ≤ fuel) :
    Settled (feed fuel c s) ∧ (feed fuel c s).nextClient = s.nextClient := by
  induction fuel generalizing s with
  | zero =>
      have hrx : (s.client c).rx = [] := List.eq_nil_of_length_eq_zero (by omega)
      unfold feed
      rw [expect_pos (by rw [hrx]; rfl)]
      exact ⟨h, rfl⟩
  | succ fuel ih =>
      have hdrop : ∀ {s' : Server}, Settled s' → s'.nextClient = s.nextClient →
          Settled (drop c s') ∧ (drop c s').nextClient = s.nextClient := fun hs hn =>
        ⟨drop_settled hs (by rw [hn]; exact hc), (steady_nextClient s.nextClient).drop c _ hn⟩
      unfold feed
      split
      · exact ⟨h, rfl⟩
      next len rest hrx =>
      split
      · exact hdrop h rfl
      split
      · exact ⟨h, rfl⟩
      extract_lets s₁ p
      have h₁ : Settled s₁ := h.setRx c (rest.drop len)
      have hlive₁ : (s₁.client c).dead = false := by
        rw [setRx_client_dead]
        exact hlive
      have hout : Outcome c s₁ p := handle_outcome h₁ hc hlive₁ _ _
      have hnext : p.1.nextClient = s.nextClient := hout.nextClient
      split
      · exact ⟨hout.dropped hc, (steady_nextClient s.nextClient).drop c _ hnext⟩
      next hraise =>
      have hquiet := hout.quiet (by simpa using hraise)
      split
      · exact ⟨hquiet, hnext⟩
      next hdead =>
      have hrx₁ : (p.1.client c).rx = rest.drop len :=
        (lasting_rx c (rest.drop len)).handle c _ _ s₁ (by simp [s₁])
      have := ih hquiet (by rw [hnext]; exact hc) (by simpa using hdead) (by
        rw [hrx, List.length_cons] at hfuel
        rw [hrx₁, List.length_drop]
        omega)
      exact ⟨this.1, this.2.trans hnext⟩

/-! ## Events -/

theorem admit_client_ne (s : Server) (ip : Nat) {m : Nat} (hm : m ≠ s.nextClient) :
    (enroll ip s).client m = s.client m := by
  unfold enroll
  rw [client_setClient, if_neg hm]

theorem admit_client_new (s : Server) (ip : Nat) :
    (enroll ip s).client s.nextClient = { ip := ip } := by
  unfold enroll
  rw [client_setClient, if_pos rfl]

theorem admit_settled (h : Settled s) (ip : Nat) : Settled (enroll ip s) := by
  have hold := h.newcomer s.nextClient (Nat.le_refl _)
  have hroom : ∀ m, ((enroll ip s).client m).room = (s.client m).room := by
    intro m
    by_cases hm : m = s.nextClient
    · rw [hm, admit_client_new, hold.1]
    · rw [admit_client_ne s ip hm]
  have hdead : ∀ m, ((enroll ip s).client m).dead = (s.client m).dead := by
    intro m
    by_cases hm : m = s.nextClient
    · rw [hm, admit_client_new, hold.2]
    · rw [admit_client_ne s ip hm]
  refine ⟨⟨fun m => ?_, ?_⟩, fun m r => ?_, h.pair, fun m hm => ?_, fun m hm => ?_, h.vacant,
    fun e he => ?_, h.sane, fun m hm hX => ?_⟩
  · rw [hdead]
    show m ∈ s.present ++ [s.nextClient] ↔ m < s.nextClient + 1 ∧ _
    rw [List.mem_append, List.mem_singleton, h.present]
    constructor
    · rintro (h' | rfl)
      · exact ⟨by omega, h'.2⟩
      · exact ⟨by omega, hold.2⟩
    · rintro ⟨h₁, h₂⟩
      by_cases hm : m = s.nextClient
      · exact Or.inr hm
      · exact Or.inl ⟨by omega, h₂⟩
  · refine List.nodup_append.mpr ⟨h.nodup, List.nodup_singleton _, fun a ha b hb hab => ?_⟩
    rw [List.mem_singleton] at hb
    have := (h.present a).mp ha
    omega
  · rw [hroom]
    exact h.link m r
  · rw [hroom] at hm
    have hne : m ≠ s.nextClient := by
      rintro rfl
      exact hm hold.1
    rw [admit_client_ne s ip hne]
    exact h.named m hm
  · have hm₁ : s.nextClient + 1 ≤ m := hm
    rw [hroom, hdead]
    exact h.newcomer m (by omega)
  · exact Nat.lt_succ_of_lt (h.keyed e he)
  · rw [hdead] at hm
    exact (h.agrees m hm hX).congr (hroom m) fun _ _ => rfl

theorem accept_settled (h : Settled s) (ip : Nat) : Settled (accept ip s) := by
  unfold accept
  split_ifs
  · exact h
  · exact h
  · exact admit_settled h ip

/-- What a flush does before it drops anybody. -/
theorem withTx_settled (h : Settled s) (c : Nat) (outcomes : List SendResult) (tx : List Nat) :
    Settled ({ s with outcomes := outcomes }.setClient c { s.client c with tx := tx }) := by
  have hs₁ : Settled { s with outcomes := outcomes } := { h with }
  refine hs₁.ofSame ⟨rfl, fun m => ?_, fun m => ?_⟩ rfl rfl (fun m hm => ?_) rfl rfl rfl rfl
  · rw [client_setClient]
    split
    · next hm => rw [hm]
    · rfl
  · rw [client_setClient]
    split
    · next hm => rw [hm]
    · rfl
  · rw [client_setClient]
    split
    · next hm' => rw [hm'] at hm; exact hm
    · exact hm

theorem flush_settled (h : Settled s) (hc : c < s.nextClient) : Settled (flush drop c s) := by
  unfold flush
  extract_lets f v s₁
  have h₁ : Settled s₁ := withTx_settled h c f.rest f.tx
  split
  · exact h₁
  · exact drop_settled h₁ hc

theorem sweep_settled (late : List Nat) (h : Settled s) (hlate : ∀ c ∈ late, c < s.nextClient) :
    Settled (sweep late s) := by
  induction late generalizing s with
  | nil => exact h
  | cons c late ih =>
      have hc := hlate c (by simp)
      have hnext := (steady_nextClient s.nextClient).drop c s rfl
      have htail : ∀ m ∈ late, m < s.nextClient := fun m hm => hlate m (List.mem_cons_of_mem _ hm)
      unfold sweep at ih ⊢
      rw [List.foldl_cons]
      split
      · exact ih (drop_settled h hc) (by rw [hnext]; exact htail)
      · exact ih h htail

/-- One event. -/
theorem step_settled (h : Settled s) (e : Event) : Settled (s.step e) := by
  have hserving : ∀ {c}, serving c s = true → c < s.nextClient ∧ (s.client c).dead = false := by
    intro c hc
    simpa [serving] using hc
  cases e with
  | accept ip => exact accept_settled h ip
  | recv c data =>
      simp only [Server.step]
      split
      · next hc =>
          obtain ⟨hlt, hlive⟩ := hserving hc
          exact (feed_settled _ (h.setRx c _) hlt (by simpa using hlive) (Nat.le_refl _)).1
      · exact h
  | eof c =>
      simp only [Server.step]
      split
      · next hc => exact drop_settled h (hserving hc).1
      · exact h
  | writable c =>
      simp only [Server.step]
      split
      · next hc => exact flush_settled h (hserving hc).1
      · exact h
  | sweep late =>
      refine sweep_settled _ h fun c hc => ?_
      have hpresent := (List.mem_filter.mp hc).2
      exact ((h.present c).mp (by simpa using hpresent)).1

theorem run_settled (h : Settled s) (events : List Event) : Settled (s.run events) := by
  induction events generalizing s with
  | nil => exact h
  | cons e events ih => exact ih (step_settled h e)

theorem init_settled (delay autoGo : Int) (outcomes : List SendResult) (seeds : List Seed) :
    Settled (Server.init delay autoGo outcomes seeds) where
  present m := by simp [Server.init]
  nodup := List.nodup_nil
  link m r := by simp [Server.init]
  pair r := Or.inl rfl
  named m hm := absurd rfl hm
  newcomer m _ := ⟨rfl, rfl⟩
  vacant r _ := rfl
  keyed e he := absurd he (by simp [Server.init])
  sane := rfl
  agrees m _ _ := rfl

/-- Clients and rooms refer to each other, rooms in use have a legal size, no
unexpected exception was raised, and each live client was last told the truth. -/
structure RoomInvariant (s : Server) : Prop where
  link : ∀ m r, m ∈ (s.room r).members ↔ (s.client m).room = some r
  once : ∀ r, (s.room r).members.Nodup
  size : ∀ m r, (s.client m).room = some r →
    2 ≤ (s.room r).members.length ∧ (s.room r).members.length ≤ maxSeats
  sane : s.crashed = false
  agrees : ∀ m ∈ s.present, Agrees m s

/-- The room invariant holds between events, whatever clients send and whatever
the sockets do. -/
theorem room_invariant (delay autoGo : Int) (outcomes : List SendResult) (seeds : List Seed)
    (events : List Event) :
    RoomInvariant ((Server.init delay autoGo outcomes seeds).run events) := by
  have h := run_settled (init_settled delay autoGo outcomes seeds) events
  refine ⟨h.link, fun r => ?_, fun m r hm => ?_, h.sane, fun m hm => ?_⟩
  · rcases h.pair r with hnil | ⟨a, b, hab, hpair⟩
    · simp [hnil]
    · simp [hpair, hab]
  · obtain ⟨o, hmates, -⟩ := h.mates hm
    rcases hmates.members with hpair | hpair <;> simp [hpair]
  · exact h.agrees m ((h.present m).mp hm).2 fun hf => hf

end SharkNetplay.Relay.Py
