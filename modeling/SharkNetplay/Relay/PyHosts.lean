import SharkNetplay.Relay.Names
import SharkNetplay.Relay.PyNames

/-!
# Whom a ROOM frame shows

Every ROOM frame that counts two members was built by the `room_broadcast` of a JOIN for
a member of the room it shows. Where each client says HELLO once, the names in it are
those of two different clients, the host's first.

## Implementation notes

A run is observed through the frames its batches handle, each with the state it is
handled in. The rooms shown are read off these: `on_join` up to its `room_broadcast`.
-/

namespace SharkNetplay.Relay.Py

open Lib Server

/-! ## Rooms shown -/

/-- A ROOM frame that counts two members or more. -/
def showsRoom (f : List Nat) : Bool := f.getD 1 0 == tRoom && decide (2 ≤ f.getD 2 0)

/-- A frame that `room_broadcast` builds, and the members of the room at that moment. -/
structure Shown where
  frame : List Nat
  members : List Nat

/-- What `room_broadcast` builds for a room. -/
def shownBy (r : Nat) (s : Server) : Shown :=
  ⟨frame tRoom ((s.room r).members.length :: roster r s), (s.room r).members⟩

/-- What `on_join` has `room_broadcast` build. -/
def joinShown (c : Nat) (payload : List Nat) (s : Server) : Option Shown :=
  match joinRoom c payload s with
  | .error _ => none
  | .ok (s, r) => some (shownBy r s)

/-- A frame that is handled, and the state it is handled in. -/
structure Call where
  client : Nat
  ftype : Nat
  payload : List Nat
  state : Server

/-- The room a call shows. -/
def Call.shown (k : Call) : Option Shown :=
  if k.ftype = tJoin then joinShown k.client k.payload k.state else none

/-- The calls of a batch. -/
def batchCalls (fuel c : Nat) (s : Server) : List Call :=
  (handledIn fuel c s).map fun f => ⟨c, f.1, f.2.1, f.2.2⟩

/-- The calls of one event. -/
def eventCalls (s : Server) : Event → List Call
  | .recv c data =>
    if serving c s then
      batchCalls ((s.client c).rx ++ data).length c (s.setRx c ((s.client c).rx ++ data))
    else []
  | _ => []

/-- The calls of a run. -/
def calls : Server → List Event → List Call
  | _, [] => []
  | s, e :: es => eventCalls s e ++ calls (s.step e) es

/-- The rooms some calls show. -/
def shownIn (ks : List Call) : List Shown := ks.filterMap Call.shown

/-- A HELLO of the client `c`. -/
def Call.greets (c : Nat) (k : Call) : Bool := k.ftype == tHello && k.client == c

/-- Every client says HELLO once at most, under the name `name` gives it. -/
structure OneHello (name : Nat → Name) (ks : List Call) : Prop where
  hello : ∀ k ∈ ks, k.ftype = tHello → k.payload = 2 :: name k.client ∧ ValidName (name k.client)
  once : ∀ c, (ks.filter (Call.greets c)).length ≤ 1

/-! ## What each operation queues -/

variable {name : Nat → Name} {past : List Call} {s : Server} {c : Nat}

/-- The room has two members of different names, and the frame names both in order. -/
structure TwoNamed (name : Nat → Name) (b : Shown) (host guest : Nat) : Prop where
  members : b.members = [host, guest]
  ne : name host ≠ name guest
  hostValid : ValidName (name host)
  guestValid : ValidName (name guest)
  frame : b.frame = frame tRoom
    (2 :: (padName (name host) ++ padName (name guest) ++ List.replicate 16 0))

/-- After the calls of `past`, clients go by the name they said HELLO under, and the ROOM
frames queued that count two members are for members of the rooms they show. -/
structure Traced (name : Nat → Name) (past : List Call) (s : Server) : Prop where
  named : ∀ m n, (s.client m).name = some n →
    n = name m ∧ ValidName n ∧ ∃ k ∈ past, k.ftype = tHello ∧ k.client = m
  queued : ∀ e ∈ s.queued, showsRoom e.2 = true → ∃ b ∈ shownIn past, b.frame = e.2 ∧ e.1 ∈ b.members
  rooms : ∀ b ∈ shownIn past, ∃ host guest, TwoNamed name b host guest

theorem showsRoom_notice (c r : Nat) (s : Server) : showsRoom (notice c r s) = false := by
  unfold notice
  split
  · rfl
  · rfl

namespace Traced

theorem staged {data : List Nat} (h : Traced name past s)
    (hdata : showsRoom data = true → ∃ b ∈ shownIn past, b.frame = data ∧ c ∈ b.members) :
    Traced name past (staged c data s) where
  named m n hn := h.named m n (by simpa using hn)
  queued e he := by
    rcases List.mem_append.mp he with he | he
    · exact h.queued e he
    · rw [List.mem_singleton.mp he]
      exact hdata
  rooms := h.rooms

theorem bury (h : Traced name past s) : Traced name past (bury c s) where
  named m n hn := h.named m n (by simpa using hn)
  queued := h.queued
  rooms := h.rooms

theorem parted {o r : Nat} (h : Traced name past s) : Traced name past (parted c o r s) where
  named m n hn := h.named m n (by simpa [Py.parted] using hn)
  queued := h.queued
  rooms := h.rooms

theorem withByName (h : Traced name past s) (d : List (Name × Nat)) :
    Traced name past { s with byName := d } := ⟨h.named, h.queued, h.rooms⟩

theorem setRx (h : Traced name past s) (rx : List Nat) : Traced name past (s.setRx c rx) where
  named m n hn := h.named m n (by simpa using hn)
  queued := h.queued
  rooms := h.rooms

theorem send_solo {data : List Nat} (h : Traced name past s) (hcount : Counted s)
    (hc : c < s.nextClient) (hroom : (s.client c).room = none) (hdata : showsRoom data = false) :
    Traced name past (send Py.drop c data s) := by
  have hquiet : showsRoom data = true → ∃ b ∈ shownIn past, b.frame = data ∧ c ∈ b.members := fun hyes =>
    absurd (hdata.symm.trans hyes) (by simp)
  rw [send_eq]
  split_ifs with hdead hover hok
  · exact h
  · rw [drop_solo hcount hc (by simpa using hdead) hroom]
    exact h.bury
  · exact h.staged hquiet
  · have hcount' : Counted (Py.staged c data s) :=
      ⟨fun m => by rw [staged_client_dead]; exact hcount.present m, hcount.nodup⟩
    rw [drop_solo hcount' hc (by simpa using hdead) (by simpa using hroom)]
    exact (h.staged hquiet).bury

/-- A drop queues a notice at most. -/
theorem drop (h : Traced name past s) (hreg : Registry s) (hc : c < s.nextClient) :
    Traced name past (Py.drop c s) := by
  cases hlive : (s.client c).dead with
  | true =>
      rw [drop_dead hlive]
      exact h
  | false =>
      cases hroom : (s.client c).room with
      | none =>
          rw [drop_solo hreg.toCounted hc hlive hroom]
          exact h.bury
      | some r =>
          obtain ⟨o, hmates, ho⟩ := hreg.toInv.mates hroom
          rw [drop_pair hreg.toCounted hc (hreg.lt_of_room ho) hlive hroom hmates
            (hreg.named c (by rw [hroom]; simp))]
          exact h.parted.send_solo (hreg.parted hroom hmates).toCounted (hreg.lt_of_room ho)
            (by simp [parted_client_room]) (showsRoom_notice c r s)

theorem send {data : List Nat} (h : Traced name past s) (hreg : Registry s) (hc : c < s.nextClient)
    (hdata : showsRoom data = true → ∃ b ∈ shownIn past, b.frame = data ∧ c ∈ b.members) :
    Traced name past (Py.send Py.drop c data s) := by
  rw [send_eq]
  split_ifs
  · exact h
  · exact h.drop hreg hc
  · exact h.staged hdata
  · exact (h.staged hdata).drop (hreg.staged c data) hc

/-- A frame of another kind. -/
theorem sendQuiet {data : List Nat} (h : Traced name past s) (hreg : Registry s)
    (hc : c < s.nextClient) (hdata : showsRoom data = false) :
    Traced name past (Py.send Py.drop c data s) :=
  h.send hreg hc fun hyes => absurd (hdata.symm.trans hyes) (by simp)

end Traced

/-- A send leaves a room as it is or empty. -/
theorem Registry.send_members {data : List Nat} (h : Registry s) (hc : c < s.nextClient)
    (r : Nat) :
    ((Py.send Py.drop c data s).room r).members = [] ∨
      ((Py.send Py.drop c data s).room r).members = (s.room r).members := by
  have hdrop : ∀ {t : Server}, Registry t → c < t.nextClient → (t.client c).dead = false →
      ((Py.drop c t).room r).members = [] ∨
        ((Py.drop c t).room r).members = (t.room r).members := by
    intro t ht hlt hlive
    rw [(ht.toInv.drop hlt hlive).2 r]
    split
    · exact Or.inl rfl
    · exact Or.inr rfl
  rw [send_eq]
  split_ifs with hdead
  · exact Or.inr rfl
  · exact hdrop h hc (by simpa using hdead)
  · exact Or.inr rfl
  · exact hdrop (h.staged c data) hc (by simpa using hdead)

/-- A round over the members sends to those it began with. -/
theorem Traced.forMembers {r : Nat} {body : Nat → Nat → Server → Server} (h : Traced name past s)
    (hreg : Registry s)
    (hbody : ∀ i m s', Registry s' → Traced name past s' → m < s'.nextClient →
      m ∈ (s.room r).members → Registry (body i m s') ∧ Traced name past (body i m s') ∧
        (((body i m s').room r).members = [] ∨
          ((body i m s').room r).members = (s'.room r).members)) :
    Traced name past (Py.forMembers r body (s.room r).members.length 0 s) := by
  have hinv : Registry (Py.forMembers r body (s.room r).members.length 0 s) ∧
      Traced name past (Py.forMembers r body (s.room r).members.length 0 s) ∧
        (((Py.forMembers r body (s.room r).members.length 0 s).room r).members = [] ∨
          ((Py.forMembers r body (s.room r).members.length 0 s).room r).members =
            (s.room r).members) := by
    refine forMembers_inv (k := (s.room r).members.length)
      (P := fun s' => Registry s' ∧ Traced name past s' ∧
        ((s'.room r).members = [] ∨ (s'.room r).members = (s.room r).members))
      (fun s' hs' => ?_) (fun i m s' hs' hm => ?_) _ 0 (by omega) ⟨hreg, h, Or.inr rfl⟩
    · rcases hs'.2.2 with hnil | hsame
      · rw [hnil]
        exact Nat.zero_le _
      · rw [hsame]
    · have hmem : m ∈ (s.room r).members := by
        rcases hs'.2.2 with hnil | hsame
        · rw [hnil] at hm
          exact absurd hm List.not_mem_nil
        · rwa [hsame] at hm
      have hlt : m < s'.nextClient := hs'.1.lt_of_room ((hs'.1.link m r).mp hm)
      obtain ⟨hreg', htraced', hroom'⟩ := hbody i m s' hs'.1 hs'.2.1 hlt hmem
      refine ⟨hreg', htraced', ?_⟩
      rcases hroom' with hnil | hsame
      · exact Or.inl hnil
      · rw [hsame]
        exact hs'.2.2
  exact hinv.2.1

/-- A round of sends. -/
theorem Traced.sends {r : Nat} {f : Nat → Nat → List Nat} (h : Traced name past s)
    (hreg : Registry s)
    (hf : ∀ i, ∀ m ∈ (s.room r).members, showsRoom (f i m) = true →
      ∃ b ∈ shownIn past, b.frame = f i m ∧ m ∈ b.members) :
    Traced name past (Py.forMembers r (fun i m => Py.send Py.drop m (f i m)) (s.room r).members.length
      0 s) :=
  h.forMembers hreg fun i m _ hreg' htraced' hlt hm =>
    ⟨hreg'.send hlt _, htraced'.send hreg' hlt (hf i m hm), hreg'.send_members hlt r⟩

/-- `room_broadcast` of a room that was shown. -/
theorem Traced.roomBroadcast {r : Nat} (h : Traced name past s) (hreg : Registry s)
    (hshown : shownBy r s ∈ shownIn past) : Traced name past (Py.roomBroadcast Py.drop r s) := by
  simp only [Py.roomBroadcast, expect_pos (allNamed_members hreg.toInv r)]
  exact h.sends (f := fun _ _ => frame tRoom ((s.room r).members.length :: roster r s)) hreg
    fun _ _ hm _ => ⟨_, hshown, rfl, hm⟩

/-! ## What each handler queues -/

namespace Traced

theorem setName (h : Traced name past s) (hname : ValidName (name c))
    (hsaid : ∃ k ∈ past, k.ftype = tHello ∧ k.client = c) :
    Traced name past (s.setName c (name c)) where
  named m n hn := by
    rw [setName_client_name] at hn
    split at hn
    · next hm =>
        rw [← Option.some.inj hn, hm]
        exact ⟨rfl, hname, hsaid⟩
    · exact h.named m n hn
  queued := h.queued
  rooms := h.rooms

theorem onList (h : Traced name past s) (hreg : Registry s) (hc : c < s.nextClient) :
    Traced name past (onList c s) := h.sendQuiet hreg hc rfl

/-- `start_room`. -/
theorem startRoom {r : Nat} (h : Traced name past s) (hreg : Registry s) :
    Traced name past (startRoom r s).1 := by
  unfold Py.startRoom
  extract_lets seed s₁ s₂ s₃ common
  have hreg₂ : Registry s₂ := Registry.start (s := s₁) ⟨hreg.toInv.withSeeds _, hreg.entries,
    hreg.keys, hreg.complete, hreg.roomless⟩
  have h₂ : Traced name past s₂ := ⟨h.named, h.queued, h.rooms⟩
  split
  · exact h₂
  · have hnamed : s₃ = s₂ := expect_pos (allNamed_members hreg₂.toInv r) s₂
    rw [hnamed]
    exact h₂.sends (f := fun i _ => frame tStart (i :: common)) hreg₂
      fun _ _ _ hyes => absurd hyes Bool.false_ne_true

/-- `on_go`. -/
theorem onGo (h : Traced name past s) (hreg : Registry s) : Traced name past (onGo c s).1 := by
  unfold Py.onGo
  split
  · exact h
  next r hroom =>
  have hcontains : ((s.room r).members.contains c) = true := by
    simpa using (hreg.link c r).mpr hroom
  split
  · exact h
  simp only [expect_pos hcontains]
  split_ifs
  · exact h
  · exact h.startRoom hreg
  · exact h

/-- The relay branch. -/
theorem relay {ftype : Nat} (h : Traced name past s) (hreg : Registry s) (htype : ftype ∈ relayTypes)
    (payload : List Nat) : Traced name past (relay c ftype payload s) := by
  have hquiet : showsRoom (frame ftype payload) = false := by
    have hne : (ftype == tRoom) = false := beq_eq_false_iff_ne.mpr fun h' => by
      rw [h'] at htype
      exact absurd htype (by decide)
    show (ftype == tRoom && _) = false
    rw [hne, Bool.false_and]
  unfold Py.relay
  split
  · exact h
  next r _ =>
  split
  · refine h.forMembers hreg fun _ m s' hreg' htraced' hlt _ => ?_
    split
    · exact ⟨hreg', htraced', Or.inr rfl⟩
    · exact ⟨hreg'.send hlt _, htraced'.sendQuiet hreg' hlt hquiet, hreg'.send_members hlt r⟩
  · exact h

end Traced

theorem steady_roomless (c : Nat) : Steady fun s => (s.client c).room = none where
  bury _ _ h := by
    rw [bury_client_room]
    exact h
  staged _ _ _ _ h := by
    rw [staged_client_room]
    exact h
  link d s h := by
    rw [link_client_room]
    split
    · rfl
    · exact h
  seat _ _ _ h := h
  expect p s h := by
    unfold Server.expect
    split <;> exact h

/-- `on_hello` of a client that is in no room. -/
theorem Traced.register (h : Traced name past s) (hreg : Registry s) (hc : c < s.nextClient)
    (hroom : (s.client c).room = none) (hname : ValidName (name c))
    (hsaid : ∃ k ∈ past, k.ftype = tHello ∧ k.client = c) :
    Traced name past (register c (name c) s) := by
  unfold Py.register
  extract_lets s₁ s₂ s₃
  have h₁ : Traced name past s₁ ∧ Counted s₁ ∧ s₁.nextClient = s.nextClient ∧
      (s₁.client c).room = none := by
    simp only [s₁]
    split
    · next old hold =>
        split
        · have hlt := lookup_lt hreg.toInv hold
          exact ⟨h.drop hreg hlt, (hreg.drop hlt).toCounted,
            (steady_nextClient s.nextClient).drop old s rfl, (steady_roomless c).drop old s hroom⟩
        · exact ⟨h, hreg.toCounted, rfl, hroom⟩
    · exact ⟨h, hreg.toCounted, rfl, hroom⟩
  have hs₂ : Traced name past s₂ ∧ s₂.client = s₁.client ∧ s₂.present = s₁.present ∧
      s₂.nextClient = s₁.nextClient := by
    simp only [s₂]
    split
    · split
      · exact ⟨h₁.1.withByName _, rfl, rfl, rfl⟩
      · exact ⟨h₁.1, rfl, rfl, rfl⟩
    · exact ⟨h₁.1, rfl, rfl, rfl⟩
  clear_value s₁ s₂
  obtain ⟨hshow, hcount, hnext, hnone⟩ := h₁
  obtain ⟨hshow₂, hclient₂, hpresent₂, hnext₂⟩ := hs₂
  refine ((hshow₂.setName hname hsaid).withByName _).send_solo ?_ ?_ ?_ rfl
  · refine ⟨fun m => ?_, ?_⟩
    · show m ∈ s₂.present ↔ m < s₂.nextClient ∧ (s₃.client m).dead = false
      rw [setName_client_dead, hclient₂, hpresent₂, hnext₂]
      exact hcount.present m
    · show s₂.present.Nodup
      rw [hpresent₂]
      exact hcount.nodup
  · show c < s₂.nextClient
    rw [hnext₂, hnext]
    exact hc
  · show (s₃.client c).room = none
    rw [setName_client_room, hclient₂]
    exact hnone

/-! ## JOIN -/

/-- The state in which an accepted JOIN shows its room. -/
theorem joinShown_joined {target : Nat} {payload : List Nat} (hset : Settled s)
    (hname : ¬ (s.client c).name.isNone = true) (hroom : ¬ (s.client c).room.isSome = true)
    (htarget : joinTarget payload s = some target) (hjoin : unjoinable c target s = false) :
    joinShown c payload s = some (shownBy s.nextRoom (joined c target s)) := by
  obtain ⟨hr, hjoined⟩ := roomFor_joined hset hjoin
  unfold joinTarget at htarget
  unfold joinShown joinRoom
  rw [if_neg hname, if_neg hroom, htarget]
  dsimp only
  rw [if_neg (by simp [hjoin])]
  dsimp only
  rw [hjoined, hr]

theorem joined_name (target m : Nat) : ((joined c target s).client m).name = (s.client m).name := by
  simp [joined]

/-- The room an accepted JOIN shows has the target and the sender, in this order. -/
theorem shownBy_joined (target : Nat) (s : Server) :
    shownBy s.nextRoom (joined c target s) =
      ⟨frame tRoom (2 :: (padName (nameOf target s) ++ padName (nameOf c s) ++
        List.replicate 16 0)), [target, c]⟩ := by
  have hmembers : ((joined c target s).room s.nextRoom).members = [target, c] := by
    simp [joined, seat]
  have hname : ∀ m, nameOf m (joined c target s) = nameOf m s := fun m => by
    rw [nameOf, nameOf, joined_name]
  unfold shownBy roster
  rw [hmembers]
  simp [hname]

namespace Traced

/-- The two have different names, since `by_name` has one entry for a name. -/
theorem joined_two {target : Nat} {payload : List Nat} (h : Traced name past s)
    (hreg : Registry s) (hc : c < s.nextClient) (hlive : (s.client c).dead = false)
    (hname : ¬ (s.client c).name.isNone = true) (htarget : joinTarget payload s = some target)
    (hjoin : unjoinable c target s = false) :
    TwoNamed name (shownBy s.nextRoom (joined c target s)) target c := by
  have htentry := hreg.entries _ (Dict.mem_of_get htarget)
  obtain ⟨n, hn⟩ : ∃ n, (s.client c).name = some n := by
    cases hn : (s.client c).name with
    | none => exact absurd (by rw [hn]; rfl) hname
    | some n => exact ⟨n, rfl⟩
  obtain ⟨hnameC, hvalidC, -⟩ := h.named c n hn
  obtain ⟨hnameT, hvalidT, -⟩ := h.named target _ htentry.2
  have hofC : nameOf c s = name c := by
    rw [nameOf, hn, ← hnameC]
    rfl
  have hofT : nameOf target s = name target := by
    rw [nameOf, htentry.2, ← hnameT]
    rfl
  rw [shownBy_joined, hofC, hofT]
  refine ⟨rfl, fun hsame => ?_, hnameT ▸ hvalidT, hnameC ▸ hvalidC, rfl⟩
  have hgetC := (Dict.get_iff_mem hreg.keys).mpr (hreg.complete c n hc hlive hn)
  have hgetT : Dict.get n s.byName = some target := by
    rw [hnameC, ← hsame, ← hnameT]
    exact htarget
  rw [hgetC, Option.some.injEq] at hgetT
  exact ne_of_joinable hjoin hgetT.symm

/-- `on_join`, if the room it shows is known. -/
theorem onJoin {payload : List Nat} (h : Traced name past s) (hreg : Registry s)
    (hset : Settled s) (hc : c < s.nextClient) (hlive : (s.client c).dead = false)
    (hshown : ∀ b, joinShown c payload s = some b → b ∈ shownIn past) :
    Traced name past (onJoin c payload s).1 := by
  rw [Py.onJoin_eq]
  split
  · exact h
  next hcname =>
  split
  · exact h
  next hcroom =>
  split
  · exact h.onList hreg hc
  next target htarget =>
  split
  · exact h.onList hreg hc
  next hjoin =>
  have hjoin' : unjoinable c target s = false := by simpa using hjoin
  have hregJoined := hreg.joined hset hc hlive (by simpa [Option.isNone_iff_eq_none,
    Option.isSome_iff_ne_none] using hcname) (by simpa using hcroom) htarget hjoin'
  have hjoined : Traced name past (joined c target s) :=
    ⟨fun m n hn => h.named m n (by rwa [joined_name] at hn), h.queued, h.rooms⟩
  extract_lets p r s₁ s₂
  have hr : r = s.nextRoom := (roomFor_joined hset hjoin').1
  have hs₁ : s₁ = joined c target s := (roomFor_joined hset hjoin').2
  have hin : shownBy r (joined c target s) ∈ shownIn past := by
    rw [hr]
    exact hshown _ (joinShown_joined hset hcname hcroom htarget hjoin')
  have h₂ : Registry s₂ ∧ Traced name past s₂ := by
    simp only [s₂]
    rw [hs₁]
    exact ⟨hregJoined.roomBroadcast, hjoined.roomBroadcast hregJoined hin⟩
  split
  · exact h₂.2.startRoom h₂.1
  · exact h₂.2

/-- A room that is shown has two named members. -/
theorem joinShown_two {payload : List Nat} {b : Shown} (h : Traced name past s)
    (hreg : Registry s) (hset : Settled s) (hc : c < s.nextClient)
    (hlive : (s.client c).dead = false) (hb : joinShown c payload s = some b) :
    ∃ host guest, TwoNamed name b host guest := by
  unfold joinShown at hb
  split at hb
  · exact nomatch hb
  next s' r hroom =>
  rw [Option.some.injEq] at hb
  subst hb
  unfold joinRoom at hroom
  split_ifs at hroom with hname hcroom
  split at hroom
  · exact nomatch hroom
  next target htarget =>
  split_ifs at hroom with hjoin
  have hjoin' : unjoinable c target s = false := by simpa using hjoin
  obtain ⟨hr, hjoined⟩ := roomFor_joined hset hjoin'
  cases hroom
  rw [hjoined, hr]
  exact ⟨target, c, h.joined_two hreg hc hlive hname htarget hjoin'⟩

/-- One more call, and the room it shows. -/
theorem call {ftype : Nat} {payload : List Nat} (h : Traced name past s) (hreg : Registry s)
    (hset : Settled s) (hc : c < s.nextClient) (hlive : (s.client c).dead = false) :
    Traced name (past ++ [⟨c, ftype, payload, s⟩]) s := by
  have hshown : ∀ b, b ∈ shownIn (past ++ [⟨c, ftype, payload, s⟩]) ↔
      b ∈ shownIn past ∨ Call.shown ⟨c, ftype, payload, s⟩ = some b := by
    intro b
    unfold shownIn
    rw [List.filterMap_append, List.mem_append]
    simp
  refine ⟨fun m n hn => ?_, fun e he hroom => ?_, fun b hb => ?_⟩
  · obtain ⟨hname, hvalid, k, hk, hsaid⟩ := h.named m n hn
    exact ⟨hname, hvalid, k, List.mem_append_left _ hk, hsaid⟩
  · obtain ⟨b, hb, hframe⟩ := h.queued e he hroom
    exact ⟨b, (hshown b).mpr (Or.inl hb), hframe⟩
  · rcases (hshown b).mp hb with hb | hb
    · exact h.rooms b hb
    · unfold Call.shown at hb
      dsimp only at hb
      split at hb
      · exact h.joinShown_two hreg hset hc hlive hb
      · exact nomatch hb

/-- `handle`, of a call that is known. A client says HELLO before it is in a room. -/
theorem handle {ftype : Nat} {payload : List Nat} (h : Traced name past s) (hreg : Registry s)
    (hset : Settled s) (hc : c < s.nextClient) (hlive : (s.client c).dead = false)
    (hk : ⟨c, ftype, payload, s⟩ ∈ past)
    (hhello : ftype = tHello → payload = 2 :: name c ∧ ValidName (name c) ∧
      (s.client c).room = none) : Traced name past (handle c ftype payload s).1 := by
  unfold Py.handle
  split
  next hrel => exact h.relay hreg hrel payload
  split
  next hftype =>
    obtain ⟨hpayload, hvalid, hroom⟩ := hhello hftype
    rw [hpayload, helloName_valid hvalid]
    exact h.register hreg hc hroom hvalid ⟨_, hk, hftype, rfl⟩
  split
  · exact h.onList hreg hc
  split
  next hftype =>
    refine h.onJoin hreg hset hc hlive fun b hb => ?_
    exact List.mem_filterMap.mpr ⟨_, hk, by rw [Call.shown, if_pos hftype]; exact hb⟩
  split
  · exact h.onGo hreg
  split
  · exact h.drop hreg hc
  split
  · exact h.sendQuiet hreg hc rfl
  · exact h

end Traced

/-! ## Runs -/

theorem OneHello.left {ks ks' : List Call} (h : OneHello name (ks ++ ks')) : OneHello name ks where
  hello k hk := h.hello k (List.mem_append_left _ hk)
  once c := by
    have honce := h.once c
    rw [List.filter_append, List.length_append] at honce
    omega

/-- The first HELLO of a client finds it in no room. -/
theorem Traced.first {k : Call} (h : Traced name past s) (hreg : Registry s)
    (hone : OneHello name (past ++ [k])) (hhello : k.ftype = tHello) :
    (s.client k.client).room = none := by
  cases hroom : (s.client k.client).room with
  | none => rfl
  | some r =>
      have hnamed := hreg.named k.client (by rw [hroom]; exact Option.some_ne_none r)
      obtain ⟨n, hn⟩ := Option.isSome_iff_exists.mp hnamed
      obtain ⟨-, -, k', hk', hsaid, hclient⟩ := h.named k.client n hn
      have honce := hone.once k.client
      have hearlier : k' ∈ past.filter (Call.greets k.client) :=
        List.mem_filter.mpr ⟨hk', by simp [Call.greets, hsaid, hclient]⟩
      have hpos := List.length_pos_of_mem hearlier
      have hnow : [k].filter (Call.greets k.client) = [k] := by
        simp [Call.greets, hhello]
      rw [List.filter_append, List.length_append, hnow, List.length_singleton] at honce
      omega

/-- Without a room there is no room-mate. -/
theorem mateTaken_solo {n : Name} (hroom : (s.client c).room = none) :
    mateTaken c n s = false := by
  unfold mateTaken
  cases replaced c n s with
  | none => rfl
  | some old =>
      dsimp only
      cases (s.client old).room with
      | none => rfl
      | some r =>
          rw [hroom]
          rfl

/-- One call keeps the registry and what is shown. -/
theorem Traced.one {ftype : Nat} {payload : List Nat} (h : Traced name past s) (hreg : Registry s)
    (hset : Settled s) (hc : c < s.nextClient) (hlive : (s.client c).dead = false)
    (hone : OneHello name (past ++ [⟨c, ftype, payload, s⟩])) :
    Registry (Py.handle c ftype payload s).1 ∧
      Traced name (past ++ [⟨c, ftype, payload, s⟩]) (Py.handle c ftype payload s).1 := by
  have hmem : (⟨c, ftype, payload, s⟩ : Call) ∈ past ++ [⟨c, ftype, payload, s⟩] :=
    List.mem_append_right _ List.mem_cons_self
  have hfirst : ftype = tHello → payload = 2 :: name c ∧ ValidName (name c) ∧
      (s.client c).room = none := by
    intro hftype
    obtain ⟨hpayload, hvalid⟩ := hone.hello _ hmem hftype
    exact ⟨hpayload, hvalid, h.first hreg hone hftype⟩
  constructor
  · apply (handle_registry hreg hset hc hlive ftype payload).1
    unfold clash
    by_cases hftype : ftype = tHello
    · obtain ⟨hpayload, hvalid, hroom⟩ := hfirst hftype
      rw [hpayload, helloName_valid hvalid]
      dsimp only
      rw [mateTaken_solo hroom, Bool.and_false]
    · rw [beq_eq_false_iff_ne.mpr hftype, Bool.false_and]
  · exact (h.call hreg hset hc hlive).handle hreg hset hc hlive hmem hfirst

/-- A batch. -/
theorem Traced.feed (fuel : Nat) (h : Traced name past s) (hreg : Registry s) (hset : Settled s)
    (hc : c < s.nextClient) (hlive : (s.client c).dead = false)
    (hfuel : (s.client c).rx.length ≤ fuel)
    (hone : OneHello name (past ++ batchCalls fuel c s)) :
    Registry (Py.feed fuel c s) ∧
      Traced name (past ++ batchCalls fuel c s) (Py.feed fuel c s) := by
  induction fuel generalizing past s with
  | zero =>
      have hrx : (s.client c).rx = [] := List.eq_nil_of_length_eq_zero (by omega)
      unfold Py.feed
      rw [expect_pos (by rw [hrx]; rfl)]
      refine ⟨hreg, ?_⟩
      rw [batchCalls, handledIn, List.map_nil, List.append_nil]
      exact h
  | succ fuel ih =>
      have hnone : handledIn (fuel + 1) c s = [] → ∀ {s'}, Registry s' → Traced name past s' →
          Registry s' ∧ Traced name (past ++ batchCalls (fuel + 1) c s) s' := by
        intro hnil s' hreg' htraced'
        rw [batchCalls, hnil, List.map_nil, List.append_nil]
        exact ⟨hreg', htraced'⟩
      unfold Py.feed
      split
      next hrx => exact hnone (by simp [handledIn, hrx]) hreg h
      next len rest hrx =>
      split
      next hbad =>
        exact hnone (by simp only [handledIn, hrx, if_pos hbad]) (hreg.drop hc) (h.drop hreg hc)
      next hlen =>
      split
      next hshort =>
        exact hnone (by simp only [handledIn, hrx, if_neg hlen, if_pos hshort]) hreg h
      next hwhole =>
      extract_lets s₁ p
      have hlive₁ : (s₁.client c).dead = false := by
        rw [setRx_client_dead]
        exact hlive
      have hset₁ : Settled s₁ := hset.setRx c (rest.drop len)
      have hout : Outcome c s₁ p := handle_outcome hset₁ hc hlive₁ _ _
      have hnext : p.1.nextClient = s.nextClient := hout.nextClient
      -- the call at the head, and those of the rest of the batch
      have hcalls : batchCalls (fuel + 1) c s = ⟨c, rest.headD 0, (rest.take len).tail, s₁⟩ ::
          if p.2 ∨ (p.1.client c).dead then [] else batchCalls fuel c p.1 := by
        have hhandled : handledIn (fuel + 1) c s = (rest.headD 0, (rest.take len).tail, s₁) ::
            if p.2 ∨ (p.1.client c).dead then [] else handledIn fuel c p.1 := by
          simp only [handledIn, hrx, if_neg hlen, if_neg hwhole]
          rfl
        rw [batchCalls, hhandled, List.map_cons, apply_ite (List.map _), List.map_nil]
        rfl
      rw [hcalls, List.append_cons] at hone ⊢
      obtain ⟨hreg', htraced'⟩ := (h.setRx (rest.drop len)).one (hreg.setRx c (rest.drop len)) hset₁ hc
        hlive₁ hone.left
      by_cases hraise : p.2 = true
      · rw [if_pos hraise, if_pos (Or.inl hraise), List.append_nil]
        have hc' : c < p.1.nextClient := by
          rw [hnext]
          exact hc
        exact ⟨hreg'.drop hc', htraced'.drop hreg' hc'⟩
      by_cases hdead : (p.1.client c).dead = true
      · rw [if_neg hraise, if_pos hdead, if_pos (Or.inr hdead), List.append_nil]
        exact ⟨hreg', htraced'⟩
      have hgoes : ¬ (p.2 = true ∨ (p.1.client c).dead = true) := fun h' => h'.elim hraise hdead
      have hrx₁ : (p.1.client c).rx = rest.drop len :=
        (lasting_rx c (rest.drop len)).handle c _ _ s₁ (by simp [s₁])
      rw [if_neg hgoes] at hone
      rw [if_neg hraise, if_neg hdead, if_neg hgoes]
      refine ih htraced' hreg' (hout.quiet (by simpa using hraise)) (by rw [hnext]; exact hc)
        (by simpa using hdead) ?_ hone
      rw [hrx, List.length_cons] at hfuel
      rw [hrx₁, List.length_drop]
      omega

/-- A sweep drops clients. -/
theorem Traced.sweep (late : List Nat) (h : Traced name past s) (hreg : Registry s)
    (hlate : ∀ c ∈ late, c < s.nextClient) : Traced name past (Py.sweep late s) := by
  induction late generalizing s with
  | nil => exact h
  | cons c late ih =>
      have hc := hlate c List.mem_cons_self
      have hnext := (steady_nextClient s.nextClient).drop c s rfl
      have htail : ∀ m ∈ late, m < s.nextClient := fun m hm => hlate m (List.mem_cons_of_mem _ hm)
      unfold Py.sweep at ih ⊢
      rw [List.foldl_cons]
      split
      · exact ih (h.drop hreg hc) (hreg.drop hc) (by rw [hnext]; exact htail)
      · exact ih h hreg htail

theorem Traced.flush (h : Traced name past s) (hreg : Registry s) (hset : Settled s)
    (hc : c < s.nextClient) : Traced name past (Py.flush Py.drop c s) := by
  unfold Py.flush
  extract_lets f v s₁
  have h₁ : Traced name past s₁ := by
    refine ⟨fun m n hn => h.named m n ?_, h.queued, h.rooms⟩
    rwa [(Registry.withTx_client s c m f.rest f.tx).2.1] at hn
  split
  · exact h₁
  · exact h₁.drop (hreg.withTx hset c f.rest f.tx) hc

theorem Traced.enroll (h : Traced name past s) (ip : Nat) : Traced name past (enroll ip s) where
  named m n hn := by
    by_cases hnew : m = s.nextClient
    · rw [hnew, admit_client_new] at hn
      exact nomatch hn
    · rw [admit_client_ne s ip hnew] at hn
      exact h.named m n hn
  queued := h.queued
  rooms := h.rooms

/-- One event. -/
theorem Traced.step (h : Traced name past s) (hreg : Registry s) (hset : Settled s) (e : Event)
    (hone : OneHello name (past ++ eventCalls s e)) :
    Registry (s.step e) ∧ Traced name (past ++ eventCalls s e) (s.step e) := by
  have hserving : ∀ {c}, serving c s = true → c < s.nextClient ∧ (s.client c).dead = false := by
    intro c hc
    simpa [serving] using hc
  have hquiet : ¬ Clashes s e → eventCalls s e = [] → Traced name past (s.step e) →
      Registry (s.step e) ∧ Traced name (past ++ eventCalls s e) (s.step e) := by
    intro hclash hnil htraced
    rw [hnil, List.append_nil]
    exact ⟨(step_registry hreg hset e).1 hclash, htraced⟩
  cases e with
  | accept ip =>
      refine hquiet (fun h' => h'.elim) rfl ?_
      simp only [Server.step, accept]
      split_ifs
      · exact h
      · exact h
      · exact h.enroll ip
  | recv c data =>
      by_cases hserve : serving c s = true
      · obtain ⟨hc, hlive⟩ := hserving hserve
        have hfeed := (h.setRx ((s.client c).rx ++ data)).feed ((s.client c).rx ++ data).length
          (hreg.setRx c _) (hset.setRx c ((s.client c).rx ++ data)) hc (by simpa using hlive)
          (by simp)
        have hrx : ((s.setRx c ((s.client c).rx ++ data)).client c).rx.length =
            ((s.client c).rx ++ data).length := by simp
        simp only [Server.step, eventCalls, if_pos hserve] at hone ⊢
        unfold service
        simp only [hrx]
        exact hfeed hone
      · refine hquiet (fun h' => hserve h'.1) (if_neg hserve) ?_
        simp only [Server.step, if_neg hserve]
        exact h
  | eof c =>
      refine hquiet (fun h' => h'.elim) rfl ?_
      simp only [Server.step]
      split
      next hserve => exact h.drop hreg (hserving hserve).1
      · exact h
  | writable c =>
      refine hquiet (fun h' => h'.elim) rfl ?_
      simp only [Server.step]
      split
      next hserve => exact h.flush hreg hset (hserving hserve).1
      · exact h
  | sweep late =>
      refine hquiet (fun h' => h'.elim) rfl (h.sweep _ hreg fun c hc => ?_)
      have hpresent := (List.mem_filter.mp hc).2
      exact ((hreg.present c).mp (by simpa using hpresent)).1

/-- A run. -/
theorem Traced.run (events : List Event) (h : Traced name past s) (hreg : Registry s)
    (hset : Settled s) (hone : OneHello name (past ++ calls s events)) :
    Traced name (past ++ calls s events) (s.run events) := by
  induction events generalizing past s with
  | nil =>
      rw [calls, List.append_nil]
      exact h
  | cons e events ih =>
      rw [calls, ← List.append_assoc] at hone ⊢
      obtain ⟨hreg', htraced'⟩ := h.step hreg hset e hone.left
      exact ih htraced' hreg' (step_settled hset e) hone

theorem init_traced (delay autoGo : Int) (outcomes : List SendResult) (seeds : List Seed) :
    Traced name [] (Server.init delay autoGo outcomes seeds) where
  named m n hn := by simp [Server.init] at hn
  queued e he := by simp [Server.init] at he
  rooms b hb := absurd hb List.not_mem_nil

end SharkNetplay.Relay.Py
