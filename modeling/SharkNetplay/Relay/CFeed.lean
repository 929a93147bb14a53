import SharkNetplay.Lib.Deaf
import SharkNetplay.Lib.Reassembly
import SharkNetplay.Relay.CInvariant

/-!
# What the C relay reads

`feed` as a reader of frames: what it passes to `handle` from any division of a stream into
chunks, and from the pieces in which it takes a chunk into its 256-byte buffer. No handler
looks at a receive buffer.
-/

namespace SharkNetplay.Relay.C

open Lib Lib.Reassembly Server

/-- The server but for its receive buffers. -/
def bare (s : Server) : Server :=
  { s with client := fun i => { s.client i with rx := [] } }

theorem bare_onClient {f : Client → Client}
    (hf : ∀ v, { f v with rx := [] } = f { v with rx := [] }) (c : Nat) (s : Server) :
    bare (s.onClient c f) = (bare s).onClient c f := by
  unfold bare onClient
  congr 1
  funext i
  by_cases h : i = c
  · subst h
    simp [hf]
  · simp [h]

theorem bare_setRx (c : Nat) (rx : List Nat) (s : Server) : bare (s.setRx c rx) = bare s := by
  unfold bare setRx onClient
  congr 1
  funext i
  by_cases h : i = c
  · subst h
    simp
  · simp [h]

theorem bare_expect (p : Bool) (s : Server) : bare (s.expect p) = (bare s).expect p := by
  cases p <;> rfl

theorem bare_link (c : Nat) (q : Option Nat) (s : Server) :
    bare (s.link c q) = (bare s).link c q := bare_onClient (fun _ => rfl) c s

/-- A step that does not look at the receive buffers. -/
abbrev Deaf (f : Server → Server) : Prop := Lib.Deaf bare f

/-- A step for each protocol version. -/
theorem deaf_proto {f g : Server → Server} (hf : Deaf f) (hg : Deaf g) : Deaf fun s =>
    match s.proto with
    | .v1 => f s
    | .v2 => g s := by
  intro s
  have hsame : (bare s).proto = s.proto := rfl
  dsimp only
  rw [hsame]
  cases s.proto with
  | v1 => exact hf s
  | v2 => exact hg s

theorem deaf_expect {p : Server → Bool} (hp : ∀ s, p (bare s) = p s) :
    Deaf fun s => s.expect (p s) := Deaf.read bare p hp fun q s => bare_expect q s

section Sending

variable {drop : Nat → Server → Server} (hdrop : ∀ c, Deaf (drop c))
include hdrop

theorem deaf_flush (c : Nat) : Deaf (flush drop c) := by
  have hset : Deaf fun s => { s with outcomes := (flushLoop s.outcomes (s.client c).tx).rest
      }.onClient c fun v => { v with tx := (flushLoop s.outcomes (s.client c).tx).tx } :=
    fun s => bare_onClient (fun _ => rfl) c _
  exact Deaf.ite bare (p := fun s => (flushLoop s.outcomes (s.client c).tx).ok = true)
    (fun _ => Iff.rfl) hset (hset.comp (hdrop c))

theorem deaf_sendRaw (c : Nat) (alloc : Option Nat) (data : List Nat) :
    Deaf (sendRaw drop c alloc data) := by
  have hqueue : Deaf (enqueue c alloc data) := fun s => bare_onClient (fun _ => rfl) c _
  have hcount : Deaf fun s => { s with backlogDrops := s.backlogDrops + 1 } := fun _ => rfl
  exact Deaf.ite bare (p := fun s => (s.client c).dead = true) (fun _ => Iff.rfl) Deaf.id
    (Deaf.ite bare (p := fun s => maxTxBacklog < (s.client c).tx.length + data.length)
      (fun _ => Iff.rfl) (hcount.comp (hdrop c)) (hqueue.comp (deaf_flush hdrop c)))

theorem deaf_sendEach (alloc : Option Nat) (data : Nat → List Nat) (ms : List Nat) :
    ∀ i failed, Deaf (sendEach drop alloc data i failed ms) := by
  induction ms with
  | nil => exact fun _ _ => Deaf.id
  | cons m ms ih =>
      intro i failed s
      have hsend := deaf_sendRaw hdrop m alloc (data i)
        { s with torn := s.torn || (failed && !(s.client m).dead) }
      show bare (sendEach drop alloc data (i + 1) _ ms _) = sendEach drop alloc data (i + 1)
        (failed || (!(s.client m).dead && ((sendRaw drop m alloc (data i)
          (bare { s with torn := s.torn || (failed && !(s.client m).dead) })).client m).dead)) ms
        (sendRaw drop m alloc (data i)
          (bare { s with torn := s.torn || (failed && !(s.client m).dead) }))
      rw [← hsend]
      exact ih _ _ _

theorem deaf_notifyAll (cs : List Nat) (alloc : Option Nat) (data : List Nat) :
    Deaf (notifyAll drop cs alloc data) :=
  Deaf.foldl (fun m => deaf_sendRaw hdrop m alloc data) cs

theorem deaf_roomBroadcast (r : Nat) : Deaf (roomBroadcast drop r) :=
  Deaf.read bare (fun s => ((s.room r).members.length % 256 :: roomRoster r s, allocOf r s,
    (s.room r).members)) (fun _ => rfl)
    fun x => deaf_sendEach hdrop x.2.1 (fun _ => frameBuild tRoom x.1) x.2.2 0 false

theorem deaf_dissolve (r : Nat) (notify : List Nat) : Deaf (dissolve drop r notify) := by
  have hlinks : ∀ ms : List Nat, Deaf fun s => ms.foldl (fun s m => s.link m none) s := fun ms =>
    Deaf.foldl (fun m s => bare_link m none s) ms
  have hvacate : Deaf fun s => s.vacate r := fun _ => rfl
  exact Deaf.read bare (fun s => (allocOf r s, (s.room r).members)) (fun _ => rfl) fun x =>
    ((hlinks x.2).comp (deaf_notifyAll hdrop notify x.1
      (frameBuild tRoom (0 :: List.replicate 32 0)))).comp hvacate

theorem deaf_leave (c r seat : Nat) : Deaf (leave drop c r seat) := by
  have htell : Deaf fun s =>
      let pl := seat % 256 :: padName (s.client c).name
      let survivors := (s.room r).members
      let alloc := allocOf r s
      let s := dissolve drop r [] s
      notifyAll drop survivors alloc (frameBuild tPeerLeft pl) s :=
    Deaf.read bare (fun s => (seat % 256 :: padName (s.client c).name, (s.room r).members, allocOf r s))
      (fun _ => rfl) fun x => (deaf_dissolve hdrop r []).comp
        (deaf_notifyAll hdrop x.2.1 x.2.2 (frameBuild tPeerLeft x.1))
  have hgone : Deaf fun s => dissolve drop r (s.room r).members s :=
    Deaf.read bare (fun s => (s.room r).members) (fun _ => rfl) fun ms => deaf_dissolve hdrop r ms
  exact Deaf.ite bare (p := fun s => (s.room r).started = true) (fun _ => Iff.rfl) htell
    (Deaf.ite bare (p := fun _ => seat = 0) (fun _ => Iff.rfl) hgone
      (Deaf.ite bare (p := fun s => (s.room r).members.length < 2) (fun _ => Iff.rfl) hgone
        (deaf_roomBroadcast hdrop r)))

theorem deaf_unpair (r : Nat) : Deaf (unpair drop r) := by
  have hvacate : Deaf fun s => s.vacate r := fun _ => rfl
  have hpartner : ∀ p, Deaf fun s =>
      sendRaw drop p (allocOf r s) (frameBuild tPeerLeft []) ((s.vacate r).link p none) := by
    intro p
    have hlink : Deaf fun s => (s.vacate r).link p none := fun s =>
      bare_link p none (s.vacate r)
    exact Deaf.read bare (fun s => allocOf r s) (fun _ => rfl) fun alloc =>
      hlink.comp (deaf_sendRaw hdrop p alloc _)
  exact Deaf.found bare (fun s => (s.room r).members.head?) (fun _ => rfl) hvacate hpartner

end Sending

theorem deaf_dropN (n : Nat) : ∀ c, Deaf (dropN n c) := by
  induction n with
  | zero => exact fun c => deaf_expect (p := fun s => (s.client c).dead) fun _ => rfl
  | succ n ih =>
      intro c
      have hbury : Deaf (bury c) := fun s => bare_onClient (fun _ => rfl) c _
      have hfree : Deaf (clientFree c) := fun s => bare_onClient (fun _ => rfl) c _
      have hleft := fun r x => deaf_proto (deaf_unpair ih r) (deaf_leave ih c r x)
      have hseat : ∀ r x, Deaf fun s =>
          (s.link c none).seat r ((s.room r).members.eraseIdx x) := fun r x s =>
        congrArg (seat r _) (bare_link c none s)
      have hexpect : ∀ r, Deaf fun s => s.expect (roomSeat r c s).isSome := fun r =>
        deaf_expect (p := fun s => (roomSeat r c s).isSome) fun _ => rfl
      have hfrom := fun r => (hexpect r).comp (Deaf.read bare (fun s => (roomSeat r c s).getD 0)
        (fun _ => rfl) fun x => ((hseat r x).comp (hleft r x)).comp hfree)
      have hroom := Deaf.found bare (fun s => (s.client c).room) (fun _ => rfl) hfree hfrom
      exact Deaf.ite bare (p := fun s => (s.client c).dead = true) (fun _ => Iff.rfl) Deaf.id
        (hbury.comp hroom)

theorem deaf_drop (c : Nat) : Deaf (drop c) := deaf_dropN _ c

/-! ## Handlers -/

theorem deaf_onList (c : Nat) : Deaf (onList c) :=
  Deaf.read bare (fun s => (others c s).length % 256 ::
    ((others c s).map fun o => padName (s.client o).name ++ [statusByte o s]).flatten) (fun _ => rfl)
    fun payload => deaf_sendRaw deaf_drop c none (frameBuild tLobby payload)

theorem deaf_nameSet (name : Name) (c : Nat) : Deaf (nameSet name c) :=
  Deaf.ite bare (p := fun s => (nameFind name s).isNone = true ∧ maxClients ≤ s.byName.length)
    (fun _ => Iff.rfl) Deaf.id fun _ => rfl

theorem deaf_rename (c : Nat) (name : Name) : Deaf (rename c name) := by
  have hdel : ∀ prev, Deaf (nameDel prev) := fun _ _ => rfl
  have hset : Deaf fun s => s.setName c name := fun s => bare_onClient (fun _ => rfl) c s
  have hprev : Deaf fun s =>
      if (s.client c).name ≠ [] ∧ (s.client c).name ≠ name ∧ nameFind (s.client c).name s = some c
      then nameDel (s.client c).name s else s :=
    Deaf.ite bare (p := fun s => (s.client c).name ≠ [] ∧ (s.client c).name ≠ name ∧
      nameFind (s.client c).name s = some c) (fun _ => Iff.rfl)
      (Deaf.read bare (fun s => (s.client c).name) (fun _ => rfl) hdel) Deaf.id
  exact ((hprev.comp hset).comp (deaf_nameSet name c)).comp (deaf_onList c)

theorem deaf_register (c : Nat) (name : Name) : Deaf (register c name) := by
  have htaken : ∀ old, Deaf fun s =>
      if old = c then rename c name s
      else
        let s := drop old s
        if (s.client c).dead then s else rename c name s := fun old =>
    Deaf.ite bare (p := fun _ => old = c) (fun _ => Iff.rfl) (deaf_rename c name)
      ((deaf_drop old).comp (Deaf.ite bare (p := fun s => (s.client c).dead = true)
        (fun _ => Iff.rfl) Deaf.id (deaf_rename c name)))
  exact Deaf.found bare (fun s => nameFind name s) (fun _ => rfl) (deaf_rename c name) htaken

theorem deaf_onHello (c : Nat) (payload : List Nat) : Deaf (onHello c payload) := by
  intro s
  have hsame : (bare s).proto = s.proto := rfl
  unfold onHello
  rw [hsame]
  cases helloName s.proto payload with
  | none => exact deaf_drop c s
  | some name => exact deaf_register c name s

theorem deaf_startRoom (r : Nat) : Deaf (startRoom r) := by
  have hstart : ∀ seed, Deaf fun s => { s with seeds := s.seeds.tail }.start r seed :=
    fun _ _ => rfl
  have hsends : ∀ nm seed, Deaf fun s =>
      sendEach drop (allocOf r s) (fun i => frameBuild tStart (i % 256 ::
        ([nm % 256, seed % 256, seed / 256, (s.delay % 256).toNat] ++ roomRoster r s))) 0 false
        (s.room r).members s := fun nm seed =>
    Deaf.read bare (fun s => (allocOf r s, [nm % 256, seed % 256, seed / 256, (s.delay % 256).toNat] ++
      roomRoster r s, (s.room r).members)) (fun _ => rfl)
      fun x => deaf_sendEach deaf_drop x.1 (fun i => frameBuild tStart (i % 256 :: x.2.1)) x.2.2 0
        false
  exact Deaf.read bare (fun s => ((s.room r).members.length, (s.seeds.headD default).val))
    (fun _ => rfl) fun x => (hstart x.2).comp (hsends x.1 x.2)

theorem bare_roomAlloc (host : Nat) (s : Server) :
    roomAlloc host (bare s) = (roomAlloc host s).map fun p => (p.1, bare p.2) := by
  unfold roomAlloc
  rw [Option.map_map]
  rfl

/-- A step that continues in an allocated room. -/
theorem deaf_roomAlloc (host : Nat) {f : Server → Server} {g : Nat → Server → Server}
    (hf : Deaf f) (hg : ∀ r, Deaf (g r)) : Deaf fun s =>
      match roomAlloc host s with
      | none => f s
      | some (r, t) => g r t := by
  intro s
  dsimp only
  rw [bare_roomAlloc]
  cases roomAlloc host s with
  | none => exact hf s
  | some p => exact hg p.1 p.2

theorem deaf_startPair (host guest : Nat) : Deaf (startPair host guest) := by
  have htail : Deaf fun s => { s with seeds := s.seeds.tail } := fun _ => rfl
  have hrest : ∀ seed r, Deaf fun s =>
      let s := (s.seat r [host, guest]).start r seed
      let s := (s.link host (some r)).link guest (some r)
      let common := [seed % 256, seed / 256, (s.delay % 256).toNat]
      let data := fun i => frameBuild tStart
        (i :: common ++ padName (s.client (if i = 0 then guest else host)).name)
      sendEach drop (allocOf r s) data 0 false [host, guest] s := by
    intro seed r
    have hlink : Deaf fun s =>
        (((s.seat r [host, guest]).start r seed).link host (some r)).link guest (some r) := by
      intro s
      rw [bare_link, bare_link]
      rfl
    have hsend : Deaf fun s =>
        sendEach drop (allocOf r s) (fun i => frameBuild tStart
          (i :: [seed % 256, seed / 256, (s.delay % 256).toNat] ++
            padName (s.client (if i = 0 then guest else host)).name)) 0 false [host, guest] s :=
      Deaf.read bare (fun s => (allocOf r s, fun i => frameBuild tStart
        (i :: [seed % 256, seed / 256, (s.delay % 256).toNat] ++
          padName (s.client (if i = 0 then guest else host)).name))) (fun _ => rfl)
        fun x => deaf_sendEach deaf_drop x.1 x.2 [host, guest] 0 false
    exact hlink.comp hsend
  exact Deaf.read bare (fun s => (s.seeds.headD default).val) (fun _ => rfl) fun seed =>
    htail.comp (deaf_roomAlloc host (deaf_onList guest) (hrest seed))

theorem deaf_enter (c target : Nat) : Deaf (enter c target) := by
  have hrest : ∀ r, Deaf fun s =>
      let s := (s.seat r ((s.room r).members ++ [c])).link c (some r)
      let s := roomBroadcast drop r s
      if s.autoGo ≠ 0 ∧ s.autoGo ≤ (s.room r).members.length then startRoom r s else s := by
    intro r
    have hseat : Deaf fun s => (s.seat r ((s.room r).members ++ [c])).link c (some r) :=
      fun s => bare_link c (some r) (s.seat r ((s.room r).members ++ [c]))
    exact (hseat.comp (deaf_roomBroadcast deaf_drop r)).comp
      (Deaf.ite bare (p := fun s => s.autoGo ≠ 0 ∧ s.autoGo ≤ (s.room r).members.length)
        (fun _ => Iff.rfl) (deaf_startRoom r) Deaf.id)
  have halloc := deaf_roomAlloc target (deaf_onList c) fun r =>
    Deaf.comp (fun s => bare_link target (some r) s) (hrest r)
  intro s
  have hsame : ((bare s).client target).room = (s.client target).room := rfl
  unfold enter roomFor
  rw [hsame]
  cases (s.client target).room with
  | some r => exact hrest r s
  | none =>
      have hcase := halloc s
      dsimp only at hcase ⊢
      rw [bare_roomAlloc] at hcase ⊢
      cases hr : roomAlloc target s with
      | none =>
          rw [hr] at hcase
          exact hcase
      | some p =>
          rw [hr] at hcase
          exact hcase

theorem deaf_onJoin (c : Nat) (payload : List Nat) : Deaf (onJoin c payload) := by
  have hpair : ∀ target, Deaf fun s =>
      if target = c ∨ (s.client target).name.isEmpty ∨ (s.client target).room.isSome then
        onList c s
      else startPair target c s := fun target =>
    Deaf.ite bare (p := fun s => target = c ∨ (s.client target).name.isEmpty = true ∨
      (s.client target).room.isSome = true) (fun _ => Iff.rfl) (deaf_onList c)
      (deaf_startPair target c)
  have henter : ∀ target, Deaf fun s =>
      if unjoinable c target s then onList c s else enter c target s := fun target =>
    Deaf.ite bare (p := fun s => unjoinable c target s = true) (fun _ => Iff.rfl) (deaf_onList c)
      (deaf_enter c target)
  have hfound := Deaf.found bare (fun s => nameFind (cString (rstripNulSpace payload)) s)
    (fun _ => rfl) (deaf_onList c) fun target => deaf_proto (hpair target) (henter target)
  exact Deaf.ite bare (p := fun s => (s.client c).name.isEmpty = true) (fun _ => Iff.rfl) (deaf_drop c)
    (Deaf.ite bare (p := fun s => (s.client c).room.isSome = true) (fun _ => Iff.rfl) Deaf.id
      (Deaf.ite bare (p := fun _ => 8 < (rstripNulSpace payload).length) (fun _ => Iff.rfl)
        (deaf_onList c) hfound))

theorem deaf_onGo (c : Nat) : Deaf (onGo c) := by
  have hgo : ∀ r, Deaf fun s =>
      if (s.room r).started ∨ roomSeat r c s ≠ some 0 then s
      else if (s.room r).members.length < 2 ∨ s.maxSeats < (s.room r).members.length then s
      else startRoom r s := fun r =>
    Deaf.ite bare (p := fun s => (s.room r).started = true ∨ roomSeat r c s ≠ some 0)
      (fun _ => Iff.rfl) Deaf.id
      (Deaf.ite bare (p := fun s => (s.room r).members.length < 2 ∨
        s.maxSeats < (s.room r).members.length) (fun _ => Iff.rfl) Deaf.id (deaf_startRoom r))
  exact Deaf.found bare (fun s => (s.client c).room) (fun _ => rfl) Deaf.id hgo

theorem deaf_relay (c ftype : Nat) (payload : List Nat) : Deaf (relay c ftype payload) := by
  have hsends : ∀ r, Deaf fun s =>
      sendEach drop (allocOf r s) (fun _ => frameBuild ftype payload) 0 false
        ((s.room r).members.filter (· != c)) s := fun r =>
    Deaf.read bare (fun s => (allocOf r s, (s.room r).members.filter (· != c))) (fun _ => rfl)
      fun x => deaf_sendEach deaf_drop x.1 (fun _ => frameBuild ftype payload) x.2 0 false
  exact Deaf.found bare (fun s => (s.client c).room) (fun _ => rfl) Deaf.id fun r =>
    Deaf.ite bare (p := fun s => (s.room r).started = true) (fun _ => Iff.rfl) (hsends r) Deaf.id

theorem deaf_handle (c ftype : Nat) (payload : List Nat) : Deaf (handle c ftype payload) := by
  have hgo : Deaf fun s => if ftype = tGo ∧ s.proto = .v2 then onGo c s
      else if ftype = tBye then drop c s
      else if ftype = tPing then sendRaw drop c none (frameBuild tPong []) s
      else drop c s :=
    Deaf.ite bare (p := fun s => ftype = tGo ∧ s.proto = .v2) (fun _ => Iff.rfl) (deaf_onGo c)
      (Deaf.ite bare (p := fun _ => ftype = tBye) (fun _ => Iff.rfl) (deaf_drop c)
        (Deaf.ite bare (p := fun _ => ftype = tPing) (fun _ => Iff.rfl)
          (deaf_sendRaw deaf_drop c none _) (deaf_drop c)))
  intro s
  unfold handle
  split
  · exact deaf_relay c ftype payload s
  split
  · exact deaf_onHello c payload s
  split
  · exact deaf_onList c s
  split
  · exact deaf_onJoin c payload s
  exact hgo s

/-! ## The reader -/

/-- A frame passed to `handle`. -/
def hand (c : Nat) (f : Frame) (s : Server) : Server := handle c f.1 f.2 s

/-- The frames the inner loop of `feed` passes to `handle`, and whether it ends in the drop
for a bad length. -/
def drained (fuel c : Nat) (s : Server) : List Frame × Bool :=
  handed (hand c) (fun s => (s.client c).dead) (fun s => (s.client c).rx) 200
    (fun rx s => s.setRx c rx) fuel s

/-- What `feed` passes to `handle`. -/
def passed : Nat → Nat → List Nat → Server → List Frame × Bool
  | _, _, [], _ => ([], false)
  | 0, _, _ :: _, _ => ([], false)
  | fuel + 1, c, b :: data, s =>
    let space := rxCap - (s.client c).rx.length
    if space = 0 then ([], false)
    else
      let s := s.setRx c ((s.client c).rx ++ (b :: data).take space)
      let p := drained (s.client c).rx.length c s
      let s := drain (s.client c).rx.length c s
      if (s.client c).dead then p
      else
        let q := passed fuel c ((b :: data).drop space) s
        (p.1 ++ q.1, p.2 || q.2)

theorem hand_blind (c : Nat) : Blind (hand c) (fun s => (s.client c).dead) (Alike bare) :=
  .of_deaf (fun f => deaf_handle c f.1 f.2) fun _ => rfl

/-- Reading `stream` for client `c` in the state `s`. -/
abbrev Reading (c : Nat) (stream : List Nat) (s : Server) (p : List Frame × Bool) (t : Server) :
    Prop :=
  Reassembly.Outcome (hand c) (fun s => (s.client c).dead) 200 (Alike bare)
    (fun s => (s.client c).rx) stream s p t

theorem hand_rx (c : Nat) (f : Frame) (s : Server) :
    ((hand c f s).client c).rx = (s.client c).rx :=
  (lasting_rx c (s.client c).rx).handle c f.1 f.2 s rfl

/-- A round of the inner loop, by what the buffer calls for. -/
theorem drain_next (n c : Nat) (s : Server) : drain (n + 1) c s =
    match next 200 (s.client c).rx with
    | .wait => s
    | .bad => drop c s
    | .frame f rest =>
      let t := hand c f (s.setRx c rest)
      if (t.client c).dead then t else drain n c t := by
  rw [drain]
  cases hrx : (s.client c).rx with
  | nil => rfl
  | cons len rest =>
      dsimp only
      by_cases hlen : len = 0 ∨ 200 < len
      · simp only [next, if_pos hlen]
      by_cases hshort : rest.length < len
      · simp only [next, if_neg hlen, if_pos hshort]
      · simp only [next, if_neg hlen, if_neg hshort]
        rfl

theorem drain_loop (c : Nat) : FrameLoop (hand c) (fun s => (s.client c).dead)
    (fun s => (s.client c).rx) 200 (fun rx s => s.setRx c rx) (Alike bare) (fun _ => True)
    (fun n s => drain n c s) where
  zero h := by rw [drain, expect_pos (by rw [h]; rfl)]
  wait h := by rw [drain_next, h]
  bad _ h := by
    rw [drain_next, h]
    exact ⟨trivial, dead_dropN _ c _⟩
  frame _ _ h := by rw [drain_next, h]
  keeps _ _ := trivial
  buffer := (hand_rx ..).trans (by rw [setRx_client_rx, if_pos rfl])
  blind := (bare_setRx ..).symm

/-- What the inner loop makes of the buffer. -/
theorem drain_reading {c : Nat} {s : Server} (hlive : (s.client c).dead = false) :
    Reading c (s.client c).rx s (drained (s.client c).rx.length c s)
      (drain (s.client c).rx.length c s) :=
  ((drain_loop c).outcome (hand_blind c) Alike.trans Alike.refl _ trivial hlive (Nat.le_refl _)).2

/-- The outer loop: the buffer always has room, and the pieces make up the chunk. -/
theorem feed_reading {c : Nat} (fuel : Nat) {s : Server} {data : List Nat}
    (hlive : (s.client c).dead = false) (hwait : next 200 (s.client c).rx = .wait)
    (hfuel : data.length ≤ fuel) :
    Reading c ((s.client c).rx ++ data) s (passed fuel c data s) (feed fuel c data s) := by
  induction fuel generalizing s data with
  | zero =>
      obtain rfl : data = [] := List.eq_nil_of_length_eq_zero (by omega)
      rw [List.append_nil]
      exact .wait Alike.refl rfl hwait
  | succ fuel ih =>
      match data with
      | [] =>
          rw [List.append_nil]
          exact .wait Alike.refl rfl hwait
      | b :: data =>
          have hroom := next_wait hwait
          have hspace : ¬ rxCap - (s.client c).rx.length = 0 := by
            simp only [rxCap]
            omega
          simp only [feed, passed, if_neg hspace]
          generalize hn : rxCap - (s.client c).rx.length = space at hspace
          have hrx₁ : ((s.setRx c ((s.client c).rx ++ (b :: data).take space)).client c).rx =
              (s.client c).rx ++ (b :: data).take space := by
            rw [setRx_client_rx, if_pos rfl]
          have hlive₁ : ((s.setRx c ((s.client c).rx ++
              (b :: data).take space)).client c).dead = false := by
            rw [setRx_client_dead]
            exact hlive
          have hread := drain_reading hlive₁
          rw [hrx₁] at hread
          have hpiece := hread.start (hand_blind c) Alike.trans (s := s) (bare_setRx ..).symm
          have hsplit : (s.client c).rx ++ b :: data =
              ((s.client c).rx ++ (b :: data).take space) ++ (b :: data).drop space := by
            rw [List.append_assoc, List.take_append_drop]
          rw [hsplit, hrx₁]
          generalize drained _ c (s.setRx c ((s.client c).rx ++ (b :: data).take space)) = p
            at hpiece ⊢
          generalize drain _ c (s.setRx c ((s.client c).rx ++ (b :: data).take space)) = t
            at hpiece ⊢
          cases hdead : (t.client c).dead with
          | true => exact hpiece.late hdead _
          | false =>
              have hshort : ((b :: data).drop space).length ≤ fuel := by
                rw [List.length_drop]
                simp only [List.length_cons] at hfuel ⊢
                omega
              have hrest := ih hdead (parse_more (hpiece.rest hdead).1) hshort
              exact hpiece.append (hand_blind c) Alike.trans hdead hrest

/-- Each frame takes at least one byte: more fuel than there are bytes changes nothing. -/
theorem drain_fuel {c n : Nat} {s : Server} (hn : (s.client c).rx.length ≤ n) :
    drain n c s = drain (s.client c).rx.length c s := by
  refine fuel_stable (fun s => (s.client c).rx.length) (fun n s => drain n c s)
    (fun n s hnone => ?_) (fun s => ?_) n _ s hn (Nat.le_refl _)
  · have hrx : (s.client c).rx = [] := List.eq_nil_of_length_eq_zero hnone
    cases n with
    | zero => exact (drain_loop c).zero hrx
    | succ n => exact (drain_loop c).wait (by rw [hrx]; rfl)
  · cases hnext : next 200 (s.client c).rx with
    | wait => exact Or.inl ⟨s, fun n => (drain_loop c).wait hnext⟩
    | bad => exact Or.inl ⟨drop c s, fun n => by rw [drain_next, hnext]⟩
    | frame f rest =>
        cases hdead : ((hand c f (s.setRx c rest)).client c).dead with
        | true => exact Or.inl ⟨_, fun n => by rw [drain_next, hnext]; exact if_pos hdead⟩
        | false =>
            refine Or.inr ⟨hand c f (s.setRx c rest), ?_, fun n => ?_⟩
            · rw [(drain_loop c).buffer]
              exact next_frame hnext
            · rw [drain_next, hnext]
              exact if_neg (by rw [hdead]; decide)

/-- Each round takes at least one byte of the chunk. -/
theorem feed_fuel {c n : Nat} {data : List Nat} {s : Server} (hn : data.length ≤ n) :
    feed n c data s = feed data.length c data s := by
  have hstable : ∀ n m (data : List Nat) s, data.length ≤ n → data.length ≤ m →
      feed n c data s = feed m c data s := by
    intro n
    induction n with
    | zero =>
        intro m data s hn _
        obtain rfl : data = [] := List.eq_nil_of_length_eq_zero (by omega)
        simp only [feed]
    | succ n ih =>
        intro m data s hn hm
        match m, data with
        | _, [] => simp only [feed]
        | 0, _ :: _ => exact absurd hm (by simp)
        | m + 1, b :: data =>
            by_cases hspace : rxCap - (s.client c).rx.length = 0
            · simp only [feed, if_pos hspace]
            · have hless : ((b :: data).drop (rxCap - (s.client c).rx.length)).length ≤
                  data.length := by
                rw [List.length_drop, List.length_cons]
                omega
              simp only [List.length_cons] at hn hm
              simp only [feed, if_neg hspace]
              rw [ih m _ _ (by omega) (by omega)]
  exact hstable n _ data s hn (Nat.le_refl _)

/-- Chunks from the client in slot `c`, while its socket is watched. -/
def read (c : Nat) (ds : List (List Nat)) (s : Server) : (List Frame × Bool) × Server :=
  received (fun s => (s.client c).dead) (fun d s => feed d.length c d s)
    (fun d s => passed d.length c d s) ds s

theorem read_reading {c : Nat} {s : Server} (ds : List (List Nat))
    (hlive : (s.client c).dead = false) (hrx : (s.client c).rx = []) :
    Reading c ds.flatten s (read c ds s).1 (read c ds s).2 := by
  have hall := received_outcome (hand_blind c) Alike.trans Alike.refl
    (I := fun s => (s.client c).dead = false → next 200 (s.client c).rx = .wait)
    (fun d s hwait hlive =>
      have hread := feed_reading d.length hlive (hwait hlive) (Nat.le_refl _)
      ⟨fun hlive' => parse_more (hread.rest hlive').1, hread⟩) ds (fun _ => by rw [hrx]; rfl) hlive
      (by rw [hrx]; rfl)
  rw [hrx] at hall
  exact hall

end SharkNetplay.Relay.C
