import Mathlib.Logic.Function.Basic
import SharkNetplay.Lib.Dict
import SharkNetplay.Relay.Wire

/-!
# The Python relay

`intv_relay_server.py`: connections, names, rooms and the handlers of a frame.

## Implementation notes

Clients and rooms are objects; here they are numbered and live in two maps, so a
dropped client's object is still there for whoever refers to it. What each
`sock.send` does is read off `outcomes`. `queued` records every frame appended to
a client's transmit buffer.

`drop` is re-entered from `send`, which it calls itself. Each call drops another
live client, so the recursion is bounded by their number. A bound reached, a
`Client.seat` of a client its room does not list, and a name that is `None` where
one is encoded set `crashed`; what follows such a state is not meant.

The CRC log, the lobby publisher, the statistics and the log lines are left out:
no frame depends on them.
-/

namespace SharkNetplay.Relay.Py

/-- `MAX_SEATS`. -/
@[simp] def maxSeats : Nat := 2

/-- `Client`. -/
structure Client where
  ip : Nat := 0
  rx : List Nat := []
  tx : List Nat := []
  name : Option Name := none
  room : Option Nat := none
  dead : Bool := false

/-- `Room`. -/
structure Room where
  members : List Nat := []
  started : Bool := false
  seed : Nat := 0

/-- `Server`. -/
structure Server where
  delay : Int
  autoGo : Int
  client : Nat → Client := fun _ => {}
  nextClient : Nat := 0
  /-- `self.clients`. -/
  present : List Nat := []
  room : Nat → Room := fun _ => {}
  nextRoom : Nat := 0
  /-- `self.by_name`, in insertion order. -/
  byName : List (Name × Nat) := []
  outcomes : List SendResult := []
  /-- Values `random.randrange(1, 0x10000)` will return. -/
  seeds : List Seed := []
  /-- Frames appended to transmit buffers so far, oldest first. -/
  queued : List (Nat × List Nat) := []
  crashed : Bool := false

namespace Server

def setClient (c : Nat) (v : Client) (s : Server) : Server :=
  { s with client := Function.update s.client c v }

def setRoom (r : Nat) (v : Room) (s : Server) : Server :=
  { s with room := Function.update s.room r v }

/-- `c.room = r`. -/
def link (c : Nat) (r : Option Nat) (s : Server) : Server :=
  s.setClient c { s.client c with room := r }

/-- `r.members = members`. -/
def seat (r : Nat) (members : List Nat) (s : Server) : Server :=
  s.setRoom r { s.room r with members := members }

/-- `c.name = name`. -/
def setName (c : Nat) (name : Name) (s : Server) : Server :=
  s.setClient c { s.client c with name := some name }

/-- `c.rx = rx`. -/
def setRx (c : Nat) (rx : List Nat) (s : Server) : Server :=
  s.setClient c { s.client c with rx := rx }

/-- `r.started = True` and `r.seed = seed`. -/
def start (r seed : Nat) (s : Server) : Server :=
  s.setRoom r { s.room r with started := true, seed := seed }

/-- Go on if `p`; otherwise an exception no handler expects was raised. -/
def expect (p : Bool) (s : Server) : Server := if p then s else { s with crashed := true }

end Server

open Server

/-- `frame`. -/
def frame (ftype : Nat) (payload : List Nat) : List Nat :=
  (payload.length + 1) :: ftype :: payload

/-- `pad_name`. -/
def padName (name : Name) : List Nat :=
  name.take 8 ++ List.replicate (8 - (name.take 8).length) 0

/-- The name of a client that must have one. -/
def nameOf (c : Nat) (s : Server) : Name := (s.client c).name.getD []

/-- `Room.roster`. -/
def roster (r : Nat) (s : Server) : List Nat :=
  ((s.room r).members.map fun m => padName (nameOf m s)).flatten ++
    List.replicate (8 * (rosterSlots - (s.room r).members.length)) 0

/-- Whether every client of a list has a name to encode. -/
def allNamed (cs : List Nat) (s : Server) : Bool :=
  cs.all fun c => (s.client c).name.isSome

/-! ## Sending and dropping -/

/-- `flush`, with `drop` as given. -/
def flush (drop : Nat → Server → Server) (c : Nat) (s : Server) : Server :=
  let f := flushLoop s.outcomes (s.client c).tx
  let s := { s with outcomes := f.rest }.setClient c { s.client c with tx := f.tx }
  if f.ok then s else drop c s

/-- `client.tx += data`. -/
def enqueue (c : Nat) (data : List Nat) (s : Server) : Server :=
  { s with queued := s.queued ++ [(c, data)] }.setClient c
    { s.client c with tx := (s.client c).tx ++ data }

/-- `send`, with `drop` as given. -/
def send (drop : Nat → Server → Server) (c : Nat) (data : List Nat) (s : Server) : Server :=
  if (s.client c).dead then s
  else if maxTxBacklog < (s.client c).tx.length + data.length then drop c s
  else flush drop c (enqueue c data s)

/-- `for m in room.members`: the list is read again at every round, since a send
may change it. Nothing a send calls adds a member, so `fuel` rounds suffice for a
list of that length. -/
def forMembers (r : Nat) (body : Nat → Nat → Server → Server) : Nat → Nat → Server → Server
  | 0, i, s => s.expect ((s.room r).members.length ≤ i)
  | fuel + 1, i, s =>
    match (s.room r).members[i]? with
    | none => s
    | some m => forMembers r body fuel (i + 1) (body i m s)

/-- `room_broadcast`. -/
def roomBroadcast (drop : Nat → Server → Server) (r : Nat) (s : Server) : Server :=
  let s := s.expect (allNamed (s.room r).members s)
  let payload := (s.room r).members.length :: roster r s
  forMembers r (fun _ m => send drop m (frame tRoom payload)) (s.room r).members.length 0 s

/-- `dissolve`. -/
def dissolve (drop : Nat → Server → Server) (r : Nat) (notify : List Nat) (s : Server) :
    Server :=
  let s := (s.room r).members.foldl (fun s m => s.link m none) s
  let s := notify.foldl
    (fun s m => send drop m (frame tRoom (0 :: List.replicate 32 0)) s) s
  s.seat r []

/-- The part of `drop` after the client left its room `r`, from seat `seat`. -/
def leave (drop : Nat → Server → Server) (c r seat : Nat) (s : Server) : Server :=
  if (s.room r).started then
    let s := s.expect (allNamed [c] s)
    let pl := frame tPeerLeft (seat :: padName (nameOf c s))
    let survivors := (s.room r).members
    let s := dissolve drop r [] s
    survivors.foldl (fun s m => send drop m pl s) s
  else if seat = 0 then dissolve drop r (s.room r).members s
  else if (s.room r).members.length < 2 then dissolve drop r (s.room r).members s
  else roomBroadcast drop r s

/-- `drop` up to the room: mark the client dead and forget it. -/
def bury (c : Nat) (s : Server) : Server :=
  { s with
    present := s.present.erase c
    byName := s.byName.filter fun e => e.2 != c }.setClient c { s.client c with dead := true }

/-- `drop`, for at most `fuel` nested calls. -/
def dropN : Nat → Nat → Server → Server
  | 0, c, s => s.expect (s.client c).dead
  | fuel + 1, c, s =>
    if (s.client c).dead then s
    else
      let s := bury c s
      match (s.client c).room with
      | none => s
      | some r =>
        let s := s.expect ((s.room r).members.contains c)
        let seat := (s.room r).members.idxOf c
        let s := s.link c none
        leave (dropN fuel) c r seat (s.seat r ((s.room r).members.erase c))

/-- `drop`. -/
def drop (c : Nat) (s : Server) : Server := dropN s.present.length c s

/-! ## Protocol -/

/-- `bytes.decode("ascii", "replace")`. -/
def decode (bytes : List Nat) : Name := bytes.map fun b => if b < 128 then b else 0xFFFD

/-- `rstrip("\0 ")`. -/
def rstrip (s : Name) : Name := (s.reverse.dropWhile fun b => b == 0 || b == 32).reverse

/-- The tests of `on_hello`, and the name it reads. -/
def helloName (payload : List Nat) : Option Name :=
  if payload.length < 3 ∨ payload.headD 0 ≠ 2 then none
  else
    let name := rstrip (decode payload.tail)
    if 2 ≤ name.length ∧ name.length ≤ 8 ∧ name.all nameChar then some name else none

/-- `self.by_name.get(name)`. -/
def lookup (name : Name) (s : Server) : Option Nat := Lib.Dict.get name s.byName

/-- `_status`. -/
def status (c : Nat) (s : Server) : Nat :=
  match (s.client c).room with
  | none => 1
  | some r =>
    let n := (s.room r).members.length
    if (s.room r).started ∨ maxSeats ≤ n then 0x80 ||| n else n

/-- The entries `on_list` shows to `c`. -/
def others (c : Nat) (s : Server) : List Nat :=
  ((s.byName.map Prod.snd).filter fun o => o != c && (s.client o).name.isSome).take 8

/-- `on_list`. -/
def onList (c : Nat) (s : Server) : Server :=
  let payload := (others c s).length ::
    ((others c s).map fun o => padName (nameOf o s) ++ [status o s]).flatten
  send drop c (frame tLobby payload) s

/-- `on_hello` once the name is accepted. -/
def register (c : Nat) (name : Name) (s : Server) : Server :=
  let s := match lookup name s with
    | some old => if old ≠ c then drop old s else s
    | none => s
  let s := match (s.client c).name with
    | some prev =>
      if prev ≠ name ∧ lookup prev s = some c then
        { s with byName := s.byName.filter fun e => e.1 != prev }
      else s
    | none => s
  let s := s.setName c name
  onList c { s with byName := Lib.Dict.assign name c s.byName }

/-- `start_room`; the second component says that `bytes` raised. -/
def startRoom (r : Nat) (s : Server) : Server × Bool :=
  let seed := (s.seeds.headD default).val
  let s := { s with seeds := s.seeds.tail }
  let s := s.start r seed
  if s.delay < 0 ∨ 255 < s.delay then (s, true)
  else
    let s := s.expect (allNamed (s.room r).members s)
    let common := [(s.room r).members.length, seed % 256, seed / 256, s.delay.toNat] ++ roster r s
    (forMembers r (fun i m => send drop m (frame tStart (i :: common)))
      (s.room r).members.length 0 s, false)

/-- Whether `on_join` refuses the target. -/
def unjoinable (c : Nat) (target : Nat) (s : Server) : Bool :=
  target == c || (s.client target).name.isNone ||
    match (s.client target).room with
    | none => false
    | some r => (s.room r).started || decide (maxSeats ≤ (s.room r).members.length)

/-- `on_join` once the target is accepted: the room to join, made if need be. -/
def roomFor (target : Nat) (s : Server) : Server × Nat :=
  match (s.client target).room with
  | some r => (s, r)
  | none =>
    let r := s.nextRoom
    (({ s with nextRoom := r + 1 }.setRoom r { members := [target] }).link target (some r), r)

/-- `on_join` up to its `room_broadcast`: what an early return leaves, or the state of the
broadcast and the room. -/
def joinRoom (c : Nat) (payload : List Nat) (s : Server) :
    Except (Server × Bool) (Server × Nat) :=
  if (s.client c).name.isNone then .error (s, true)
  else if (s.client c).room.isSome then .error (s, false)
  else
    match lookup (rstrip (decode payload)) s with
    | none => .error (onList c s, false)
    | some target =>
      if unjoinable c target s then .error (onList c s, false)
      else
        let p := roomFor target s
        let r := p.2
        .ok ((p.1.seat r ((p.1.room r).members ++ [c])).link c (some r), r)

/-- `on_join`. -/
def onJoin (c : Nat) (payload : List Nat) (s : Server) : Server × Bool :=
  match joinRoom c payload s with
  | .error left => left
  | .ok (s, r) =>
    let s := roomBroadcast drop r s
    if s.autoGo ≠ 0 ∧ s.autoGo ≤ (s.room r).members.length then startRoom r s else (s, false)

/-- `on_join` with its early returns in place. -/
theorem onJoin_eq (c : Nat) (payload : List Nat) (s : Server) :
    onJoin c payload s =
      if (s.client c).name.isNone then (s, true)
      else if (s.client c).room.isSome then (s, false)
      else
        match lookup (rstrip (decode payload)) s with
        | none => (onList c s, false)
        | some target =>
          if unjoinable c target s then (onList c s, false)
          else
            let p := roomFor target s
            let r := p.2
            let s := (p.1.seat r ((p.1.room r).members ++ [c])).link c (some r)
            let s := roomBroadcast drop r s
            if s.autoGo ≠ 0 ∧ s.autoGo ≤ (s.room r).members.length then startRoom r s
            else (s, false) := by
  unfold onJoin joinRoom
  split_ifs with hname hroom
  · rfl
  · rfl
  cases lookup (rstrip (decode payload)) s with
  | none => rfl
  | some target =>
      dsimp only
      cases unjoinable c target s with
      | true => rfl
      | false => rfl

/-- `on_go`. -/
def onGo (c : Nat) (s : Server) : Server × Bool :=
  match (s.client c).room with
  | none => (s, false)
  | some r =>
    if (s.room r).started then (s, false)
    else
      let s := s.expect ((s.room r).members.contains c)
      if (s.room r).members.idxOf c ≠ 0 then (s, false)
      else if 2 ≤ (s.room r).members.length ∧ (s.room r).members.length ≤ maxSeats then
        startRoom r s
      else (s, false)

/-- The relay branch of `handle`. -/
def relay (c ftype : Nat) (payload : List Nat) (s : Server) : Server :=
  match (s.client c).room with
  | none => s
  | some r =>
    if (s.room r).started then
      forMembers r (fun _ m s => if m = c then s else send drop m (frame ftype payload) s)
        (s.room r).members.length 0 s
    else s

/-- `handle`; the second component says that an exception was raised, by the
protocol checks or by `start_room`. -/
def handle (c ftype : Nat) (payload : List Nat) (s : Server) : Server × Bool :=
  if ftype ∈ relayTypes then (relay c ftype payload s, false)
  else if ftype = tHello then
    match helloName payload with
    | none => (s, true)
    | some name => (register c name s, false)
  else if ftype = tList then (onList c s, false)
  else if ftype = tJoin then onJoin c payload s
  else if ftype = tGo then onGo c s
  else if ftype = tBye then (drop c s, false)
  else if ftype = tPing then (send drop c (frame tPong []) s, false)
  else (s, true)

/-- The frame loop of `service`, for at most `fuel` frames. An exception drops
the client, here or in `run`. -/
def feed : Nat → Nat → Server → Server
  | 0, c, s => s.expect (s.client c).rx.isEmpty
  | fuel + 1, c, s =>
    match (s.client c).rx with
    | [] => s
    | len :: rest =>
      if len = 0 ∨ 200 < len then drop c s
      else if rest.length < len then s
      else
        let s := s.setRx c (rest.drop len)
        let p := handle c (rest.headD 0) ((rest.take len).tail) s
        if p.2 then drop c p.1
        else if (p.1.client c).dead then p.1
        else feed fuel c p.1

/-! ## Events -/

/-- Events of a client reach it while its socket is registered. -/
def serving (c : Nat) (s : Server) : Bool := decide (c < s.nextClient) && !(s.client c).dead

/-- A new connection is registered. -/
def enroll (ip : Nat) (s : Server) : Server :=
  { s with
    present := s.present ++ [s.nextClient]
    nextClient := s.nextClient + 1 }.setClient s.nextClient { ip := ip }

/-- `accept`. -/
def accept (ip : Nat) (s : Server) : Server :=
  if maxClients ≤ s.present.length then s
  else if maxConnectionsPerIp ≤ (s.present.filter fun c => (s.client c).ip == ip).length then s
  else enroll ip s

/-- `service` after a non-empty `recv`. -/
def service (c : Nat) (data : List Nat) (s : Server) : Server :=
  let s := s.setRx c ((s.client c).rx ++ data)
  feed (s.client c).rx.length c s

/-- `sweep`. -/
def sweep (late : List Nat) (s : Server) : Server :=
  late.foldl (fun s c => if (s.client c).name.isNone then drop c s else s) s

/-- One event. -/
def Server.step (s : Server) : Event → Server
  | .accept ip => accept ip s
  | .recv c data => if serving c s then service c data s else s
  | .eof c => if serving c s then drop c s else s
  | .writable c => if serving c s then flush drop c s else s
  | .sweep late => sweep (late.filter (s.present.contains ·)) s

/-- A run of the relay. -/
def Server.run (s : Server) (events : List Event) : Server := events.foldl Server.step s

/-- The relay at start. -/
def Server.init (delay autoGo : Int) (outcomes : List SendResult) (seeds : List Seed) : Server :=
  { delay := delay, autoGo := autoGo, outcomes := outcomes, seeds := seeds }

end SharkNetplay.Relay.Py
