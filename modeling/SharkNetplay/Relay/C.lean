import Mathlib.Algebra.Group.Nat.Defs
import Mathlib.Logic.Function.Basic
import SharkNetplay.Lib.Dict
import SharkNetplay.Relay.Wire

/-!
# The C relay

`intv-relay.c`: the same relay over fixed tables, for protocols v1 and v2.

## Implementation notes

A client is a slot of `clients[]`, a room a slot of `rooms[]`. Slots are reused, so
a slot carries the number of its connection (its `fd`) and a room the number of its
allocation; nothing the relay does depends on the latter.
`queued` records every frame put into a transmit buffer, with the allocation of the
room it is about, if it is about one.

Four loops send from a copy of a room's member list. `torn` records that one of them
went on to a live client after one of its sends had dropped its target.

The CRC logs, the lobby publisher, the other statistics and the log lines are left
out: no frame depends on them. `accept`, `epoll_ctl` and `recv` succeed.
-/

namespace SharkNetplay.Relay.C

/-- `--proto`. -/
inductive Proto
  | v1
  | v2
  deriving Repr, DecidableEq

/-- `MAX_ROOMS`. -/
@[simp] def maxRooms : Nat := maxClients / 2

/-- `RX_CAP`. -/
@[simp] def rxCap : Nat := 256

/-- `LOBBY_ENTRIES`. -/
@[simp] def lobbyEntries : Nat := 8

/-- `client_t`. -/
structure Client where
  inUse : Bool := false
  conn : Nat := 0
  gen : Nat := 0
  ip : Nat := 0
  rx : List Nat := []
  tx : List Nat := []
  /-- Empty until HELLO. -/
  name : Name := []
  room : Option Nat := none
  dead : Bool := false

/-- `room_t`. -/
structure Room where
  used : Bool := false
  members : List Nat := []
  started : Bool := false
  seed : Nat := 0
  alloc : Nat := 0

/-- A frame put into the transmit buffer of a connection. -/
structure Sent where
  conn : Nat
  frame : List Nat
  /-- The allocation of the room it is about. -/
  alloc : Option Nat
  deriving Repr, DecidableEq

/-- The globals. -/
structure Server where
  proto : Proto
  maxSeats : Nat
  delay : Int
  autoGo : Nat
  client : Nat → Client := fun _ => {}
  room : Nat → Room := fun _ => {}
  byName : List (Name × Nat) := []
  nClients : Nat := 0
  /-- `stats.tx_backlog_drops`. -/
  backlogDrops : Nat := 0
  /-- Connections accepted so far. -/
  conns : Nat := 0
  /-- Rooms allocated so far. -/
  allocs : Nat := 0
  outcomes : List SendResult := []
  /-- Values `next_seed` will return. -/
  seeds : List Seed := []
  queued : List Sent := []
  torn : Bool := false
  crashed : Bool := false

namespace Server

/-- Change the client in slot `c`. -/
def onClient (c : Nat) (f : Client → Client) (s : Server) : Server :=
  { s with client := Function.update s.client c (f (s.client c)) }

/-- Change the room in slot `r`. -/
def onRoom (r : Nat) (f : Room → Room) (s : Server) : Server :=
  { s with room := Function.update s.room r (f (s.room r)) }

/-- `c->room = r`. -/
def link (c : Nat) (r : Option Nat) : Server → Server :=
  onClient c fun v => { v with room := r }

/-- `rooms[r].members = members`. -/
def seat (r : Nat) (members : List Nat) : Server → Server :=
  onRoom r fun v => { v with members := members }

/-- `rooms[r].nmembers = 0` and `rooms[r].used = 0`. -/
def vacate (r : Nat) : Server → Server :=
  onRoom r fun v => { v with members := [], used := false }

/-- `c->name = name`. -/
def setName (c : Nat) (name : Name) : Server → Server :=
  onClient c fun v => { v with name := name }

/-- `c->rx = rx`. -/
def setRx (c : Nat) (rx : List Nat) : Server → Server :=
  onClient c fun v => { v with rx := rx }

/-- `rooms[r].started = 1` and `rooms[r].seed = seed`. -/
def start (r seed : Nat) : Server → Server :=
  onRoom r fun v => { v with started := true, seed := seed }

/-- Go on if `p`; otherwise a bound of the model was reached. -/
def expect (p : Bool) (s : Server) : Server := if p then s else { s with crashed := true }

end Server

open Server

/-- `frame_build`. -/
def frameBuild (ftype : Nat) (payload : List Nat) : List Nat :=
  (payload.length + 1) % 256 :: ftype :: payload

/-- `pad_name`. -/
def padName (name : Name) : List Nat :=
  name.take 8 ++ List.replicate (8 - (name.take 8).length) 0

/-- `room_roster`. -/
def roomRoster (r : Nat) (s : Server) : List Nat :=
  let mm := (s.room r).members.take rosterSlots
  (mm.map fun m => padName (s.client m).name).flatten ++
    List.replicate (8 * (rosterSlots - mm.length)) 0

/-- `room_seat`. -/
def roomSeat (r c : Nat) (s : Server) : Option Nat := (s.room r).members.idxOf? c

/-- The allocation that is in slot `r`. -/
def allocOf (r : Nat) (s : Server) : Option Nat := some (s.room r).alloc

/-! ## Names -/

/-- `name_find`: the client whose entry has the name. -/
def nameFind (name : Name) (s : Server) : Option Nat := Lib.Dict.get name s.byName

/-- `name_set`. -/
def nameSet (name : Name) (c : Nat) (s : Server) : Server :=
  if (nameFind name s).isNone ∧ maxClients ≤ s.byName.length then s
  else { s with byName := Lib.Dict.assign name c s.byName }

/-- `name_del_at` where `name` is found. -/
def nameDel (name : Name) (s : Server) : Server :=
  { s with byName := s.byName.eraseP fun e => e.1 == name }

/-! ## Tables -/

/-- `room_alloc`. -/
def roomAlloc (host : Nat) (s : Server) : Option (Nat × Server) :=
  ((List.range maxRooms).find? fun i => !(s.room i).used).map fun i =>
    (i, { s with allocs := s.allocs + 1 }.onRoom i fun _ =>
      { used := true, members := [host], alloc := s.allocs })

/-- `client_alloc`. -/
def clientAlloc (ip : Nat) (s : Server) : Option Server :=
  ((List.range maxClients).find? fun i => !(s.client i).inUse).map fun i =>
    { s with conns := s.conns + 1, nClients := s.nClients + 1 }.onClient i fun v =>
      { inUse := true, conn := s.conns, gen := v.gen, ip := ip }

/-- `client_free`. -/
def clientFree (c : Nat) (s : Server) : Server :=
  { s with nClients := s.nClients - 1 }.onClient c fun v =>
    { v with inUse := false, gen := (v.gen + 1) % 2 ^ 32 }

/-! ## Sending and dropping -/

/-- `flush`, with `drop` as given. -/
def flush (drop : Nat → Server → Server) (c : Nat) (s : Server) : Server :=
  let f := flushLoop s.outcomes (s.client c).tx
  let s := { s with outcomes := f.rest }.onClient c fun v => { v with tx := f.tx }
  if f.ok then s else drop c s

/-- `data` as a frame for the client in slot `c`. -/
def sentTo (c : Nat) (alloc : Option Nat) (data : List Nat) (s : Server) : Sent :=
  { conn := (s.client c).conn, frame := data, alloc := alloc }

/-- The frame is copied into the transmit buffer. -/
def enqueue (c : Nat) (alloc : Option Nat) (data : List Nat) (s : Server) : Server :=
  { s with queued := s.queued ++ [sentTo c alloc data s] }.onClient c fun v =>
    { v with tx := v.tx ++ data }

/-- `send_raw`, with `drop` as given; `alloc` is the room `data` is about. -/
def sendRaw (drop : Nat → Server → Server) (c : Nat) (alloc : Option Nat) (data : List Nat)
    (s : Server) : Server :=
  if (s.client c).dead then s
  else if maxTxBacklog < (s.client c).tx.length + data.length then
    drop c { s with backlogDrops := s.backlogDrops + 1 }
  else flush drop c (enqueue c alloc data s)

/-- A loop that sends the frame of each seat to the clients of a copied member list,
from seat `i` on. `failed` says that a send of it has dropped its target. -/
def sendEach (drop : Nat → Server → Server) (alloc : Option Nat) (data : Nat → List Nat) :
    Nat → Bool → List Nat → Server → Server
  | _, _, [], s => s
  | i, failed, m :: rest, s =>
    let live := !(s.client m).dead
    let s := { s with torn := s.torn || (failed && live) }
    let s := sendRaw drop m alloc (data i) s
    sendEach drop alloc data (i + 1) (failed || (live && (s.client m).dead)) rest s

/-- `room_broadcast`. -/
def roomBroadcast (drop : Nat → Server → Server) (r : Nat) (s : Server) : Server :=
  let payload := (s.room r).members.length % 256 :: roomRoster r s
  sendEach drop (allocOf r s) (fun _ => frameBuild tRoom payload) 0 false (s.room r).members s

/-- Send one frame to each of `cs`, who are in no room. -/
def notifyAll (drop : Nat → Server → Server) (cs : List Nat) (alloc : Option Nat)
    (data : List Nat) (s : Server) : Server :=
  cs.foldl (fun s m => sendRaw drop m alloc data s) s

/-- `dissolve`. -/
def dissolve (drop : Nat → Server → Server) (r : Nat) (notify : List Nat) (s : Server) :
    Server :=
  let alloc := allocOf r s
  let s := (s.room r).members.foldl (fun s m => s.link m none) s
  let s := notifyAll drop notify alloc (frameBuild tRoom (0 :: List.replicate 32 0)) s
  s.vacate r

/-- The v2 part of `drop` after the client left its room `r`, from seat `seat`. -/
def leave (drop : Nat → Server → Server) (c r seat : Nat) (s : Server) : Server :=
  if (s.room r).started then
    let pl := seat % 256 :: padName (s.client c).name
    let survivors := (s.room r).members
    let alloc := allocOf r s
    let s := dissolve drop r [] s
    notifyAll drop survivors alloc (frameBuild tPeerLeft pl) s
  else if seat = 0 then dissolve drop r (s.room r).members s
  else if (s.room r).members.length < 2 then dissolve drop r (s.room r).members s
  else roomBroadcast drop r s

/-- The v1 part of `drop` after the client left its room `r`. -/
def unpair (drop : Nat → Server → Server) (r : Nat) (s : Server) : Server :=
  let partner := (s.room r).members.head?
  let alloc := allocOf r s
  let s := s.vacate r
  match partner with
  | none => s
  | some p => sendRaw drop p alloc (frameBuild tPeerLeft []) (s.link p none)

/-- `drop` up to the room: mark the client dead and remove every alias. -/
def bury (c : Nat) (s : Server) : Server :=
  { s with byName := s.byName.filter fun e => e.2 != c }.onClient c fun v =>
    { v with dead := true }

/-- `drop`, for at most `fuel` nested calls. -/
def dropN : Nat → Nat → Server → Server
  | 0, c, s => s.expect (s.client c).dead
  | fuel + 1, c, s =>
    if (s.client c).dead then s
    else
      let s := bury c s
      match (s.client c).room with
      | none => clientFree c s
      | some r =>
        -- without a seat, `seat` is -1 and the list stays as it is
        let s := s.expect (roomSeat r c s).isSome
        let seat := (roomSeat r c s).getD 0
        let s := (s.link c none).seat r ((s.room r).members.eraseIdx seat)
        clientFree c (match s.proto with
          | .v1 => unpair (dropN fuel) r s
          | .v2 => leave (dropN fuel) c r seat s)

/-- `drop`. Each nested call drops another live client. -/
def drop (c : Nat) (s : Server) : Server := dropN maxClients c s

/-! ## Protocol -/

/-- `rstrip_nul_space`. -/
def rstripNulSpace (p : List Nat) : List Nat :=
  (p.reverse.dropWhile fun b => b == 0 || b == 32).reverse

/-- The tests of `on_hello`, and the name it reads. -/
def helloName (proto : Proto) (payload : List Nat) : Option Name :=
  if payload.length < 3 then none
  else if proto = .v2 ∧ payload.headD 0 ≠ 2 then none
  else
    let name := rstripNulSpace payload.tail
    if 2 ≤ name.length ∧ name.length ≤ 8 ∧ name.all nameChar then some name else none

/-- `status_byte`. -/
def statusByte (c : Nat) (s : Server) : Nat :=
  match s.proto, (s.client c).room with
  | .v1, none => 0
  | .v1, some _ => 1
  | .v2, none => 1
  | .v2, some r =>
    let n := (s.room r).members.length
    (if (s.room r).started ∨ s.maxSeats ≤ n then 0x80 ||| n else n) % 256

/-- The clients `on_list` shows to `c`. -/
def others (c : Nat) (s : Server) : List Nat :=
  ((s.byName.map Prod.snd).filter fun o => o != c && !(s.client o).name.isEmpty).take lobbyEntries

/-- `on_list`. -/
def onList (c : Nat) (s : Server) : Server :=
  let payload := (others c s).length % 256 ::
    ((others c s).map fun o => padName (s.client o).name ++ [statusByte o s]).flatten
  sendRaw drop c none (frameBuild tLobby payload) s

/-- `on_hello` from the new name on. -/
def rename (c : Nat) (name : Name) (s : Server) : Server :=
  let prev := (s.client c).name
  let s := if prev ≠ [] ∧ prev ≠ name ∧ nameFind prev s = some c then nameDel prev s else s
  onList c (nameSet name c (s.setName c name))

/-- `on_hello` once the name is accepted. -/
def register (c : Nat) (name : Name) (s : Server) : Server :=
  match nameFind name s with
  | none => rename c name s
  | some old =>
    if old = c then rename c name s
    else
      let s := drop old s
      if (s.client c).dead then s else rename c name s

/-- `on_hello`. -/
def onHello (c : Nat) (payload : List Nat) (s : Server) : Server :=
  match helloName s.proto payload with
  | none => drop c s
  | some name => register c name s

/-- `start_room`. -/
def startRoom (r : Nat) (s : Server) : Server :=
  let nm := (s.room r).members.length
  let seed := (s.seeds.headD default).val
  let s := { s with seeds := s.seeds.tail }.start r seed
  let common := [nm % 256, seed % 256, seed / 256, (s.delay % 256).toNat] ++ roomRoster r s
  sendEach drop (allocOf r s) (fun i => frameBuild tStart (i % 256 :: common)) 0 false
    (s.room r).members s

/-- `start_pair`. -/
def startPair (host guest : Nat) (s : Server) : Server :=
  let seed := (s.seeds.headD default).val
  let s := { s with seeds := s.seeds.tail }
  match roomAlloc host s with
  | none => onList guest s
  | some (r, s) =>
    let s := (s.seat r [host, guest]).start r seed
    let s := (s.link host (some r)).link guest (some r)
    let common := [seed % 256, seed / 256, (s.delay % 256).toNat]
    let data := fun i => frameBuild tStart
      (i :: common ++ padName (s.client (if i = 0 then guest else host)).name)
    sendEach drop (allocOf r s) data 0 false [host, guest] s

/-- Bytes up to the NUL that ends a C string. -/
def cString (p : List Nat) : List Nat := p.takeWhile fun b => b != 0

/-- Whether the v2 `on_join` refuses the target. -/
def unjoinable (c target : Nat) (s : Server) : Bool :=
  target == c || (s.client target).name.isEmpty ||
    match (s.client target).room with
    | none => false
    | some r => (s.room r).started || decide (s.maxSeats ≤ (s.room r).members.length)

/-- The room to join in the v2 `on_join`, allocated if need be. -/
def roomFor (target : Nat) (s : Server) : Option (Nat × Server) :=
  match (s.client target).room with
  | some r => some (r, s)
  | none =>
    match roomAlloc target s with
    | none => none
    | some (r, s) => some (r, s.link target (some r))

/-- The v2 `on_join` from the choice of the room on. -/
def enter (c target : Nat) (s : Server) : Server :=
  match roomFor target s with
  | none => onList c s
  | some (r, s) =>
    let s := (s.seat r ((s.room r).members ++ [c])).link c (some r)
    let s := roomBroadcast drop r s
    if s.autoGo ≠ 0 ∧ s.autoGo ≤ (s.room r).members.length then startRoom r s else s

/-- `on_join`. -/
def onJoin (c : Nat) (payload : List Nat) (s : Server) : Server :=
  if (s.client c).name.isEmpty then drop c s
  else if (s.client c).room.isSome then s
  else
    let name := rstripNulSpace payload
    if 8 < name.length then onList c s
    else
      match nameFind (cString name) s with
      | none => onList c s
      | some target =>
        match s.proto with
        | .v1 =>
          if target = c ∨ (s.client target).name.isEmpty ∨ (s.client target).room.isSome then
            onList c s
          else startPair target c s
        | .v2 => if unjoinable c target s then onList c s else enter c target s

/-- `on_go`. -/
def onGo (c : Nat) (s : Server) : Server :=
  match (s.client c).room with
  | none => s
  | some r =>
    if (s.room r).started ∨ roomSeat r c s ≠ some 0 then s
    else if (s.room r).members.length < 2 ∨ s.maxSeats < (s.room r).members.length then s
    else startRoom r s

/-- The relay branch of `handle`: to everybody of the copied list but the sender. -/
def relay (c ftype : Nat) (payload : List Nat) (s : Server) : Server :=
  match (s.client c).room with
  | none => s
  | some r =>
    if (s.room r).started then
      sendEach drop (allocOf r s) (fun _ => frameBuild ftype payload) 0 false
        ((s.room r).members.filter (· != c)) s
    else s

/-- `handle`. -/
def handle (c ftype : Nat) (payload : List Nat) (s : Server) : Server :=
  if ftype ∈ relayTypes then relay c ftype payload s
  else if ftype = tHello then onHello c payload s
  else if ftype = tList then onList c s
  else if ftype = tJoin then onJoin c payload s
  else if ftype = tGo ∧ s.proto = .v2 then onGo c s
  else if ftype = tBye then drop c s
  else if ftype = tPing then sendRaw drop c none (frameBuild tPong []) s
  else drop c s

/-- The inner loop of `feed`, for at most `fuel` frames. -/
def drain : Nat → Nat → Server → Server
  | 0, c, s => s.expect (s.client c).rx.isEmpty
  | fuel + 1, c, s =>
    match (s.client c).rx with
    | [] => s
    | len :: rest =>
      if len = 0 ∨ 200 < len then drop c s
      else if rest.length < len then s
      else
        let s := s.setRx c (rest.drop len)
        let s := handle c (rest.headD 0) ((rest.take len).tail) s
        if (s.client c).dead then s else drain fuel c s

/-- `feed`, for at most `fuel` rounds of its outer loop. -/
def feed : Nat → Nat → List Nat → Server → Server
  | _, _, [], s => s
  | 0, _, _ :: _, s => s.expect false
  | fuel + 1, c, b :: data, s =>
    let space := rxCap - (s.client c).rx.length
    if space = 0 then drop c s
    else
      let s := s.setRx c ((s.client c).rx ++ (b :: data).take space)
      let s := drain (s.client c).rx.length c s
      if (s.client c).dead then s else feed fuel c ((b :: data).drop space) s

/-! ## Events -/

/-- The slot a connection is in, found by the tag of its events. -/
def slotOf (conn : Nat) (s : Server) : Option Nat :=
  (List.range maxClients).find? fun i => (s.client i).inUse && (s.client i).conn == conn

/-- Do `act` for the slot of a connection whose socket is still watched. -/
def onSlot (conn : Nat) (act : Nat → Server → Server) (s : Server) : Server :=
  match slotOf conn s with
  | none => s
  | some c => if (s.client c).dead then s else act c s

/-- `accept_client`. -/
def acceptClient (ip : Nat) (s : Server) : Server :=
  if maxClients ≤ s.nClients then s
  else if maxConnectionsPerIp ≤
      ((List.range maxClients).filter fun i => (s.client i).inUse && (s.client i).ip == ip).length
    then s
  else (clientAlloc ip s).getD s

/-- One round of the loop of `sweep`. -/
def sweepSlot (late : List Nat) (s : Server) (i : Nat) : Server :=
  if (s.client i).inUse && !(s.client i).dead && (s.client i).name.isEmpty &&
      late.contains (s.client i).conn then drop i s
  else s

/-- `sweep`. -/
def sweep (late : List Nat) (s : Server) : Server :=
  (List.range maxClients).foldl (sweepSlot late) s

/-- One event. -/
def Server.step (s : Server) : Event → Server
  | .accept ip => acceptClient ip s
  | .recv conn data => onSlot conn (fun c s => feed data.length c data s) s
  | .eof conn => onSlot conn drop s
  | .writable conn => onSlot conn (flush drop) s
  | .sweep late => sweep late s

/-- A run of the relay. -/
def Server.run (s : Server) (events : List Event) : Server := events.foldl Server.step s

/-- The relay at start. -/
def Server.init (proto : Proto) (maxSeats : Nat) (delay : Int) (autoGo : Nat)
    (outcomes : List SendResult) (seeds : List Seed) : Server :=
  { proto := proto, maxSeats := maxSeats, delay := delay, autoGo := autoGo,
    outcomes := outcomes, seeds := seeds }

end SharkNetplay.Relay.C
