import SharkNetplay.Relay.C
import SharkNetplay.Relay.CrcPairs

/-!
# The fixed tables of the C relay

The relay with the CRC logs of its rooms and clients, and a record of the branches that a
comment of the source calls unreachable: a table that is found full, or a receive buffer
without space.

## Implementation notes

Each function does what the function of the relay it is named after does, and what that does
to the logs besides; `tables_server` says that the relay is the same. A log is cleared where
the source clears it: in `client_alloc`, `room_alloc`, `start_room` and `start_pair`.
-/

namespace SharkNetplay.Relay.C

open Lib Server CrcPayload

/-- The relay, its CRC logs, and whether a table or a buffer was found full. -/
structure Tables where
  server : Server
  /-- `crc`, `ncrc` and `crc_ok` of `rooms[]`. -/
  crc : Nat → CrcTable := fun _ => {}
  /-- `crclog`, `ncrclog` and `crc_ok` of `clients[]`. -/
  crclog : Nat → CrcClient := fun _ => {}
  full : Bool := false

/-- `name_set` finds the table full. -/
def nameFull (name : Name) (s : Server) : Bool :=
  (nameFind name s).isNone && decide (maxClients ≤ s.byName.length)

/-- `log_crc` finds no row for the tick, or no slot in it for the seat. -/
def crcFull (payload : List Nat) (t : CrcTable) : Bool :=
  match t.rowFor (tick payload) with
  | none => true
  | some (i, t) => ((t.crc i).put (seat payload) (crc payload)).isNone

/-- `log_crc_v1` finds no entry for the tick. -/
def crcFullV1 (members : List Nat) (ci : Nat) (payload : List Nat) (clients : Nat → CrcClient) :
    Bool :=
  match crcPartner members ci with
  | none => false
  | some partner =>
    match (clients partner).pop (CrcPayloadV1.tick payload) with
    | some _ => false
    | none =>
      ((clients ci).record (CrcPayloadV1.tick payload) (CrcPayloadV1.crc payload)).isNone

namespace Tables

/-- Something happens to the relay and to no log. -/
def on (f : Server → Server) (t : Tables) : Tables := { t with server := f t.server }

/-- A branch called unreachable is taken if `p`. -/
def note (p : Bool) (t : Tables) : Tables := { t with full := t.full || p }

/-- `memset(rooms[r].crc, 0, …)`, with `ncrc` and `crc_ok`. -/
def clearRoom (r : Nat) (t : Tables) : Tables := { t with crc := Function.update t.crc r {} }

/-- `memset(clients[c].crclog, 0, …)`, with `ncrclog` and `crc_ok`. -/
def clearClient (c : Nat) (t : Tables) : Tables :=
  { t with crclog := Function.update t.crclog c {} }

/-- `room_alloc`. -/
def roomAlloc (host : Nat) (t : Tables) : Option (Nat × Tables) :=
  (C.roomAlloc host t.server).map fun p => (p.1, { t with server := p.2 }.clearRoom p.1)

/-- `client_alloc`, with the slot it takes. -/
def clientAlloc (ip : Nat) (t : Tables) : Option Tables :=
  (C.clientAlloc ip t.server).map fun s =>
    { t with server := s }.clearClient
      (((List.range maxClients).find? fun i => !(t.server.client i).inUse).getD 0)

/-- `on_hello` from the new name on. -/
def rename (c : Nat) (name : Name) (t : Tables) : Tables :=
  let s := t.server
  let prev := (s.client c).name
  let s := if prev ≠ [] ∧ prev ≠ name ∧ nameFind prev s = some c then nameDel prev s else s
  let s := s.setName c name
  { t with server := onList c (nameSet name c s) }.note (nameFull name s)

/-- `on_hello` once the name is accepted. -/
def register (c : Nat) (name : Name) (t : Tables) : Tables :=
  match nameFind name t.server with
  | none => t.rename c name
  | some old =>
    if old = c then t.rename c name
    else
      let t := t.on (drop old)
      if (t.server.client c).dead then t else t.rename c name

/-- `on_hello`. -/
def onHello (c : Nat) (payload : List Nat) (t : Tables) : Tables :=
  match helloName t.server.proto payload with
  | none => t.on (drop c)
  | some name => t.register c name

/-- `start_room`. -/
def startRoom (r : Nat) (t : Tables) : Tables := (t.clearRoom r).on (C.startRoom r)

/-- `start_pair`. -/
def startPair (host guest : Nat) (t : Tables) : Tables :=
  let seed := (t.server.seeds.headD default).val
  let t := t.on fun s => { s with seeds := s.seeds.tail }
  match t.roomAlloc host with
  | none => (t.on (onList guest)).note true
  | some (r, t) =>
    let t := t.on fun s => ((((s.seat r [host, guest]).start r seed).link host (some r)).link guest
      (some r))
    let t := { t with crclog := startLogs host guest t.crclog }
    let s := t.server
    let common := [seed % 256, seed / 256, (s.delay % 256).toNat]
    let data := fun i => frameBuild tStart
      (i :: common ++ padName (s.client (if i = 0 then guest else host)).name)
    t.on (sendEach drop (allocOf r s) data 0 false [host, guest])

/-- The room to join in the v2 `on_join`, allocated if need be. -/
def roomFor (target : Nat) (t : Tables) : Option (Nat × Tables) :=
  match (t.server.client target).room with
  | some r => some (r, t)
  | none =>
    match t.roomAlloc target with
    | none => none
    | some (r, t) => some (r, t.on fun s => s.link target (some r))

/-- The v2 `on_join` from the choice of the room on. -/
def enter (c target : Nat) (t : Tables) : Tables :=
  match t.roomFor target with
  | none => (t.on (onList c)).note true
  | some (r, t) =>
    let t := t.on fun s => roomBroadcast drop r
      ((s.seat r ((s.room r).members ++ [c])).link c (some r))
    if t.server.autoGo ≠ 0 ∧ t.server.autoGo ≤ (t.server.room r).members.length then t.startRoom r
    else t

/-- `on_join`. -/
def onJoin (c : Nat) (payload : List Nat) (t : Tables) : Tables :=
  let s := t.server
  if (s.client c).name.isEmpty then t.on (drop c)
  else if (s.client c).room.isSome then t
  else
    let name := rstripNulSpace payload
    if 8 < name.length then t.on (onList c)
    else
      match nameFind (cString name) s with
      | none => t.on (onList c)
      | some target =>
        match s.proto with
        | .v1 =>
          if target = c ∨ (s.client target).name.isEmpty ∨ (s.client target).room.isSome then
            t.on (onList c)
          else t.startPair target c
        | .v2 => if unjoinable c target s then t.on (onList c) else t.enter c target

/-- `on_go`. -/
def onGo (c : Nat) (t : Tables) : Tables :=
  let s := t.server
  match (s.client c).room with
  | none => t
  | some r =>
    if (s.room r).started ∨ roomSeat r c s ≠ some 0 then t
    else if (s.room r).members.length < 2 ∨ s.maxSeats < (s.room r).members.length then t
    else t.startRoom r

/-- `log_crc_v1` or `log_crc`, for client `c` of room `r`. -/
def log (c r : Nat) (payload : List Nat) (t : Tables) : Tables :=
  let members := (t.server.room r).members
  match t.server.proto with
  | .v1 => { t with crclog := (logCrcV1 members c payload t.crclog).1 }.note
      (crcFullV1 members c payload t.crclog)
  | .v2 => { t with
      crc := Function.update t.crc r (logCrc members.length payload (t.crc r)).1 }.note
      (crcFull payload (t.crc r))

/-- The length of a CRC payload. -/
def crcLength : Proto → Nat
  | .v1 => 4
  | .v2 => 5

/-- The relay branch of `handle`. -/
def relay (c ftype : Nat) (payload : List Nat) (t : Tables) : Tables :=
  match (t.server.client c).room with
  | none => t
  | some r =>
    if (t.server.room r).started then
      let t := if ftype = tCrc ∧ payload.length = crcLength t.server.proto then t.log c r payload
        else t
      t.on (C.relay c ftype payload)
    else t

/-- `handle`. -/
def handle (c ftype : Nat) (payload : List Nat) (t : Tables) : Tables :=
  if ftype ∈ relayTypes then t.relay c ftype payload
  else if ftype = tHello then t.onHello c payload
  else if ftype = tList then t.on (onList c)
  else if ftype = tJoin then t.onJoin c payload
  else if ftype = tGo ∧ t.server.proto = .v2 then t.onGo c
  else if ftype = tBye then t.on (drop c)
  else if ftype = tPing then t.on (sendRaw drop c none (frameBuild tPong []))
  else t.on (drop c)

/-- The inner loop of `feed`. -/
def drain : Nat → Nat → Tables → Tables
  | 0, c, t => t.on fun s => s.expect (s.client c).rx.isEmpty
  | fuel + 1, c, t =>
    match (t.server.client c).rx with
    | [] => t
    | len :: rest =>
      if len = 0 ∨ 200 < len then t.on (drop c)
      else if rest.length < len then t
      else
        let t := t.on fun s => s.setRx c (rest.drop len)
        let t := t.handle c (rest.headD 0) ((rest.take len).tail)
        if (t.server.client c).dead then t else drain fuel c t

/-- `feed`. -/
def feed : Nat → Nat → List Nat → Tables → Tables
  | _, _, [], t => t
  | 0, _, _ :: _, t => t.on fun s => s.expect false
  | fuel + 1, c, b :: data, t =>
    let space := rxCap - (t.server.client c).rx.length
    if space = 0 then (t.on (drop c)).note true
    else
      let t := t.on fun s => s.setRx c ((s.client c).rx ++ (b :: data).take space)
      let t := t.drain (t.server.client c).rx.length c
      if (t.server.client c).dead then t else feed fuel c ((b :: data).drop space) t

/-- `accept_client`. -/
def acceptClient (ip : Nat) (t : Tables) : Tables :=
  let s := t.server
  if maxClients ≤ s.nClients then t
  else if maxConnectionsPerIp ≤
      ((List.range maxClients).filter fun i => (s.client i).inUse && (s.client i).ip == ip).length
    then t
  else
    match t.clientAlloc ip with
    | none => t.note true
    | some t => t

/-- One event. -/
def step (t : Tables) : Event → Tables
  | .accept ip => t.acceptClient ip
  | .recv conn data =>
    match slotOf conn t.server with
    | none => t
    | some c => if (t.server.client c).dead then t else t.feed data.length c data
  | .eof conn => t.on (onSlot conn drop)
  | .writable conn => t.on (onSlot conn (flush drop))
  | .sweep late => t.on (sweep late)

/-- A run of the relay. -/
def run (t : Tables) (events : List Event) : Tables := events.foldl step t

/-- The relay at start, as `main` accepts its options: a v1 room is a pair. -/
def init (proto : Proto) (maxSeats : Nat) (delay : Int) (autoGo : Nat)
    (outcomes : List SendResult) (seeds : List Seed) : Tables :=
  { server := Server.init proto maxSeats delay autoGo outcomes seeds }

/-! ## The relay is the same -/

@[simp] theorem on_server (f : Server → Server) (t : Tables) : (t.on f).server = f t.server := rfl

@[simp] theorem note_server (p : Bool) (t : Tables) : (t.note p).server = t.server := rfl

@[simp] theorem log_server (c r : Nat) (payload : List Nat) (t : Tables) :
    (t.log c r payload).server = t.server := by
  unfold log
  dsimp only
  split <;> rfl

theorem register_server (c : Nat) (name : Name) (t : Tables) :
    (t.register c name).server = C.register c name t.server := by
  unfold register C.register
  cases nameFind name t.server with
  | none => rfl
  | some old =>
    dsimp only
    by_cases hold : old = c
    · rw [if_pos hold, if_pos hold]
      rfl
    · rw [if_neg hold, if_neg hold, on_server]
      exact apply_ite Tables.server _ _ _

theorem onHello_server (c : Nat) (payload : List Nat) (t : Tables) :
    (t.onHello c payload).server = C.onHello c payload t.server := by
  unfold onHello C.onHello
  cases helloName t.server.proto payload with
  | none => rfl
  | some name => exact register_server c name t

/-- `start_pair`. -/
theorem startPair_server (host guest : Nat) (t : Tables) :
    (t.startPair host guest).server = C.startPair host guest t.server := by
  unfold startPair C.startPair roomAlloc
  dsimp only [on_server]
  cases C.roomAlloc host { t.server with seeds := t.server.seeds.tail } with
  | none => rfl
  | some p => rfl

theorem roomFor_server (target : Nat) (t : Tables) :
    (t.roomFor target).map (fun p => (p.1, p.2.server)) = C.roomFor target t.server := by
  unfold roomFor C.roomFor roomAlloc
  cases (t.server.client target).room with
  | some r => rfl
  | none =>
    dsimp only
    cases C.roomAlloc target t.server with
    | none => rfl
    | some p => rfl

theorem enter_server (c target : Nat) (t : Tables) :
    (t.enter c target).server = C.enter c target t.server := by
  unfold enter C.enter
  rw [← roomFor_server]
  cases t.roomFor target with
  | none => rfl
  | some p => exact apply_ite Tables.server _ _ _

theorem onJoin_server (c : Nat) (payload : List Nat) (t : Tables) :
    (t.onJoin c payload).server = C.onJoin c payload t.server := by
  unfold onJoin C.onJoin
  dsimp only
  split
  · rfl
  split
  · rfl
  split
  · rfl
  cases nameFind (cString (rstripNulSpace payload)) t.server with
  | none => rfl
  | some target =>
    dsimp only
    cases t.server.proto with
    | v1 =>
      dsimp only
      split
      · rfl
      · exact startPair_server target c t
    | v2 =>
      dsimp only
      split
      · rfl
      · exact enter_server c target t

theorem onGo_server (c : Nat) (t : Tables) : (t.onGo c).server = C.onGo c t.server := by
  unfold onGo C.onGo
  dsimp only
  cases (t.server.client c).room with
  | none => rfl
  | some r =>
    dsimp only
    rw [apply_ite Tables.server, apply_ite Tables.server]
    rfl

/-- Writing the logs changes nothing that is relayed. -/
theorem relay_server (c ftype : Nat) (payload : List Nat) (t : Tables) :
    (t.relay c ftype payload).server = C.relay c ftype payload t.server := by
  unfold relay
  cases hroom : (t.server.client c).room with
  | none =>
    unfold C.relay
    rw [hroom]
  | some r =>
    dsimp only
    by_cases hstarted : (t.server.room r).started = true
    · rw [if_pos hstarted, on_server]
      congr 1
      split
      · exact log_server c r payload t
      · rfl
    · rw [if_neg hstarted]
      unfold C.relay
      rw [hroom]
      dsimp only
      rw [if_neg hstarted]

theorem handle_server (c ftype : Nat) (payload : List Nat) (t : Tables) :
    (t.handle c ftype payload).server = C.handle c ftype payload t.server := by
  unfold handle C.handle
  split_ifs
  · exact relay_server c ftype payload t
  · exact onHello_server c payload t
  · rfl
  · exact onJoin_server c payload t
  · exact onGo_server c t
  · rfl
  · rfl
  · rfl

theorem drain_server (fuel c : Nat) (t : Tables) :
    (t.drain fuel c).server = C.drain fuel c t.server := by
  induction fuel generalizing t with
  | zero => rfl
  | succ fuel ih =>
    unfold drain C.drain
    cases (t.server.client c).rx with
    | nil => rfl
    | cons len rest =>
      dsimp only
      split
      · rfl
      split
      · rfl
      rw [apply_ite Tables.server, ih, handle_server]
      rfl

theorem feed_server (fuel c : Nat) (data : List Nat) (t : Tables) :
    (t.feed fuel c data).server = C.feed fuel c data t.server := by
  induction fuel generalizing data t with
  | zero => cases data <;> rfl
  | succ fuel ih =>
    cases data with
    | nil => rfl
    | cons b data =>
      unfold feed C.feed
      dsimp only
      split
      · rfl
      rw [apply_ite Tables.server, ih, drain_server]
      rfl

theorem acceptClient_server (ip : Nat) (t : Tables) :
    (t.acceptClient ip).server = C.acceptClient ip t.server := by
  unfold acceptClient C.acceptClient clientAlloc
  dsimp only
  split
  · rfl
  split
  · rfl
  cases C.clientAlloc ip t.server <;> rfl

theorem step_server (t : Tables) (e : Event) : (t.step e).server = t.server.step e := by
  cases e with
  | accept ip => exact acceptClient_server ip t
  | recv conn data =>
    unfold step Server.step onSlot
    dsimp only
    cases slotOf conn t.server with
    | none => rfl
    | some c =>
      dsimp only
      rw [apply_ite Tables.server, feed_server]
  | eof conn => exact on_server _ t
  | writable conn => exact on_server _ t
  | sweep late => exact on_server _ t

/-- The relay of `Tables` is the relay. -/
theorem tables_server (t : Tables) (events : List Event) :
    (t.run events).server = t.server.run events := by
  induction events generalizing t with
  | nil => rfl
  | cons e events ih =>
    show ((t.step e).run events).server = (t.server.step e).run events
    rw [ih, step_server]

end Tables

end SharkNetplay.Relay.C
