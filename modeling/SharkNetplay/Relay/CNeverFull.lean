import SharkNetplay.Relay.CCapacity
import SharkNetplay.Relay.CrcSame

/-!
# The fixed tables of the C relay never overflow

In every run, whatever the sends do and whatever the clients send, none of the branches is
taken that the source calls unreachable: there is a row for every tick and a slot in it for
every seat, a place for every name, a room for every pair, a slot for every connection that
is admitted, and space for received bytes.

## Implementation notes

A row has a slot for another seat because a row with as many seats as the room has members is
gone, and a started room keeps its members for as long as it lasts. What is left in a receive
buffer is less than a frame.
-/

namespace SharkNetplay.Relay.C

open Lib Server CrcPayload

variable {t : Tables} {N : Nat → Nat} {c r : Nat}

/-! ## The CRC logs -/

/-- Each room log is one of a room of that many members. -/
def RoomLogs (N : Nat → Nat) (crc : Nat → CrcTable) : Prop :=
  ∀ r, N r ≤ crcSeats ∧ ∃ log, SameLog (N r) (crc r) log

/-- Each client log is in order. -/
def ClientLogs (clients : Nat → CrcClient) : Prop := ∀ c, ∃ d, Logs (clients c) d

theorem RoomLogs.clear {crc : Nat → CrcTable} (h : RoomLogs N crc) (r : Nat) {n : Nat}
    (hn : n ≤ crcSeats) : RoomLogs (Function.update N r n) (Function.update crc r {}) := by
  intro q
  by_cases hq : q = r
  · subst hq
    rw [Function.update_self, Function.update_self]
    exact ⟨hn, {}, SameLog.start n⟩
  · rw [Function.update_of_ne hq, Function.update_of_ne hq]
    exact h q

theorem RoomLogs.write {crc : Nat → CrcTable} (h : RoomLogs N crc) (r : Nat) {v : CrcTable}
    (hv : ∃ log, SameLog (N r) v log) : RoomLogs N (Function.update crc r v) := by
  intro q
  by_cases hq : q = r
  · subst hq
    rw [Function.update_self]
    exact ⟨(h q).1, hv⟩
  · rw [Function.update_of_ne hq]
    exact h q

theorem ClientLogs.write {clients : Nat → CrcClient} (h : ClientLogs clients) (c : Nat)
    {v : CrcClient} (hv : ∃ d, Logs v d) : ClientLogs (Function.update clients c v) := by
  intro m
  by_cases hm : m = c
  · subst hm
    rw [Function.update_self]
    exact hv
  · rw [Function.update_of_ne hm]
    exact h m

/-- `log_crc` finds a row, and a slot in it. -/
theorem SameLog.crcFull_false {n : Nat} {table : CrcTable} {log : Py.CrcLog}
    (h : SameLog n table log) (hn : n ≤ crcSeats) {payload : List Nat}
    (hseat : seat payload < 256) : crcFull payload table = false := by
  obtain ⟨i, table₁, hrowFor, -, -, -, -, hrow, -⟩ :=
    SameTable.rowFor h.table h.few (tick payload)
  obtain ⟨row, hput, -⟩ := hrow.put hseat (h.entry_lt hn _) (crc payload)
  unfold crcFull
  rw [hrowFor]
  dsimp only
  rw [hput]
  rfl

/-- `log_crc_v1` finds an entry, and keeps the logs in order. -/
theorem ClientLogs.logCrcV1 {clients : Nat → CrcClient} (h : ClientLogs clients)
    (members : List Nat) (ci : Nat) (payload : List Nat) :
    ClientLogs (logCrcV1 members ci payload clients).1 ∧
      crcFullV1 members ci payload clients = false := by
  unfold C.logCrcV1 crcFullV1
  cases crcPartner members ci with
  | none => exact ⟨h, rfl⟩
  | some partner =>
    dsimp only
    obtain ⟨d, hd⟩ := h partner
    have hpop := hd.pop (CrcPayloadV1.tick payload)
    cases hget : Dict.get (CrcPayloadV1.tick payload) d with
    | none =>
      rw [hget] at hpop
      obtain ⟨d', hd'⟩ := h ci
      obtain ⟨v, hrecord, -, hv⟩ :=
        hd'.recorded (CrcPayloadV1.tick payload) (CrcPayloadV1.crc payload)
      rw [show (clients partner).pop (CrcPayloadV1.tick payload) = none from hpop]
      dsimp only
      rw [hrecord]
      exact ⟨h.write ci ⟨_, hv⟩, rfl⟩
    | some e =>
      rw [hget] at hpop
      obtain ⟨popped, hpopped, -, hlogs⟩ := hpop
      rw [hpopped]
      dsimp only
      have hout := h.write partner ⟨_, hlogs⟩
      split
      · exact ⟨hout, rfl⟩
      · have hagree : ∀ {vs : Nat → CrcClient}, ClientLogs vs → ∀ m,
            ClientLogs (Function.update vs m (vs m).agree) := fun hvs m => by
          obtain ⟨d₁, hd₁⟩ := hvs m
          exact hvs.write m ⟨d₁, hd₁.agree⟩
        exact ⟨hagree (hagree hout ci) partner, rfl⟩

/-! ## Handlers -/

/-- The tables are in order and none was found full. -/
structure Sized (t : Tables) : Prop where
  rooms : ∃ N, Ready N t.server ∧ RoomLogs N t.crc
  clients : ClientLogs t.crclog
  full : t.full = false

namespace Sized

theorem on (h : Sized t) {f : Server → Server} (hf : ∀ N, Ready N t.server → Ready N (f t.server)) :
    Sized (t.on f) := by
  obtain ⟨N, hready, hlogs⟩ := h.rooms
  exact ⟨⟨N, hf N hready, hlogs⟩, h.clients, h.full⟩

theorem note (h : Sized t) {p : Bool} (hp : p = false) : Sized (t.note p) := by
  refine ⟨h.rooms, h.clients, ?_⟩
  show (t.full || p) = false
  rw [h.full, hp]
  rfl

theorem shape (h : Sized t) : Shape t.server := by
  obtain ⟨N, hready, -⟩ := h.rooms
  exact hready.toShape

/-- The members of a room are at most four. -/
theorem members_le (h : Shape t.server) (r : Nat) :
    (t.server.room r).members.length ≤ crcSeats := by
  have hseats := h.seats.2
  rcases h.size r with hnil | hsize
  · rw [hnil]
    exact Nat.zero_le _
  · simp only [crcSeats]
    omega

theorem startRoom (h : Sized t) (r : Nat) : Sized (t.startRoom r) := by
  obtain ⟨N, hready, hlogs⟩ := h.rooms
  refine ⟨⟨_, hready.startRoom r, ?_⟩, h.clients, h.full⟩
  exact hlogs.clear r (members_le hready.toShape r)

theorem rename (h : Sized t) (hc : Live c t.server) {name : Name} (hne : name ≠ []) :
    Sized (t.rename c name) := by
  obtain ⟨N, hready, hlogs⟩ := h.rooms
  have hset := @Settled.setName _ _ _ c name hready
  have hname : ∀ s : Server, ((s.setName c name).client c).name = name := fun s => by simp
  unfold Tables.rename
  dsimp only
  generalize hs₁ : (if (t.server.client c).name ≠ [] ∧ (t.server.client c).name ≠ name ∧
    nameFind (t.server.client c).name t.server = some c
      then nameDel (t.server.client c).name t.server else t.server) = s₁ at hset ⊢
  have hclient : s₁.client = t.server.client := by
    rw [← hs₁]
    split <;> rfl
  have hlive : Live c (s₁.setName c name) := by
    refine ⟨?_, ?_⟩
    · rw [setName_client_inUse, hclient]
      exact hc.inUse
    · rw [setName_client_dead, hclient]
      exact hc.alive
  have hlive' : Live c (nameSet name c (s₁.setName c name)) := by
    unfold nameSet
    split
    · exact hlive
    · exact ⟨hlive.inUse, hlive.alive⟩
  have hlisted : Sized { t with server := onList c (nameSet name c (s₁.setName c name)) } :=
    ⟨⟨N, (hset.nameSet hlive (hname s₁) hne).onList hlive'.connected, hlogs⟩, h.clients, h.full⟩
  exact hlisted.note (hset.nameFull_false hlive (hname s₁))

theorem register (h : Sized t) (hc : Live c t.server) {name : Name} (hne : name ≠ []) :
    Sized (t.register c name) := by
  unfold Tables.register
  cases hfind : nameFind name t.server with
  | none => exact h.rename hc hne
  | some old =>
    dsimp only
    split
    · exact h.rename hc hne
    · have hold := h.shape.keyed _ (Dict.mem_of_get hfind)
      have hdrop : Sized (t.on (drop old)) := h.on fun N hN => hN.drop hold.connected
      split
      · exact hdrop
      next halive =>
      apply hdrop.rename _ hne
      exact live_of_handle ((lasting_connected c).drop old _ hc.connected) halive

theorem onHello (h : Sized t) (hc : Live c t.server) (payload : List Nat) :
    Sized (t.onHello c payload) := by
  unfold Tables.onHello
  cases hname : helloName t.server.proto payload with
  | none => exact h.on fun N hN => hN.drop hc.connected
  | some name =>
    apply h.register hc
    rintro rfl
    unfold helloName at hname
    split at hname
    · exact nomatch hname
    split at hname
    · exact nomatch hname
    dsimp only at hname
    split at hname
    · next hlen =>
        rw [Option.some.inj hname] at hlen
        exact absurd hlen.1 (by simp)
    · exact nomatch hname

/-- A v1 pair. -/
theorem startPair {host guest : Nat} (h : Sized t) (hhost : Live host t.server)
    (hguest : Live guest t.server) (hne : host ≠ guest) (hrh : (t.server.client host).room = none)
    (hrg : (t.server.client guest).room = none) : Sized (t.startPair host guest) := by
  obtain ⟨N, hready, hlogs⟩ := h.rooms
  have hseeds : Ready N { t.server with seeds := t.server.seeds.tail } :=
    hready.same ⟨rfl, rfl, rfl, fun _ => rfl, fun _ => rfl, fun _ => rfl, fun _ => rfl, rfl, rfl,
      rfl, rfl⟩ rfl fun _ => rfl
  have hhost' : Live host { t.server with seeds := t.server.seeds.tail } :=
    ⟨hhost.inUse, hhost.alive⟩
  have hguest' : Live guest { t.server with seeds := t.server.seeds.tail } :=
    ⟨hguest.inUse, hguest.alive⟩
  obtain ⟨r, s₁, halloc⟩ := hseeds.roomAlloc_some hhost' hguest' hne hrh hrg
  have hjoin := @paired_joined _ _ _ guest _ halloc
  have hpair := hseeds.paired hhost' hguest' hne hrh hrg halloc
  have hstart := hpair.start (r := r) (fun _ => by
    rw [hjoin.members, Function.update_self]
    rfl) (t.server.seeds.headD default).val
  unfold Tables.startPair Tables.roomAlloc
  dsimp only [Tables.on_server]
  rw [halloc, Option.map_some]
  dsimp only [Tables.on, Tables.clearRoom]
  refine ⟨⟨_, ?_, hlogs.clear r (n := 2) (by decide)⟩, ?_, h.full⟩
  · have hmembers := (start_members r _ r (t.server.seeds.headD default).val).trans hjoin.members
    dsimp only
    rw [paired_start]
    exact hstart.sendEach (dropN_settles maxClients) [host, guest]
      (fun m hm => hstart.connected_member (r := r) (by rw [hmembers]; exact hm)) (lives_le _) _ _
      _ _
  · exact (h.clients.write host ⟨[], Logs.empty⟩).write guest ⟨[], Logs.empty⟩

/-- A client enters the room of another, which may be a new one. -/
theorem enter {target : Nat} (h : Sized t) (hc : Live c t.server) (ht : Live target t.server)
    (hroom : (t.server.client c).room = none) (hjoin : unjoinable c target t.server = false) :
    Sized (t.enter c target) := by
  obtain ⟨N, hready, hlogs⟩ := h.rooms
  have hne : target ≠ c := by
    rintro rfl
    simp [unjoinable] at hjoin
  -- what follows once the client is in the room
  have hrest : ∀ t₁ : Tables, Sized t₁ → ∀ q, Sized
      (if (t₁.on (roomBroadcast drop q)).server.autoGo ≠ 0 ∧
          (t₁.on (roomBroadcast drop q)).server.autoGo ≤
            ((t₁.on (roomBroadcast drop q)).server.room q).members.length
        then (t₁.on (roomBroadcast drop q)).startRoom q else t₁.on (roomBroadcast drop q)) := by
    intro t₁ h₁ q
    have hbroad : Sized (t₁.on (roomBroadcast drop q)) := h₁.on fun N hN =>
      hN.roomBroadcast (dropN_settles maxClients) (lives_le _) q
    split
    · exact hbroad.startRoom q
    · exact hbroad
  unfold Tables.enter Tables.roomFor
  cases htroom : (t.server.client target).room with
  | some q =>
    have hmem : target ∈ (t.server.room q).members := (hready.link target q).mpr htroom
    have hopen : (t.server.room q).started = false ∧
        (t.server.room q).members.length < t.server.maxSeats := by
      have hall : (t.server.client target).name.isEmpty = false ∧
          (t.server.room q).started = false ∧
            (t.server.room q).members.length < t.server.maxSeats := by
        simpa [unjoinable, htroom, hne] using hjoin
      exact hall.2
    have hout : c ∉ (t.server.room q).members := fun hin => by
      have hlink := (hready.link c q).mp hin
      rw [hroom] at hlink
      exact absurd hlink (by simp)
    have hge : 1 ≤ (t.server.room q).members.length := List.length_pos_of_mem hmem
    have hjoined := entered_joined (c := c) hready.toShape (List.ne_nil_of_mem hmem)
    have hentered : Ready N ((t.server.seat q ((t.server.room q).members ++ [c])).link c
        (some q)) := by
      apply hready.joined hjoined
      · intro m hm
        exact List.mem_append_left _ hm
      · exact List.nodup_append.mpr ⟨hready.nodup q, List.nodup_singleton c, fun a ha b hb hab => by
          rw [List.mem_singleton] at hb
          exact hout (hb ▸ hab ▸ ha)⟩
      · rw [List.length_append, List.length_singleton]
        omega
      · intro m hm
        rcases List.mem_append.mp hm with hm | hm
        · exact hready.lively m (by rw [(hready.link m q).mp hm]; simp)
        · rw [List.mem_singleton.mp hm]
          exact hc
      · intro m hm
        rcases List.mem_append.mp hm with hm | hm
        · exact .inl hm
        · rw [List.mem_singleton.mp hm]
          exact .inr hroom
      · simpa using hopen.1
      · rfl
      · intro m
        simp
    exact hrest (t.on fun s => (s.seat q ((s.room q).members ++ [c])).link c (some q))
      ⟨⟨N, hentered, hlogs⟩, h.clients, h.full⟩ q
  | none =>
    obtain ⟨q, s₁, halloc⟩ := hready.roomAlloc_some ht hc hne htroom hroom
    obtain ⟨-, hmembers, -, -⟩ := roomAlloc_fresh halloc
    have hpair := hready.paired ht hc hne htroom hroom halloc
    have hstate : ((s₁.link target (some q)).seat q
        (((s₁.link target (some q)).room q).members ++ [c])).link c (some q) =
          paired target c q s₁ := by
      rw [link_room, hmembers]
      rfl
    unfold Tables.roomAlloc
    rw [halloc]
    refine hrest { t with
      server := ((s₁.link target (some q)).seat q
        (((s₁.link target (some q)).room q).members ++ [c])).link c (some q)
      crc := Function.update t.crc q {} } ⟨⟨_, ?_, hlogs.clear q (n := 2) (by decide)⟩, h.clients,
        h.full⟩ q
    rw [hstate]
    exact hpair

theorem onJoin (h : Sized t) (hc : Live c t.server) (payload : List Nat) :
    Sized (t.onJoin c payload) := by
  have hlist : Sized (t.on (onList c)) := h.on fun N hN => hN.onList hc.connected
  unfold Tables.onJoin
  dsimp only
  split
  · exact h.on fun N hN => hN.drop hc.connected
  split
  · exact h
  next hin =>
  have hroom : (t.server.client c).room = none := by
    cases hr : (t.server.client c).room with
    | none => rfl
    | some _ => simp [hr] at hin
  split
  · exact hlist
  cases htarget : nameFind (cString (rstripNulSpace payload)) t.server with
  | none => exact hlist
  | some target =>
    have ht := h.shape.keyed _ (Dict.mem_of_get htarget)
    dsimp only
    split
    · split
      · exact hlist
      next hidle =>
      have hidle' : target ≠ c ∧ (t.server.client target).room = none := by
        refine ⟨fun heq => hidle (.inl heq), ?_⟩
        cases hr : (t.server.client target).room with
        | none => rfl
        | some _ => exact absurd (.inr (.inr (by rw [hr]; rfl))) hidle
      exact h.startPair ht hc hidle'.1 hidle'.2 hroom
    · split
      · exact hlist
      next hopen => exact h.enter hc ht hroom (by simpa using hopen)

theorem onGo (h : Sized t) : Sized (t.onGo c) := by
  unfold Tables.onGo
  dsimp only
  split
  · exact h
  split
  · exact h
  split
  · exact h
  · exact h.startRoom _

/-- The CRC logs of a started room. -/
theorem log (h : Sized t) (hroom : (t.server.client c).room = some r)
    (hstarted : (t.server.room r).started = true) {payload : List Nat}
    (hbytes : ∀ b ∈ payload, b < 256) : Sized (t.log c r payload) := by
  obtain ⟨N, hready, hlogs⟩ := h.rooms
  unfold Tables.log
  dsimp only
  split
  · obtain ⟨hclients, hfull⟩ := h.clients.logCrcV1 (t.server.room r).members c payload
    have hlogged : Sized { t with
        crclog := (logCrcV1 (t.server.room r).members c payload t.crclog).1 } :=
      ⟨⟨N, hready, hlogs⟩, hclients, h.full⟩
    exact hlogged.note hfull
  · have hmem : c ∈ (t.server.room r).members := (hready.link c r).mpr hroom
    have hseat : seat payload < 256 := by
      cases payload with
      | nil => decide
      | cons b _ => exact hbytes b List.mem_cons_self
    obtain ⟨hn, log, hlog⟩ := hlogs r
    have hfull := hlog.crcFull_false hn hseat
    rw [hready.seated r (List.ne_nil_of_mem hmem) hstarted]
    have hlogged : Sized { t with
        crc := Function.update t.crc r (logCrc (N r) payload (t.crc r)).1 } := by
      exact ⟨⟨N, hready, hlogs.write r ⟨_, (hlog.logCrc hn hseat).1⟩⟩, h.clients, h.full⟩
    exact hlogged.note hfull

theorem relay (h : Sized t) (ftype : Nat) {payload : List Nat} (hbytes : ∀ b ∈ payload, b < 256) :
    Sized (t.relay c ftype payload) := by
  have hrelay : ∀ {t₁ : Tables}, Sized t₁ → Sized (t₁.on (C.relay c ftype payload)) := by
    intro t₁ h₁
    apply h₁.on
    intro N hN
    unfold C.relay
    split
    · exact hN
    split
    · exact hN.sendEach (dropN_settles maxClients) _
        (fun m hm => hN.connected_member (List.mem_of_mem_filter hm)) (lives_le _) _ _ _ _
    · exact hN
  unfold Tables.relay
  cases hroom : (t.server.client c).room with
  | none => exact h
  | some r =>
    dsimp only
    split
    · next hstarted =>
        apply hrelay
        split
        · exact h.log hroom hstarted hbytes
        · exact h
    · exact h

theorem handle (h : Sized t) (hc : Live c t.server) (ftype : Nat) {payload : List Nat}
    (hbytes : ∀ b ∈ payload, b < 256) : Sized (t.handle c ftype payload) := by
  have hdrop : Sized (t.on (drop c)) := h.on fun N hN => hN.drop hc.connected
  unfold Tables.handle
  split_ifs
  · exact h.relay ftype hbytes
  · exact h.onHello hc payload
  · exact h.on fun N hN => hN.onList hc.connected
  · exact h.onJoin hc payload
  · exact h.onGo
  · exact hdrop
  · exact h.on fun N hN => hN.sendTo hc.connected _ _
  · exact hdrop

end Sized

/-! ## Received bytes -/

/-- What may be left in a receive buffer: bytes, and less than a frame. -/
structure Short (rx : List Nat) : Prop where
  short : rx.length ≤ 200
  bytes : ∀ b ∈ rx, b < 256

/-- The receive buffers of the clients that are not dead. -/
def Fed (s : Server) : Prop := ∀ m, (s.client m).dead = false → Short (s.client m).rx

/-- A client that is dead stays so until its slot is given away. -/
theorem lasting_dead (c : Nat) : Lasting fun s => (s.client c).dead = true :=
  { steady_dead c with
    setName := fun d name s h => by
      rw [setName_client_dead]
      exact h
    byName := fun _ _ h => h
    seeds := fun _ _ h => h
    start := fun _ _ _ h => h
    opened := fun _ _ _ _ h => h
    linked := fun d q s h => by
      rw [link_client_dead]
      exact h }

/-- Who is alive was alive, with the same buffer. -/
theorem Fed.mono {s s' : Server} (h : Fed s) (hrx : ∀ m, (s'.client m).rx = (s.client m).rx)
    (hdead : ∀ m, (s.client m).dead = true → (s'.client m).dead = true) : Fed s' := by
  intro m hm
  rw [hrx]
  apply h
  cases hd : (s.client m).dead with
  | false => rfl
  | true =>
    rw [hdead m hd] at hm
    exact absurd hm (by simp)

theorem Fed.drop {s : Server} (h : Fed s) (c : Nat) : Fed (drop c s) :=
  h.mono (fun m => (lasting_rx m (s.client m).rx).drop c s rfl)
    fun m hm => (lasting_dead m).drop c s hm

/-- A client whose buffer may hold anything while it is being read. -/
def FedBut (c : Nat) (s : Server) : Prop :=
  ∀ m, m ≠ c → (s.client m).dead = false → Short (s.client m).rx

theorem FedBut.dead {s : Server} (h : FedBut c s) (hdead : (s.client c).dead = true) : Fed s := by
  intro m hm
  apply h m _ hm
  rintro rfl
  rw [hdead] at hm
  exact absurd hm (by simp)

theorem FedBut.fed {s : Server} (h : FedBut c s) (hc : Short (s.client c).rx) : Fed s := by
  intro m hm
  by_cases hmc : m = c
  · rw [hmc]
    exact hc
  · exact h m hmc hm

/-- The buffer of `c` is written. -/
theorem FedBut.setRx {s : Server} (h : FedBut c s) (rx : List Nat) : FedBut c (s.setRx c rx) := by
  intro m hmc hm
  rw [setRx_client_rx, if_neg hmc]
  exact h m hmc (by simpa using hm)

theorem FedBut.handle {s : Server} (h : FedBut c s) (ftype : Nat) (payload : List Nat) :
    FedBut c (handle c ftype payload s) := by
  intro m hmc hm
  rw [(lasting_rx m (s.client m).rx).handle c ftype payload s rfl]
  apply h m hmc
  cases hd : (s.client m).dead with
  | false => rfl
  | true =>
    rw [(lasting_dead m).handle c ftype payload s hd] at hm
    exact absurd hm (by simp)

namespace Sized

/-- The inner loop of `feed` ends with less than a frame, or the client dead. -/
theorem drain (fuel : Nat) (h : Sized t) (hc : Live c t.server) (hfed : FedBut c t.server)
    (hbytes : ∀ b ∈ (t.server.client c).rx, b < 256)
    (hfuel : (t.server.client c).rx.length ≤ fuel) :
    Sized (t.drain fuel c) ∧ Fed (t.drain fuel c).server := by
  induction fuel generalizing t with
  | zero =>
    have hrx : (t.server.client c).rx = [] := List.eq_nil_of_length_eq_zero (by omega)
    have hsame : t.drain 0 c = t := by
      have hempty : (t.server.client c).rx.isEmpty = true := by rw [hrx]; rfl
      have hexpect : expect (t.server.client c).rx.isEmpty t.server = t.server :=
        expect_pos hempty _
      exact congrArg (fun s => { t with server := s }) hexpect
    rw [hsame]
    exact ⟨h, hfed.fed (by rw [hrx]; exact ⟨Nat.zero_le _, by simp⟩)⟩
  | succ fuel ih =>
    unfold Tables.drain
    cases hrx : (t.server.client c).rx with
    | nil => exact ⟨h, hfed.fed (by rw [hrx]; exact ⟨Nat.zero_le _, by simp⟩)⟩
    | cons len rest =>
      dsimp only
      rw [hrx] at hbytes
      split
      · have hdead : ((C.drop c t.server).client c).dead = true := dead_dropN 63 c t.server
        have hfed' : FedBut c (C.drop c t.server) := fun m hmc hm => by
          rw [(lasting_rx m (t.server.client m).rx).drop c t.server rfl]
          apply hfed m hmc
          cases hd : (t.server.client m).dead with
          | false => rfl
          | true =>
            rw [(lasting_dead m).drop c t.server hd] at hm
            exact absurd hm (by simp)
        exact ⟨h.on fun N hN => hN.drop hc.connected, hfed'.dead hdead⟩
      next hlen =>
      split
      · next hwait =>
          refine ⟨h, hfed.fed ?_⟩
          rw [hrx]
          refine ⟨?_, hbytes⟩
          rw [List.length_cons]
          omega
      next hwhole =>
      have hrest : ∀ b ∈ rest, b < 256 := fun b hb => hbytes b (List.mem_cons_of_mem _ hb)
      have hsame := setRx_same c (rest.drop len) t.server
      have h₁ : Sized (t.on fun s => s.setRx c (rest.drop len)) := h.on fun N hN =>
        hN.same (setRx_same c _ _) rfl fun m => by simp
      have hlive₁ : Live c (t.server.setRx c (rest.drop len)) := hsame.live.mpr hc
      have hpayload : ∀ b ∈ (rest.take len).tail, b < 256 := fun b hb =>
        hrest b (List.mem_of_mem_take (List.mem_of_mem_tail hb))
      have h₂ := h₁.handle hlive₁ (rest.headD 0) hpayload
      have hfed₂ := (hfed.setRx (rest.drop len)).handle (rest.headD 0) (rest.take len).tail
      have hserver := Tables.handle_server c (rest.headD 0) (rest.take len).tail
        (t.on fun s => s.setRx c (rest.drop len))
      rw [Tables.on_server] at hserver
      rw [← hserver] at hfed₂
      have hconn := (lasting_connected c).handle c (rest.headD 0) (rest.take len).tail
        (t.server.setRx c (rest.drop len)) hlive₁.connected
      rw [← hserver] at hconn
      have hrx₂ := (lasting_rx c (rest.drop len)).handle c (rest.headD 0) (rest.take len).tail
        (t.server.setRx c (rest.drop len)) (by simp)
      rw [← hserver] at hrx₂
      split
      · next hdead => exact ⟨h₂, hfed₂.dead hdead⟩
      · next halive =>
          apply ih h₂ (live_of_handle hconn halive) hfed₂
          · rw [hrx₂]
            exact fun b hb => hrest b (List.mem_of_mem_drop hb)
          · rw [hrx₂, List.length_drop]
            rw [hrx, List.length_cons] at hfuel
            omega

/-- `feed` always has space for a byte. -/
theorem feed (fuel : Nat) (data : List Nat) (h : Sized t) (hc : Live c t.server)
    (hfed : Fed t.server) (hbytes : ∀ b ∈ data, b < 256) (hfuel : data.length ≤ fuel) :
    Sized (t.feed fuel c data) ∧ Fed (t.feed fuel c data).server := by
  induction fuel generalizing t data with
  | zero =>
    rw [List.eq_nil_of_length_eq_zero (Nat.le_zero.mp hfuel)]
    exact ⟨h, hfed⟩
  | succ fuel ih =>
    cases data with
    | nil => exact ⟨h, hfed⟩
    | cons b data =>
      have hshort := hfed c hc.alive
      have hspace : rxCap - (t.server.client c).rx.length ≠ 0 := by
        have hle := hshort.short
        simp only [rxCap]
        omega
      unfold Tables.feed
      dsimp only
      rw [if_neg hspace]
      generalize hrx : (t.server.client c).rx ++
        (b :: data).take (rxCap - (t.server.client c).rx.length) = rx
      have hin : ∀ b' ∈ rx, b' < 256 := by
        intro b' hb'
        rw [← hrx] at hb'
        rcases List.mem_append.mp hb' with hb' | hb'
        · exact hshort.bytes b' hb'
        · exact hbytes b' (List.mem_of_mem_take hb')
      have h₁ : Sized (t.on fun s => s.setRx c rx) := h.on fun N hN =>
        hN.same (setRx_same c _ _) rfl fun m => by simp
      have hfed₁ : FedBut c (t.server.setRx c rx) :=
        FedBut.setRx (fun m _ hm => hfed m hm) rx
      have hlive₁ : Live c (t.server.setRx c rx) := (setRx_same c rx t.server).live.mpr hc
      have hself : ((t.server.setRx c rx).client c).rx = rx := by simp
      have hread : (t.on fun s => s.setRx c ((s.client c).rx ++
          (b :: data).take (rxCap - (t.server.client c).rx.length))) =
            t.on fun s => s.setRx c rx := by
        rw [← hrx]
        rfl
      rw [hread]
      obtain ⟨h₂, hfed₂⟩ := h₁.drain _ hlive₁ hfed₁ (by rw [Tables.on_server, hself]; exact hin)
        (Nat.le_refl _)
      split
      · exact ⟨h₂, hfed₂⟩
      next halive =>
      apply ih _ h₂ _ hfed₂
      · exact fun b' hb' => hbytes b' (List.mem_of_mem_drop hb')
      · rw [List.length_drop]
        rw [List.length_cons] at hfuel ⊢
        omega
      · apply live_of_handle _ halive
        rw [Tables.drain_server]
        exact (lasting_connected c).drain (fun d rx s h => connected_setRx c d rx s h) _
          hlive₁.connected

end Sized

/-! ## Events -/

/-- The tables and the receive buffers between events. -/
def Whole (t : Tables) : Prop := Sized t ∧ Fed t.server

/-- A new connection takes a free slot. -/
theorem Settled.admitted {s : Server} {K : Nat → Prop} {i ip : Nat} (h : Settled N K s)
    (hfree : (s.client i).inUse = false) (hslot : i < maxClients) :
    Settled N K (admitted i ip s) := by
  have hold : ∀ {m}, (s.client m).inUse = true → (C.admitted i ip s).client m = s.client m := by
    intro m hm
    rw [admitted_client, if_neg]
    rintro rfl
    rw [hfree] at hm
    exact absurd hm (by simp)
  exact
    { toShape := h.toShape.admitted hfree hslot
      names :=
        { keyed := h.names.keyed
          own := fun e he => by
            rw [hold (h.keyed e he).inUse]
            exact h.names.own e he
          named := h.names.named }
      busy := h.busy
      seated := h.seated
      count := by
        have hwritten : Slots.count Client.inUse maxClients (C.admitted i ip s).client +
            (s.client i).inUse.toNat =
              Slots.count Client.inUse maxClients s.client + true.toNat :=
          Slots.count_update hslot _
        rw [hfree, ← h.count, Bool.toNat_true, Bool.toNat_false] at hwritten
        exact hwritten.symm
      held := fun k hk => by
        rw [hold (h.held k hk).2]
        exact h.held k hk }

theorem Whole.acceptClient (h : Whole t) (ip : Nat) : Whole (t.acceptClient ip) := by
  obtain ⟨⟨N, hready, hlogs⟩, hclients, hfull⟩ := h.1
  unfold Tables.acceptClient
  dsimp only
  split
  · exact h
  next hcap =>
  split
  · exact h
  have hroom : Slots.count Client.inUse maxClients t.server.client < maxClients := by
    rw [← hready.count]
    omega
  obtain ⟨i, hi⟩ := Slots.free_isSome hroom
  obtain ⟨hslot, hfree⟩ := Slots.free_some hi
  have halloc : C.clientAlloc ip t.server = some (admitted i ip t.server) :=
    congrArg (Option.map _) hi
  unfold Tables.clientAlloc
  rw [halloc, Option.map_some]
  refine ⟨⟨⟨N, hready.admitted hfree hslot, hlogs⟩, ?_, hfull⟩, ?_⟩
  · exact hclients.write _ ⟨[], Logs.empty⟩
  · intro m hm
    show Short ((admitted i ip t.server).client m).rx
    have hm' : ((admitted i ip t.server).client m).dead = false := hm
    rw [admitted_client] at hm' ⊢
    split
    · exact ⟨Nat.zero_le _, by simp⟩
    · next hmi =>
        rw [if_neg hmi] at hm'
        exact h.2 m hm'

/-- What happens to a live client happens through `act`. -/
theorem Whole.onSlot (h : Whole t) {act : Nat → Server → Server}
    (hact : ∀ c, Live c t.server → ∀ N, Ready N t.server → Ready N (act c t.server))
    (hfed : ∀ c, Fed (act c t.server)) (conn : Nat) : Whole (t.on (onSlot conn act)) := by
  refine ⟨h.1.on fun N hN => ?_, ?_⟩
  · unfold C.onSlot
    split
    · exact hN
    next c hc =>
    split
    · exact hN
    · next halive => exact hact c ⟨(slotOf_inUse hc).1, by simpa using halive⟩ N hN
  · rw [Tables.on_server]
    unfold C.onSlot
    split
    · exact h.2
    split
    · exact h.2
    · exact hfed _

theorem Whole.step (h : Whole t) (e : Event)
    (hbytes : ∀ conn data, e = .recv conn data → ∀ b ∈ data, b < 256) : Whole (t.step e) := by
  cases e with
  | accept ip => exact h.acceptClient ip
  | recv conn data =>
    unfold Tables.step
    dsimp only
    cases hslot : slotOf conn t.server with
    | none => exact h
    | some c =>
      dsimp only
      split
      · exact h
      · next halive =>
          have hlive : Live c t.server := ⟨(slotOf_inUse hslot).1, by simpa using halive⟩
          exact h.1.feed _ data hlive h.2 (hbytes conn data rfl) (Nat.le_refl _)
  | eof conn => exact h.onSlot (fun c hc N hN => hN.drop hc.connected) (fun c => h.2.drop c) conn
  | writable conn =>
    -- what the socket takes is out of the transmit buffer
    have htx : ∀ c, Same t.server ({ t.server with
        outcomes := (flushLoop t.server.outcomes (t.server.client c).tx).rest }.onClient c
          fun v => { v with tx := (flushLoop t.server.outcomes (t.server.client c).tx).tx }) :=
      fun c => ⟨rfl, rfl, rfl, fun m => onClient_proj Client.room rfl m,
        fun m => onClient_proj Client.dead rfl m, fun m => onClient_proj Client.inUse rfl m,
        fun m => onClient_proj Client.conn rfl m, rfl, rfl, rfl, rfl⟩
    apply h.onSlot
    · intro c hc N hN
      have h₁ := hN.same (htx c) rfl fun m => onClient_proj Client.name rfl m
      unfold flush
      dsimp only
      split
      · exact h₁
      · exact h₁.drop ((htx c).live.mpr hc).connected
    · intro c
      have h₁ : Fed ({ t.server with
          outcomes := (flushLoop t.server.outcomes (t.server.client c).tx).rest }.onClient c
            fun v => { v with tx := (flushLoop t.server.outcomes (t.server.client c).tx).tx }) :=
        h.2.mono (fun m => onClient_proj Client.rx rfl m) fun m hm => ((htx c).dead m).trans hm
      unfold flush
      dsimp only
      split
      · exact h₁
      · exact h₁.drop c
  | sweep late =>
    have hslot : ∀ (slots : List Nat) (s : Server), Fed s → (∀ N, Ready N t.server → Ready N s) →
        Fed (slots.foldl (sweepSlot late) s) ∧
          ∀ N, Ready N t.server → Ready N (slots.foldl (sweepSlot late) s) := by
      intro slots
      induction slots with
      | nil => exact fun s hfed hready => ⟨hfed, hready⟩
      | cons i slots ih =>
        intro s hfed hready
        apply ih
        · unfold sweepSlot
          split
          · exact hfed.drop i
          · exact hfed
        · intro N hN
          unfold sweepSlot
          split
          · next hlate =>
              apply (hready N hN).drop
              simp only [Bool.and_eq_true] at hlate
              exact .inl hlate.1.1.1
          · exact hready N hN
    have hall := hslot (List.range maxClients) t.server h.2 fun _ hN => hN
    have hready : ∀ N, Ready N t.server → Ready N (C.sweep late t.server) := hall.2
    have hfed : Fed (C.sweep late t.server) := hall.1
    rw [← Tables.on_server (C.sweep late) t] at hfed
    exact ⟨h.1.on hready, hfed⟩

theorem Whole.run (h : Whole t) (events : List Event)
    (hbytes : ∀ conn data, .recv conn data ∈ events → ∀ b ∈ data, b < 256) :
    Whole (t.run events) := by
  induction events generalizing t with
  | nil => exact h
  | cons e events ih =>
    apply ih (h.step e fun conn data he => hbytes conn data (he ▸ List.mem_cons_self))
    exact fun conn data he => hbytes conn data (List.mem_cons_of_mem e he)

theorem init_whole {proto : Proto} {maxSeats : Nat} (delay : Int) (autoGo : Nat)
    (outcomes : List SendResult) (seeds : List Seed) (hseats : 2 ≤ maxSeats ∧ maxSeats ≤ 4)
    (hproto : proto = .v1 → maxSeats = 2) :
    Whole (Tables.init proto maxSeats delay autoGo outcomes seeds) := by
  have hsound := init_sound delay autoGo outcomes seeds hseats hproto
  refine ⟨⟨⟨fun _ => 0, ?_, fun r => ⟨Nat.zero_le _, {}, SameLog.start 0⟩⟩,
    fun c => ⟨[], Logs.empty⟩, rfl⟩, fun m _ => ⟨Nat.zero_le _, by simp [Tables.init, Server.init]⟩⟩
  exact
    { toShape := hsound.toShape
      names := ⟨List.nodup_nil, fun e he => absurd he List.not_mem_nil,
        fun m hm => absurd hm List.not_mem_nil⟩
      busy := fun r hr => absurd hr Bool.false_ne_true
      seated := fun r hr => absurd rfl hr
      count := (List.countP_eq_zero.mpr fun i _ => by simp [Tables.init, Server.init]).symm
      held := fun k hk => hk.elim }

/-- The fixed tables never overflow, whatever is sent and whatever fails: between events the
rooms, the names and the CRC logs are in order, and no branch that is called unreachable was
taken. -/
theorem tables_never_full {proto : Proto} {maxSeats : Nat} (delay : Int) (autoGo : Nat)
    (outcomes : List SendResult) (seeds : List Seed) (events : List Event)
    (hseats : 2 ≤ maxSeats ∧ maxSeats ≤ 4) (hproto : proto = .v1 → maxSeats = 2)
    (hbytes : ∀ conn data, .recv conn data ∈ events → ∀ b ∈ data, b < 256) :
    let t := (Tables.init proto maxSeats delay autoGo outcomes seeds).run events
    t.server = (Server.init proto maxSeats delay autoGo outcomes seeds).run events ∧
      (∀ r, (t.server.room r).used = true →
        2 ≤ (t.server.room r).members.length ∧ (t.server.room r).members.length ≤ maxSeats ∧
          ∀ m ∈ (t.server.room r).members, Live m t.server) ∧
      ((t.server.byName.map Prod.snd).Nodup ∧ ∀ e ∈ t.server.byName, Live e.2 t.server) ∧
      (∀ r, (t.crc r).ncrc = Slots.count CrcRow.inUse (crcTicks + 1) (t.crc r).crc ∧
        ∀ i < crcTicks + 1, ∀ j < crcTicks + 1, ((t.crc r).crc i).inUse = true →
          ((t.crc r).crc j).inUse = true → ((t.crc r).crc i).tick = ((t.crc r).crc j).tick → i = j) ∧
      (∀ c, (t.crclog c).ncrclog =
          Slots.count CrcEntry.inUse (crcTicks + 1) (t.crclog c).crclog ∧
        ∀ i < crcTicks + 1, ∀ j < crcTicks + 1, ((t.crclog c).crclog i).inUse = true →
          ((t.crclog c).crclog j).inUse = true →
            ((t.crclog c).crclog i).tick = ((t.crclog c).crclog j).tick → i = j) ∧
      t.full = false := by
  intro t
  have hserver := Tables.tables_server (Tables.init proto maxSeats delay autoGo outcomes seeds)
    events
  have hwhole := (init_whole delay autoGo outcomes seeds hseats hproto).run events hbytes
  obtain ⟨⟨N, hready, hlogs⟩, hclients, hfull⟩ := hwhole.1
  have hmax : t.server.maxSeats = maxSeats := by
    show (Tables.run _ events).server.maxSeats = maxSeats
    rw [hserver]
    exact (enduring_maxSeats maxSeats).run events rfl
  refine ⟨hserver, fun r hr => ?_, ⟨Settled.clients_nodup hready.names, hready.keyed⟩,
    fun r => ?_, fun c => ?_, hfull⟩
  · have hsize := (hready.size r).resolve_left (hready.busy r hr)
    refine ⟨hsize.1, hmax ▸ hsize.2, fun m hm => hready.lively m ?_⟩
    rw [(hready.link m r).mp hm]
    simp
  · obtain ⟨-, log, hlog⟩ := hlogs r
    exact ⟨hlog.table.2.trans hlog.table.1.count.symm, hlog.table.1.distinct⟩
  · obtain ⟨d, hd⟩ := hclients c
    exact ⟨hd.count, hd.stores.distinct⟩

/-- Two clients of a v2 relay in one room, each with a name. -/
theorem tables_never_full_joining :
    let t := (Tables.init .v2 2 2 0 [] []).run joining
    t.server = (Server.init .v2 2 2 0 [] []).run joining ∧
      (∀ r, (t.server.room r).used = true →
        2 ≤ (t.server.room r).members.length ∧ (t.server.room r).members.length ≤ 2 ∧
          ∀ m ∈ (t.server.room r).members, Live m t.server) ∧ t.full = false := by
  have hbytes : ∀ conn data, .recv conn data ∈ joining → ∀ b ∈ data, b < 256 := by
    intro conn data hmem
    simp only [joining, List.mem_cons, List.not_mem_nil, or_false, reduceCtorEq, false_or,
      Event.recv.injEq] at hmem
    rcases hmem with ⟨-, rfl⟩ | ⟨-, rfl⟩ | ⟨-, rfl⟩ <;> decide
  have hall := @tables_never_full .v2 2 2 0 [] [] joining (by decide) (by decide) hbytes
  exact ⟨hall.1, hall.2.1, hall.2.2.2.2.2⟩

end SharkNetplay.Relay.C
