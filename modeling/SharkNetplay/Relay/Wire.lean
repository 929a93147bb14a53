import Mathlib.Data.List.Basic

/-!
# The relay's wire protocol

Frame types, sizes and limits of protocol v2, and what a socket does with the
bytes it is offered. Both relays share these constants.
-/

namespace SharkNetplay.Relay

/-! Frame types. -/

@[simp] def tHello : Nat := 0x01
@[simp] def tList : Nat := 0x02
@[simp] def tLobby : Nat := 0x03
@[simp] def tJoin : Nat := 0x04
@[simp] def tStart : Nat := 0x05
@[simp] def tInput : Nat := 0x06
@[simp] def tCrc : Nat := 0x07
@[simp] def tState : Nat := 0x08
@[simp] def tResync : Nat := 0x09
@[simp] def tBye : Nat := 0x0A
@[simp] def tPeerLeft : Nat := 0x0B
@[simp] def tPing : Nat := 0x0C
@[simp] def tPong : Nat := 0x0D
@[simp] def tRoom : Nat := 0x0E
@[simp] def tGo : Nat := 0x0F

/-- `RELAY_TYPES`. -/
def relayTypes : List Nat := [tInput, tCrc, tState, tResync]

/-- Roster slots on the wire. -/
@[simp] def rosterSlots : Nat := 4

def maxTxBacklog : Nat := 64 * 1024

@[simp] def maxClients : Nat := 64
@[simp] def maxConnectionsPerIp : Nat := 8

/-- A name as its bytes. -/
abbrev Name := List Nat

/-- Whether a byte is in `NAME_CHARS`: `A-Z0-9`. -/
def nameChar (b : Nat) : Bool := (65 ≤ b && b ≤ 90) || (48 ≤ b && b ≤ 57)

/-- A match seed, `1 .. 0xFFFF`. -/
structure Seed where
  val : Nat
  pos : 1 ≤ val
  lt : val < 0x10000

instance : Inhabited Seed := ⟨⟨1, by decide, by decide⟩⟩

/-- What one `send` call on a socket does. -/
inductive SendResult
  /-- It takes `n` bytes; 0 counts as a failure. -/
  | wrote (n : Nat)
  | blocked
  | failed
  deriving Repr, DecidableEq

/-- The outcome of flushing a buffer. -/
structure Flushed where
  ok : Bool
  /-- Bytes still to be sent. -/
  tx : List Nat
  /-- Outcomes of later `send` calls. -/
  rest : List SendResult

/-- The `send` loop of `flush`: until the buffer is empty, the socket blocks, or a
call fails. Calls beyond the listed outcomes take everything. -/
def flushLoop : List SendResult → List Nat → Flushed
  | outcomes, [] => ⟨true, [], outcomes⟩
  | [], _ => ⟨true, [], []⟩
  | .wrote n :: outcomes, b :: tx =>
    if n = 0 then ⟨false, b :: tx, outcomes⟩ else flushLoop outcomes ((b :: tx).drop n)
  | .blocked :: outcomes, tx => ⟨true, tx, outcomes⟩
  | .failed :: outcomes, tx => ⟨false, tx, outcomes⟩

/-- What the loop of a relay serves. Connections are numbered in the order in which
they are accepted. -/
inductive Event
  | accept (ip : Nat)
  /-- A non-empty `recv`. -/
  | recv (c : Nat) (data : List Nat)
  /-- An empty or failed `recv`. -/
  | eof (c : Nat)
  /-- The socket takes bytes again. -/
  | writable (c : Nat)
  /-- The clients whose time to say HELLO has run out. -/
  | sweep (late : List Nat)

/-! ## Frames of the server's own -/

/-- A frame the server itself makes: its type, the length of that type, and the seats
it counts. -/
structure ServerFrame (f : List Nat) : Prop where
  bytes : ∀ b ∈ f, b < 256
  length : f.length = f.headD 0 + 1
  shape : (f.getD 1 0 = tLobby ∧ 2 ≤ f.headD 0 ∧ f.headD 0 ≤ 74) ∨
    (f.getD 1 0 = tStart ∧ f.headD 0 = 38 ∧ f.getD 3 0 ≤ rosterSlots) ∨
    (f.getD 1 0 = tRoom ∧ f.headD 0 = 34 ∧ f.getD 2 0 ≤ rosterSlots) ∨
    (f.getD 1 0 = tPeerLeft ∧ f.headD 0 = 10) ∨ (f.getD 1 0 = tPong ∧ f.headD 0 = 1)

/-- A frame of the server, or one to relay. -/
def Queueable (f : List Nat) : Prop := ServerFrame f ∨ f.getD 1 0 ∈ relayTypes

namespace ServerFrame

variable {payload : List Nat}

theorem frame_bytes {ftype : Nat} (htype : ftype < 256) (hlen : payload.length < 255)
    (hbytes : ∀ b ∈ payload, b < 256) : ∀ b ∈ (payload.length + 1) :: ftype :: payload, b < 256 := by
  intro b hb
  rcases List.mem_cons.mp hb with rfl | hb
  · omega
  · rcases List.mem_cons.mp hb with rfl | hb
    · exact htype
    · exact hbytes b hb

theorem lobby (hbytes : ∀ b ∈ payload, b < 256) (hpos : 1 ≤ payload.length)
    (hlen : payload.length ≤ 73) : ServerFrame ((payload.length + 1) :: tLobby :: payload) where
  bytes := frame_bytes (by decide) (by omega) hbytes
  length := by simp
  shape := Or.inl ⟨rfl, by rw [List.headD_cons]; omega, by rw [List.headD_cons]; omega⟩

theorem start (hbytes : ∀ b ∈ payload, b < 256) (hlen : payload.length = 37)
    (hcount : payload.getD 1 0 ≤ rosterSlots) :
    ServerFrame ((payload.length + 1) :: tStart :: payload) where
  bytes := frame_bytes (by decide) (by omega) hbytes
  length := by simp
  shape := Or.inr (Or.inl ⟨rfl, by rw [List.headD_cons, hlen], by simpa using hcount⟩)

theorem room (hbytes : ∀ b ∈ payload, b < 256) (hlen : payload.length = 33)
    (hcount : payload.getD 0 0 ≤ rosterSlots) :
    ServerFrame ((payload.length + 1) :: tRoom :: payload) where
  bytes := frame_bytes (by decide) (by omega) hbytes
  length := by simp
  shape := Or.inr (Or.inr (Or.inl ⟨rfl, by rw [List.headD_cons, hlen], by simpa using hcount⟩))

theorem peerLeft (hbytes : ∀ b ∈ payload, b < 256) (hlen : payload.length = 9) :
    ServerFrame ((payload.length + 1) :: tPeerLeft :: payload) where
  bytes := frame_bytes (by decide) (by omega) hbytes
  length := by simp
  shape := Or.inr (Or.inr (Or.inr (Or.inl ⟨rfl, by rw [List.headD_cons, hlen]⟩)))

theorem pong : ServerFrame [1, tPong] where
  bytes := @frame_bytes [] tPong (by decide) (by decide) (by simp)
  length := rfl
  shape := Or.inr (Or.inr (Or.inr (Or.inr ⟨rfl, rfl⟩)))

end ServerFrame

/-! Entries of one length, as rosters and lobbies have them. -/

theorem flatten_length {f : Nat → List Nat} {k : Nat} (hf : ∀ m, (f m).length = k)
    (ms : List Nat) : ((ms.map f).flatten).length = k * ms.length := by
  induction ms with
  | nil => simp
  | cons m ms ih =>
      rw [List.map_cons, List.flatten_cons, List.length_append, hf, ih, List.length_cons]
      rw [Nat.mul_succ]
      omega

theorem flatten_bytes {f : Nat → List Nat} {ms : List Nat} (hf : ∀ m, ∀ b ∈ f m, b < 256) :
    ∀ b ∈ (ms.map f).flatten, b < 256 := by
  intro b hb
  obtain ⟨l, hl, hb⟩ := List.mem_flatten.mp hb
  obtain ⟨m, -, rfl⟩ := List.mem_map.mp hl
  exact hf m b hb

/-! ## What a client was last told -/

/-- ROOM, START and PEER_LEFT tell a client about its membership. -/
def isMembership (f : List Nat) : Bool :=
  f.getD 1 0 == tStart || f.getD 1 0 == tRoom || f.getD 1 0 == tPeerLeft

/-- The last membership frame queued to `c`. -/
def told (c : Nat) (queued : List (Nat × List Nat)) : Option (List Nat) :=
  ((queued.filter fun e => e.1 == c && isMembership e.2).getLast?).map Prod.snd

theorem told_append (c : Nat) (queued : List (Nat × List Nat)) (d : Nat) (f : List Nat) :
    told c (queued ++ [(d, f)]) =
      if d = c ∧ isMembership f = true then some f else told c queued := by
  unfold told
  rw [List.filter_append]
  by_cases h : d = c ∧ isMembership f = true
  · rw [if_pos h]
    simp [h.1, h.2]
  · rw [if_neg h]
    have hf : ([(d, f)] : List (Nat × List Nat)).filter
        (fun e => e.1 == c && isMembership e.2) = [] := by
      rw [List.filter_eq_nil_iff]
      intro e he
      rw [List.mem_singleton] at he
      subst he
      simpa using h
    rw [hf, List.append_nil]

end SharkNetplay.Relay
