import Mathlib.Data.List.Nodup
import SharkNetplay.Relay.Python

/-!
# What dropping a client does

The Python relay's `drop` re-enters itself through `send`. With two seats the
re-entry is shallow: a client without a room is only buried, and a client with a
room-mate is buried, both are unlinked, and the mate gets one notice.
-/

namespace SharkNetplay.Relay.Py

open Server

variable {s : Server}

/-! ## Records -/

namespace Server

@[simp] theorem client_setClient (c : Nat) (v : Client) (s : Server) (m : Nat) :
    (s.setClient c v).client m = if m = c then v else s.client m := by
  simp [setClient, Function.update_apply]

@[simp] theorem room_setClient (c : Nat) (v : Client) (s : Server) :
    (s.setClient c v).room = s.room := rfl

@[simp] theorem room_setRoom (r : Nat) (v : Room) (s : Server) (q : Nat) :
    (s.setRoom r v).room q = if q = r then v else s.room q := by
  simp [setRoom, Function.update_apply]

@[simp] theorem client_setRoom (r : Nat) (v : Room) (s : Server) :
    (s.setRoom r v).client = s.client := rfl

@[simp] theorem expect_true (s : Server) : s.expect true = s := rfl

theorem expect_pos {p : Bool} (h : p = true) (s : Server) : s.expect p = s := by
  subst h
  rfl

end Server

/-! ## Sending -/

/-- `send` gives up on a client without trying: its backlog would overrun. -/
def overruns (c : Nat) (data : List Nat) (s : Server) : Bool :=
  decide (maxTxBacklog < (s.client c).tx.length + data.length)

/-- The flush that follows once `data` is in the transmit buffer. -/
def flushed (c : Nat) (data : List Nat) (s : Server) : Flushed :=
  flushLoop s.outcomes ((s.client c).tx ++ data)

/-- The frame is in the transmit buffer and what the socket took is out of it. -/
def staged (c : Nat) (data : List Nat) (s : Server) : Server :=
  { s with
    queued := s.queued ++ [(c, data)]
    outcomes := (flushed c data s).rest }.setClient c
      { s.client c with tx := (flushed c data s).tx }

/-- Whether sending `data` would drop the client. -/
def sendFails (c : Nat) (data : List Nat) (s : Server) : Bool :=
  overruns c data s || !(flushed c data s).ok

/-- What `send` does, by what the socket does. -/
theorem send_eq (drop : Nat → Server → Server) (c : Nat) (data : List Nat) (s : Server) :
    send drop c data s =
      if (s.client c).dead then s
      else if overruns c data s then drop c s
      else if (flushed c data s).ok then staged c data s
      else drop c (staged c data s) := by
  have hstage : flush drop c (enqueue c data s) =
      if (flushed c data s).ok then staged c data s else drop c (staged c data s) := by
    simp only [flush, enqueue, flushed, staged, setClient, Function.update_self,
      Function.update_idem]
    congr
  simp only [send, overruns, decide_eq_true_eq, hstage]

section
variable (c m : Nat) (data : List Nat) (s : Server)

@[simp] theorem staged_room : (staged c data s).room = s.room := rfl
@[simp] theorem staged_present : (staged c data s).present = s.present := rfl
@[simp] theorem staged_byName : (staged c data s).byName = s.byName := rfl
@[simp] theorem staged_queued : (staged c data s).queued = s.queued ++ [(c, data)] := rfl
@[simp] theorem staged_nextClient : (staged c data s).nextClient = s.nextClient := rfl
@[simp] theorem staged_nextRoom : (staged c data s).nextRoom = s.nextRoom := rfl
@[simp] theorem staged_crashed : (staged c data s).crashed = s.crashed := rfl

@[simp] theorem staged_client_room :
    ((staged c data s).client m).room = (s.client m).room := by
  unfold staged
  rw [client_setClient]
  split
  · next h => rw [h]
  · rfl

@[simp] theorem staged_client_name :
    ((staged c data s).client m).name = (s.client m).name := by
  unfold staged
  rw [client_setClient]
  split
  · next h => rw [h]
  · rfl

@[simp] theorem staged_client_dead :
    ((staged c data s).client m).dead = (s.client m).dead := by
  unfold staged
  rw [client_setClient]
  split
  · next h => rw [h]
  · rfl

@[simp] theorem bury_room : (bury c s).room = s.room := rfl
@[simp] theorem bury_present : (bury c s).present = s.present.erase c := rfl
@[simp] theorem bury_byName : (bury c s).byName = s.byName.filter fun e => e.2 != c := rfl
@[simp] theorem bury_queued : (bury c s).queued = s.queued := rfl
@[simp] theorem bury_nextClient : (bury c s).nextClient = s.nextClient := rfl
@[simp] theorem bury_nextRoom : (bury c s).nextRoom = s.nextRoom := rfl
@[simp] theorem bury_crashed : (bury c s).crashed = s.crashed := rfl

@[simp] theorem bury_client_room : ((bury c s).client m).room = (s.client m).room := by
  unfold bury
  rw [client_setClient]
  split
  · next h => rw [h]
  · rfl

@[simp] theorem bury_client_name : ((bury c s).client m).name = (s.client m).name := by
  unfold bury
  rw [client_setClient]
  split
  · next h => rw [h]
  · rfl

@[simp] theorem bury_client_dead :
    ((bury c s).client m).dead = if m = c then true else (s.client m).dead := by
  unfold bury
  rw [client_setClient]
  split <;> rfl

@[simp] theorem link_room (r : Option Nat) : (s.link c r).room = s.room := rfl
@[simp] theorem link_present (r : Option Nat) : (s.link c r).present = s.present := rfl
@[simp] theorem link_byName (r : Option Nat) : (s.link c r).byName = s.byName := rfl
@[simp] theorem link_queued (r : Option Nat) : (s.link c r).queued = s.queued := rfl
@[simp] theorem link_nextClient (r : Option Nat) :
    (s.link c r).nextClient = s.nextClient := rfl
@[simp] theorem link_nextRoom (r : Option Nat) : (s.link c r).nextRoom = s.nextRoom := rfl
@[simp] theorem link_crashed (r : Option Nat) : (s.link c r).crashed = s.crashed := rfl

@[simp] theorem link_client_room (r : Option Nat) :
    ((s.link c r).client m).room = if m = c then r else (s.client m).room := by
  unfold link
  rw [client_setClient]
  split <;> rfl

@[simp] theorem link_client_name (r : Option Nat) :
    ((s.link c r).client m).name = (s.client m).name := by
  unfold link
  rw [client_setClient]
  split
  · next h => rw [h]
  · rfl

@[simp] theorem link_client_dead (r : Option Nat) :
    ((s.link c r).client m).dead = (s.client m).dead := by
  unfold link
  rw [client_setClient]
  split
  · next h => rw [h]
  · rfl

@[simp] theorem start_client (r seed : Nat) : (s.start r seed).client = s.client := rfl

@[simp] theorem start_members (r q seed : Nat) :
    ((s.start r seed).room q).members = (s.room q).members := by
  unfold start
  rw [room_setRoom]
  split
  · next h => rw [h]
  · rfl

@[simp] theorem start_room_ne {r q : Nat} (h : q ≠ r) (seed : Nat) :
    (s.start r seed).room q = s.room q := by
  unfold start
  rw [room_setRoom, if_neg h]

@[simp] theorem start_started (r seed : Nat) : ((s.start r seed).room r).started = true := by
  unfold start
  rw [room_setRoom, if_pos rfl]

@[simp] theorem setName_client_room (name : Name) :
    ((s.setName c name).client m).room = (s.client m).room := by
  unfold setName
  rw [client_setClient]
  split
  · next h => rw [h]
  · rfl

@[simp] theorem setName_client_dead (name : Name) :
    ((s.setName c name).client m).dead = (s.client m).dead := by
  unfold setName
  rw [client_setClient]
  split
  · next h => rw [h]
  · rfl

@[simp] theorem setName_client_name (name : Name) :
    ((s.setName c name).client m).name = if m = c then some name else (s.client m).name := by
  unfold setName
  rw [client_setClient]
  split <;> rfl

@[simp] theorem setRx_client_room (rx : List Nat) :
    ((s.setRx c rx).client m).room = (s.client m).room := by
  unfold setRx
  rw [client_setClient]
  split
  · next h => rw [h]
  · rfl

@[simp] theorem setRx_client_dead (rx : List Nat) :
    ((s.setRx c rx).client m).dead = (s.client m).dead := by
  unfold setRx
  rw [client_setClient]
  split
  · next h => rw [h]
  · rfl

@[simp] theorem setRx_client_name (rx : List Nat) :
    ((s.setRx c rx).client m).name = (s.client m).name := by
  unfold setRx
  rw [client_setClient]
  split
  · next h => rw [h]
  · rfl

@[simp] theorem setRx_client_rx (rx : List Nat) :
    ((s.setRx c rx).client m).rx = if m = c then rx else (s.client m).rx := by
  unfold setRx
  rw [client_setClient]
  split <;> rfl

@[simp] theorem seat_client (r : Nat) (ms : List Nat) : (s.seat r ms).client = s.client := rfl
@[simp] theorem seat_present (r : Nat) (ms : List Nat) : (s.seat r ms).present = s.present := rfl
@[simp] theorem seat_byName (r : Nat) (ms : List Nat) : (s.seat r ms).byName = s.byName := rfl
@[simp] theorem seat_queued (r : Nat) (ms : List Nat) : (s.seat r ms).queued = s.queued := rfl
@[simp] theorem seat_nextClient (r : Nat) (ms : List Nat) :
    (s.seat r ms).nextClient = s.nextClient := rfl
@[simp] theorem seat_nextRoom (r : Nat) (ms : List Nat) :
    (s.seat r ms).nextRoom = s.nextRoom := rfl
@[simp] theorem seat_crashed (r : Nat) (ms : List Nat) : (s.seat r ms).crashed = s.crashed := rfl

@[simp] theorem seat_members (r q : Nat) (ms : List Nat) :
    ((s.seat r ms).room q).members = if q = r then ms else (s.room q).members := by
  unfold seat
  rw [room_setRoom]
  split <;> rfl

@[simp] theorem seat_started (r q : Nat) (ms : List Nat) :
    ((s.seat r ms).room q).started = (s.room q).started := by
  unfold seat
  rw [room_setRoom]
  split
  · next h => rw [h]
  · rfl

end

/-- What the steps of `send` and `drop` all keep. -/
structure Steady (P : Server → Prop) : Prop where
  bury : ∀ c s, P s → P (bury c s)
  staged : ∀ c data s, (s.client c).dead = false → P s → P (staged c data s)
  link : ∀ c s, P s → P (s.link c none)
  seat : ∀ r ms s, P s → P (s.seat r ms)
  expect : ∀ p s, P s → P (s.expect p)

namespace Steady

variable {P : Server → Prop} {d : Nat → Server → Server}

theorem send (h : Steady P) (hd : ∀ c s, P s → P (d c s)) (c : Nat) (data : List Nat)
    (s : Server) (hs : P s) : P (send d c data s) := by
  rw [send_eq]
  split_ifs with hdead
  · exact hs
  · exact hd c s hs
  · exact h.staged c data s (by simpa using hdead) hs
  · exact hd c _ (h.staged c data s (by simpa using hdead) hs)

theorem foldl {body : Server → Nat → Server} (hbody : ∀ s m, P s → P (body s m)) (ms : List Nat)
    (s : Server) (hs : P s) : P (ms.foldl body s) := by
  induction ms generalizing s with
  | nil => exact hs
  | cons m ms ih => exact ih _ (hbody s m hs)

theorem forMembers (h : Steady P) {body : Nat → Nat → Server → Server}
    (hbody : ∀ i m s, P s → P (body i m s)) (r fuel i : Nat) (s : Server) (hs : P s) :
    P (forMembers r body fuel i s) := by
  induction fuel generalizing i s with
  | zero => exact h.expect _ _ hs
  | succ fuel ih =>
      unfold Py.forMembers
      split
      · exact hs
      · exact ih _ _ (hbody _ _ _ hs)

theorem roomBroadcast (h : Steady P) (hd : ∀ c s, P s → P (d c s)) (r : Nat) (s : Server)
    (hs : P s) : P (roomBroadcast d r s) :=
  h.forMembers (fun _ _ _ hs => h.send hd _ _ _ hs) _ _ _ _ (h.expect _ _ hs)

theorem dissolve (h : Steady P) (hd : ∀ c s, P s → P (d c s)) (r : Nat) (notify : List Nat)
    (s : Server) (hs : P s) : P (dissolve d r notify s) := by
  refine h.seat _ _ _ (foldl (fun s m hs => h.send hd _ _ _ hs) _ _ ?_)
  exact foldl (fun s m hs => h.link m s hs) _ _ hs

theorem leave (h : Steady P) (hd : ∀ c s, P s → P (d c s)) (c r seat : Nat) (s : Server)
    (hs : P s) : P (leave d c r seat s) := by
  unfold Py.leave
  split_ifs
  · refine foldl (fun s m hs => h.send hd _ _ _ hs) _ _ ?_
    exact h.dissolve hd _ _ _ (h.expect _ _ hs)
  · exact h.dissolve hd _ _ _ hs
  · exact h.dissolve hd _ _ _ hs
  · exact h.roomBroadcast hd _ _ hs

theorem dropN (h : Steady P) (n c : Nat) (s : Server) (hs : P s) : P (dropN n c s) := by
  induction n generalizing c s with
  | zero => exact h.expect _ _ hs
  | succ n ih =>
      unfold Py.dropN
      split
      · exact hs
      · dsimp only
        split
        · exact h.bury _ _ hs
        · exact h.leave (fun c s hs => ih c s hs) _ _ _ _
            (h.seat _ _ _ (h.link _ _ (h.expect _ _ (h.bury _ _ hs))))

theorem drop (h : Steady P) (c : Nat) (s : Server) (hs : P s) : P (drop c s) :=
  h.dropN _ c s hs

theorem send_drop (h : Steady P) (c : Nat) (data : List Nat) (s : Server) (hs : P s) :
    P (Py.send Py.drop c data s) := h.send h.drop c data s hs

end Steady

theorem steady_nextClient (n : Nat) : Steady fun s => s.nextClient = n where
  bury _ _ h := h
  staged _ _ _ _ h := h
  link _ _ h := h
  seat _ _ _ h := h
  expect p s h := by
    unfold expect
    split <;> exact h

theorem steady_dead (c : Nat) : Steady fun s => (s.client c).dead = true where
  bury d s h := by
    rw [bury_client_dead]
    split
    · rfl
    · exact h
  staged d data s _ h := by
    rw [staged_client_dead]
    exact h
  link d s h := by
    rw [link_client_dead]
    exact h
  seat _ _ _ h := h
  expect p s h := by
    unfold expect
    split <;> exact h

/-- What the steps of every handler keep. -/
structure Lasting (P : Server → Prop) : Prop extends Steady P where
  setName : ∀ c name s, P s → P (s.setName c name)
  byName : ∀ d s, P s → P { s with byName := d }
  seeds : ∀ d s, P s → P { s with seeds := d }
  start : ∀ r seed s, P s → P (s.start r seed)
  opened : ∀ r v n s, P s → P ({ s with nextRoom := n }.setRoom r v)
  linked : ∀ c r s, P s → P (s.link c r)

namespace Lasting

variable {P : Server → Prop}

theorem register (h : Lasting P) (c : Nat) (name : Name) (s : Server) (hs : P s) :
    P (register c name s) := by
  unfold Py.register
  extract_lets s₁ s₂ s₃
  have h₁ : P s₁ := by
    simp only [s₁]
    split
    · split
      · exact h.drop _ s hs
      · exact hs
    · exact hs
  have h₂ : P s₂ := by
    simp only [s₂]
    split
    · split
      · exact h.byName _ _ h₁
      · exact h₁
    · exact h₁
  exact h.send_drop c _ _ (h.byName _ _ (h.setName c name s₂ h₂))

theorem startRoom (h : Lasting P) (r : Nat) (s : Server) (hs : P s) : P (startRoom r s).1 := by
  unfold Py.startRoom
  extract_lets seed s₁ s₂ s₃ common
  have h₂ : P s₂ := h.start r seed s₁ (h.seeds _ s hs)
  split
  · exact h₂
  · exact h.forMembers (fun _ _ _ hs => h.send_drop _ _ _ hs) _ _ _ _ (h.expect _ _ h₂)

theorem onJoin (h : Lasting P) (c : Nat) (payload : List Nat) (s : Server) (hs : P s) :
    P (onJoin c payload s).1 := by
  rw [Py.onJoin_eq]
  split
  · exact hs
  split
  · exact hs
  split
  · exact h.send_drop c _ s hs
  next target htarget =>
  split
  · exact h.send_drop c _ s hs
  extract_lets p r s₁ s₂
  have hp : P p.1 := by
    simp only [p, roomFor]
    split
    · exact hs
    · exact h.linked _ _ _ (h.opened _ _ _ s hs)
  have h₂ : P s₂ := h.roomBroadcast h.drop r s₁ (h.linked _ _ _ (h.seat _ _ _ hp))
  split
  · exact h.startRoom r s₂ h₂
  · exact h₂

theorem onGo (h : Lasting P) (c : Nat) (s : Server) (hs : P s) : P (onGo c s).1 := by
  unfold Py.onGo
  split
  · exact hs
  split
  · exact hs
  extract_lets s₁
  have h₁ : P s₁ := h.expect _ _ hs
  split_ifs
  · exact h₁
  · exact h.startRoom _ s₁ h₁
  · exact h₁

theorem relay (h : Lasting P) (c ftype : Nat) (payload : List Nat) (s : Server) (hs : P s) :
    P (relay c ftype payload s) := by
  unfold Py.relay
  split
  · exact hs
  split
  · refine h.forMembers (fun _ m s hs => ?_) _ _ _ _ hs
    split
    · exact hs
    · exact h.send_drop _ _ _ hs
  · exact hs

theorem handle (h : Lasting P) (c ftype : Nat) (payload : List Nat) (s : Server) (hs : P s) :
    P (handle c ftype payload s).1 := by
  unfold Py.handle
  split_ifs
  · exact h.relay c ftype payload s hs
  · split
    · exact hs
    · exact h.register c _ s hs
  · exact h.send_drop c _ s hs
  · exact h.onJoin c payload s hs
  · exact h.onGo c s hs
  · exact h.drop c s hs
  · exact h.send_drop c _ s hs
  · exact hs

end Lasting

theorem lasting_nextClient (n : Nat) : Lasting fun s => s.nextClient = n where
  toSteady := steady_nextClient n
  setName _ _ _ h := h
  byName _ _ h := h
  seeds _ _ h := h
  start _ _ _ h := h
  opened _ _ _ _ h := h
  linked _ _ _ h := h

/-- No handler touches a receive buffer. -/
theorem lasting_rx (c : Nat) (rx : List Nat) : Lasting fun s => (s.client c).rx = rx where
  bury d s h := by
    unfold bury
    rw [client_setClient]
    split
    · next hd => rw [← hd]; exact h
    · exact h
  staged d data s _ h := by
    unfold staged
    rw [client_setClient]
    split
    · next hd => rw [← hd]; exact h
    · exact h
  link d s h := by
    unfold link
    rw [client_setClient]
    split
    · next hd => rw [← hd]; exact h
    · exact h
  seat _ _ _ h := h
  expect p s h := by
    unfold expect
    split <;> exact h
  setName d name s h := by
    unfold setName
    rw [client_setClient]
    split
    · next hd => rw [← hd]; exact h
    · exact h
  byName _ _ h := h
  seeds _ _ h := h
  start _ _ _ h := h
  opened _ _ _ _ h := h
  linked d r s h := by
    unfold link
    rw [client_setClient]
    split
    · next hd => rw [← hd]; exact h
    · exact h

/-! ## Dropping -/

/-- A client without a room is buried, and nothing else happens. -/
theorem dropN_solo {n c : Nat} (hlive : (s.client c).dead = false)
    (hroom : (s.client c).room = none) : dropN (n + 1) c s = bury c s := by
  unfold dropN
  simp [hlive, hroom]

theorem dropN_dead {n c : Nat} (hdead : (s.client c).dead = true) : dropN n c s = s := by
  cases n with
  | zero => simp [dropN, hdead]
  | succ n => simp [dropN, hdead]

/-- The members of a room do not matter to a send to a client without a room. -/
theorem send_solo_seat {n c : Nat} (hroom : (s.client c).room = none)
    (hfuel : (s.client c).dead = false → 1 ≤ n) (data : List Nat) (r : Nat) (ms : List Nat) :
    (send (dropN n) c data s).seat r ms = send (dropN n) c data (s.seat r ms) := by
  cases hdead : (s.client c).dead with
  | true => rw [send_eq, send_eq, if_pos hdead, if_pos (by simpa using hdead)]
  | false =>
      obtain ⟨n, rfl⟩ := Nat.exists_eq_add_of_le' (hfuel hdead)
      have hstaged : ((staged c data s).client c).dead = false := by simpa using hdead
      have hstaged' : ((staged c data s).client c).room = none := by simpa using hroom
      have hseat : ((s.seat r ms).client c).dead = false := by simpa using hdead
      have hseat' : ((s.seat r ms).client c).room = none := by simpa using hroom
      have hcomm : (staged c data s).seat r ms = staged c data (s.seat r ms) := rfl
      rw [send_eq, send_eq, dropN_solo hdead hroom, dropN_solo hseat hseat',
        dropN_solo hstaged hstaged', dropN_solo (by rw [← hcomm]; simpa using hdead)
          (by rw [← hcomm]; simpa using hroom)]
      simp only [hdead, hseat, if_false, Bool.false_eq_true]
      have h₁ : overruns c data (s.seat r ms) = overruns c data s := rfl
      have h₂ : flushed c data (s.seat r ms) = flushed c data s := rfl
      rw [h₁, h₂]
      split_ifs
      · rfl
      · rfl
      · rfl

/-- Two room-mates without their room, the first of them buried. -/
def parted (c o r : Nat) (s : Server) : Server :=
  (((bury c s).link c none).link o none).seat r []

/-- What the mate of a dropped client is told. -/
def notice (c r : Nat) (s : Server) : List Nat :=
  if (s.room r).started then
    frame tPeerLeft ((s.room r).members.idxOf c :: padName (nameOf c s))
  else frame tRoom (0 :: List.replicate 32 0)

/-- `c` and `o` are the two members of room `r`. -/
structure Mates (c o r : Nat) (s : Server) : Prop where
  ne : c ≠ o
  members : (s.room r).members = [c, o] ∨ (s.room r).members = [o, c]

namespace Mates

variable {c o r : Nat}

theorem erase (h : Mates c o r s) : (s.room r).members.erase c = [o] := by
  rcases h.members with hm | hm
  · rw [hm, List.erase_cons_head]
  · rw [hm, List.erase_cons_tail (by simpa using h.ne.symm), List.erase_cons_head]

theorem contains (h : Mates c o r s) : (s.room r).members.contains c = true := by
  rcases h.members with hm | hm <;> simp [hm]

theorem mem_iff (h : Mates c o r s) (m : Nat) : m ∈ (s.room r).members ↔ m = c ∨ m = o := by
  rcases h.members with hm | hm
  · simp [hm]
  · simp [hm, or_comm]

end Mates

theorem seat_seat (r : Nat) (ms ms' : List Nat) (s : Server) :
    (s.seat r ms).seat r ms' = s.seat r ms' := by
  simp [seat, setRoom, Function.update_idem]

/-- Dropping one of two room-mates: both are unlinked and the other is told. -/
theorem dropN_pair {n c o r : Nat} (hlive : (s.client c).dead = false)
    (hroom : (s.client c).room = some r) (hmates : Mates c o r s)
    (hname : (s.client c).name.isSome = true)
    (hfuel : (s.client o).dead = false → 1 ≤ n) :
    dropN (n + 1) c s = send (dropN n) o (notice c r s) (parted c o r s) := by
  have hne : o ≠ c := hmates.ne.symm
  have hbase : dropN (n + 1) c s = leave (dropN n) c r ((s.room r).members.idxOf c)
      (((bury c s).link c none).seat r [o]) := by
    rw [dropN]
    simp only [hlive, Bool.false_eq_true, if_false, bury_client_room, hroom, bury_room, link_room,
      hmates.contains, hmates.erase, expect_true]
  have hclear : ((((bury c s).link c none).seat r [o]).link o none).seat r [] =
      parted c o r s := by
    have : (((bury c s).link c none).seat r [o]).link o none =
        (((bury c s).link c none).link o none).seat r [o] := rfl
    rw [this, seat_seat]
    rfl
  have hoRoom : (((((bury c s).link c none).seat r [o]).link o none).client o).room = none := by
    simp
  have hoDead : (((((bury c s).link c none).seat r [o]).link o none).client o).dead =
      (s.client o).dead := by simp [hne]
  have hdissolve : dissolve (dropN n) r [o] (((bury c s).link c none).seat r [o]) =
      send (dropN n) o (frame tRoom (0 :: List.replicate 32 0)) (parted c o r s) := by
    unfold dissolve
    simp only [seat_members, if_true, List.foldl_cons, List.foldl_nil]
    rw [send_solo_seat hoRoom (fun h => hfuel (by rw [← hoDead]; exact h)), hclear]
  rw [hbase]
  unfold leave
  simp only [seat_started, link_room, bury_room, seat_members, if_true, List.length_singleton]
  by_cases hstarted : (s.room r).started = true
  · have hnamed : allNamed [c] (((bury c s).link c none).seat r [o]) = true := by
      simp [allNamed, hname]
    have hnameOf : nameOf c (((bury c s).link c none).seat r [o]) = nameOf c s := by
      simp [nameOf]
    rw [if_pos hstarted, expect_pos hnamed, hnameOf]
    simp only [notice, if_pos hstarted]
    have : dissolve (dropN n) r [] (((bury c s).link c none).seat r [o]) = parted c o r s := by
      unfold dissolve
      simp only [seat_members, if_true, List.foldl_cons, List.foldl_nil]
      exact hclear
    simp only [seat_members, if_true, List.foldl_cons, List.foldl_nil, this]
  · rw [if_neg hstarted, hdissolve]
    simp only [notice, if_neg hstarted]
    split_ifs
    · rfl
    · rfl
    · omega

/-- A dropped client is dead. -/
theorem dead_dropN (n c : Nat) (s : Server) : ((dropN (n + 1) c s).client c).dead = true := by
  unfold dropN
  split
  · next h => exact h
  · have hbury : ((bury c s).client c).dead = true := by simp
    dsimp only
    split
    · exact hbury
    · have hst := steady_dead c
      exact hst.leave (fun d s' hs' => hst.dropN n d s' hs') _ _ _ _
        (hst.seat _ _ _ (hst.link _ _ (hst.expect _ _ hbury)))

/-- Every live client counts towards the bound of `drop`. -/
structure Counted (s : Server) : Prop where
  present : ∀ m, m ∈ s.present ↔ m < s.nextClient ∧ (s.client m).dead = false
  nodup : s.present.Nodup

theorem drop_dead {c : Nat} (hdead : (s.client c).dead = true) : drop c s = s :=
  dropN_dead hdead

theorem drop_solo {c : Nat} (hs : Counted s) (hc : c < s.nextClient)
    (hlive : (s.client c).dead = false) (hroom : (s.client c).room = none) :
    drop c s = bury c s := by
  have hpos : 0 < s.present.length :=
    List.length_pos_of_mem ((hs.present c).mpr ⟨hc, hlive⟩)
  obtain ⟨n, hn⟩ := Nat.exists_eq_add_of_le' hpos
  rw [drop, hn]
  exact dropN_solo hlive hroom

theorem parted_client_dead (c o r m : Nat) (s : Server) :
    ((parted c o r s).client m).dead = if m = c then true else (s.client m).dead := by
  simp [parted]

theorem parted_client_room (c o r m : Nat) (s : Server) :
    ((parted c o r s).client m).room = if m = c ∨ m = o then none else (s.client m).room := by
  simp only [parted, seat_client, link_client_room, bury_client_room]
  by_cases ho : m = o
  · simp [ho]
  · by_cases hc : m = c
    · simp [hc]
    · simp [ho, hc]

theorem parted_counted {c o r : Nat} (hs : Counted s) : Counted (parted c o r s) := by
  refine ⟨fun m => ?_, hs.nodup.erase c⟩
  rw [parted_client_dead]
  show m ∈ s.present.erase c ↔ m < s.nextClient ∧ _
  by_cases hm : m = c
  · subst hm
    simp [hs.nodup.not_mem_erase]
  · rw [List.mem_erase_of_ne hm, hs.present, if_neg hm]

theorem drop_pair {c o r : Nat} (hs : Counted s) (hc : c < s.nextClient)
    (ho : o < s.nextClient) (hlive : (s.client c).dead = false)
    (hroom : (s.client c).room = some r) (hmates : Mates c o r s)
    (hname : (s.client c).name.isSome = true) :
    drop c s = send drop o (notice c r s) (parted c o r s) := by
  have hcp : c ∈ s.present := (hs.present c).mpr ⟨hc, hlive⟩
  obtain ⟨n, hn⟩ := Nat.exists_eq_add_of_le' (List.length_pos_of_mem hcp)
  have hfuel : (s.client o).dead = false → 1 ≤ n := by
    intro ho'
    have hop : o ∈ s.present.erase c :=
      (List.mem_erase_of_ne hmates.ne.symm).mpr ((hs.present o).mpr ⟨ho, ho'⟩)
    have := List.length_pos_of_mem hop
    rw [List.length_erase_of_mem hcp] at this
    omega
  have hoRoom : ((parted c o r s).client o).room = none := by
    simp [parted_client_room]
  have hoDead : ((parted c o r s).client o).dead = (s.client o).dead := by
    rw [parted_client_dead, if_neg hmates.ne.symm]
  rw [drop, hn, dropN_pair hlive hroom hmates hname hfuel, send_eq, send_eq]
  cases hdead : ((parted c o r s).client o).dead with
  | true => rfl
  | false =>
      obtain ⟨k, rfl⟩ := Nat.exists_eq_add_of_le' (hfuel (by rw [← hoDead]; exact hdead))
      have hcount := parted_counted (c := c) (o := o) (r := r) hs
      have hcount' : Counted (staged o (notice c r s) (parted c o r s)) := by
        refine ⟨fun m => ?_, hcount.nodup⟩
        rw [staged_client_dead]
        exact hcount.present m
      have hstDead : ((staged o (notice c r s) (parted c o r s)).client o).dead = false := by
        simpa using hdead
      have hstRoom : ((staged o (notice c r s) (parted c o r s)).client o).room = none := by
        simpa using hoRoom
      rw [dropN_solo hdead hoRoom, dropN_solo hstDead hstRoom,
        drop_solo hcount ho hdead hoRoom, drop_solo hcount' ho hstDead hstRoom]

end SharkNetplay.Relay.Py
