import Mathlib.Data.Finset.Card
import SharkNetplay.Relay.C

/-!
# Sending in the C relay

What `send_raw` does, by what the socket does, and what every step of the handlers
keeps.
-/

namespace SharkNetplay.Relay.C

open Server

variable {s : Server}

/-! ## Records -/

namespace Server

@[simp] theorem client_onClient (c : Nat) (f : Client → Client) (s : Server) (m : Nat) :
    (s.onClient c f).client m = if m = c then f (s.client c) else s.client m := by
  simp [onClient, Function.update_apply]

@[simp] theorem room_onClient (c : Nat) (f : Client → Client) (s : Server) :
    (s.onClient c f).room = s.room := rfl

@[simp] theorem room_onRoom (r : Nat) (f : Room → Room) (s : Server) (q : Nat) :
    (s.onRoom r f).room q = if q = r then f (s.room r) else s.room q := by
  simp [onRoom, Function.update_apply]

@[simp] theorem client_onRoom (r : Nat) (f : Room → Room) (s : Server) :
    (s.onRoom r f).client = s.client := rfl

/-- What a change of one client leaves alone, it leaves alone everywhere. -/
theorem onClient_proj {α : Type} (g : Client → α) {f : Client → Client} {c : Nat}
    (h : g (f (s.client c)) = g (s.client c)) (m : Nat) :
    g ((s.onClient c f).client m) = g (s.client m) := by
  rw [client_onClient]
  split
  · next hm => rw [h, hm]
  · rfl

/-- What a change of one room leaves alone, it leaves alone everywhere. -/
theorem onRoom_proj {α : Type} (g : Room → α) {f : Room → Room} {r : Nat}
    (h : g (f (s.room r)) = g (s.room r)) (q : Nat) :
    g ((s.onRoom r f).room q) = g (s.room q) := by
  rw [room_onRoom]
  split
  · next hq => rw [h, hq]
  · rfl

theorem expect_pos {p : Bool} (h : p = true) (s : Server) : s.expect p = s := by
  subst h
  rfl

end Server

section
variable (c m r : Nat) (s : Server)

@[simp] theorem link_client_room (q : Option Nat) :
    ((s.link c q).client m).room = if m = c then q else (s.client m).room := by
  unfold link
  rw [client_onClient]
  split <;> rfl

@[simp] theorem link_client_dead (q : Option Nat) :
    ((s.link c q).client m).dead = (s.client m).dead := onClient_proj Client.dead rfl m

@[simp] theorem link_client_inUse (q : Option Nat) :
    ((s.link c q).client m).inUse = (s.client m).inUse := onClient_proj Client.inUse rfl m

@[simp] theorem link_client_conn (q : Option Nat) :
    ((s.link c q).client m).conn = (s.client m).conn := onClient_proj Client.conn rfl m

@[simp] theorem link_client_name (q : Option Nat) :
    ((s.link c q).client m).name = (s.client m).name := onClient_proj Client.name rfl m

@[simp] theorem link_room (q : Option Nat) : (s.link c q).room = s.room := rfl

@[simp] theorem bury_client_dead :
    ((bury c s).client m).dead = if m = c then true else (s.client m).dead := by
  unfold bury
  rw [client_onClient]
  split <;> rfl

@[simp] theorem bury_client_room : ((bury c s).client m).room = (s.client m).room :=
  onClient_proj Client.room rfl m

@[simp] theorem bury_client_inUse : ((bury c s).client m).inUse = (s.client m).inUse :=
  onClient_proj Client.inUse rfl m

@[simp] theorem bury_client_conn : ((bury c s).client m).conn = (s.client m).conn :=
  onClient_proj Client.conn rfl m

@[simp] theorem bury_client_name : ((bury c s).client m).name = (s.client m).name :=
  onClient_proj Client.name rfl m

@[simp] theorem bury_room : (bury c s).room = s.room := rfl

@[simp] theorem clientFree_client_inUse :
    ((clientFree c s).client m).inUse = if m = c then false else (s.client m).inUse := by
  unfold clientFree
  rw [client_onClient]
  split <;> rfl

@[simp] theorem clientFree_client_dead : ((clientFree c s).client m).dead = (s.client m).dead :=
  onClient_proj Client.dead rfl m

@[simp] theorem clientFree_client_room : ((clientFree c s).client m).room = (s.client m).room :=
  onClient_proj Client.room rfl m

@[simp] theorem clientFree_client_conn : ((clientFree c s).client m).conn = (s.client m).conn :=
  onClient_proj Client.conn rfl m

@[simp] theorem clientFree_client_name : ((clientFree c s).client m).name = (s.client m).name :=
  onClient_proj Client.name rfl m

@[simp] theorem clientFree_room : (clientFree c s).room = s.room := rfl

@[simp] theorem setName_client_name (name : Name) :
    ((s.setName c name).client m).name = if m = c then name else (s.client m).name := by
  unfold setName
  rw [client_onClient]
  split <;> rfl

@[simp] theorem setName_client_dead (name : Name) :
    ((s.setName c name).client m).dead = (s.client m).dead := onClient_proj Client.dead rfl m

@[simp] theorem setName_client_room (name : Name) :
    ((s.setName c name).client m).room = (s.client m).room := onClient_proj Client.room rfl m

@[simp] theorem setName_client_inUse (name : Name) :
    ((s.setName c name).client m).inUse = (s.client m).inUse := onClient_proj Client.inUse rfl m

@[simp] theorem setName_client_conn (name : Name) :
    ((s.setName c name).client m).conn = (s.client m).conn := onClient_proj Client.conn rfl m

@[simp] theorem setRx_client_rx (rx : List Nat) :
    ((s.setRx c rx).client m).rx = if m = c then rx else (s.client m).rx := by
  unfold setRx
  rw [client_onClient]
  split <;> rfl

@[simp] theorem setRx_client_dead (rx : List Nat) :
    ((s.setRx c rx).client m).dead = (s.client m).dead := onClient_proj Client.dead rfl m

@[simp] theorem setRx_client_room (rx : List Nat) :
    ((s.setRx c rx).client m).room = (s.client m).room := onClient_proj Client.room rfl m

@[simp] theorem setRx_client_inUse (rx : List Nat) :
    ((s.setRx c rx).client m).inUse = (s.client m).inUse := onClient_proj Client.inUse rfl m

@[simp] theorem setRx_client_conn (rx : List Nat) :
    ((s.setRx c rx).client m).conn = (s.client m).conn := onClient_proj Client.conn rfl m

@[simp] theorem setRx_client_name (rx : List Nat) :
    ((s.setRx c rx).client m).name = (s.client m).name := onClient_proj Client.name rfl m

@[simp] theorem seat_members (q : Nat) (ms : List Nat) :
    ((s.seat r ms).room q).members = if q = r then ms else (s.room q).members := by
  unfold seat
  rw [room_onRoom]
  split <;> rfl

@[simp] theorem seat_started (q : Nat) (ms : List Nat) :
    ((s.seat r ms).room q).started = (s.room q).started := onRoom_proj Room.started rfl q

@[simp] theorem seat_used (q : Nat) (ms : List Nat) :
    ((s.seat r ms).room q).used = (s.room q).used := onRoom_proj Room.used rfl q

@[simp] theorem seat_alloc (q : Nat) (ms : List Nat) :
    ((s.seat r ms).room q).alloc = (s.room q).alloc := onRoom_proj Room.alloc rfl q

@[simp] theorem seat_client (ms : List Nat) : (s.seat r ms).client = s.client := rfl

@[simp] theorem vacate_members (q : Nat) :
    ((s.vacate r).room q).members = if q = r then [] else (s.room q).members := by
  unfold vacate
  rw [room_onRoom]
  split <;> rfl

@[simp] theorem vacate_started (q : Nat) :
    ((s.vacate r).room q).started = (s.room q).started := onRoom_proj Room.started rfl q

@[simp] theorem vacate_alloc (q : Nat) :
    ((s.vacate r).room q).alloc = (s.room q).alloc := onRoom_proj Room.alloc rfl q

@[simp] theorem vacate_client : (s.vacate r).client = s.client := rfl

@[simp] theorem start_members (q seed : Nat) :
    ((s.start r seed).room q).members = (s.room q).members := onRoom_proj Room.members rfl q

@[simp] theorem start_alloc (q seed : Nat) :
    ((s.start r seed).room q).alloc = (s.room q).alloc := onRoom_proj Room.alloc rfl q

@[simp] theorem start_used (q seed : Nat) :
    ((s.start r seed).room q).used = (s.room q).used := onRoom_proj Room.used rfl q

@[simp] theorem start_started (q seed : Nat) :
    ((s.start r seed).room q).started = if q = r then true else (s.room q).started := by
  unfold start
  rw [room_onRoom]
  split <;> rfl

@[simp] theorem start_client (seed : Nat) : (s.start r seed).client = s.client := rfl

end

/-! ## Sending -/

/-- `send_raw` gives up on a client without trying: its backlog would overrun. -/
def overruns (c : Nat) (data : List Nat) (s : Server) : Bool :=
  decide (maxTxBacklog < (s.client c).tx.length + data.length)

/-- The flush that follows once `data` is in the transmit buffer. -/
def flushed (c : Nat) (data : List Nat) (s : Server) : Flushed :=
  flushLoop s.outcomes ((s.client c).tx ++ data)

/-- Whether sending `data` drops the client. -/
def sendFails (c : Nat) (data : List Nat) (s : Server) : Bool :=
  overruns c data s || !(flushed c data s).ok

/-- The frame is in the transmit buffer and what the socket took is out of it. -/
def staged (c : Nat) (alloc : Option Nat) (data : List Nat) (s : Server) : Server :=
  { s with
    queued := s.queued ++ [sentTo c alloc data s]
    outcomes := (flushed c data s).rest }.onClient c fun v =>
      { v with tx := (flushed c data s).tx }

/-- What precedes the drop when sending `data` fails. -/
def tried (c : Nat) (alloc : Option Nat) (data : List Nat) (s : Server) : Server :=
  if overruns c data s then { s with backlogDrops := s.backlogDrops + 1 }
  else staged c alloc data s

/-- What `send_raw` does, by what the socket does. -/
theorem sendRaw_eq (drop : Nat → Server → Server) (c : Nat) (alloc : Option Nat)
    (data : List Nat) (s : Server) :
    sendRaw drop c alloc data s =
      if (s.client c).dead then s
      else if sendFails c data s then drop c (tried c alloc data s)
      else staged c alloc data s := by
  have hstage : flush drop c (enqueue c alloc data s) =
      if (flushed c data s).ok then staged c alloc data s
      else drop c (staged c alloc data s) := by
    simp only [flush, enqueue, flushed, staged, onClient, Function.update_self,
      Function.update_idem]
    congr
  unfold sendRaw sendFails tried
  rw [hstage]
  cases hover : overruns c data s with
  | true =>
      have : maxTxBacklog < (s.client c).tx.length + data.length := by
        simpa [overruns] using hover
      simp [this]
  | false =>
      have : ¬ maxTxBacklog < (s.client c).tx.length + data.length := by
        simpa [overruns] using hover
      cases (flushed c data s).ok <;> simp [this]

section
variable (c m : Nat) (alloc : Option Nat) (data : List Nat) (s : Server)

@[simp] theorem staged_client_room :
    ((staged c alloc data s).client m).room = (s.client m).room := onClient_proj Client.room rfl m

@[simp] theorem staged_client_dead :
    ((staged c alloc data s).client m).dead = (s.client m).dead := onClient_proj Client.dead rfl m

@[simp] theorem staged_client_inUse :
    ((staged c alloc data s).client m).inUse = (s.client m).inUse :=
  onClient_proj Client.inUse rfl m

@[simp] theorem staged_client_conn :
    ((staged c alloc data s).client m).conn = (s.client m).conn := onClient_proj Client.conn rfl m

@[simp] theorem staged_client_name :
    ((staged c alloc data s).client m).name = (s.client m).name := onClient_proj Client.name rfl m

@[simp] theorem staged_room : (staged c alloc data s).room = s.room := rfl

end

/-! ## What the steps keep -/

/-- What the steps of `send_raw` and `drop` between a death and a freed slot keep. -/
structure Idle (P : Server → Prop) : Prop where
  staged : ∀ c alloc data s, (s.client c).dead = false → P s → P (staged c alloc data s)
  overran : ∀ n s, P s → P { s with backlogDrops := n }
  tear : ∀ b s, P s → P { s with torn := s.torn || b }
  link : ∀ c s, P s → P (s.link c none)
  seat : ∀ r ms s, P s → P (s.seat r ms)
  vacate : ∀ r s, P s → P (s.vacate r)
  expect : ∀ p s, P s → P (s.expect p)

/-- What the steps of `send_raw` and `drop` all keep. -/
structure Steady (P : Server → Prop) : Prop extends Idle P where
  bury : ∀ c s, P s → P (bury c s)
  clientFree : ∀ c s, (s.client c).dead = true → P s → P (clientFree c s)

/-- A dead client stays dead. -/
theorem steady_dead (c : Nat) : Steady fun s => (s.client c).dead = true where
  bury d s h := by
    rw [bury_client_dead]
    split
    · rfl
    · exact h
  staged d _ _ s _ h := by
    rw [staged_client_dead]
    exact h
  overran _ _ h := h
  tear _ _ h := h
  link d s h := by
    rw [link_client_dead]
    exact h
  seat _ _ _ h := h
  vacate _ _ h := h
  clientFree d s _ h := by
    rw [clientFree_client_dead]
    exact h
  expect p s h := by
    unfold expect
    split <;> exact h

theorem Steady.foldl {P : Server → Prop} {body : Server → Nat → Server}
    (hbody : ∀ s m, P s → P (body s m)) (ms : List Nat) (s : Server) (hs : P s) :
    P (ms.foldl body s) := by
  induction ms generalizing s with
  | nil => exact hs
  | cons m ms ih => exact ih _ (hbody s m hs)

namespace Idle

variable {P : Server → Prop} {d : Nat → Server → Server}

theorem sendRaw (h : Idle P) (hd : ∀ c s, P s → P (d c s)) (c : Nat) (alloc : Option Nat)
    (data : List Nat) (s : Server) (hs : P s) : P (sendRaw d c alloc data s) := by
  have htried (hlive : (s.client c).dead = false) : P (tried c alloc data s) := by
    unfold tried
    split
    · exact h.overran _ s hs
    · exact h.staged c alloc data s hlive hs
  rw [sendRaw_eq]
  split_ifs with hdead
  · exact hs
  · exact hd c _ (htried (by simpa using hdead))
  · exact h.staged c alloc data s (by simpa using hdead) hs

theorem sendEach (h : Idle P) (hd : ∀ c s, P s → P (d c s)) (alloc : Option Nat)
    (data : Nat → List Nat) (mm : List Nat) (i : Nat) (failed : Bool) (s : Server) (hs : P s) :
    P (sendEach d alloc data i failed mm s) := by
  induction mm generalizing i failed s with
  | nil => exact hs
  | cons m rest ih => exact ih _ _ _ (h.sendRaw hd m alloc _ _ (h.tear _ s hs))

theorem notifyAll (h : Idle P) (hd : ∀ c s, P s → P (d c s)) (cs : List Nat)
    (alloc : Option Nat) (data : List Nat) (s : Server) (hs : P s) :
    P (notifyAll d cs alloc data s) :=
  Steady.foldl (fun s m hs => h.sendRaw hd m alloc data s hs) cs s hs

theorem roomBroadcast (h : Idle P) (hd : ∀ c s, P s → P (d c s)) (r : Nat) (s : Server)
    (hs : P s) : P (roomBroadcast d r s) := h.sendEach hd _ _ _ _ _ s hs

theorem dissolve (h : Idle P) (hd : ∀ c s, P s → P (d c s)) (r : Nat) (notify : List Nat)
    (s : Server) (hs : P s) : P (dissolve d r notify s) := by
  refine h.vacate _ _ (h.notifyAll hd _ _ _ _ ?_)
  exact Steady.foldl (fun s m hs => h.link m s hs) _ _ hs

theorem leave (h : Idle P) (hd : ∀ c s, P s → P (d c s)) (c r seat : Nat) (s : Server)
    (hs : P s) : P (leave d c r seat s) := by
  unfold C.leave
  split_ifs
  · exact h.notifyAll hd _ _ _ _ (h.dissolve hd _ _ _ hs)
  · exact h.dissolve hd _ _ _ hs
  · exact h.dissolve hd _ _ _ hs
  · exact h.roomBroadcast hd _ _ hs

theorem unpair (h : Idle P) (hd : ∀ c s, P s → P (d c s)) (r : Nat) (s : Server)
    (hs : P s) : P (unpair d r s) := by
  unfold C.unpair
  dsimp only
  split
  · exact h.vacate r s hs
  · exact h.sendRaw hd _ _ _ _ (h.link _ _ (h.vacate r s hs))

end Idle

namespace Steady

variable {P : Server → Prop}

theorem and {Q : Server → Prop} (hP : Steady P) (hQ : Steady Q) :
    Steady fun s => P s ∧ Q s where
  bury c s h := ⟨hP.bury c s h.1, hQ.bury c s h.2⟩
  staged c a d s hl h := ⟨hP.staged c a d s hl h.1, hQ.staged c a d s hl h.2⟩
  overran n s h := ⟨hP.overran n s h.1, hQ.overran n s h.2⟩
  tear b s h := ⟨hP.tear b s h.1, hQ.tear b s h.2⟩
  link c s h := ⟨hP.link c s h.1, hQ.link c s h.2⟩
  seat r ms s h := ⟨hP.seat r ms s h.1, hQ.seat r ms s h.2⟩
  vacate r s h := ⟨hP.vacate r s h.1, hQ.vacate r s h.2⟩
  clientFree c s hd h := ⟨hP.clientFree c s hd h.1, hQ.clientFree c s hd h.2⟩
  expect p s h := ⟨hP.expect p s h.1, hQ.expect p s h.2⟩

theorem dropN (h : Steady P) (n c : Nat) (s : Server) (hs : P s) : P (dropN n c s) := by
  induction n generalizing P c s with
  | zero => exact h.expect _ _ hs
  | succ n ih =>
      -- the slot is freed only once its client is dead
      have h' := h.and (steady_dead c)
      have h₁ : P (C.bury c s) ∧ ((C.bury c s).client c).dead = true :=
        ⟨h.bury c s hs, by simp⟩
      unfold C.dropN
      split
      · exact hs
      dsimp only
      split
      · exact h.clientFree c _ h₁.2 h₁.1
      · have hfree : ∀ s', P s' ∧ (s'.client c).dead = true → P (C.clientFree c s') :=
          fun s' hs' => h.clientFree c s' hs'.2 hs'.1
        refine hfree _ ?_
        split
        · exact h'.unpair (fun c s hs => ih h' c s hs) _ _
            (h'.seat _ _ _ (h'.link _ _ (h'.expect _ _ h₁)))
        · exact h'.leave (fun c s hs => ih h' c s hs) _ _ _ _
            (h'.seat _ _ _ (h'.link _ _ (h'.expect _ _ h₁)))

theorem drop (h : Steady P) (c : Nat) (s : Server) (hs : P s) : P (drop c s) :=
  h.dropN _ c s hs

end Steady

/-- What the steps of every handler keep. -/
structure Lasting (P : Server → Prop) : Prop extends Steady P where
  setName : ∀ c name s, P s → P (s.setName c name)
  byName : ∀ d s, P s → P { s with byName := d }
  seeds : ∀ d s, P s → P { s with seeds := d }
  start : ∀ r seed s, P s → P (s.start r seed)
  opened : ∀ r f n s, P s → P ({ s with allocs := n }.onRoom r f)
  linked : ∀ c r s, P s → P (s.link c r)

/-- What the steps of every handler keep, a whole drop being one step. -/
structure Handled (P : Server → Prop) : Prop extends Idle P where
  drop : ∀ c s, P s → P (drop c s)
  setName : ∀ c name s, P s → P (s.setName c name)
  byName : ∀ d s, P s → P { s with byName := d }
  seeds : ∀ d s, P s → P { s with seeds := d }
  start : ∀ r seed s, P s → P (s.start r seed)
  opened : ∀ r f n s, P s → P ({ s with allocs := n }.onRoom r f)
  linked : ∀ c r s, P s → P (s.link c r)

namespace Handled

variable {P : Server → Prop}

theorem sendRaw_drop (h : Handled P) (c : Nat) (alloc : Option Nat) (data : List Nat)
    (s : Server) (hs : P s) : P (C.sendRaw C.drop c alloc data s) :=
  h.sendRaw h.drop c alloc data s hs

theorem roomAlloc (h : Handled P) {host r : Nat} {s s' : Server} (hs : P s)
    (hr : roomAlloc host s = some (r, s')) : P s' := by
  obtain ⟨i, -, hi⟩ := Option.map_eq_some_iff.mp hr
  obtain ⟨-, rfl⟩ := Prod.mk.inj hi
  exact h.opened _ _ _ s hs

theorem onList (h : Handled P) (c : Nat) (s : Server) (hs : P s) : P (onList c s) :=
  h.sendRaw_drop c _ _ s hs

theorem rename (h : Handled P) (c : Nat) (name : Name) (s : Server) (hs : P s) :
    P (rename c name s) := by
  unfold C.rename
  extract_lets prev s₁
  have h₁ : P s₁ := by
    simp only [s₁]
    split
    · exact h.byName _ s hs
    · exact hs
  refine h.onList c _ ?_
  unfold nameSet
  split
  · exact h.setName c name s₁ h₁
  · exact h.byName _ _ (h.setName c name s₁ h₁)

theorem onHello (h : Handled P) (c : Nat) (payload : List Nat) (s : Server) (hs : P s) :
    P (onHello c payload s) := by
  unfold C.onHello register
  split
  · exact h.drop c s hs
  split
  · exact h.rename c _ s hs
  split
  · exact h.rename c _ s hs
  dsimp only
  split
  · exact h.drop _ s hs
  · exact h.rename c _ _ (h.drop _ s hs)

theorem startRoom (h : Handled P) (r : Nat) (s : Server) (hs : P s) : P (startRoom r s) :=
  h.sendEach h.drop _ _ _ _ _ _ (h.start _ _ _ (h.seeds _ s hs))

theorem startPair (h : Handled P) (host guest : Nat) (s : Server) (hs : P s) :
    P (startPair host guest s) := by
  unfold C.startPair
  dsimp only
  split
  · exact h.onList guest _ (h.seeds _ s hs)
  · next halloc =>
      have h₁ := h.roomAlloc (h.seeds s.seeds.tail s hs) halloc
      exact h.sendEach h.drop _ _ _ _ _ _
        (h.linked _ _ _ (h.linked _ _ _ (h.start _ _ _ (h.seat _ _ _ h₁))))

theorem enter (h : Handled P) (c target : Nat) (s : Server) (hs : P s) :
    P (enter c target s) := by
  unfold C.enter
  split
  · exact h.onList c s hs
  · next r s₁ hfound =>
      have h₁ : P s₁ := by
        unfold roomFor at hfound
        split at hfound
        · obtain ⟨-, rfl⟩ := Prod.mk.inj (Option.some.inj hfound)
          exact hs
        · split at hfound
          · exact absurd hfound (by simp)
          · next halloc =>
              obtain ⟨-, rfl⟩ := Prod.mk.inj (Option.some.inj hfound)
              exact h.linked _ _ _ (h.roomAlloc hs halloc)
      have h₂ := h.roomBroadcast h.drop r _ (h.linked c (some r) _ (h.seat r
        ((s₁.room r).members ++ [c]) _ h₁))
      dsimp only
      split
      · exact h.startRoom r _ h₂
      · exact h₂

theorem onJoin (h : Handled P) (c : Nat) (payload : List Nat) (s : Server) (hs : P s) :
    P (onJoin c payload s) := by
  unfold C.onJoin
  split
  · exact h.drop c s hs
  split
  · exact hs
  dsimp only
  split
  · exact h.onList c s hs
  split
  · exact h.onList c s hs
  split
  · split
    · exact h.onList c s hs
    · exact h.startPair _ c s hs
  · split
    · exact h.onList c s hs
    · exact h.enter c _ s hs

theorem onGo (h : Handled P) (c : Nat) (s : Server) (hs : P s) : P (onGo c s) := by
  unfold C.onGo
  split
  · exact hs
  split_ifs
  · exact hs
  · exact hs
  · exact h.startRoom _ s hs

theorem handle (h : Handled P) (c ftype : Nat) (payload : List Nat) (s : Server) (hs : P s) :
    P (handle c ftype payload s) := by
  unfold C.handle
  split_ifs
  · unfold relay
    split
    · exact hs
    split
    · exact h.sendEach h.drop _ _ _ _ _ s hs
    · exact hs
  · exact h.onHello c payload s hs
  · exact h.onList c s hs
  · exact h.onJoin c payload s hs
  · exact h.onGo c s hs
  · exact h.drop c s hs
  · exact h.sendRaw_drop c _ _ s hs
  · exact h.drop c s hs

end Handled

theorem Lasting.handled {P : Server → Prop} (h : Lasting P) : Handled P :=
  { h with drop := h.drop }

theorem Lasting.handle {P : Server → Prop} (h : Lasting P) (c ftype : Nat) (payload : List Nat)
    (s : Server) (hs : P s) : P (handle c ftype payload s) := h.handled.handle c ftype payload s hs

/-- Nothing mends a tear. -/
theorem lasting_torn : Lasting fun s => s.torn = true where
  bury _ _ h := h
  staged _ _ _ _ _ h := h
  overran _ _ h := h
  tear b s h := by
    show (s.torn || b) = true
    rw [h, Bool.true_or]
  link _ _ h := h
  seat _ _ _ h := h
  vacate _ _ h := h
  clientFree _ _ _ h := h
  expect p s h := by
    unfold expect
    split <;> exact h
  setName _ _ _ h := h
  byName _ _ h := h
  seeds _ _ h := h
  start _ _ _ h := h
  opened _ _ _ _ h := h
  linked _ _ _ h := h

/-- A client that is connected stays so until it is dead. -/
theorem lasting_connected (c : Nat) :
    Lasting fun s => (s.client c).inUse = true ∨ (s.client c).dead = true where
  bury d s h := by
    rw [bury_client_inUse, bury_client_dead]
    exact h.imp_right fun h' => by
      split
      · rfl
      · exact h'
  staged d _ _ s _ h := by
    rw [staged_client_inUse, staged_client_dead]
    exact h
  overran _ _ h := h
  tear _ _ h := h
  link d s h := by
    rw [link_client_inUse, link_client_dead]
    exact h
  seat _ _ _ h := h
  vacate _ _ h := h
  clientFree d s hd h := by
    rw [clientFree_client_inUse, clientFree_client_dead]
    by_cases hc : c = d
    · exact Or.inr (hc ▸ hd)
    · rw [if_neg hc]
      exact h
  expect p s h := by
    unfold expect
    split <;> exact h
  setName d name s h := by
    rw [setName_client_inUse, setName_client_dead]
    exact h
  byName _ _ h := h
  seeds _ _ h := h
  start _ _ _ h := h
  opened _ _ _ _ h := h
  linked d r s h := by
    rw [link_client_inUse, link_client_dead]
    exact h

/-! ## Live clients -/

/-- The slots whose client is not dead. -/
def lives (s : Server) : Finset Nat :=
  (Finset.range maxClients).filter fun m => (s.client m).dead = false

theorem lives_le (s : Server) : (lives s).card ≤ maxClients := by
  have h := Finset.card_filter_le (Finset.range maxClients) fun m => (s.client m).dead = false
  rwa [Finset.card_range] at h

theorem lives_mono {s' : Server}
    (h : ∀ m, (s.client m).dead = true → (s'.client m).dead = true) :
    (lives s').card ≤ (lives s).card := by
  refine Finset.card_le_card fun m hm => ?_
  obtain ⟨hm, hlive⟩ := Finset.mem_filter.mp hm
  refine Finset.mem_filter.mpr ⟨hm, ?_⟩
  cases hdead : (s.client m).dead with
  | false => rfl
  | true =>
      rw [h m hdead] at hlive
      exact absurd hlive (by simp)

theorem lives_lt {s' : Server} {c : Nat} (hc : c < maxClients)
    (hlive : (s.client c).dead = false) (hdead : (s'.client c).dead = true)
    (h : ∀ m, (s.client m).dead = true → (s'.client m).dead = true) :
    (lives s').card < (lives s).card := by
  refine Finset.card_lt_card (Finset.ssubset_iff_subset_ne.mpr ⟨fun m hm => ?_, fun heq => ?_⟩)
  · obtain ⟨hm, hm'⟩ := Finset.mem_filter.mp hm
    refine Finset.mem_filter.mpr ⟨hm, ?_⟩
    cases hd : (s.client m).dead with
    | false => rfl
    | true =>
        rw [h m hd] at hm'
        exact absurd hm' (by simp)
  · have hmem : c ∈ lives s := Finset.mem_filter.mpr ⟨Finset.mem_range.mpr hc, hlive⟩
    rw [← heq] at hmem
    have := (Finset.mem_filter.mp hmem).2
    rw [hdead] at this
    exact absurd this (by simp)

end SharkNetplay.Relay.C
