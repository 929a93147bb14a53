import SharkNetplay.Relay.PyDrop

/-!
# The frames the Python relay queues

Whatever happens, a frame in a transmit buffer is a whole frame of the server's own
or of a type it relays.
-/

namespace SharkNetplay.Relay.Py

open Server

variable {s : Server} {c r : Nat}

/-- Names are bytes, rooms fit the roster, and the frames queued are the server's. -/
structure Clean (s : Server) : Prop where
  names : ∀ c n, (s.client c).name = some n → ∀ b ∈ n, b < 256
  rooms : ∀ r, (s.room r).members.length ≤ 4
  queued : ∀ e ∈ s.queued, Queueable e.2

theorem padName_length (name : Name) : (padName name).length = 8 := by
  simp only [padName, List.length_append, List.length_replicate, List.length_take]
  omega

theorem padName_bytes {name : Name} (h : ∀ b ∈ name, b < 256) : ∀ b ∈ padName name, b < 256 := by
  intro b hb
  rcases List.mem_append.mp hb with hb | hb
  · exact h b (List.mem_of_mem_take hb)
  · rw [List.eq_of_mem_replicate hb]
    decide

namespace Clean

theorem nameOf_bytes (h : Clean s) (c : Nat) : ∀ b ∈ nameOf c s, b < 256 := by
  unfold nameOf
  cases hn : (s.client c).name with
  | none => simp
  | some n => exact h.names c n hn

theorem roster_length (h : Clean s) (r : Nat) : (roster r s).length = 32 := by
  have hr := h.rooms r
  unfold roster
  rw [List.length_append, flatten_length fun m => padName_length (nameOf m s),
    List.length_replicate]
  simp only [rosterSlots]
  omega

theorem roster_bytes (h : Clean s) (r : Nat) : ∀ b ∈ roster r s, b < 256 := by
  intro b hb
  rcases List.mem_append.mp hb with hb | hb
  · exact flatten_bytes (fun m => padName_bytes (h.nameOf_bytes m)) b hb
  · rw [List.eq_of_mem_replicate hb]
    decide

theorem bury (h : Clean s) : Clean (bury c s) where
  names m n hn := h.names m n (by simpa using hn)
  rooms := h.rooms
  queued := h.queued

theorem staged {data : List Nat} (h : Clean s) (hdata : Queueable data) :
    Clean (staged c data s) where
  names m n hn := h.names m n (by simpa using hn)
  rooms := h.rooms
  queued e he := by
    rcases List.mem_append.mp he with he | he
    · exact h.queued e he
    · rw [List.mem_singleton.mp he]
      exact hdata

theorem link (h : Clean s) (q : Option Nat) : Clean (s.link c q) where
  names m n hn := h.names m n (by simpa using hn)
  rooms := h.rooms
  queued := h.queued

theorem seat (h : Clean s) {ms : List Nat} (hms : ms.length ≤ 4) : Clean (s.seat r ms) where
  names := h.names
  rooms q := by
    rw [seat_members]
    split
    · exact hms
    · exact h.rooms q
  queued := h.queued

theorem expect (h : Clean s) (p : Bool) : Clean (s.expect p) := by
  unfold Server.expect
  split
  · exact h
  · exact ⟨h.names, h.rooms, h.queued⟩

theorem send {d : Nat → Server → Server} (h : Clean s) (hd : ∀ c s, Clean s → Clean (d c s))
    {data : List Nat} (hdata : Queueable data) : Clean (send d c data s) := by
  rw [send_eq]
  split_ifs
  · exact h
  · exact hd c s h
  · exact h.staged hdata
  · exact hd c _ (h.staged hdata)

theorem forMembers {body : Nat → Nat → Server → Server} (h : Clean s)
    (hbody : ∀ i m s, i < 4 → Clean s → Clean (body i m s)) (fuel i : Nat) :
    Clean (forMembers r body fuel i s) := by
  induction fuel generalizing i s with
  | zero => exact h.expect _
  | succ fuel ih =>
      unfold Py.forMembers
      split
      · exact h
      · next m hm =>
          have hlt := (List.getElem?_eq_some_iff.mp hm).1
          have hr := h.rooms r
          exact ih (hbody i m s (by omega) h) (i + 1)

theorem foldl {α : Type} {body : Server → α → Server} (hbody : ∀ s m, Clean s → Clean (body s m))
    (ms : List α) (h : Clean s) : Clean (ms.foldl body s) := by
  induction ms generalizing s with
  | nil => exact h
  | cons m ms ih => exact ih (hbody s m h)

theorem roomFrame (h : Clean s) (r : Nat) :
    Queueable (frame tRoom ((s.room r).members.length :: roster r s)) := by
  have hr := h.rooms r
  refine Or.inl (.room (fun b hb => ?_) (congrArg (· + 1) (h.roster_length r)) hr)
  rcases List.mem_cons.mp hb with rfl | hb
  · omega
  · exact h.roster_bytes r b hb

theorem roomBroadcast {d : Nat → Server → Server} (h : Clean s)
    (hd : ∀ c s, Clean s → Clean (d c s)) (r : Nat) : Clean (roomBroadcast d r s) := by
  have h₁ := h.expect (allNamed (s.room r).members s)
  have hframe := h₁.roomFrame r
  exact h₁.forMembers (fun _ m s' _ hs => hs.send hd hframe) _ _

theorem roomZero : Queueable (frame tRoom (0 :: List.replicate 32 0)) := by
  refine Or.inl (.room (fun b hb => ?_) rfl (Nat.zero_le _))
  rcases List.mem_cons.mp hb with rfl | hb
  · decide
  · rw [List.eq_of_mem_replicate hb]
    decide

theorem dissolve {d : Nat → Server → Server} (h : Clean s)
    (hd : ∀ c s, Clean s → Clean (d c s)) (r : Nat) (notify : List Nat) :
    Clean (dissolve d r notify s) := by
  refine Clean.seat (foldl (fun s m hs => hs.send hd roomZero) _ ?_) (by simp)
  exact foldl (fun s m hs => hs.link none) _ h

theorem peerLeft (h : Clean s) {seat : Nat} (hseat : seat < 256) :
    Queueable (frame tPeerLeft (seat :: padName (nameOf c s))) := by
  refine Or.inl (.peerLeft (fun b hb => ?_) (congrArg (· + 1) (padName_length _)))
  rcases List.mem_cons.mp hb with rfl | hb
  · exact hseat
  · exact padName_bytes (h.nameOf_bytes c) b hb

theorem leave {d : Nat → Server → Server} (h : Clean s) (hd : ∀ c s, Clean s → Clean (d c s))
    {seat : Nat} (hseat : seat < 256) : Clean (leave d c r seat s) := by
  unfold Py.leave
  split_ifs
  · have h₁ := h.expect (allNamed [c] s)
    exact foldl (fun s m hs => hs.send hd (h₁.peerLeft hseat)) _ (h₁.dissolve hd _ _)
  · exact h.dissolve hd _ _
  · exact h.dissolve hd _ _
  · exact h.roomBroadcast hd _

theorem dropN (h : Clean s) (n c : Nat) : Clean (dropN n c s) := by
  induction n generalizing c s with
  | zero => exact h.expect _
  | succ n ih =>
      unfold Py.dropN
      split
      · exact h
      dsimp only
      split
      · exact h.bury
      · next r _ =>
          have h₁ := (h.bury (c := c)).expect (((Py.bury c s).room r).members.contains c)
          have hr := h₁.rooms r
          refine Clean.leave (Clean.seat (h₁.link none) ?_) (fun c s hs => ih hs c) ?_
          · exact Nat.le_trans List.length_erase_le hr
          · have := List.idxOf_le_length (a := c) (l := ((((Py.bury c s).expect
              (((Py.bury c s).room r).members.contains c))).room r).members)
            omega

theorem drop (h : Clean s) (c : Nat) : Clean (drop c s) := h.dropN _ c

theorem send_drop (h : Clean s) {data : List Nat} (hdata : Queueable data) :
    Clean (Py.send Py.drop c data s) := h.send (fun c _ hs => hs.drop c) hdata

theorem status_lt (h : Clean s) (c : Nat) : status c s < 256 := by
  unfold status
  split
  · decide
  · next r _ =>
      have hr := h.rooms r
      dsimp only
      split
      · exact Nat.or_lt_two_pow (n := 8) (by decide) (by omega)
      · omega

theorem onList (h : Clean s) (c : Nat) : Clean (onList c s) := by
  have hcount : (others c s).length ≤ 8 := List.length_take_le _ _
  have hflat : (((others c s).map fun o => padName (nameOf o s) ++ [status o s]).flatten).length =
      9 * (others c s).length := flatten_length (fun m => by
    rw [List.length_append, padName_length]
    rfl) _
  refine h.send_drop (Or.inl (.lobby (fun b hb => ?_) (by simp) ?_))
  · rcases List.mem_cons.mp hb with rfl | hb
    · omega
    · refine flatten_bytes (fun m b hb => ?_) b hb
      rcases List.mem_append.mp hb with hb | hb
      · exact padName_bytes (h.nameOf_bytes m) b hb
      · rw [List.mem_singleton.mp hb]
        exact h.status_lt m
  · rw [List.length_cons, hflat]
    omega

theorem setName (h : Clean s) {name : Name} (hname : ∀ b ∈ name, b < 256) :
    Clean (s.setName c name) where
  names m n hn := by
    rw [setName_client_name] at hn
    split at hn
    · rw [← Option.some.inj hn]
      exact hname
    · exact h.names m n hn
  rooms := h.rooms
  queued := h.queued

theorem withByName (h : Clean s) (d : List (Name × Nat)) : Clean { s with byName := d } :=
  ⟨h.names, h.rooms, h.queued⟩

theorem helloName_bytes {payload : List Nat} {name : Name}
    (h : helloName payload = some name) : ∀ b ∈ name, b < 256 := by
  unfold helloName at h
  split at h
  · exact absurd h (by simp)
  · dsimp only at h
    split at h
    · next hok =>
        rw [← Option.some.inj h]
        intro b hb
        have hchar := List.all_eq_true.mp hok.2.2 b hb
        simp only [nameChar, Bool.or_eq_true, Bool.and_eq_true, decide_eq_true_eq] at hchar
        omega
    · exact absurd h (by simp)

theorem register (h : Clean s) {name : Name} (hname : ∀ b ∈ name, b < 256) :
    Clean (register c name s) := by
  unfold Py.register
  extract_lets s₁ s₂ s₃
  have h₁ : Clean s₁ := by
    simp only [s₁]
    split
    · split
      · exact h.drop _
      · exact h
    · exact h
  have h₂ : Clean s₂ := by
    simp only [s₂]
    split
    · split
      · exact h₁.withByName _
      · exact h₁
    · exact h₁
  exact ((h₂.setName hname).withByName _).onList c

theorem startRoom (h : Clean s) (r : Nat) : Clean (startRoom r s).1 := by
  unfold Py.startRoom
  extract_lets seed s₁ s₂ s₃ common
  have h₂ : Clean s₂ := by
    refine ⟨h.names, fun q => ?_, h.queued⟩
    show ((s₁.start r seed).room q).members.length ≤ 4
    rw [start_members]
    exact h.rooms q
  split
  · exact h₂
  next hdelay =>
    have h₃ : Clean s₃ := h₂.expect _
    have hr := h₃.rooms r
    have hseed : seed < 65536 := (s.seeds.headD default).lt
    have hd : s₃.delay = s₂.delay := by
      simp only [s₃]
      unfold Server.expect
      split <;> rfl
    refine h₃.forMembers (fun i m s' hi hs => hs.send_drop (Or.inl (.start (fun b hb => ?_)
      ?_ ?_))) _ _
    · simp only [common, List.mem_cons, List.cons_append, List.nil_append] at hb
      rcases hb with rfl | rfl | rfl | rfl | rfl | hb
      · omega
      · omega
      · omega
      · omega
      · rw [hd]
        omega
      · exact h₃.roster_bytes r b hb
    · exact congrArg (· + 5) (h₃.roster_length r)
    · exact hr

theorem onJoin (h : Clean s) (payload : List Nat) : Clean (onJoin c payload s).1 := by
  rw [Py.onJoin_eq]
  split
  · exact h
  split
  · exact h
  split
  · exact h.onList c
  next target htarget =>
  split
  · exact h.onList c
  next hjoin =>
  extract_lets p r s₁ s₂
  have hp : Clean p.1 ∧ (p.1.room r).members.length ≤ 3 := by
    simp only [r, p, roomFor]
    split
    · next q hq =>
        refine ⟨h, ?_⟩
        have hopen : (s.room q).members.length < 2 := by
          by_contra hno
          refine hjoin ?_
          have : decide (maxSeats ≤ (s.room q).members.length) = true :=
            decide_eq_true (Nat.not_lt.mp hno)
          simp only [unjoinable, hq, this, Bool.or_true]
        show (s.room q).members.length ≤ 3
        omega
    · have hmade : Clean ({ s with nextRoom := s.nextRoom + 1 }.setRoom s.nextRoom
          { members := [target] }) := ⟨h.names, fun q => ?_, h.queued⟩
      · refine ⟨hmade.link _, ?_⟩
        show ((Server.link target _ _).room s.nextRoom).members.length ≤ 3
        rw [link_room, room_setRoom, if_pos rfl]
        exact Nat.le_add_left 1 2
      · rw [room_setRoom]
        split
        · exact Nat.le_add_left 1 3
        · exact h.rooms q
  have h₁ : Clean s₁ := by
    refine Clean.link (hp.1.seat ?_) _
    rw [List.length_append]
    exact Nat.add_le_add hp.2 (Nat.le_refl 1)
  have h₂ : Clean s₂ := h₁.roomBroadcast (fun c _ hs => hs.drop c) r
  split
  · exact h₂.startRoom r
  · exact h₂

theorem onGo (h : Clean s) : Clean (onGo c s).1 := by
  unfold Py.onGo
  split
  · exact h
  split
  · exact h
  have h₁ := h.expect
  dsimp only
  split_ifs
  · exact h₁ _
  · exact (h₁ _).startRoom _
  · exact h₁ _

theorem handle (h : Clean s) (ftype : Nat) (payload : List Nat) :
    Clean (handle c ftype payload s).1 := by
  unfold Py.handle
  split_ifs with hrelay
  · unfold relay
    split
    · exact h
    split
    · refine h.forMembers (fun _ m s' _ hs => ?_) _ _
      split
      · exact hs
      · exact hs.send_drop (Or.inr hrelay)
    · exact h
  · split
    · exact h
    · next name hname => exact h.register (helloName_bytes hname)
  · exact h.onList c
  · exact h.onJoin payload
  · exact h.onGo
  · exact h.drop c
  · exact h.send_drop (Or.inl .pong)
  · exact h

theorem setRx (h : Clean s) (rx : List Nat) : Clean (s.setRx c rx) where
  names m n hn := h.names m n (by simpa using hn)
  rooms := h.rooms
  queued := h.queued

theorem feed (h : Clean s) (fuel : Nat) : Clean (feed fuel c s) := by
  induction fuel generalizing s with
  | zero => exact h.expect _
  | succ fuel ih =>
      unfold Py.feed
      split
      · exact h
      split
      · exact h.drop c
      split
      · exact h
      dsimp only
      split
      · exact ((h.setRx _).handle _ _).drop c
      split
      · exact (h.setRx _).handle _ _
      · exact ih ((h.setRx _).handle _ _)

theorem step (h : Clean s) (e : Event) : Clean (s.step e) := by
  cases e with
  | accept ip =>
      simp only [Server.step, accept]
      split_ifs
      · exact h
      · exact h
      · refine ⟨fun m n hn => ?_, h.rooms, h.queued⟩
        unfold enroll at hn
        rw [client_setClient] at hn
        split at hn
        · exact absurd hn (by simp)
        · exact h.names m n hn
  | recv c data =>
      simp only [Server.step]
      split
      · exact (h.setRx _).feed _
      · exact h
  | eof c =>
      simp only [Server.step]
      split
      · exact h.drop c
      · exact h
  | writable c =>
      simp only [Server.step]
      split
      · unfold flush
        dsimp only
        have h₁ : ∀ outcomes tx, Clean ({ s with outcomes := outcomes }.setClient c
            { s.client c with tx := tx }) := by
          refine fun outcomes tx => ⟨fun m n hn => ?_, h.rooms, h.queued⟩
          rw [client_setClient] at hn
          split at hn
          · exact h.names c n hn
          · exact h.names m n hn
        split
        · exact h₁ _ _
        · exact (h₁ _ _).drop c
      · exact h
  | sweep late =>
      refine foldl (fun s c hs => ?_) _ h
      split
      · exact hs.drop c
      · exact hs

end Clean

/-- Every frame the relay ever queues is one of its own, whole and of the length of
its type, or of a type it relays. -/
theorem queued_frames (delay autoGo : Int) (outcomes : List SendResult) (seeds : List Seed)
    (events : List Event) :
    ∀ e ∈ ((Server.init delay autoGo outcomes seeds).run events).queued, Queueable e.2 := by
  have hrun : ∀ s, Clean s → Clean (s.run events) := by
    intro s
    induction events generalizing s with
    | nil => exact fun h => h
    | cons e events ih => exact fun h => ih _ (h.step e)
  refine (hrun _ ⟨fun c n hn => ?_, fun r => ?_, fun e he => ?_⟩).queued
  · exact absurd hn (by simp [Server.init])
  · simp [Server.init]
  · exact absurd he (by simp [Server.init])

end SharkNetplay.Relay.Py
