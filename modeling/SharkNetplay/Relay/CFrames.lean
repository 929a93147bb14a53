import SharkNetplay.Relay.CSend

/-!
# The frames the C relay queues

As for the Python relay: whatever happens, a frame in a transmit buffer of the v2
relay is a whole frame of the server's own or of a type it relays. A torn loop may
queue a frame to the wrong client, but not a malformed one.
-/

namespace SharkNetplay.Relay.C

open Server

variable {s : Server} {c r : Nat} {d : Nat → Server → Server}

/-- Names are bytes, rooms fit the roster, and the frames queued are the server's. -/
structure Clean (s : Server) : Prop where
  proto : s.proto = .v2
  seats : s.maxSeats ≤ 4
  names : ∀ c, ∀ b ∈ (s.client c).name, b < 256
  rooms : ∀ r, (s.room r).members.length ≤ 4
  queued : ∀ e ∈ s.queued, Queueable e.frame

theorem padName_length (name : Name) : (padName name).length = 8 := by
  simp only [padName, List.length_append, List.length_replicate, List.length_take]
  omega

theorem padName_bytes {name : Name} (h : ∀ b ∈ name, b < 256) : ∀ b ∈ padName name, b < 256 := by
  intro b hb
  rcases List.mem_append.mp hb with hb | hb
  · exact h b (List.mem_of_mem_take hb)
  · rw [List.eq_of_mem_replicate hb]
    decide

/-- The roster of any room fills its slots. -/
theorem roomRoster_length (r : Nat) (s : Server) : (roomRoster r s).length = 32 := by
  have hr : ((s.room r).members.take rosterSlots).length ≤ 4 := List.length_take_le _ _
  unfold roomRoster
  dsimp only
  rw [List.length_append, flatten_length fun m => padName_length (s.client m).name,
    List.length_replicate]
  simp only [rosterSlots] at *
  omega

/-- A built frame whose length fits its byte. -/
theorem frameBuild_eq {ftype : Nat} {payload : List Nat} (h : payload.length < 255) :
    frameBuild ftype payload = (payload.length + 1) :: ftype :: payload := by
  unfold frameBuild
  rw [Nat.mod_eq_of_lt (by omega)]

namespace Clean

theorem roster_bytes (h : Clean s) (r : Nat) : ∀ b ∈ roomRoster r s, b < 256 := by
  intro b hb
  rcases List.mem_append.mp hb with hb | hb
  · exact flatten_bytes (fun m => padName_bytes (h.names m)) b hb
  · rw [List.eq_of_mem_replicate hb]
    decide

/-- A change of one client that leaves its name alone. -/
theorem onClient (h : Clean s) {f : Client → Client}
    (hname : (f (s.client c)).name = (s.client c).name) : Clean (s.onClient c f) where
  proto := h.proto
  seats := h.seats
  names m := by
    rw [onClient_proj Client.name hname]
    exact h.names m
  rooms := h.rooms
  queued := h.queued

/-- A change of one room that keeps it within the roster. -/
theorem onRoom (h : Clean s) {f : Room → Room} (hlen : (f (s.room r)).members.length ≤ 4) :
    Clean (s.onRoom r f) where
  proto := h.proto
  seats := h.seats
  names := h.names
  rooms q := by
    rw [room_onRoom]
    split
    · exact hlen
    · exact h.rooms q
  queued := h.queued

theorem bury (h : Clean s) : Clean (bury c s) :=
  onClient (s := { s with byName := s.byName.filter fun e => e.2 != c })
    ⟨h.proto, h.seats, h.names, h.rooms, h.queued⟩ rfl

theorem clientFree (h : Clean s) : Clean (clientFree c s) :=
  onClient (s := { s with nClients := s.nClients - 1 })
    ⟨h.proto, h.seats, h.names, h.rooms, h.queued⟩ rfl

theorem staged {alloc : Option Nat} {data : List Nat} (h : Clean s) (hdata : Queueable data) :
    Clean (staged c alloc data s) := by
  refine onClient (s := { s with
    queued := s.queued ++ [sentTo c alloc data s]
    outcomes := (flushed c data s).rest })
    ⟨h.proto, h.seats, h.names, h.rooms, fun e he => ?_⟩ rfl
  rcases List.mem_append.mp he with he | he
  · exact h.queued e he
  · rw [List.mem_singleton.mp he]
    exact hdata

theorem link (h : Clean s) (q : Option Nat) : Clean (s.link c q) := h.onClient rfl

theorem seat (h : Clean s) {ms : List Nat} (hms : ms.length ≤ 4) : Clean (s.seat r ms) :=
  h.onRoom hms

theorem vacate (h : Clean s) : Clean (s.vacate r) := h.onRoom (Nat.zero_le _)

theorem expect (h : Clean s) (p : Bool) : Clean (s.expect p) := by
  unfold Server.expect
  split
  · exact h
  · exact ⟨h.proto, h.seats, h.names, h.rooms, h.queued⟩

theorem sendRaw (h : Clean s) (hd : ∀ c s, Clean s → Clean (d c s)) {alloc : Option Nat}
    {data : List Nat} (hdata : Queueable data) : Clean (sendRaw d c alloc data s) := by
  rw [sendRaw_eq]
  split_ifs
  · exact h
  · refine hd c _ ?_
    unfold tried
    split
    · exact ⟨h.proto, h.seats, h.names, h.rooms, h.queued⟩
    · exact h.staged hdata
  · exact h.staged hdata

theorem sendEach (h : Clean s) (hd : ∀ c s, Clean s → Clean (d c s)) {alloc : Option Nat}
    {data : Nat → List Nat} (hdata : ∀ i, Queueable (data i)) (mm : List Nat) (i : Nat)
    (failed : Bool) : Clean (sendEach d alloc data i failed mm s) := by
  induction mm generalizing i failed s with
  | nil => exact h
  | cons m rest ih =>
      refine ih (sendRaw (s := { s with torn := _ }) ?_ hd (hdata i)) _ _
      exact ⟨h.proto, h.seats, h.names, h.rooms, h.queued⟩

theorem foldl {body : Server → Nat → Server} (hbody : ∀ s m, Clean s → Clean (body s m))
    (ms : List Nat) (h : Clean s) : Clean (ms.foldl body s) := by
  induction ms generalizing s with
  | nil => exact h
  | cons m ms ih => exact ih (hbody s m h)

theorem notifyAll (h : Clean s) (hd : ∀ c s, Clean s → Clean (d c s)) {alloc : Option Nat}
    {data : List Nat} (hdata : Queueable data) (cs : List Nat) :
    Clean (notifyAll d cs alloc data s) :=
  foldl (fun _ _ hs => hs.sendRaw hd hdata) cs h

theorem roomFrame (h : Clean s) (r : Nat) :
    Queueable (frameBuild tRoom ((s.room r).members.length % 256 :: roomRoster r s)) := by
  have hr := h.rooms r
  have hlen : ((s.room r).members.length % 256 :: roomRoster r s).length = 33 :=
    congrArg (· + 1) (roomRoster_length r s)
  rw [frameBuild_eq (by rw [hlen]; decide)]
  refine Or.inl (.room (fun b hb => ?_) hlen ?_)
  · rcases List.mem_cons.mp hb with rfl | hb
    · omega
    · exact h.roster_bytes r b hb
  · exact Nat.le_trans (Nat.mod_le _ _) hr

theorem roomBroadcast (h : Clean s) (hd : ∀ c s, Clean s → Clean (d c s)) (r : Nat) :
    Clean (roomBroadcast d r s) := h.sendEach hd (fun _ => h.roomFrame r) _ _ _

theorem roomZero : Queueable (frameBuild tRoom (0 :: List.replicate 32 0)) := by
  rw [frameBuild_eq (by decide)]
  refine Or.inl (.room (fun b hb => ?_) rfl (Nat.zero_le _))
  rcases List.mem_cons.mp hb with rfl | hb
  · decide
  · rw [List.eq_of_mem_replicate hb]
    decide

theorem dissolve (h : Clean s) (hd : ∀ c s, Clean s → Clean (d c s)) (r : Nat)
    (notify : List Nat) : Clean (dissolve d r notify s) := by
  refine Clean.vacate (Clean.notifyAll ?_ hd roomZero _)
  exact foldl (fun s m hs => hs.link none) _ h

theorem peerLeft (h : Clean s) (seat c : Nat) :
    Queueable (frameBuild tPeerLeft (seat % 256 :: padName (s.client c).name)) := by
  have hlen : (seat % 256 :: padName (s.client c).name).length = 9 :=
    congrArg (· + 1) (padName_length _)
  rw [frameBuild_eq (by rw [hlen]; decide)]
  refine Or.inl (.peerLeft (fun b hb => ?_) hlen)
  rcases List.mem_cons.mp hb with rfl | hb
  · omega
  · exact padName_bytes (h.names c) b hb

theorem leave (h : Clean s) (hd : ∀ c s, Clean s → Clean (d c s)) (seat : Nat) :
    Clean (leave d c r seat s) := by
  unfold C.leave
  split_ifs
  · exact (h.dissolve hd _ _).notifyAll hd (h.peerLeft seat c) _
  · exact h.dissolve hd _ _
  · exact h.dissolve hd _ _
  · exact h.roomBroadcast hd _

theorem dropN (h : Clean s) (n c : Nat) : Clean (dropN n c s) := by
  induction n generalizing c s with
  | zero => exact h.expect _
  | succ n ih =>
      unfold C.dropN
      split
      · exact h
      extract_lets s₁
      have h₁ : Clean s₁ := h.bury
      split
      · exact h₁.clientFree
      · next r _ =>
          extract_lets s₂ seat s₃
          have h₂ : Clean s₂ := h₁.expect _
          have h₃ : Clean s₃ :=
            (h₂.link none).seat (Nat.le_trans (List.length_eraseIdx_le _ _) (h₂.rooms r))
          refine Clean.clientFree ?_
          rw [h₃.proto]
          exact h₃.leave (fun c s hs => ih hs c) seat

theorem drop (h : Clean s) (c : Nat) : Clean (drop c s) := h.dropN _ c

theorem sendRaw_drop (h : Clean s) {alloc : Option Nat} {data : List Nat}
    (hdata : Queueable data) : Clean (C.sendRaw C.drop c alloc data s) :=
  h.sendRaw (fun c _ hs => hs.drop c) hdata

theorem statusByte_lt (c : Nat) (s : Server) : statusByte c s < 256 := by
  unfold statusByte
  split
  · decide
  · decide
  · decide
  · exact Nat.mod_lt _ (by decide)

theorem onList (h : Clean s) (c : Nat) : Clean (onList c s) := by
  have hcount : (others c s).length ≤ 8 := List.length_take_le _ _
  have hflat : (((others c s).map fun o =>
      padName (s.client o).name ++ [statusByte o s]).flatten).length = 9 * (others c s).length :=
    flatten_length (fun m => by
      rw [List.length_append, padName_length]
      rfl) _
  refine h.sendRaw_drop ?_
  rw [frameBuild_eq (by rw [List.length_cons, hflat]; omega)]
  refine Or.inl (.lobby (fun b hb => ?_) (by simp) ?_)
  · rcases List.mem_cons.mp hb with rfl | hb
    · omega
    · refine flatten_bytes (fun m b hb => ?_) b hb
      rcases List.mem_append.mp hb with hb | hb
      · exact padName_bytes (h.names m) b hb
      · rw [List.mem_singleton.mp hb]
        exact statusByte_lt m s
  · rw [List.length_cons, hflat]
    omega

theorem withByName (h : Clean s) (d : List (Name × Nat)) : Clean { s with byName := d } :=
  ⟨h.proto, h.seats, h.names, h.rooms, h.queued⟩

theorem setName (h : Clean s) {name : Name} (hname : ∀ b ∈ name, b < 256) :
    Clean (s.setName c name) where
  proto := h.proto
  seats := h.seats
  names m := by
    rw [setName_client_name]
    split
    · exact hname
    · exact h.names m
  rooms := h.rooms
  queued := h.queued

theorem helloName_bytes {proto : Proto} {payload : List Nat} {name : Name}
    (h : helloName proto payload = some name) : ∀ b ∈ name, b < 256 := by
  unfold helloName at h
  split at h
  · exact absurd h (by simp)
  split at h
  · exact absurd h (by simp)
  · dsimp only at h
    split at h
    · next hok =>
        rw [← Option.some.inj h]
        intro b hb
        have hchar := List.all_eq_true.mp hok.2.2 b hb
        simp only [nameChar, Bool.or_eq_true, Bool.and_eq_true, decide_eq_true_eq] at hchar
        omega
    · exact absurd h (by simp)

theorem rename (h : Clean s) {name : Name} (hname : ∀ b ∈ name, b < 256) :
    Clean (rename c name s) := by
  unfold C.rename
  extract_lets prev s₁
  have h₁ : Clean s₁ := by
    simp only [s₁]
    split
    · exact h.withByName _
    · exact h
  refine Clean.onList ?_ c
  unfold nameSet
  split
  · exact h₁.setName hname
  · exact (h₁.setName hname).withByName _

theorem onHello (h : Clean s) (payload : List Nat) : Clean (onHello c payload s) := by
  unfold C.onHello
  split
  · exact h.drop c
  next name hread =>
  have hname := helloName_bytes hread
  unfold register
  split
  · exact h.rename hname
  split
  · exact h.rename hname
  dsimp only
  split
  · exact h.drop _
  · exact (h.drop _).rename hname

theorem startRoom (h : Clean s) (r : Nat) : Clean (startRoom r s) := by
  unfold C.startRoom
  extract_lets nm seed s₁ common
  have h₁ : Clean s₁ := by
    refine onRoom (s := { s with seeds := s.seeds.tail })
      ⟨h.proto, h.seats, h.names, h.rooms, h.queued⟩ ?_
    exact h.rooms r
  have hseed : seed < 65536 := (s.seeds.headD default).lt
  refine h₁.sendEach (fun c _ hs => hs.drop c) (fun i => ?_) _ _ _
  have hlen : (i % 256 :: common).length = 37 := congrArg (· + 5) (roomRoster_length r s₁)
  rw [frameBuild_eq (by rw [hlen]; decide)]
  refine Or.inl (.start (fun b hb => ?_) hlen ?_)
  · simp only [common, List.mem_cons, List.cons_append, List.nil_append] at hb
    rcases hb with rfl | rfl | rfl | rfl | rfl | hb
    · omega
    · omega
    · omega
    · omega
    · omega
    · exact h₁.roster_bytes r b hb
  · exact Nat.le_trans (Nat.mod_le _ _) (h.rooms r)

theorem enter (h : Clean s) {target : Nat} (hjoin : unjoinable c target s = false) :
    Clean (enter c target s) := by
  unfold C.enter
  split
  · exact h.onList c
  next r s₁ hfound =>
  have h₁ : Clean s₁ ∧ (s₁.room r).members.length ≤ 3 := by
    unfold roomFor at hfound
    split at hfound
    · next q hq =>
        obtain ⟨rfl, rfl⟩ := Prod.mk.inj (Option.some.inj hfound)
        have hopen : (s.room q).members.length < s.maxSeats := by
          by_contra hno
          have : decide (s.maxSeats ≤ (s.room q).members.length) = true :=
            decide_eq_true (by omega)
          simp [unjoinable, hq, this] at hjoin
        have hseats := h.seats
        exact ⟨h, by omega⟩
    · split at hfound
      · exact absurd hfound (by simp)
      · next q s₂ halloc =>
          obtain ⟨rfl, rfl⟩ := Prod.mk.inj (Option.some.inj hfound)
          obtain ⟨i, -, hi⟩ := Option.map_eq_some_iff.mp halloc
          obtain ⟨rfl, rfl⟩ := Prod.mk.inj hi
          have hmade : Clean ({ s with allocs := s.allocs + 1 }.onRoom i fun _ =>
              { used := true, members := [target], alloc := s.allocs }) := by
            refine onRoom (s := { s with allocs := s.allocs + 1 })
              ⟨h.proto, h.seats, h.names, h.rooms, h.queued⟩ ?_
            exact Nat.le_add_left 1 3
          refine ⟨hmade.link _, ?_⟩
          rw [link_room, room_onRoom, if_pos rfl]
          exact Nat.le_add_left 1 2
  extract_lets s₂ s₃
  have h₂ : Clean s₂ := by
    refine Clean.link (h₁.1.seat ?_) _
    rw [List.length_append]
    exact Nat.add_le_add h₁.2 (Nat.le_refl 1)
  have h₃ : Clean s₃ := h₂.roomBroadcast (fun c _ hs => hs.drop c) r
  split
  · exact h₃.startRoom r
  · exact h₃

theorem onJoin (h : Clean s) (payload : List Nat) : Clean (onJoin c payload s) := by
  unfold C.onJoin
  split
  · exact h.drop c
  split
  · exact h
  extract_lets name
  split
  · exact h.onList c
  split
  · exact h.onList c
  rw [h.proto]
  dsimp only
  split
  · exact h.onList c
  · next hjoin => exact h.enter (by simpa using hjoin)

theorem onGo (h : Clean s) : Clean (onGo c s) := by
  unfold C.onGo
  split
  · exact h
  split_ifs
  · exact h
  · exact h
  · exact h.startRoom _

theorem handle (h : Clean s) (ftype : Nat) (payload : List Nat) :
    Clean (handle c ftype payload s) := by
  unfold C.handle
  split_ifs with hrelay
  · unfold relay
    split
    · exact h
    split
    · refine h.sendEach (fun c _ hs => hs.drop c) (fun _ => Or.inr ?_) _ _ _
      exact hrelay
    · exact h
  · exact h.onHello payload
  · exact h.onList c
  · exact h.onJoin payload
  · exact h.onGo
  · exact h.drop c
  · exact h.sendRaw_drop (Or.inl .pong)
  · exact h.drop c

theorem setRx (h : Clean s) (rx : List Nat) : Clean (s.setRx c rx) := h.onClient rfl

theorem drain (h : Clean s) (fuel : Nat) : Clean (drain fuel c s) := by
  induction fuel generalizing s with
  | zero => exact h.expect _
  | succ fuel ih =>
      unfold C.drain
      split
      · exact h
      split
      · exact h.drop c
      split
      · exact h
      dsimp only
      split
      · exact (h.setRx _).handle _ _
      · exact ih ((h.setRx _).handle _ _)

theorem feed (h : Clean s) (fuel : Nat) (data : List Nat) : Clean (feed fuel c data s) := by
  induction fuel generalizing data s with
  | zero =>
      cases data with
      | nil => exact h
      | cons b data => exact h.expect _
  | succ fuel ih =>
      cases data with
      | nil => exact h
      | cons b data =>
          unfold C.feed
          dsimp only
          split
          · exact h.drop c
          split
          · exact (h.setRx _).drain _
          · exact ih ((h.setRx _).drain _) _

theorem onSlot (h : Clean s) {act : Nat → Server → Server}
    (hact : ∀ c s, Clean s → Clean (act c s)) (conn : Nat) : Clean (onSlot conn act s) := by
  unfold C.onSlot
  split
  · exact h
  split
  · exact h
  · exact hact _ s h

theorem step (h : Clean s) (e : Event) : Clean (s.step e) := by
  cases e with
  | accept ip =>
      simp only [Server.step, acceptClient]
      split_ifs
      · exact h
      · exact h
      · cases hslot : clientAlloc ip s with
        | none => exact h
        | some s' =>
            obtain ⟨i, -, rfl⟩ := Option.map_eq_some_iff.mp hslot
            refine ⟨h.proto, h.seats, fun m => ?_, h.rooms, h.queued⟩
            rw [Option.getD_some, client_onClient]
            split
            · simp
            · exact h.names m
  | recv conn data => exact h.onSlot (fun c s hs => hs.feed _ _) conn
  | eof conn => exact h.onSlot (fun c s hs => hs.drop c) conn
  | writable conn =>
      refine h.onSlot (fun c s hs => ?_) conn
      unfold flush
      dsimp only
      have h₁ : ∀ outcomes tx, Clean ({ s with outcomes := outcomes }.onClient c
          fun v => { v with tx := tx }) := fun outcomes tx =>
        onClient (s := { s with outcomes := outcomes }) ⟨hs.proto, hs.seats, hs.names, hs.rooms, hs.queued⟩ rfl
      split
      · exact h₁ _ _
      · exact (h₁ _ _).drop c
  | sweep late =>
      refine foldl (fun s c hs => ?_) _ h
      unfold sweepSlot
      split
      · exact hs.drop c
      · exact hs

end Clean

/-- Every frame the v2 relay ever queues is one of its own, whole and of the length of
its type, or of a type it relays. -/
theorem queued_frames {maxSeats : Nat} (hseats : maxSeats ≤ 4) (delay : Int) (autoGo : Nat)
    (outcomes : List SendResult) (seeds : List Seed) (events : List Event) :
    ∀ e ∈ ((Server.init .v2 maxSeats delay autoGo outcomes seeds).run events).queued,
      Queueable e.frame := by
  have hrun : ∀ s, Clean s → Clean (s.run events) := by
    intro s
    induction events generalizing s with
    | nil => exact fun h => h
    | cons e events ih => exact fun h => ih _ (h.step e)
  refine (hrun _ ⟨rfl, hseats, fun c b hb => ?_, fun r => Nat.zero_le _, fun e he => ?_⟩).queued
  · exact absurd hb (by simp [Server.init])
  · exact absurd he (by simp [Server.init])

end SharkNetplay.Relay.C
