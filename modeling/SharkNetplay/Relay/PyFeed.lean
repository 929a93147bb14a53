import SharkNetplay.Lib.Deaf
import SharkNetplay.Lib.Reassembly
import SharkNetplay.Relay.PyInvariant

/-!
# What the Python relay reads

`service` as a reader of frames: what it passes to `handle` from any division of a stream
into chunks. No handler looks at a receive buffer.
-/

namespace SharkNetplay.Relay.Py

open Lib Lib.Reassembly Server

/-- The server but for its receive buffers. -/
def bare (s : Server) : Server :=
  { s with client := fun i => { s.client i with rx := [] } }

section Bare

variable (c r : Nat) (s : Server)

@[simp] theorem bare_bare : bare (bare s) = bare s := rfl

theorem bare_setClient (v : Client) :
    bare (s.setClient c v) = (bare s).setClient c { v with rx := [] } := by
  unfold bare setClient
  congr 1
  funext i
  by_cases h : i = c
  · subst h
    simp
  · simp [h]

theorem bare_setRx (rx : List Nat) : bare (s.setRx c rx) = bare s := by
  unfold setRx
  rw [bare_setClient]
  unfold setClient
  have hself : Function.update (bare s).client c ((bare s).client c) = (bare s).client :=
    Function.update_eq_self c _
  show ({ bare s with client := Function.update (bare s).client c ((bare s).client c) } : Server) = _
  rw [hself]

theorem bare_expect (p : Bool) : bare (s.expect p) = (bare s).expect p := by
  cases p <;> rfl

theorem bare_link (q : Option Nat) : bare (s.link c q) = (bare s).link c q := bare_setClient ..

theorem bare_setName (name : Name) : bare (s.setName c name) = (bare s).setName c name :=
  bare_setClient ..

theorem bare_seat (ms : List Nat) : bare (s.seat r ms) = (bare s).seat r ms := rfl

end Bare

/-- A step that does not look at the receive buffers. -/
abbrev Deaf (f : Server → Server) : Prop := Lib.Deaf bare f

theorem deaf_expect {p : Server → Bool} (hp : ∀ s, p (bare s) = p s) :
    Deaf fun s => s.expect (p s) := Deaf.read bare p hp fun q s => bare_expect s q

theorem deaf_forMembers (r : Nat) {body : Nat → Nat → Server → Server}
    (hbody : ∀ i m, Deaf (body i m)) (n i : Nat) : Deaf (forMembers r body n i) := by
  induction n generalizing i with
  | zero => exact deaf_expect (p := fun s => (s.room r).members.length ≤ i) fun _ => rfl
  | succ n ih =>
      exact Deaf.found bare (fun s => (s.room r).members[i]?) (fun _ => rfl) Deaf.id
        fun m => (hbody i m).comp (ih (i + 1))

section Sending

variable {drop : Nat → Server → Server} (hdrop : ∀ c, Deaf (drop c))
include hdrop

theorem deaf_flush (c : Nat) : Deaf (flush drop c) := by
  have hset : Deaf fun s => { s with outcomes := (flushLoop s.outcomes (s.client c).tx).rest
      }.setClient c { s.client c with tx := (flushLoop s.outcomes (s.client c).tx).tx } :=
    fun s => bare_setClient ..
  exact Deaf.ite bare (p := fun s => (flushLoop s.outcomes (s.client c).tx).ok = true)
    (fun _ => Iff.rfl) hset (hset.comp (hdrop c))

theorem deaf_send (c : Nat) (data : List Nat) : Deaf (send drop c data) := by
  have hqueue : Deaf (enqueue c data) := fun s => bare_setClient ..
  exact Deaf.ite bare (p := fun s => (s.client c).dead = true) (fun _ => Iff.rfl) Deaf.id
    (Deaf.ite bare (p := fun s => maxTxBacklog < (s.client c).tx.length + data.length)
      (fun _ => Iff.rfl) (hdrop c) (hqueue.comp (deaf_flush hdrop c)))

theorem deaf_roomBroadcast (r : Nat) : Deaf (roomBroadcast drop r) := by
  have hexpect : Deaf fun s => s.expect (allNamed (s.room r).members s) :=
    deaf_expect (p := fun s => allNamed (s.room r).members s) fun _ => rfl
  have hloop : ∀ x : Nat × List Nat, Deaf (forMembers r
      (fun _ m => send drop m (frame tRoom (x.1 :: x.2))) x.1 0) := fun x =>
    deaf_forMembers r (fun _ m => deaf_send hdrop m _) _ _
  exact hexpect.comp (Deaf.read bare (fun s => ((s.room r).members.length, roster r s)) (fun _ => rfl)
    hloop)

theorem deaf_dissolve (r : Nat) (notify : List Nat) : Deaf (dissolve drop r notify) := by
  have hlinks : ∀ ms : List Nat, Deaf fun s => ms.foldl (fun s m => s.link m none) s := fun ms =>
    Deaf.foldl (fun m s => bare_link m s none) ms
  have hsends := Deaf.foldl
    (fun m => deaf_send hdrop m (frame tRoom (0 :: List.replicate 32 0))) notify
  have hall := (Deaf.read bare (fun s => (s.room r).members) (fun _ => rfl) hlinks).comp hsends
  exact hall.comp (g := fun s => s.seat r []) fun _ => rfl

theorem deaf_leave (c r seat : Nat) : Deaf (leave drop c r seat) := by
  have hexpect : Deaf fun s => s.expect (allNamed [c] s) :=
    deaf_expect (p := fun s => allNamed [c] s) fun _ => rfl
  have htell : ∀ x : List Nat × List Nat, Deaf fun s =>
      x.2.foldl (fun s m => send drop m x.1 s) (dissolve drop r [] s) := fun x =>
    (deaf_dissolve hdrop r []).comp (Deaf.foldl (fun m => deaf_send hdrop m x.1) x.2)
  have hgone : Deaf fun s => dissolve drop r (s.room r).members s :=
    Deaf.read bare (fun s => (s.room r).members) (fun _ => rfl) fun ms => deaf_dissolve hdrop r ms
  exact Deaf.ite bare (p := fun s => (s.room r).started = true) (fun _ => Iff.rfl)
    (hexpect.comp (Deaf.read bare
      (fun s => (frame tPeerLeft (seat :: padName (nameOf c s)), (s.room r).members))
      (fun _ => rfl) htell))
    (Deaf.ite bare (p := fun _ => seat = 0) (fun _ => Iff.rfl) hgone
      (Deaf.ite bare (p := fun s => (s.room r).members.length < 2) (fun _ => Iff.rfl) hgone
        (deaf_roomBroadcast hdrop r)))

end Sending

theorem deaf_dropN (n : Nat) : ∀ c, Deaf (dropN n c) := by
  induction n with
  | zero => exact fun c => deaf_expect (p := fun s => (s.client c).dead) fun _ => rfl
  | succ n ih =>
      intro c
      have hbury : Deaf (bury c) := fun s => bare_setClient ..
      have hexpect : ∀ r, Deaf fun s => s.expect ((s.room r).members.contains c) := fun r =>
        deaf_expect (p := fun s => (s.room r).members.contains c) fun _ => rfl
      have hseat : ∀ r, Deaf fun s => (s.link c none).seat r
          (((s.link c none).room r).members.erase c) := by
        intro r s
        rw [bare_seat, bare_link]
        rfl
      have hfrom := fun r => (hexpect r).comp (Deaf.read bare (fun s => (s.room r).members.idxOf c)
        (fun _ => rfl) fun seat => (hseat r).comp (deaf_leave ih c r seat))
      have hroom := Deaf.found bare (fun s => (s.client c).room) (fun _ => rfl) Deaf.id hfrom
      exact Deaf.ite bare (p := fun s => (s.client c).dead = true) (fun _ => Iff.rfl) Deaf.id
        (hbury.comp hroom)

theorem deaf_drop (c : Nat) : Deaf (drop c) :=
  Deaf.read bare (fun s => s.present.length) (fun _ => rfl) fun n => deaf_dropN n c

theorem deaf_sendTo (c : Nat) (data : List Nat) : Deaf (send drop c data) :=
  deaf_send deaf_drop c data

/-! ## Handlers -/

theorem deaf_onList (c : Nat) : Deaf (onList c) :=
  Deaf.read bare (fun s => (others c s).length ::
    ((others c s).map fun o => padName (nameOf o s) ++ [status o s]).flatten) (fun _ => rfl)
    fun payload => deaf_sendTo c (frame tLobby payload)

/-- `on_hello` drops the old holder of the name. -/
theorem deaf_takeover (c : Nat) (name : Name) : Deaf fun s =>
    match lookup name s with
    | some old => if old ≠ c then drop old s else s
    | none => s := by
  intro s
  have hsame : lookup name (bare s) = lookup name s := rfl
  dsimp only
  rw [hsame]
  cases lookup name s with
  | none => rfl
  | some old =>
      exact Deaf.ite bare (p := fun _ => old ≠ c) (fun _ => Iff.rfl) (deaf_drop old) Deaf.id s

/-- `on_hello` gives up the name the client had. -/
theorem deaf_giveUp (c : Nat) (name : Name) : Deaf fun s =>
    match (s.client c).name with
    | some prev =>
      if prev ≠ name ∧ lookup prev s = some c then
        { s with byName := s.byName.filter fun e => e.1 != prev }
      else s
    | none => s := by
  intro s
  have hsame : ((bare s).client c).name = (s.client c).name := rfl
  dsimp only
  rw [hsame]
  cases (s.client c).name with
  | none => rfl
  | some prev =>
      have hprev : Deaf fun s => if prev ≠ name ∧ lookup prev s = some c then
          { s with byName := s.byName.filter fun e => e.1 != prev } else s :=
        Deaf.ite bare (p := fun s => prev ≠ name ∧ lookup prev s = some c) (fun _ => Iff.rfl)
          (fun _ => rfl) Deaf.id
      exact hprev s

theorem deaf_register (c : Nat) (name : Name) : Deaf (register c name) := by
  have hname : Deaf fun s => s.setName c name := fun s => bare_setName c s name
  have hassign : Deaf fun s => { s with byName := Lib.Dict.assign name c s.byName } := fun _ => rfl
  have hlast := hname.comp (hassign.comp (deaf_onList c))
  exact (deaf_takeover c name).comp ((deaf_giveUp c name).comp hlast)

/-- A step that may raise an exception and does not look at the receive buffers. -/
abbrev DeafRaising (f : Server → Server × Bool) : Prop := Lib.DeafRaising bare f

theorem deaf_startRoom (r : Nat) : DeafRaising (startRoom r) := by
  have hstart : ∀ seed, Deaf fun s => { s with seeds := s.seeds.tail }.start r seed :=
    fun _ _ => rfl
  have hexpect : Deaf fun s => s.expect (allNamed (s.room r).members s) :=
    deaf_expect (p := fun s => allNamed (s.room r).members s) fun _ => rfl
  have hsends : ∀ x : List Nat × Nat, Deaf fun s =>
      forMembers r (fun i m => send drop m (frame tStart (i :: x.1))) x.2 0 s := fun x =>
    deaf_forMembers r (fun i m => deaf_sendTo m _) _ _
  have hrest : ∀ seed, DeafRaising fun s =>
      if s.delay < 0 ∨ 255 < s.delay then (s, true)
      else
        let s := s.expect (allNamed (s.room r).members s)
        let common := [(s.room r).members.length, seed % 256, seed / 256, s.delay.toNat] ++
          roster r s
        (forMembers r (fun i m => send drop m (frame tStart (i :: common)))
          (s.room r).members.length 0 s, false) := fun seed =>
    DeafRaising.ite bare (p := fun s => s.delay < 0 ∨ 255 < s.delay) (fun _ => Iff.rfl)
      (Deaf.id.raising true)
      ((hexpect.comp (Deaf.read bare (fun s => ([(s.room r).members.length, seed % 256, seed / 256,
        s.delay.toNat] ++ roster r s, (s.room r).members.length)) (fun _ => rfl)
        hsends)).raising false)
  exact DeafRaising.read bare (fun s => (s.seeds.headD default).val) (fun _ => rfl) fun seed =>
    (hstart seed).compRaising (hrest seed)

theorem bare_roomFor (target : Nat) (s : Server) :
    roomFor target (bare s) = (bare (roomFor target s).1, (roomFor target s).2) := by
  have hsame : ((bare s).client target).room = (s.client target).room := rfl
  unfold roomFor
  rw [hsame]
  cases (s.client target).room with
  | some r => rfl
  | none =>
      refine Prod.ext ?_ rfl
      exact (bare_link target (({ s with nextRoom := s.nextRoom + 1 } : Server).setRoom s.nextRoom
        { members := [target] }) (some s.nextRoom)).symm

theorem deaf_enter (c target : Nat) : DeafRaising fun s =>
    let p := roomFor target s
    let r := p.2
    let s := (p.1.seat r ((p.1.room r).members ++ [c])).link c (some r)
    let s := roomBroadcast drop r s
    if s.autoGo ≠ 0 ∧ s.autoGo ≤ (s.room r).members.length then startRoom r s else (s, false) := by
  have hrest : ∀ r, DeafRaising fun s =>
      let s := (s.seat r ((s.room r).members ++ [c])).link c (some r)
      let s := roomBroadcast drop r s
      if s.autoGo ≠ 0 ∧ s.autoGo ≤ (s.room r).members.length then startRoom r s
      else (s, false) := by
    intro r
    have hseat : Deaf fun s => (s.seat r ((s.room r).members ++ [c])).link c (some r) :=
      fun s => bare_link c (s.seat r ((s.room r).members ++ [c])) (some r)
    exact (hseat.comp (deaf_roomBroadcast deaf_drop r)).compRaising
      (DeafRaising.ite bare (p := fun s => s.autoGo ≠ 0 ∧ s.autoGo ≤ (s.room r).members.length)
        (fun _ => Iff.rfl) (deaf_startRoom r) (Deaf.id.raising false))
  intro s
  dsimp only
  rw [bare_roomFor]
  exact hrest (roomFor target s).2 (roomFor target s).1

theorem deaf_onJoin (c : Nat) (payload : List Nat) : DeafRaising (onJoin c payload) := by
  have hlist := (deaf_onList c).raising false
  have hfound := DeafRaising.found bare (fun s => lookup (rstrip (decode payload)) s) (fun _ => rfl)
    hlist fun target => DeafRaising.ite bare (p := fun s => unjoinable c target s = true)
      (fun _ => Iff.rfl) hlist (deaf_enter c target)
  rw [show onJoin c payload = _ from funext (onJoin_eq c payload)]
  exact DeafRaising.ite bare (p := fun s => (s.client c).name.isNone = true) (fun _ => Iff.rfl)
    (Deaf.id.raising true)
    (DeafRaising.ite bare (p := fun s => (s.client c).room.isSome = true) (fun _ => Iff.rfl)
      (Deaf.id.raising false) hfound)

theorem deaf_onGo (c : Nat) : DeafRaising (onGo c) := by
  have hexpect : ∀ r, Deaf fun s => s.expect ((s.room r).members.contains c) := fun r =>
    deaf_expect (p := fun s => (s.room r).members.contains c) fun _ => rfl
  have hstart := fun r => DeafRaising.ite bare
    (p := fun s => 2 ≤ (s.room r).members.length ∧ (s.room r).members.length ≤ maxSeats)
    (fun _ => Iff.rfl) (deaf_startRoom r) (Deaf.id.raising false)
  have hhost := fun r => DeafRaising.ite bare (p := fun s => (s.room r).members.idxOf c ≠ 0)
    (fun _ => Iff.rfl) (Deaf.id.raising false) (hstart r)
  have hforming := fun r => DeafRaising.ite bare (p := fun s => (s.room r).started = true)
    (fun _ => Iff.rfl) (Deaf.id.raising false) ((hexpect r).compRaising (hhost r))
  exact DeafRaising.found bare (fun s => (s.client c).room) (fun _ => rfl)
    (Deaf.id.raising false) hforming

theorem deaf_relay (c ftype : Nat) (payload : List Nat) : Deaf (relay c ftype payload) := by
  have hloop : ∀ r n, Deaf fun s =>
      forMembers r (fun _ m s => if m = c then s else send drop m (frame ftype payload) s) n 0 s :=
    fun r n => deaf_forMembers r (fun _ m => Deaf.ite bare (p := fun _ => m = c) (fun _ => Iff.rfl)
      Deaf.id (deaf_sendTo m _)) _ _
  have hstarted := fun r => Deaf.ite bare (p := fun s => (s.room r).started = true) (fun _ => Iff.rfl)
    (Deaf.read bare (fun s => (s.room r).members.length) (fun _ => rfl) (hloop r)) Deaf.id
  exact Deaf.found bare (fun s => (s.client c).room) (fun _ => rfl) Deaf.id hstarted

theorem deaf_handle (c ftype : Nat) (payload : List Nat) : DeafRaising (handle c ftype payload) := by
  intro s
  unfold handle
  repeat' split
  · exact (deaf_relay c ftype payload).raising false s
  · exact Deaf.id.raising true s
  · exact (deaf_register c _).raising false s
  · exact (deaf_onList c).raising false s
  · exact deaf_onJoin c payload s
  · exact deaf_onGo c s
  · exact (deaf_drop c).raising false s
  · exact (deaf_sendTo c _).raising false s
  · exact Deaf.id.raising true s

/-! ## The reader -/

/-- A frame passed to `handle`, and the drop an exception leads to. -/
def hand (c : Nat) (f : Frame) (s : Server) : Server :=
  let p := handle c f.1 f.2 s
  if p.2 then drop c p.1 else p.1

/-- The frames the loop of `feed` passes to `handle`, and whether it ends in the drop for a
bad length. -/
def passed (fuel c : Nat) (s : Server) : List Frame × Bool :=
  handed (hand c) (fun s => (s.client c).dead) (fun s => (s.client c).rx) 200
    (fun rx s => s.setRx c rx) fuel s

/-- What `service` passes on of a chunk. -/
def passedOf (c : Nat) (data : List Nat) (s : Server) : List Frame × Bool :=
  let s := s.setRx c ((s.client c).rx ++ data)
  passed (s.client c).rx.length c s

theorem deaf_hand (c : Nat) (f : Frame) : Deaf (hand c f) := by
  intro s
  unfold hand
  rw [deaf_handle]
  show bare (if _ then _ else _) = if (handle c f.1 f.2 s).2 = true then
    drop c (bare (handle c f.1 f.2 s).1) else bare (handle c f.1 f.2 s).1
  split
  · exact deaf_drop c _
  · rfl

theorem hand_blind (c : Nat) : Blind (hand c) (fun s => (s.client c).dead) (Alike bare) :=
  .of_deaf (deaf_hand c) fun _ => rfl

/-- `service` in progress: `c` is known to the server, and its drop will be carried out. -/
structure Serving (c : Nat) (s : Server) : Prop where
  settled : Settled s
  known : c < s.nextClient

theorem dead_drop {c : Nat} {s : Server} (h : Counted s) (hc : c < s.nextClient) :
    ((drop c s).client c).dead = true := by
  cases hdead : (s.client c).dead with
  | true =>
      rw [drop_dead hdead]
      exact hdead
  | false =>
      have hpos : 0 < s.present.length := List.length_pos_of_mem ((h.present c).mpr ⟨hc, hdead⟩)
      obtain ⟨n, hn⟩ := Nat.exists_eq_add_of_le' hpos
      rw [drop, hn]
      exact dead_dropN n c s

theorem Serving.hand {c : Nat} {s : Server} (h : Serving c s) (hlive : (s.client c).dead = false)
    (f : Frame) : Serving c (hand c f s) := by
  have hout := handle_outcome h.settled h.known hlive f.1 f.2
  unfold Py.hand
  dsimp only
  split
  · exact ⟨hout.dropped h.known, by
      rw [(steady_nextClient s.nextClient).drop c _ hout.nextClient]
      exact h.known⟩
  · next hraise => exact ⟨hout.quiet (by simpa using hraise), by
      rw [hout.nextClient]
      exact h.known⟩

theorem Serving.setRx {c : Nat} {s : Server} (h : Serving c s) (rx : List Nat) :
    Serving c (s.setRx c rx) := ⟨h.settled.setRx c rx, h.known⟩

/-- A round of the loop, by what the buffer calls for. -/
theorem feed_next (n c : Nat) (s : Server) : feed (n + 1) c s =
    match next 200 (s.client c).rx with
    | .wait => s
    | .bad => drop c s
    | .frame f rest =>
      let p := handle c f.1 f.2 (s.setRx c rest)
      if p.2 then drop c p.1 else if (p.1.client c).dead then p.1 else feed n c p.1 := by
  rw [feed]
  cases hrx : (s.client c).rx with
  | nil => rfl
  | cons len rest =>
      dsimp only
      by_cases hlen : len = 0 ∨ 200 < len
      · simp only [next, if_pos hlen]
      by_cases hshort : rest.length < len
      · simp only [next, if_neg hlen, if_pos hshort]
      · simp only [next, if_neg hlen, if_neg hshort]

theorem hand_rx (c : Nat) (f : Frame) (s : Server) :
    ((hand c f s).client c).rx = (s.client c).rx := by
  have hkeep := (lasting_rx c (s.client c).rx).handle c f.1 f.2 s rfl
  unfold hand
  dsimp only
  split
  · exact (lasting_rx c _).toSteady.drop c _ hkeep
  · exact hkeep

/-- Reading `stream` for client `c` in the state `s`. -/
abbrev Reading (c : Nat) (stream : List Nat) (s : Server) (p : List Frame × Bool) (t : Server) :
    Prop :=
  Reassembly.Outcome (hand c) (fun s => (s.client c).dead) 200 (Alike bare)
    (fun s => (s.client c).rx) stream s p t

/-- While the drop of `c` is carried out, the loop is `hand` on each frame it passes on. -/
theorem feed_loop (c : Nat) : FrameLoop (hand c) (fun s => (s.client c).dead)
    (fun s => (s.client c).rx) 200 (fun rx s => s.setRx c rx) (Alike bare) (Serving c)
    (fun n s => feed n c s) where
  zero h := by rw [feed, expect_pos (by rw [h]; rfl)]
  wait h := by rw [feed_next, h]
  bad {n s} hI h := by
    rw [feed_next, h]
    refine ⟨⟨drop_settled hI.settled hI.known, ?_⟩, dead_drop hI.settled.toCounted hI.known⟩
    rw [(steady_nextClient s.nextClient).drop c _ rfl]
    exact hI.known
  frame {n s f rest} hI hlive h := by
    have hserve := hI.setRx (c := c) rest
    have hlive₁ : ((s.setRx c rest).client c).dead = false := by
      rw [setRx_client_dead]
      exact hlive
    have hout := handle_outcome hserve.settled hserve.known hlive₁ f.1 f.2
    rw [feed_next, h]
    unfold hand
    dsimp only
    split
    · obtain ⟨X, hinv, -⟩ := hout.inv
      rw [if_pos (dead_drop hinv.toCounted (by rw [hout.nextClient]; exact hserve.known))]
    · rfl
  keeps {s f rest} hI hlive := (hI.setRx rest).hand (by rw [setRx_client_dead]; exact hlive) f
  buffer := (hand_rx ..).trans (by rw [setRx_client_rx, if_pos rfl])
  blind := (bare_setRx ..).symm

theorem service_reading {c : Nat} {s : Server} (data : List Nat) (h : Serving c s)
    (hlive : (s.client c).dead = false) :
    Serving c (service c data s) ∧
      Reading c ((s.client c).rx ++ data) s (passedOf c data s) (service c data s) := by
  have hrx : ((s.setRx c ((s.client c).rx ++ data)).client c).rx = (s.client c).rx ++ data := by
    rw [setRx_client_rx, if_pos rfl]
  have hlive₁ : ((s.setRx c ((s.client c).rx ++ data)).client c).dead = false := by
    rw [setRx_client_dead]
    exact hlive
  obtain ⟨hserve, hread⟩ := (feed_loop c).outcome (hand_blind c) Alike.trans Alike.refl _
    (h.setRx ((s.client c).rx ++ data)) hlive₁ (Nat.le_refl _)
  unfold service passedOf
  dsimp only
  rw [hrx] at hserve hread ⊢
  exact ⟨hserve, hread.start (hand_blind c) Alike.trans (bare_setRx ..).symm⟩

/-- Each frame takes at least one byte: more fuel than there are bytes changes nothing. -/
theorem feed_fuel {c n : Nat} {s : Server} (hn : (s.client c).rx.length ≤ n) :
    feed n c s = feed (s.client c).rx.length c s := by
  refine fuel_stable (fun s => (s.client c).rx.length) (fun n s => feed n c s)
    (fun n s hnone => ?_) (fun s => ?_) n _ s hn (Nat.le_refl _)
  · have hrx : (s.client c).rx = [] := List.eq_nil_of_length_eq_zero hnone
    cases n with
    | zero => exact (feed_loop c).zero hrx
    | succ n => exact (feed_loop c).wait (by rw [hrx]; rfl)
  · cases hnext : next 200 (s.client c).rx with
    | wait => exact Or.inl ⟨s, fun n => (feed_loop c).wait hnext⟩
    | bad => exact Or.inl ⟨drop c s, fun n => by rw [feed_next, hnext]⟩
    | frame f rest =>
        have hround := fun n => feed_next n c s
        have hkeep := (lasting_rx c rest).handle c f.1 f.2 (s.setRx c rest) (by simp)
        rw [hnext] at hround
        dsimp only at hround
        generalize handle c f.1 f.2 (s.setRx c rest) = p at hround hkeep
        cases hraise : p.2 with
        | true => exact Or.inl ⟨_, fun n => (hround n).trans (if_pos hraise)⟩
        | false =>
            have hquiet : ∀ n, feed (n + 1) c s =
                if (p.1.client c).dead then p.1 else feed n c p.1 := fun n =>
              (hround n).trans (if_neg (by rw [hraise]; decide))
            cases hdead : (p.1.client c).dead with
            | true => exact Or.inl ⟨_, fun n => (hquiet n).trans (if_pos hdead)⟩
            | false =>
                refine Or.inr ⟨p.1, ?_, fun n => (hquiet n).trans (if_neg (by rw [hdead]; decide))⟩
                rw [hkeep]
                exact next_frame hnext

/-- Chunks from client `c`, while its socket is watched. -/
def read (c : Nat) (ds : List (List Nat)) (s : Server) : (List Frame × Bool) × Server :=
  received (fun s => (s.client c).dead) (fun d s => service c d s) (passedOf c) ds s

theorem read_reading {c : Nat} {s : Server} (ds : List (List Nat)) (h : Serving c s)
    (hlive : (s.client c).dead = false) (hrx : (s.client c).rx = []) :
    Reading c ds.flatten s (read c ds s).1 (read c ds s).2 := by
  have hall := received_outcome (hand_blind c) Alike.trans Alike.refl
    (I := Serving c) (fun d s h hlive => service_reading d h hlive) ds h hlive (by rw [hrx]; rfl)
  rw [hrx] at hall
  exact hall

/-- Reading chunks is a run of the relay. -/
theorem read_run {c : Nat} {s : Server} (ds : List (List Nat)) (h : Serving c s) :
    (read c ds s).2 = s.run (ds.map (Event.recv c)) := by
  induction ds generalizing s with
  | nil => rfl
  | cons d ds ih =>
      have hserving : serving c s = !(s.client c).dead := by
        simp [serving, h.known]
      unfold read received Server.run
      rw [List.map_cons, List.foldl_cons]
      cases hdead : (s.client c).dead with
      | true =>
          have hskip : s.step (.recv c d) = s := by
            simp [Server.step, hserving, hdead]
          rw [if_pos rfl, hskip]
          have hrest := ih h
          rw [Server.run] at hrest
          rw [← hrest]
          cases ds with
          | nil => rfl
          | cons e ds => simp [read, received, hdead]
      | false =>
          have hstep : s.step (.recv c d) = service c d s := by
            simp [Server.step, hserving, hdead]
          rw [if_neg (by decide), hstep]
          exact ih (service_reading d h hdead).1

end SharkNetplay.Relay.Py
