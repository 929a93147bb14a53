import SharkNetplay.Console.Rings

/-!
# The same inputs on both consoles

What a console dispatches for a seat at a tick is what that seat captured a delay of ticks
before under the same baseline, on both consoles, with resyncs in between.

## Implementation notes

Of what the peer captured a member has a prefix in, but for one input of the guest that is
skipped when it goes on to a new baseline inside its gate.
-/

namespace SharkNetplay.Console

open Lib Cell Machine

variable {n : Nat → Nat} {d front got : Nat} {h g p p' q : Party} {c : Start} {cart : Cart}
  {x : Side} {xs : List Msg} {s t : Pair}

/-- What the peer of a member captured: the INPUTs it handled, and those on their way. -/
def plays (p : Party) : List (Stamp × (Nat × Nat)) := inputsOf (p.heard ++ p.inbox)

/-- The cells to be dispatched for a seat at the tick of a stamp. -/
def playedCells (l : List (Stamp × (Nat × Nat))) (d : Nat) (st : Stamp) : VdCells :=
  ⟨(play l d st.epoch (st.age + 1)).1, (play l d st.epoch st.age).1,
    (play l d st.epoch (st.age + 1)).2, (play l d st.epoch st.age).2⟩

/-- A tick that dispatched what the two seats captured. -/
structure Dispatches (d : Nat) (s : Pair) (r : Ran) : Prop where
  seat0 : r.seat0 = playedCells (plays (s .guest)) d r.stamp
  seat1 : r.seat1 = playedCells (plays (s .host)) d r.stamp

/-- All that a tick dispatches of a member was captured when it was run. -/
def Settled (d : Nat) (st : Stamp) (y : Party) : Prop :=
  st.age < d ∨ st.epoch < y.epoch ∨ st.epoch = y.epoch ∧ st.age < d + y.captures

/-- A member goes on. -/
def GoesOn (p p' : Party) : Prop := p'.epoch = p.epoch ∧ p.captures ≤ p'.captures ∨ p.epoch < p'.epoch

theorem Settled.goesOn {st : Stamp} (hs : Settled d st p) (hp : GoesOn p p') : Settled d st p' := by
  unfold Settled GoesOn at *
  omega

theorem plays_gets (st : Stamp) (xs : List Msg) (p : Party) :
    plays (p.gets st xs) = plays p ++ inputsOf (xs.map fun y => (st, y)) := by
  unfold plays inputsOf Party.gets
  rw [← List.append_assoc, List.filterMap_append]

theorem Turn.plays_eq (hturn : Turn p p' xs) : plays p' = plays p := by
  unfold plays
  rw [hturn.mail]

/-- A turn that captures nothing sends no INPUT. -/
theorem Turn.plays_sent (hturn : Turn p p' xs) (hpc : p.pc ≠ .pumpGo ∨ p'.pc = .pumpGo) (st : Stamp) :
    inputsOf (xs.map fun y => (st, y)) = [] := by
  refine List.filterMap_eq_nil_iff.mpr fun e he => ?_
  obtain ⟨y, hy, rfl⟩ := List.mem_map.mp he
  cases hturn with
  | took hpump hin =>
      rename_i e rest
      cases hx : e.2 with
      | report s' t' ck' =>
          rw [hx] at hy
          simp only [View.replies] at hy
          split at hy
          · rw [List.mem_singleton.mp hy]
            rfl
          · exact absurd hy List.not_mem_nil
      | _ =>
          rw [hx] at hy
          exact absurd hy List.not_mem_nil
  | captured hi hgo =>
      rcases hpc with hpc | hpc
      · exact absurd hgo hpc
      · exact Pc.noConfusion hpc
  | ran quiet sim hpc hopen hck himg hbytes =>
      rcases List.mem_append.mp hy with hy | hy
      · split at hy
        · rw [List.mem_singleton.mp hy]
          rfl
        · exact absurd hy List.not_mem_nil
      · split at hy
        · simp only [pushMsgs, List.mem_cons, List.mem_append, List.mem_map, List.not_mem_nil,
            or_false] at hy
          rcases hy with rfl | ⟨q, -, rfl⟩ | rfl
          · rfl
          · rfl
          · rfl
        · exact absurd hy List.not_mem_nil
  | _ => exact absurd hy List.not_mem_nil

/-! ## Margins -/

theorem OnCourse.host_lead (hc : OnCourse n d got front h g) (hlap : d ≤ 126) :
    firstTick n h.epoch + h.age + h.view.lead 1 = front := by
  have hahead := hc.up.ahead hc.down
  have hpace := hc.up.pace
  unfold View.lead
  rw [hc.up.mark, hc.down.hostTick]
  omega

theorem OnCourse.guest_lead (hc : OnCourse n d got front h g) (hlap : d ≤ 126) :
    g.age + g.view.lead 0 = d + got := by
  have hlead := hc.up.lead hc.down
  have hpace := hc.down.pace
  unfold View.lead
  rw [hc.down.mark, hc.down.guestTick]
  omega

/-! ## The invariant -/

/-- What the two members have of each other's inputs. -/
structure Agreed (d : Nat) (s : Pair) : Prop where
  rings : ∀ x : Side, Rings d x.seat x.peer.seat (plays (s x.peer)) (plays (s x)) (s x)
  sorted : ∀ x, (plays (s x)).Pairwise fun a b => a.1.Lt b.1
  before : ∀ x, ∀ a ∈ plays (s x.peer), a.1.epoch < (s x).epoch ∨
    a.1.epoch = (s x).epoch ∧ a.1.age < (s x).captures
  /-- The guest skips no capture but the first one of a baseline. -/
  complete : ∀ a, 1 ≤ a → a < (s .guest).captures →
    ∃ i, (⟨(s .guest).epoch, a⟩, i) ∈ plays (s .host)
  /-- What the host handled of this baseline is in. -/
  below : ∀ a ∈ inputsOf (s .host).heard, a.1.epoch = (s .host).epoch →
    a.1.age + d + 1 ≤ (s .host).age + (s .host).view.lead 1
  /-- The host has nothing in that the guest did not capture. -/
  bound : (s .host).age + (s .host).view.lead 1 ≤
    d + if (s .guest).epoch = (s .host).epoch then (s .guest).captures else 0
  ran : ∀ x, ∀ r ∈ (s x).hist.ran, Dispatches d s r ∧ ∀ y, Settled d r.stamp (s y)

/-- A turn of `x` that captures nothing. -/
structure Silent (x : Side) (s t : Pair) : Prop where
  plays : ∀ y, plays (t y) = plays (s y)
  goesOn : GoesOn (s x) (t x)
  view : (t x.peer).view = (s x.peer).view
  hist : (t x.peer).hist = (s x.peer).hist
  pc : (t x.peer).pc = (s x.peer).pc
  heard : (t x.peer).heard = (s x.peer).heard

theorem Silent.of_step {xs : List Msg} (hturn : Turn (s x) (t x) xs)
    (hpeer : t x.peer = (s x.peer).gets (s x).hist.stamp xs)
    (hpc : (s x).pc ≠ .pumpGo ∨ (t x).pc = .pumpGo) (hgoes : GoesOn (s x) (t x)) : Silent x s t := by
  refine ⟨fun y => ?_, hgoes, by rw [hpeer]; rfl, by rw [hpeer]; rfl, by rw [hpeer]; rfl,
    by rw [hpeer]; rfl⟩
  rcases Side.eq_or_peer x y with rfl | rfl
  · exact hturn.plays_eq
  · rw [hpeer, plays_gets, hturn.plays_sent hpc, List.append_nil]

namespace Silent

theorem epoch (hq : Silent x s t) : (t x.peer).epoch = (s x.peer).epoch := by
  unfold Party.epoch
  rw [hq.hist]

theorem age (hq : Silent x s t) : (t x.peer).age = (s x.peer).age := by
  unfold Party.age
  rw [hq.hist]

theorem captures (hq : Silent x s t) : (t x.peer).captures = (s x.peer).captures := by
  unfold Party.captures
  rw [hq.age, hq.pc]

theorem settled (hq : Silent x s t) {st : Stamp} {y : Side} (hst : Settled d st (s y)) :
    Settled d st (t y) := by
  rcases Side.eq_or_peer x y with rfl | rfl
  · exact hst.goesOn hq.goesOn
  · exact hst.goesOn (.inl ⟨hq.epoch, Nat.le_of_eq hq.captures.symm⟩)

/-- What is left to show after such a turn. -/
theorem agreed (hq : Silent x s t) (hs : Agreed d s)
    (hrings : Rings d x.seat x.peer.seat (Console.plays (s x.peer)) (Console.plays (s x)) (t x))
    (hcomplete : ∀ a, 1 ≤ a → a < (t .guest).captures →
      ∃ i, (⟨(t .guest).epoch, a⟩, i) ∈ Console.plays (s .host))
    (hbelow : ∀ a ∈ inputsOf (t .host).heard, a.1.epoch = (t .host).epoch →
      a.1.age + d + 1 ≤ (t .host).age + (t .host).view.lead 1)
    (hbound : (t .host).age + (t .host).view.lead 1 ≤
      d + if (t .guest).epoch = (t .host).epoch then (t .guest).captures else 0)
    (hran : ∀ r ∈ (t x).hist.ran, r ∈ (s x).hist.ran ∨
      Dispatches d s r ∧ ∀ y, Settled d r.stamp (s y)) : Agreed d t := by
  refine ⟨fun y => ?_, fun y => ?_, fun y a ha => ?_, fun a ha hlt => ?_, hbelow, hbound,
    fun y r hr => ?_⟩
  · rw [hq.plays, hq.plays]
    rcases Side.eq_or_peer x y with rfl | rfl
    · exact hrings
    · exact (hs.rings x.peer).congr (congrArg View.ring hq.view) (congrArg View.kp hq.view)
        (congrArg View.tick hq.view) (congrArg View.wm hq.view) (congrArg Record.stamp hq.hist)
        hq.captures
  · rw [hq.plays]
    exact hs.sorted y
  · rw [hq.plays] at ha
    rcases Side.eq_or_peer x y with rfl | rfl
    · have hold := hs.before y a ha
      have hgoes := hq.goesOn
      unfold GoesOn at hgoes
      omega
    · rw [hq.epoch, hq.captures]
      exact hs.before x.peer a ha
  · rw [hq.plays]
    exact hcomplete a ha hlt
  · have hsame : ∀ {r}, Dispatches d s r → Dispatches d t r := fun hd =>
      ⟨by rw [hq.plays]; exact hd.seat0, by rw [hq.plays]; exact hd.seat1⟩
    have hold : r ∈ (s y).hist.ran ∨ Dispatches d s r ∧ ∀ y, Settled d r.stamp (s y) := by
      rcases Side.eq_or_peer x y with rfl | rfl
      · exact hran r hr
      · rw [hq.hist] at hr
        exact .inl hr
    have hboth : Dispatches d s r ∧ ∀ y, Settled d r.stamp (s y) :=
      hold.elim (hs.ran y r) id
    exact ⟨hsame hboth.1, fun z => hq.settled (hboth.2 z)⟩

end Silent

/-! ## Turns -/

/-- A capture is a turn of its own. -/
theorem Turn.captures_input (hturn : Turn p p' xs) (hgo : p.pc = .pumpGo) (hpc : p'.pc ≠ .pumpGo) :
    ∃ i, xs = [.input p.view.seat p.view.ahead i] ∧ p' = { p with
      pc := .gate
      view := p.view.put p.view.seat (p.view.ahead % 256) i
      hist := { p.hist with captured := p.hist.captured ++ [i] } } := by
  cases hturn with
  | idle hidle =>
      cases hidle with
      | stay => exact absurd hgo hpc
      | session h => exact Pc.noConfusion (hgo.symm.trans h)
      | seated h => exact Pc.noConfusion (hgo.symm.trans h)
      | begun h => exact Pc.noConfusion (hgo.symm.trans h)
      | hold h hdrop hhold => exact Pc.noConfusion (hgo.symm.trans h)
      | go h hdrop hhold => exact absurd rfl hpc
      | stall h hdrop hshut => exact Pc.noConfusion (hgo.symm.trans h)
      | held h => exact Pc.noConfusion (hgo.symm.trans h)
      | waited h => exact Pc.noConfusion (hgo.symm.trans h)
  | left h hdrop => exact Pc.noConfusion (hgo.symm.trans h)
  | took hpump hin => exact absurd hgo hpc
  | captured hi h => exact ⟨_, rfl, rfl⟩
  | gaveUp h hh =>
      rcases h with ⟨h, -⟩ | ⟨h, -⟩
      · exact Pc.noConfusion (hgo.symm.trans h)
      · exact Pc.noConfusion (hgo.symm.trans h)
  | ran quiet sim h hopen hck himg hbytes => exact Pc.noConfusion (hgo.symm.trans h)

/-- Any other turn captures nothing. -/
theorem Turn.captures_nothing (hturn : Turn p p' xs) (hpc : p.pc ≠ .pumpGo ∨ p'.pc = .pumpGo) :
    p'.hist.captured = p.hist.captured := by
  cases hturn with
  | captured hi hgo =>
      rcases hpc with hpc | hpc
      · exact absurd hgo hpc
      · exact Pc.noConfusion hpc
  | _ => rfl

/-- How far ahead of a member its peer may be in. -/
theorem OnCourse.ahead_le (hc : OnCourse n d got front (s .host) (s .guest)) (hlap : d ≤ 126)
    (hs : Agreed d s) (y : Side) (heq : (s y).epoch = (s y.peer).epoch) :
    (s y).age + (s y).view.lead y.peer.seat ≤ d + (s y.peer).captures := by
  cases y with
  | host =>
      have hsame : (s .guest).epoch = (s .host).epoch := heq.symm
      have hbound := hs.bound
      rw [if_pos hsame] at hbound
      exact hbound
  | guest =>
      have hlead := hc.guest_lead hlap
      rcases hc.down.behind with ⟨-, hle⟩ | ⟨hlt, -⟩
      · show (s .guest).age + (s .guest).view.lead 0 ≤ d + (s .host).captures
        omega
      · exact absurd heq (Nat.ne_of_lt hlt)

/-- An input is captured and sent. -/
theorem Agreed.captured (hs : Agreed d s) (hc : OnCourse n d got front (s .host) (s .guest))
    (hlap : d ≤ 126) (hf : Fixed c x (s x).view) (hdelay : c.delay = d)
    (hgo : (s x).pc = .pumpGo) {i : Nat × Nat} (hthis : t x = { s x with
      pc := .gate
      view := (s x).view.put (s x).view.seat ((s x).view.ahead % 256) i
      hist := { (s x).hist with captured := (s x).hist.captured ++ [i] } })
    (hpeer : t x.peer = (s x.peer).gets (s x).hist.stamp
      [.input (s x).view.seat (s x).view.ahead i]) : Agreed d t := by
  have hcap : (s x).captures = (s x).age := by
    unfold Party.captures
    rw [hgo]
    rfl
  have hepoch : (t x).epoch = (s x).epoch := by rw [hthis]; rfl
  have hage : (t x).age = (s x).age := by rw [hthis]; rfl
  have hcap' : (t x).captures = (s x).age + 1 := by
    rw [hthis]
    exact Party.captures_gate rfl
  have hours : plays (t x.peer) = plays (s x.peer) ++ [((s x).hist.stamp, i)] := by
    rw [hpeer, plays_gets]
    rfl
  have htheirs : plays (t x) = plays (s x) := by
    rw [hthis]
    rfl
  have hnew : ∀ a ∈ plays (s x.peer), a.1 ≠ (s x).hist.stamp := by
    intro a ha heq
    have hbefore := hs.before x a ha
    rw [heq, hcap] at hbefore
    have hstamp : (s x).hist.stamp.epoch = (s x).epoch ∧ (s x).hist.stamp.age = (s x).age :=
      ⟨rfl, rfl⟩
    omega
  have hne : x.seat ≠ x.peer.seat := by cases x <;> decide
  -- what the record shows was captured before
  have hplay : ∀ {st : Stamp}, Settled d st (s x) → playedCells (plays (t x.peer)) d st =
      playedCells (plays (s x.peer)) d st := by
    intro st hst
    unfold Settled at hst
    have hkeep : ∀ u, u ≤ st.age + 1 →
        play (plays (t x.peer)) d st.epoch u = play (plays (s x.peer)) d st.epoch u := by
      intro u hu
      rw [hours]
      refine play_append fun a ha hepoch hlt heq => ?_
      rw [List.mem_singleton.mp ha] at hepoch heq
      have hstamp : (s x).hist.stamp.epoch = (s x).epoch ∧ (s x).hist.stamp.age = (s x).age :=
        ⟨rfl, rfl⟩
      dsimp only at hepoch heq
      omega
    unfold playedCells
    rw [hkeep _ (Nat.le_refl _), hkeep _ (Nat.le_succ _)]
  have hview : ∀ y, (t y).view.lead y.peer.seat = (s y).view.lead y.peer.seat ∧
      (t y).epoch = (s y).epoch ∧ (t y).age = (s y).age ∧ (s y).captures ≤ (t y).captures := by
    intro y
    rcases Side.eq_or_peer x y with rfl | rfl
    · refine ⟨by rw [hthis]; rfl, hepoch, hage, ?_⟩
      rw [hcap, hcap']
      exact Nat.le_succ _
    · rw [hpeer]
      exact ⟨rfl, rfl, rfl, Nat.le_refl _⟩
  have hsettled : ∀ {st : Stamp} y, Settled d st (s y) → Settled d st (t y) := fun y hst =>
    hst.goesOn (.inl ⟨(hview y).2.1, (hview y).2.2.2⟩)
  refine ⟨fun y => ?_, fun y => ?_, fun y a ha => ?_, fun a ha hlt => ?_, fun a ha heq => ?_, ?_,
    fun y r hr => ?_⟩
  · rcases Side.eq_or_peer x y with rfl | rfl
    · rw [hours, htheirs]
      have hslot : (s y).view.ahead % 256 = ((s y).view.tick + d) % 65536 % 256 := by
        unfold View.ahead
        rw [hf.delay, hdelay]
      exact (hs.rings y).captured hlap hne hnew hcap hslot (by rw [hthis, ← hf.seat])
        (by rw [hthis]) hcap'
    · rw [hours, x.peer_peer, htheirs]
      have hrings := hs.rings x.peer
      rw [x.peer_peer] at hrings
      have hmore : Rings d x.peer.seat x.seat (plays (s x)) (plays (s x.peer) ++
          [((s x).hist.stamp, i)]) (s x.peer) := by
        refine hrings.more fun heq => ?_
        have hle := hc.ahead_le hlap hs x.peer (by rw [x.peer_peer]; exact heq.symm)
        rw [x.peer_peer] at hle
        rw [hcap] at hle
        exact hle
      rw [hpeer]
      exact hmore.congr rfl rfl rfl rfl rfl rfl
  · rcases Side.eq_or_peer x y with rfl | rfl
    · rw [htheirs]
      exact hs.sorted y
    · rw [hours]
      refine List.pairwise_append.mpr ⟨hs.sorted x.peer, List.pairwise_singleton _ _, ?_⟩
      intro a ha b hb
      rw [List.mem_singleton.mp hb]
      have hbefore := hs.before x a ha
      rw [hcap] at hbefore
      exact hbefore
  · rcases Side.eq_or_peer x y with rfl | rfl
    · rw [hours] at ha
      rw [hepoch, hcap']
      rcases List.mem_append.mp ha with ha | ha
      · have hbefore := hs.before y a ha
        omega
      · rw [List.mem_singleton.mp ha]
        exact .inr ⟨rfl, Nat.lt_succ_self _⟩
    · rw [x.peer_peer, htheirs] at ha
      have hbefore := hs.before x.peer a (by rw [x.peer_peer]; exact ha)
      have hv := hview x.peer
      omega
  · cases x with
    | host =>
        rw [show t .guest = _ from hpeer] at hlt ⊢
        rw [htheirs]
        exact hs.complete a ha hlt
    | guest =>
        rw [hepoch]
        have hours' : plays (t .host) = _ := hours
        rw [hours']
        rw [hcap'] at hlt
        by_cases hlast : a = (s .guest).age
        · subst hlast
          exact ⟨i, List.mem_append_right _ (List.mem_singleton.mpr rfl)⟩
        · obtain ⟨j, hj⟩ := hs.complete a ha (by rw [hcap]; omega)
          exact ⟨j, List.mem_append_left _ hj⟩
  · have hv := hview .host
    have hheard : (t .host).heard = (s .host).heard := by
      cases x with
      | host => rw [hthis]
      | guest =>
          rw [show t .host = _ from hpeer]
          rfl
    rw [hheard] at ha
    rw [hv.2.1] at heq
    have hlead : (t .host).view.lead 1 = (s .host).view.lead 1 := hv.1
    rw [hv.2.2.1, hlead]
    exact hs.below a ha heq
  · have hv := hview .host
    have hv' := hview .guest
    have hlead : (t .host).view.lead 1 = (s .host).view.lead 1 := hv.1
    have hbound := hs.bound
    rw [hv.2.2.1, hlead, hv.2.1, hv'.2.1]
    split at hbound
    · next heq =>
        rw [if_pos heq]
        exact Nat.le_trans hbound (Nat.add_le_add_left hv'.2.2.2 d)
    · next heq =>
        rw [if_neg heq]
        exact hbound
  · have hold : r ∈ (s y).hist.ran := by
      rcases Side.eq_or_peer x y with rfl | rfl
      · rw [hthis] at hr
        exact hr
      · rw [hpeer] at hr
        exact hr
    obtain ⟨hdisp, hset⟩ := hs.ran y r hold
    refine ⟨?_, fun z => hsettled z (hset z)⟩
    cases x with
    | host =>
        exact ⟨hdisp.seat0.trans (hplay (hset .host)).symm,
          hdisp.seat1.trans (congrArg (playedCells · d r.stamp) htheirs.symm)⟩
    | guest =>
        exact ⟨hdisp.seat0.trans (congrArg (playedCells · d r.stamp) htheirs.symm),
          hdisp.seat1.trans (hplay (hset .guest)).symm⟩

end SharkNetplay.Console
