import SharkNetplay.Console.Inputs

/-!
# Ticks on two consoles

Two consoles that ran the same tick under the same baseline dispatched the same inputs for
both seats, whatever was pushed before it and however the messages were cut into reads.

## Implementation notes

A turn either leaves the slots alone, stores one INPUT, moves on by a tick, or goes on to a
new baseline with idle slots. The host may store the second INPUT of a baseline for the
first: the guest captures none under a baseline it goes on to inside its gate.
-/

namespace SharkNetplay.Console

open Lib Cell Machine

variable {n : Nat → Nat} {d front got τ : Nat} {h g p p' q : Party} {c : Start} {cart : Cart}
  {x : Side} {xs : List Msg} {s t : Pair} {st : Stamp} {i : Nat × Nat}
  {ours theirs : List (Stamp × (Nat × Nat))}

/-! ## What a turn does to the slots -/

/-- A CRC leaves the slots alone. -/
theorem View.onCrc_slots (u ck : Nat) (v : View) : (v.onCrc u ck).ring = v.ring ∧
    (v.onCrc u ck).kp = v.kp ∧ (v.onCrc u ck).tick = v.tick ∧ (v.onCrc u ck).wm = v.wm := by
  unfold View.onCrc
  split
  · exact ⟨rfl, rfl, rfl, rfl⟩
  · exact ⟨rfl, rfl, rfl, rfl⟩

/-- A request leaves the slots alone. -/
theorem View.onReq_slots (v : View) : v.onReq.ring = v.ring ∧ v.onReq.kp = v.kp ∧
    v.onReq.tick = v.tick ∧ v.onReq.wm = v.wm := by
  unfold View.onReq
  split
  · exact ⟨rfl, rfl, rfl, rfl⟩
  · exact ⟨rfl, rfl, rfl, rfl⟩

/-- A tick leaves the slots alone and goes on to the next one. -/
theorem View.ran_slots (ck : Nat) (v : View) : (v.ran ck).ring = v.ring ∧ (v.ran ck).kp = v.kp ∧
    (v.ran ck).tick = (v.tick + 1) % 65536 ∧ (v.ran ck).wm = v.wm := by
  rw [View.ran_eq]
  exact ⟨rfl, rfl, rfl, rfl⟩

/-- What a member handled in a turn, when no INPUT in it was taken. -/
def NoneTaken (p p' : Party) : Prop := p'.heard = p.heard ∨ ∃ e rest, p.inbox = e :: rest ∧
  p'.heard = p.heard ++ [e] ∧ ∀ s u i, e.2 = .input s u i → p.view.fresh s u = false

/-- What a turn without a capture does to the slots, with the peer in seat `τ`. -/
inductive Moves (d τ : Nat) (p p' : Party) : Prop
  | same (hring : p'.view.ring = p.view.ring) (hkp : p'.view.kp = p.view.kp)
    (htick : p'.view.tick = p.view.tick) (hwm : p'.view.wm = p.view.wm)
    (hstamp : p'.hist.stamp = p.hist.stamp) (hcap : p'.captures = p.captures)
    (hheard : NoneTaken p p')
  | stored (st : Stamp) (u : Nat) (i : Nat × Nat) (rest : List (Stamp × Msg))
    (hin : p.inbox = (st, .input τ u i) :: rest) (hfresh : p.view.fresh τ u = true)
    (hview : p'.view = (p.view.put τ (u % 256) i).mark τ u)
    (hstamp : p'.hist.stamp = p.hist.stamp) (hcap : p'.captures = p.captures)
    (hheard : p'.heard = p.heard ++ [(st, .input τ u i)])
  | ranOn (hready : p.view.ready = true) (hring : p'.view.ring = p.view.ring)
    (hkp : p'.view.kp = p.view.kp) (htick : p'.view.tick = (p.view.tick + 1) % 65536)
    (hwm : p'.view.wm = p.view.wm) (hstamp : p'.hist.stamp = ⟨p.epoch, p.age + 1⟩)
    (hcap : p'.captures = p.captures) (hheard : p'.heard = p.heard)
  | rebased (v : View) (hring : p'.view.ring = v.idle.ring) (hkp : p'.view.kp = v.idle.kp)
    (hwm : p'.view.wm τ = (p'.view.tick + d + 65535) % 65536) (htick : p'.view.tick < 65536)
    (hstamp : p'.hist.stamp = ⟨p.epoch + 1, 0⟩) (hcap : p'.captures ≤ 1)

/-- A message that is handled. -/
theorem Moves.took (hf : Fixed c x p.view) (hresume : p.view.hold ≠ 0 → p.view.resume < 65536) {e : Stamp × Msg}
    {rest : List (Stamp × Msg)} (hin : p.inbox = e :: rest) : Moves c.delay x.peer.seat p { p with
      view := p.view.onMsg e.2
      hist := p.hist.hear p.view e.2
      heard := p.heard ++ [e]
      inbox := rest } := by
  have hcapture : p.view.adopts e.2 = false → ({ p with
      view := p.view.onMsg e.2
      hist := p.hist.hear p.view e.2
      heard := p.heard ++ [e]
      inbox := rest } : Party).captures = p.captures := by
    intro hadopt
    show (p.hist.hear p.view e.2).stamp.age + _ = p.hist.stamp.age + _
    rw [hear_stamp hadopt]
  obtain ⟨st, msg⟩ := e
  cases msg with
  | input s u i =>
      have hstamp := hear_stamp (v := p.view) (x := .input s u i) rfl p.hist
      by_cases hfresh : p.view.fresh s u = true
      · have hseat : s = x.peer.seat := by
          unfold View.fresh at hfresh
          have hboth := of_decide_eq_true hfresh
          rw [hf.seat, hf.count] at hboth
          have hlt := x.seat_lt
          rw [x.peer_seat]
          omega
        subst hseat
        exact .stored st u i rest hin hfresh (if_pos hfresh) hstamp (hcapture rfl) rfl
      · have hview : p.view.onMsg (.input s u i) = p.view := if_neg hfresh
        have hnone : ∀ s' u' i', Msg.input s u i = .input s' u' i' → p.view.fresh s' u' = false := by
          intro s' u' i' heq
          obtain ⟨rfl, rfl, rfl⟩ := Msg.input.inj heq
          exact Bool.eq_false_iff.mpr hfresh
        exact .same (congrArg View.ring hview :) (congrArg View.kp hview :)
          (congrArg View.tick hview :) (congrArg View.wm hview :) hstamp (hcapture rfl)
          (.inr ⟨_, _, hin, rfl, hnone⟩)
  | report s u ck =>
      obtain ⟨hring, hkp, htick, hwm⟩ := View.onCrc_slots u ck p.view
      exact .same hring hkp htick hwm (hear_stamp rfl _) (hcapture rfl)
        (.inr ⟨_, _, hin, rfl, fun s u i => Msg.noConfusion⟩)
  | request u =>
      obtain ⟨hring, hkp, htick, hwm⟩ := View.onReq_slots p.view
      exact .same hring hkp htick hwm (hear_stamp rfl _) (hcapture rfl)
        (.inr ⟨_, _, hin, rfl, fun s u i => Msg.noConfusion⟩)
  | opening r =>
      exact .same rfl rfl rfl rfl (hear_stamp rfl _) (hcapture rfl)
        (.inr ⟨_, _, hin, rfl, fun s u i => Msg.noConfusion⟩)
  | piece q =>
      exact .same rfl rfl rfl rfl (hear_stamp rfl _) (hcapture rfl)
        (.inr ⟨_, _, hin, rfl, fun s u i => Msg.noConfusion⟩)
  | closing =>
      by_cases hhold : p.view.hold = 0
      · have hview : p.view.onMsg .closing = p.view := if_pos hhold
        have hadopt : p.view.adopts .closing = false := decide_eq_false fun hne => hne hhold
        exact .same (congrArg View.ring hview :) (congrArg View.kp hview :)
          (congrArg View.tick hview :) (congrArg View.wm hview :) (hear_stamp hadopt _)
          (hcapture hadopt) (.inr ⟨_, _, hin, rfl, fun s u i => Msg.noConfusion⟩)
      · have hview : p.view.onMsg .closing = p.view.rebase := if_neg hhold
        have hstamp : (p.hist.hear p.view .closing).stamp = ⟨p.epoch + 1, 0⟩ := by
          unfold Record.hear
          exact if_pos (decide_eq_true hhold)
        have htick : (p.view.onMsg .closing).tick = p.view.resume := congrArg View.tick hview
        have hwm : (p.view.onMsg .closing).wm x.peer.seat =
            (p.view.resume + p.view.delay + 65535) % 65536 := by
          have hlt := x.peer.seat_lt
          rw [hview]
          exact if_pos (by omega)
        refine .rebased p.view (congrArg View.ring hview :) (congrArg View.kp hview :) ?_ ?_ hstamp ?_
        · show (p.view.onMsg .closing).wm x.peer.seat =
            ((p.view.onMsg .closing).tick + c.delay + 65535) % 65536
          rw [hwm, htick, hf.delay]
        · show (p.view.onMsg .closing).tick < 65536
          rw [htick]
          exact hresume hhold
        · show (p.hist.hear p.view .closing).stamp.age + _ ≤ 1
          rw [hstamp]
          dsimp only
          split <;> omega

/-- Every turn without a capture. -/
theorem Turn.moves (hturn : Turn p p' xs) (hf : Fixed c x p.view) (hresume : p.view.hold ≠ 0 → p.view.resume < 65536)
    (hpc : p.pc ≠ .pumpGo ∨ p'.pc = .pumpGo) (hsteady : p'.view.dropped = 0) :
    Moves c.delay x.peer.seat p p' := by
  have hbefore := hturn.given_up hsteady
  cases hturn with
  | idle hidle => exact .same rfl rfl rfl rfl rfl hidle.captures (.inl rfl)
  | left hpc hdrop => exact absurd hbefore hdrop
  | took hpump hin => exact .took hf hresume hin
  | captured hi hgo =>
      rcases hpc with hpc | hpc
      · exact absurd hgo hpc
      · exact Pc.noConfusion hpc
  | gaveUp hpc hh => exact absurd hsteady Nat.one_ne_zero
  | ran quiet sim hgate hopen hck himg hbytes =>
      rename_i ck img
      by_cases hdue : (p.view.ran ck).due quiet = true
      · have hview := View.pending_due hdue
        have hlt := x.peer.seat_lt
        have htick : ((p.view.ran ck).pending quiet).tick = ((p.view.ran ck).tick + 16) % 65536 :=
          congrArg View.tick hview
        have hwm : ((p.view.ran ck).pending quiet).wm x.peer.seat =
            (((p.view.ran ck).tick + 16) % 65536 + (p.view.ran ck).delay + 65535) % 65536 := by
          rw [hview]
          exact View.push_wm (by omega) _
        have hdelay : (p.view.ran ck).delay = c.delay := by
          rw [View.ran_eq]
          exact hf.delay
        refine .rebased (p.view.ran ck) (congrArg View.ring hview :) (congrArg View.kp hview :)
          ?_ ?_ (if_pos hdue) ?_
        · show ((p.view.ran ck).pending quiet).wm x.peer.seat =
            (((p.view.ran ck).pending quiet).tick + c.delay + 65535) % 65536
          rw [hwm, htick, hdelay]
        · show ((p.view.ran ck).pending quiet).tick < 65536
          rw [htick]
          exact Nat.mod_lt _ (by decide)
        · show (if (p.view.ran ck).due quiet then _ else _ : Stamp).age + 0 ≤ 1
          rw [if_pos hdue]
          exact Nat.zero_le _
      · have hno : (p.view.ran ck).due quiet = false := Bool.eq_false_iff.mpr hdue
        obtain ⟨b, hview⟩ := View.pending_still hno
        obtain ⟨hring, hkp, htick, hwm⟩ := View.ran_slots ck p.view
        have hcap : (if (p.view.ran ck).due quiet then (⟨p.epoch + 1, 0⟩ : Stamp)
            else ⟨p.epoch, p.age + 1⟩).age + 0 = p.captures := by
          rw [Party.captures_gate hgate, if_neg hdue]
        exact .ranOn (hopen.resolve_left fun hno => hno hbefore) ((congrArg View.ring hview :).trans hring)
          ((congrArg View.kp hview :).trans hkp) ((congrArg View.tick hview :).trans htick)
          ((congrArg View.wm hview :).trans hwm) (if_neg hdue) hcap rfl

/-! ## An INPUT that is stored -/

/-- The place of an INPUT that is about to be stored, sent at `st` for tick `u`. -/
structure Stores (d τ : Nat) (theirs : List (Stamp × (Nat × Nat))) (p : Party) (st : Stamp)
    (u : Nat) : Prop where
  epoch : st.epoch = p.epoch
  tick : u < 65536 ∧ p.view.tick < 65536
  lead : (u + 1 + 65536 - p.view.tick) % 65536 + p.age = st.age + d + 1
  lap : (u + 1 + 65536 - p.view.tick) % 65536 ≤ 255
  skip : p.view.lead τ + p.age = st.age + d ∨ st.age = 1 ∧ p.view.lead τ + p.age = d ∧
    inputAt theirs ⟨p.epoch, 0⟩ = idleCells

/-- The inputs of what comes first are in order before the rest. -/
theorem inputsOf_before {l : List (Stamp × Msg)} {e : Stamp × Msg} {rest : List (Stamp × Msg)}
    {a b : Stamp × (Nat × Nat)} (hsorted : (inputsOf (l ++ e :: rest)).Pairwise fun a b => a.1.Lt b.1)
    (hplayed : played e = some b) (ha : a ∈ inputsOf (l ++ e :: rest)) (hlt : a.1.Lt b.1) :
    a ∈ inputsOf l := by
  unfold inputsOf at *
  rw [List.filterMap_append, List.filterMap_cons_some hplayed] at hsorted ha
  rcases List.mem_append.mp ha with ha | ha
  · exact ha
  · have hrest := (List.pairwise_append.mp hsorted).2.1
    unfold Stamp.Lt at hlt
    rcases List.mem_cons.mp ha with rfl | ha
    · omega
    · have hafter := (List.pairwise_cons.mp hrest).1 a ha
      unfold Stamp.Lt at hafter
      omega

theorem inputsOf_mem {l rest : List (Stamp × Msg)} {s u : Nat} :
    (st, i) ∈ inputsOf (l ++ (st, .input s u i) :: rest) :=
  List.mem_filterMap.mpr ⟨_, List.mem_append_right _ List.mem_cons_self, rfl⟩

/-- A capture of the guest under the host's baseline. -/
theorem Agreed.captured_under (hs : Agreed d s) (hc : OnCourse n d got front (s .host) (s .guest))
    {a : Stamp × (Nat × Nat)} (ha : a ∈ plays (s .host)) (hepoch : a.1.epoch = (s .host).epoch) :
    (s .guest).epoch = (s .host).epoch ∧ a.1.age < (s .guest).captures := by
  have hbefore := hs.before .guest a ha
  have hbehind := hc.down.behind
  omega

/-- An INPUT of the host's own baseline that is about to be handled. -/
theorem OnCourse.host_input (hc : OnCourse n d got front h g) (hlap : d ≤ 126)
    (hf : Fixed c .host h.view) {u : Nat} {rest : List (Stamp × Msg)}
    (hin : h.inbox = (st, .input 1 u i) :: rest) (hepoch : st.epoch = h.epoch) :
    u = (firstTick n h.epoch + st.age + d) % 65536 ∧ st.age ≤ d + h.captures ∧
      (h.view.fresh 1 u = true ↔ front ≤ firstTick n h.epoch + st.age + d) := by
  obtain ⟨htold, -, hreach, -⟩ := hc.up.head hin
  have hahead := hc.up.ahead hc.down
  have hcap := h.captures_le
  have hage : st.age ≤ d + if st.epoch < h.epoch then n st.epoch else h.captures := hreach.age
  rw [if_neg (by omega)] at hage
  have hfront : front ≤ firstTick n h.epoch + (2 * d + 2) ∨
      st.epoch = h.epoch ∧ front ≤ firstTick n h.epoch + (d + st.age + 1) := hreach.front
  have hpace := hc.up.pace
  cases htold with
  | input =>
      rw [← hepoch] at *
      refine ⟨rfl, hage, hc.up.fresh_iff hf.seat hf.count ?_ ?_⟩
      · omega
      · omega

/-- The host stores the next INPUT, or the second one of a baseline for the first. -/
theorem Agreed.host_stores (hs : Agreed d s) (hc : OnCourse n d got front (s .host) (s .guest))
    (hlap : 2 * d + 2 < 256) (hhead : d ≤ 15 ∨ (s .host).epoch = 0)
    (hf : Fixed c .host (s .host).view) {u : Nat} {rest : List (Stamp × Msg)}
    (hin : (s .host).inbox = (st, .input 1 u i) :: rest) (hfresh : (s .host).view.fresh 1 u = true) :
    Stores d 1 (plays (s .host)) (s .host) st u := by
  have hepoch : st.epoch = (s .host).epoch := (hc.host_takes (by omega) hhead hf hin hfresh).epoch
  obtain ⟨hu, hage, hiff⟩ := hc.host_input (by omega) hf hin hepoch
  have hlate := hiff.mp hfresh
  have hlead := hc.host_lead (by omega)
  have hpace := hc.up.pace
  have hfloor := hc.up.floor
  have hcap := (s .host).captures_le
  have htick := hc.down.hostTick
  have hnext : (u + 1 + 65536 - (s .host).view.tick) % 65536 + (s .host).age = st.age + d + 1 := by
    rw [hu, htick]
    omega
  -- what the guest captured before it was handled before it
  have hall : plays (s .host) = inputsOf ((s .host).heard ++ (st, .input 1 u i) :: rest) := by
    unfold plays
    rw [hin]
  have hmine : (st, i) ∈ plays (s .host) := by
    rw [hall]
    exact inputsOf_mem
  have hearlier : ∀ a j, (⟨(s .host).epoch, a⟩, j) ∈ plays (s .host) → a < st.age →
      firstTick n (s .host).epoch + a + d + 1 ≤ front := by
    intro a j hj hlt
    have hsorted := hs.sorted .host
    rw [hall] at hj hsorted
    have hbelow := hs.below _ (inputsOf_before hsorted rfl hj (.inr ⟨hepoch.symm, hlt⟩)) rfl
    dsimp only at hbelow
    omega
  obtain ⟨hsame, hmost⟩ : _ ∧ st.age < _ := hs.captured_under hc hmine hepoch
  have hmade : ∀ a, 1 ≤ a → a < st.age → firstTick n (s .host).epoch + a + d + 1 ≤ front := by
    intro a hone hlt
    obtain ⟨j, hj⟩ := hs.complete a hone (by omega)
    rw [hsame] at hj
    exact hearlier a j hj hlt
  refine ⟨hepoch, ⟨?_, ?_⟩, hnext, ?_, ?_⟩
  · rw [hu]
    exact Nat.mod_lt _ (by decide)
  · rw [htick]
    exact Nat.mod_lt _ (by decide)
  · omega
  · rcases Nat.eq_or_lt_of_le hlate with heq | hlt
    · exact .inl (by omega)
    · -- `front` is the tick of a capture that was not made
      obtain ⟨a, ha⟩ := Nat.exists_eq_add_of_le hfloor
      have hzero : a = 0 := by
        by_contra hne
        have hle := hmade a (by omega) (by omega)
        omega
      have hone : st.age = 1 := by
        by_contra hne
        have hle := hmade 1 (Nat.le_refl _) (by omega)
        omega
      refine .inr ⟨hone, by omega, inputAt_none ?_⟩
      rintro ⟨st', j⟩ hj rfl
      have hle := hearlier 0 j hj (by omega)
      omega

/-- How far the guest is behind what it has. -/
theorem Agreed.guest_near (hs : Agreed d s) (hc : OnCourse n d got front (s .host) (s .guest))
    (hlap : 2 * d + 2 < 256) (hhead : d ≤ 15 ∨ (s .host).epoch = 0) :
    d + got ≤ (s .guest).age + (2 * d + 2) ∨ d ≤ 15 ∧ d + got ≤ (s .guest).age + (3 * d + 3) := by
  rcases hhead with hhead | hzero
  · exact .inr ⟨hhead, hc.up.lead hc.down⟩
  · -- nobody is past the first baseline
    have hle := hc.down.behind
    have hsame : (s .guest).epoch = (s .host).epoch := by omega
    have hbound := hs.bound
    rw [if_pos hsame] at hbound
    have hlead := hc.host_lead (by omega)
    have hpace := hc.up.pace
    have hcap := (s .host).captures_le
    have hcap' := (s .guest).captures_le
    exact .inl (by omega)

/-- The guest stores the next INPUT. -/
theorem OnCourse.guest_stores (hc : OnCourse n d got front h g) (hlap : 2 * d + 2 < 256)
    (hnear : d + got ≤ g.age + 254) {u : Nat} {rest : List (Stamp × Msg)}
    (hin : g.inbox = (st, .input 0 u i) :: rest) : Stores d 0 theirs g st u := by
  have hflow := hc.down.flow
  rw [hin] at hflow
  obtain ⟨q, hhears, -⟩ := hears_cons hflow
  have htick := hc.down.guestTick
  have hpace := hc.down.pace
  have hlead := hc.guest_lead (by omega)
  generalize hplace : (⟨g.epoch, got, decide (g.view.hold ≠ 0)⟩ : Place) = r at hhears
  cases hhears with
  | input e k i =>
      obtain ⟨rfl, rfl, -⟩ := Place.mk.inj hplace
      refine ⟨rfl, ⟨Nat.mod_lt _ (by decide), ?_⟩, ?_, ?_, .inl ?_⟩
      · rw [htick]
        exact Nat.mod_lt _ (by decide)
      · rw [htick]
        dsimp only
        omega
      · rw [htick]
        omega
      · dsimp only
        omega

/-! ## Turns without a capture -/

namespace Moves

theorem captures (hm : Moves d τ p p') : p'.epoch = p.epoch ∧ p'.captures = p.captures ∨
    p'.epoch = p.epoch + 1 ∧ p'.captures ≤ 1 := by
  cases hm with
  | same hring hkp htick hwm hstamp hcap hheard => exact .inl ⟨congrArg Stamp.epoch hstamp, hcap⟩
  | stored st u i rest hin hfresh hview hstamp hcap hheard =>
      exact .inl ⟨congrArg Stamp.epoch hstamp, hcap⟩
  | ranOn hopen hring hkp htick hwm hstamp hcap hheard =>
      exact .inl ⟨(congrArg Stamp.epoch hstamp :), hcap⟩
  | rebased v hring hkp hwm htick hstamp hcap =>
      exact .inr ⟨(congrArg Stamp.epoch hstamp :), hcap⟩

theorem goesOn (hm : Moves d τ p p') : GoesOn p p' := by
  unfold GoesOn
  rcases hm.captures with ⟨hepoch, hcap⟩ | ⟨hepoch, -⟩
  · exact .inl ⟨hepoch, Nat.le_of_eq hcap.symm⟩
  · exact .inr (by omega)

end Moves

/-- The ticks that are in, after a tick was run. -/
theorem View.lead_next {v v' : View} (hone : 1 ≤ v.lead τ)
    (hnext : v'.tick = (v.tick + 1) % 65536) (hwm : v'.wm = v.wm) : v'.lead τ + 1 = v.lead τ := by
  unfold View.lead at *
  rw [hnext, hwm]
  omega

/-- The ticks that are in under a new baseline. -/
theorem View.lead_first {v : View} (htick : v.tick < 65536) (hlap : d ≤ 126)
    (hwm : v.wm τ = (v.tick + d + 65535) % 65536) : v.lead τ = d := by
  unfold View.lead
  rw [hwm]
  omega

/-- The ticks that are in, after an INPUT was stored. -/
theorem View.lead_stored (u : Nat) (v : View) :
    ((v.put τ (u % 256) i).mark τ u).lead τ = (u + 1 + 65536 - v.tick) % 65536 := by
  unfold View.lead
  show ((if τ = τ then u else v.wm τ) + 1 + 65536 - v.tick) % 65536 = _
  rw [if_pos rfl]

/-- What the rings hold is kept. -/
theorem Rings.moves {σ : Nat} (hr : Rings d σ τ ours theirs p) (hm : Moves d τ p p') (hlap : d ≤ 126)
    (hσ : σ < 4) (hτ : τ < 4) (hne : σ ≠ τ)
    (hready : p.view.ready = true → 1 ≤ p.view.lead τ) (hours : ∀ a ∈ ours, a.1.epoch ≤ p.epoch)
    (hsorted : theirs.Pairwise fun a b => a.1.Lt b.1)
    (hstores : ∀ st u i rest, p.inbox = (st, .input τ u i) :: rest → p.view.fresh τ u = true →
      Stores d τ theirs p st u ∧ (st, i) ∈ theirs) : Rings d σ τ ours theirs p' := by
  cases hm with
  | same hring hkp hstill hwm hstamp hcap hheard => exact hr.congr hring hkp hstill hwm hstamp hcap
  | stored st u i rest hin hfresh hview hstamp hcap hheard =>
      obtain ⟨hplace, hmem⟩ := hstores st u i rest hin hfresh
      have hlead : p'.view.lead τ = (u + 1 + 65536 - p.view.tick) % 65536 := by
        rw [hview]
        exact View.lead_stored u p.view
      have hsame : (⟨p.epoch, st.age⟩ : Stamp) = st := Stamp.of_eq hplace.epoch.symm rfl
      have hslot : u % 256 = (p.view.tick + p'.view.lead τ + 255) % 256 := by
        have hbounds := hplace.tick
        rw [hlead]
        omega
      exact hr.stored hne (by rw [hlead]; exact hplace.lead) (by rw [hlead]; exact hplace.lap)
        hplace.skip (by rw [hsame]; exact inputAt_mem hsorted hmem) hslot
        (congrArg View.ring hview :) (congrArg View.kp hview :) (congrArg View.tick hview :)
        hstamp hcap
  | ranOn hopen hring hkp hnext hwm hstamp hcap hheard =>
      exact hr.ranOn hring hkp hnext (View.lead_next (hready hopen) hnext hwm) hstamp hcap
  | rebased v hring hkp hwm htick' hstamp hcap =>
      refine .rebased hσ hτ hring hkp (View.lead_first htick' hlap hwm)
        (congrArg Stamp.age hstamp :) fun a ha => ?_
      have hepoch : p'.epoch = p.epoch + 1 := (congrArg Stamp.epoch hstamp :)
      have hle := hours a ha
      omega

/-! ## The ticks that were run -/

/-- With its gate open, what a member is about to dispatch was captured on both sides. -/
theorem Agreed.about_to_run (hs : Agreed d s) (hc : OnCourse n d got front (s .host) (s .guest))
    (hone : 1 ≤ d) (hlap : d ≤ 126) (hgate : (s x).pc = .gate)
    (hlead : 1 ≤ (s x).view.lead x.peer.seat) {r : Ran} (hstamp : r.stamp = (s x).hist.stamp)
    (hseat0 : r.seat0 = (s x).view.cells 0) (hseat1 : r.seat1 = (s x).view.cells 1) :
    Dispatches d s r ∧ ∀ y, Settled d r.stamp (s y) := by
  have hcap := Party.captures_gate hgate
  obtain ⟨hours, htheirs⟩ := (hs.rings x).dispatched (by omega) hone hlead
  have hepoch : r.stamp.epoch = (s x).epoch := congrArg Stamp.epoch hstamp
  have hage : r.stamp.age = (s x).age := congrArg Stamp.age hstamp
  have hplayed : ∀ l, playedCells l d r.stamp = playedCells l d ⟨(s x).epoch, (s x).age⟩ := by
    intro l
    unfold playedCells
    rw [hepoch, hage]
  refine ⟨?_, fun y => ?_⟩
  · cases x with
    | host => exact ⟨(hseat0.trans hours).trans (hplayed _).symm, (hseat1.trans htheirs).trans (hplayed _).symm⟩
    | guest => exact ⟨(hseat0.trans htheirs).trans (hplayed _).symm, (hseat1.trans hours).trans (hplayed _).symm⟩
  · unfold Settled
    rw [hepoch, hage]
    rcases Side.eq_or_peer x y with rfl | rfl
    · exact .inr (.inr ⟨rfl, by omega⟩)
    · by_cases hsame : (s x).epoch = (s x.peer).epoch
      · have hle := hc.ahead_le hlap hs x hsame
        exact .inr (.inr ⟨hsame, by omega⟩)
      · cases x with
        | host =>
            have hbound := hs.bound
            rw [if_neg fun heq => hsame heq.symm] at hbound
            have hlead' : 1 ≤ (s .host).view.lead 1 := hlead
            exact .inl (by omega)
        | guest =>
            have hbehind := hc.down.behind
            have hless : (s .guest).epoch ≠ (s .host).epoch := hsame
            exact .inr (.inl (show (s .guest).epoch < (s .host).epoch by omega))

/-! ## Turns without a capture, on both sides -/

/-- The host takes a turn in which it captures nothing. -/
theorem Agreed.hostSilent (hs : Agreed d s) (hc : OnCourse n d got front (s .host) (s .guest))
    (hlap : 2 * d + 2 < 256) (hhead : d ≤ 15 ∨ (s .host).epoch = 0)
    (hf : Fixed c .host (s .host).view) (hq : Silent .host s t)
    (hm : Moves d 1 (s .host) (t .host)) (hready : (s .host).view.ready = true → 1 ≤ (s .host).view.lead 1)
    (hran : ∀ r ∈ (t .host).hist.ran, r ∈ (s .host).hist.ran ∨
      Dispatches d s r ∧ ∀ y, Settled d r.stamp (s y)) : Agreed d t := by
  have hstores : ∀ st u i rest, (s .host).inbox = (st, .input 1 u i) :: rest →
      (s .host).view.fresh 1 u = true →
      Stores d 1 (plays (s .host)) (s .host) st u ∧ (st, i) ∈ plays (s .host) := by
    intro st u i rest hin hfresh
    refine ⟨hs.host_stores hc hlap hhead hf hin hfresh, ?_⟩
    unfold plays
    rw [hin]
    exact inputsOf_mem
  have hours : ∀ a ∈ plays (s .guest), a.1.epoch ≤ (s .host).epoch := by
    intro a ha
    have hbefore := hs.before .host a ha
    omega
  have hguest : (t .guest).epoch = (s .guest).epoch := hq.epoch
  have hcaptures : (t .guest).captures = (s .guest).captures := hq.captures
  have hsum := hc.host_lead (by omega)
  -- what the host handled of its baseline
  have hheard : NoneTaken (s .host) (t .host) → ∀ a ∈ inputsOf (t .host).heard,
      a.1.epoch = (s .host).epoch → a.1.age + d + 1 ≤ (s .host).age + (s .host).view.lead 1 := by
    rintro (hsame | ⟨⟨st, msg⟩, rest, hin, hadd, hnone⟩) a ha hepoch
    · rw [hsame] at ha
      exact hs.below a ha hepoch
    · rw [hadd] at ha
      unfold inputsOf at ha
      rw [List.filterMap_append] at ha
      rcases List.mem_append.mp ha with ha | ha
      · exact hs.below a ha hepoch
      · obtain ⟨e, he, hplayed⟩ := List.mem_filterMap.mp ha
        obtain rfl := List.mem_singleton.mp he
        cases msg with
        | input sd u i =>
            obtain rfl : (st, i) = a := Option.some.inj hplayed
            obtain rfl : sd = 1 := by
              cases (hc.up.head hin).1
              rfl
            have hstale := hnone 1 u i rfl
            obtain ⟨-, -, hiff⟩ := hc.host_input (by omega) hf hin hepoch
            rw [hstale] at hiff
            have hlate : ¬ front ≤ firstTick n (s .host).epoch + st.age + d := fun hle =>
              Bool.noConfusion (hiff.mpr hle)
            dsimp only
            omega
        | _ => cases hplayed
  refine hq.agreed hs ?_ ?_ ?_ ?_ hran
  · exact (hs.rings .host).moves hm (by omega) (by decide) (by decide) (by decide) hready hours
      (hs.sorted .host) hstores
  · rw [hguest, hcaptures]
    exact hs.complete
  · intro a ha hepoch
    cases hm with
    | same hring hkp htick hwm hstamp hcap hnone =>
        have hepoch' : (t .host).epoch = (s .host).epoch := congrArg Stamp.epoch hstamp
        have hage : (t .host).age = (s .host).age := congrArg Stamp.age hstamp
        have hlead : (t .host).view.lead 1 = (s .host).view.lead 1 := by
          unfold View.lead
          rw [hwm, htick]
        rw [hage, hlead]
        exact hheard hnone a ha (hepoch.trans hepoch')
    | stored st u i rest hin hfresh hview hstamp hcap hadd =>
        have hepoch' : (t .host).epoch = (s .host).epoch := congrArg Stamp.epoch hstamp
        have hage : (t .host).age = (s .host).age := congrArg Stamp.age hstamp
        have hplace := (hstores st u i rest hin hfresh).1
        have hlead := View.lead_stored (τ := 1) (i := i) u (s .host).view
        rw [← hview] at hlead
        have hplus := hplace.lead
        have hskip := hplace.skip
        rw [hadd] at ha
        unfold inputsOf at ha
        rw [List.filterMap_append] at ha
        rcases List.mem_append.mp ha with ha | ha
        · have hbelow := hs.below a ha (hepoch.trans hepoch')
          omega
        · obtain rfl : a = (st, i) := List.mem_singleton.mp ha
          dsimp only
          omega
    | ranOn hopen hring hkp htick hwm hstamp hcap hsame =>
        have hepoch' : (t .host).epoch = (s .host).epoch := (congrArg Stamp.epoch hstamp :)
        have hage : (t .host).age = (s .host).age + 1 := (congrArg Stamp.age hstamp :)
        have hlead := View.lead_next (τ := 1) (hready hopen) htick hwm
        have hbelow := hheard (.inl hsame) a ha (hepoch.trans hepoch')
        omega
    | rebased v hring hkp hwm htick hstamp hcap =>
        -- nothing of the new baseline was sent to it yet
        have hepoch' : (t .host).epoch = (s .host).epoch + 1 := (congrArg Stamp.epoch hstamp :)
        have hmem : a ∈ plays (t .host) := by
          unfold plays inputsOf
          rw [List.filterMap_append]
          exact List.mem_append_left _ ha
        rw [hq.plays .host] at hmem
        have hbefore := hs.before .guest a hmem
        have hbehind := hc.down.behind
        omega
  · rw [hguest, hcaptures]
    have hbound := hs.bound
    cases hm with
    | same hring hkp htick hwm hstamp hcap hnone =>
        have hepoch' : (t .host).epoch = (s .host).epoch := congrArg Stamp.epoch hstamp
        have hage : (t .host).age = (s .host).age := congrArg Stamp.age hstamp
        have hlead : (t .host).view.lead 1 = (s .host).view.lead 1 := by
          unfold View.lead
          rw [hwm, htick]
        rw [hepoch', hage, hlead]
        exact hbound
    | stored st u i rest hin hfresh hview hstamp hcap hadd =>
        have hepoch' : (t .host).epoch = (s .host).epoch := congrArg Stamp.epoch hstamp
        have hage : (t .host).age = (s .host).age := congrArg Stamp.age hstamp
        obtain ⟨hplace, hmem⟩ := hstores st u i rest hin hfresh
        have hlead := View.lead_stored (τ := 1) (i := i) u (s .host).view
        rw [← hview] at hlead
        have hplus := hplace.lead
        obtain ⟨hsame, hmost⟩ : _ ∧ st.age < _ := hs.captured_under hc hmem hplace.epoch
        rw [hepoch', if_pos hsame]
        omega
    | ranOn hopen hring hkp htick hwm hstamp hcap hsame =>
        have hepoch' : (t .host).epoch = (s .host).epoch := (congrArg Stamp.epoch hstamp :)
        have hage : (t .host).age = (s .host).age + 1 := (congrArg Stamp.age hstamp :)
        have hlead := View.lead_next (τ := 1) (hready hopen) htick hwm
        rw [hepoch']
        omega
    | rebased v hring hkp hwm htick hstamp hcap =>
        have hage : (t .host).age = 0 := (congrArg Stamp.age hstamp :)
        have hlead := View.lead_first htick (by omega) hwm
        omega

/-- The guest takes a turn in which it captures nothing. -/
theorem Agreed.guestSilent (hs : Agreed d s) (hc : OnCourse n d got front (s .host) (s .guest))
    (hlap : 2 * d + 2 < 256) (hhead : d ≤ 15 ∨ (s .host).epoch = 0) (hq : Silent .guest s t)
    (hm : Moves d 0 (s .guest) (t .guest))
    (hready : (s .guest).view.ready = true → 1 ≤ (s .guest).view.lead 0)
    (hbehind : (t .guest).epoch ≤ (t .host).epoch)
    (hran : ∀ r ∈ (t .guest).hist.ran, r ∈ (s .guest).hist.ran ∨
      Dispatches d s r ∧ ∀ y, Settled d r.stamp (s y)) : Agreed d t := by
  have hours : ∀ a ∈ plays (s .host), a.1.epoch ≤ (s .guest).epoch := by
    intro a ha
    have hbefore := hs.before .guest a ha
    omega
  have hnear : d + got ≤ (s .guest).age + 254 := by
    have hnear := hs.guest_near hc hlap hhead
    omega
  have hepoch : (t .host).epoch = (s .host).epoch := hq.epoch
  have hage : (t .host).age = (s .host).age := hq.age
  have hview : (t .host).view = (s .host).view := hq.view
  have hheard : (t .host).heard = (s .host).heard := hq.heard
  refine hq.agreed hs ?_ ?_ ?_ ?_ hran
  · refine (hs.rings .guest).moves hm (by omega) (by decide) (by decide) (by decide) hready hours
      (hs.sorted .guest) fun st u i rest hin hfresh => ⟨hc.guest_stores hlap hnear hin, ?_⟩
    unfold plays
    rw [hin]
    exact inputsOf_mem
  · intro a ha hlt
    rcases hm.captures with ⟨hsame, hcap⟩ | ⟨-, hcap⟩
    · rw [hsame]
      exact hs.complete a ha (by omega)
    · omega
  · rw [hheard, hepoch, hage, hview]
    exact hs.below
  · have hbound := hs.bound
    rw [hepoch, hage, hview]
    rcases hm.captures with ⟨hsame, hcap⟩ | ⟨hnext, -⟩
    · rw [hsame, hcap]
      exact hbound
    · rw [if_neg (by omega)] at hbound
      exact Nat.le_trans hbound (Nat.le_add_right _ _)

/-! ## Whole runs -/

theorem Agreed.init (hone : 1 ≤ c.delay) (hlap : c.delay ≤ 126) : Agreed c.delay (Pair.init c) := by
  have hidle : ∀ (x : Side) (s k : Nat), s < 4 → (Pair.init c x).view.spot s k = idleCells :=
    fun x s k hs => View.spot_idle hs (show _ = View.ring (Pair.init c x).view.idle from rfl) rfl
  have hlead : ∀ x : Side, (Pair.init c x).view.lead x.peer.seat = c.delay := by
    intro x
    have hlt := x.peer.seat_lt
    have hwm : (Pair.init c x).view.wm x.peer.seat = (c.delay + 65535) % 65536 % 256 :=
      if_pos (by omega)
    have htick : (Pair.init c x).view.tick = 0 := rfl
    exact View.lead_first (by omega) hlap (by omega)
  have hnone : ∀ x : Side, plays (Pair.init c x) = [] := fun _ => rfl
  refine ⟨fun x => ⟨fun k hk => ?_, fun k hk => ?_, fun _ k => ?_⟩, fun x => ?_, fun x a ha => ?_,
    fun a ha hlt => ?_, fun a ha => ?_, ?_, fun x r hr => ?_⟩
  · have hseat := x.seat_lt
    rw [hidle x _ _ (by omega), hnone, play_fresh fun a ha => absurd ha List.not_mem_nil]
  · have hseat := x.peer.seat_lt
    rw [hidle x _ _ (by omega), hnone, play_fresh fun a ha => absurd ha List.not_mem_nil]
  · have hseat := x.peer.seat_lt
    exact hidle x _ _ (by omega)
  · exact List.Pairwise.nil
  · exact absurd ha List.not_mem_nil
  · exact absurd hlt (Nat.not_lt_zero _)
  · exact absurd ha List.not_mem_nil
  · have hfirst : (Pair.init c .host).view.lead 1 = c.delay := hlead .host
    have hage : (Pair.init c .host).age = 0 := rfl
    omega
  · exact absurd hr List.not_mem_nil

/-- A turn is a capture, or captures nothing and moves the slots in one of four ways. -/
theorem Coursing.turn_cases (hcourse : Coursing c s) (hsteady : s.Steady) (hsteady' : t.Steady)
    (hstep : Pair.Step x s t) : (∃ i, (s x).pc = .pumpGo ∧ t x = { s x with
        pc := .gate
        view := (s x).view.put (s x).view.seat ((s x).view.ahead % 256) i
        hist := { (s x).hist with captured := (s x).hist.captured ++ [i] } } ∧
      t x.peer = (s x.peer).gets (s x).hist.stamp [.input (s x).view.seat (s x).view.ahead i]) ∨
    Silent x s t ∧ Moves c.delay x.peer.seat (s x) (t x) ∧
      (t x).hist.captured = (s x).hist.captured := by
  obtain ⟨n, got, front, hc⟩ := hcourse.course hsteady
  have hf := hcourse.orderly.fixed x
  obtain ⟨xs, hturn, hpeer⟩ := hstep
  by_cases hpc : (s x).pc ≠ .pumpGo ∨ (t x).pc = .pumpGo
  · have hresume : (s x).view.hold ≠ 0 → (s x).view.resume < 65536 := by
      intro hhold
      cases x with
      | host => exact absurd hc.down.free hhold
      | guest =>
          rw [hc.down.resume hhold]
          exact Nat.mod_lt _ (by decide)
    have hmoves := hturn.moves hf hresume hpc (hsteady' x)
    exact .inr ⟨.of_step hturn hpeer hpc hmoves.goesOn, hmoves, hturn.captures_nothing hpc⟩
  · obtain ⟨hgo, hleft⟩ := not_or.mp hpc
    obtain ⟨i, rfl, hthis⟩ := hturn.captures_input (not_not.mp hgo) hleft
    exact .inl ⟨i, not_not.mp hgo, hthis, hpeer⟩

/-- One turn keeps it. -/
theorem Agreed.step (hs : Agreed c.delay s) (hcourse : Coursing c s) (hone : 1 ≤ c.delay)
    (hlap : 2 * c.delay + 2 < 256) (hhead : c.delay ≤ 15 ∨ (s .host).epoch = 0)
    (hsteady : s.Steady) (hsteady' : t.Steady) (hstep : Pair.Step x s t) :
    Agreed c.delay t := by
  obtain ⟨n, got, front, hc⟩ := hcourse.course hsteady
  obtain ⟨n', got', front', hc'⟩ := (hcourse.step (by omega) hstep).course hsteady'
  have hf := hcourse.orderly.fixed x
  rcases hcourse.turn_cases hsteady hsteady' hstep with ⟨i, hgo, hthis, hpeer⟩ | ⟨hquiet, hmoves, -⟩
  · exact hs.captured hc (by omega) hf rfl hgo hthis hpeer
  · have hready : (s x).view.ready = true → 1 ≤ (s x).view.lead x.peer.seat := by
      intro hopen
      cases x with
      | host =>
          have hlead := hc.host_lead (by omega)
          have hfront := (hc.host_ready (by omega) hf).mp hopen
          exact (by omega : 1 ≤ (s .host).view.lead 1)
      | guest =>
          have hlead := hc.guest_lead (by omega)
          have hfront := (hc.guest_ready (by omega) hf).mp hopen
          exact (by omega : 1 ≤ (s .guest).view.lead 0)
    have hran : ∀ r ∈ (t x).hist.ran, r ∈ (s x).hist.ran ∨
        Dispatches c.delay s r ∧ ∀ y, Settled c.delay r.stamp (s y) := by
      intro r hr
      obtain ⟨xs, hturn, -⟩ := hstep
      rcases hturn.ran_new r hr with hold | ⟨hgate, hopen, hstamp, hseat0, hseat1⟩
      · exact .inl hold
      · have hlead := hready (hopen.resolve_left fun hno => hno (hsteady x))
        exact .inr (hs.about_to_run hc hone (by omega) hgate hlead hstamp hseat0 hseat1)
    cases x with
    | host => exact hs.hostSilent hc hlap hhead hf hquiet hmoves hready hran
    | guest =>
        have hbehind : (t .guest).epoch ≤ (t .host).epoch := by
          rcases hc'.down.behind with ⟨heq, -⟩ | ⟨hlt, -⟩
          · exact Nat.le_of_eq heq
          · exact Nat.le_of_lt hlt
        exact hs.guestSilent hc hlap hhead hquiet hmoves hready hbehind hran

/-- A host under the first baseline was under it before. -/
theorem Pair.Step.first (hstep : Pair.Step x s t) (hzero : (t .host).epoch = 0) :
    (s .host).epoch = 0 := by
  obtain ⟨xs, hturn, hpeer⟩ := hstep
  cases x with
  | host =>
      have hle := hturn.stamp_le
      unfold Stamp.Le at hle
      have hepoch : (t .host).hist.stamp.epoch = 0 := hzero
      exact (by omega : (s .host).hist.stamp.epoch = 0)
  | guest =>
      have hhost : t .host = (s .host).gets (s .guest).hist.stamp xs := hpeer
      rw [hhost] at hzero
      exact hzero

/-- What both consoles ran under one stamp is one tick, with the same inputs for both seats. -/
def Duo.InputsAgree (duo : Duo) : Prop :=
  ∀ x k l, duo.proc x = some k → duo.proc x.peer = some l →
    ∀ r ∈ k.m.hist.ran, ∀ r' ∈ l.m.hist.ran, r.stamp = r'.stamp →
      r.tick = r'.tick ∧ r.seat0 = r'.seat0 ∧ r.seat1 = r'.seat1

/-- The pair of two consoles whose inputs agree. -/
theorem agreed_pair (hone : 1 ≤ c.delay) (hlap : 2 * c.delay + 2 < 256) {es : List Event} {duo : Duo}
    (hrun : Run (Duo.Step cart c) Duo.init es duo) (hsteady : duo.Steady)
    (hhead : c.delay ≤ 15 ∨ ∀ k, duo.proc .host = some k → k.m.hist.stamp.epoch = 0) :
    ∃ s, Portrays c duo s ∧ Coursing c s ∧ s.Steady ∧ Agreed c.delay s := by
  obtain ⟨s, hs, hcourse, hsteady', hagreed⟩ := steady_pair
    (Q := fun s => c.delay ≤ 15 ∨ (s .host).epoch = 0 → Agreed c.delay s) hone (by omega)
    (fun _ => .init hone (by omega))
    (fun x s t hcourse hbefore hafter hkeep hstep hhead => by
      have hhead' : c.delay ≤ 15 ∨ (s .host).epoch = 0 :=
        hhead.imp_right fun hzero => hstep.first hzero
      exact (hkeep hhead').step hcourse hone hlap hhead' hbefore hafter hstep) hrun hsteady
  refine ⟨s, hs, hcourse, hsteady', hagreed (hhead.imp_right fun hzero => ?_)⟩
  match hx : duo.proc .host with
  | none =>
      rw [(hs.fresh .host hx).1]
      rfl
  | some k =>
      have hhist := (hs.shown .host k hx).1.hist
      show (s .host).hist.stamp.epoch = 0
      rw [hhist]
      exact hzero k hx

/-- While nobody gives up, a tick that both consoles ran under the same baseline was given the same
inputs on both, when the delay is within the headroom of a push or nothing was pushed yet. -/
theorem inputs_agree (hone : 1 ≤ c.delay) (hlap : 2 * c.delay + 2 < 256) {es : List Event} {duo : Duo}
    (hrun : Run (Duo.Step cart c) Duo.init es duo) (hsteady : duo.Steady)
    (hhead : c.delay ≤ 15 ∨ ∀ k, duo.proc .host = some k → k.m.hist.stamp.epoch = 0) :
    duo.InputsAgree := by
  obtain ⟨s, hs, hcourse, hsteady', hagreed⟩ := agreed_pair hone hlap hrun hsteady hhead
  obtain ⟨n, hplaced⟩ := hcourse.placed hlap hsteady'
  intro x k l hk hl r hr r' hr' heq
  have hran : r ∈ (s x).hist.ran := by
    rw [(hs.shown x k hk).1.hist]
    exact hr
  have hran' : r' ∈ (s x.peer).hist.ran := by
    rw [(hs.shown x.peer l hl).1.hist]
    exact hr'
  have htick := ((hplaced x).records.ran r hran).1
  have htick' := ((hplaced x.peer).records.ran r' hran').1
  have hours := (hagreed.ran x r hran).1
  have htheirs := (hagreed.ran x.peer r' hran').1
  refine ⟨?_, ?_, ?_⟩
  · rw [htick, htick', heq]
  · rw [hours.seat0, htheirs.seat0, heq]
  · rw [hours.seat1, htheirs.seat1, heq]

/-- Both ran tick 1 on what the host and the guest captured at tick 0. -/
theorem inputs_agree_calm : ∃ es duo k l, Run (Duo.Step idleCart startOne) Duo.init es duo ∧
    duo.proc .host = some k ∧ duo.proc .guest = some l ∧
    (∃ r ∈ k.m.hist.ran, ∃ r' ∈ l.m.hist.ran, r.stamp = r'.stamp ∧ r.tick = 1 ∧
      r.seat0.cur = 0x41 ∧ r.seat1.cur = 0x44) ∧ duo.InputsAgree := by
  obtain ⟨es, duo, S, hrun, hstaged, -, hran, hdrop, hdrop'⟩ :=
    Staged.follow startOne rfl (j := fun _ => 0) (fun _ => by decide) calmCues (P := fun S =>
      (∃ r ∈ (S .host).hist.ran, ∃ r' ∈ (S .guest).hist.ran, r.stamp = r'.stamp ∧ r.tick = 1 ∧
        r.seat0.cur = 0x41 ∧ r.seat1.cur = 0x44) ∧
      (S .host).view.dropped = 0 ∧ (S .guest).view.dropped = 0) (by decide +kernel)
  obtain ⟨k, hk, -, hhist, -⟩ := hstaged.console .host
  obtain ⟨l, hl, -, hhist', -⟩ := hstaged.console .guest
  rw [← hhist, ← hhist'] at hran
  exact ⟨es, duo, k, l, hrun, hk, hl, hran,
    inputs_agree (by decide) (by decide) hrun (hstaged.steady hdrop hdrop') (.inl (by decide))⟩

end SharkNetplay.Console
