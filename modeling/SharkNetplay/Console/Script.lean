import SharkNetplay.Console.Roles

/-!
# Matches played from a script

A script tells the members of a match what to do next. What it makes of them is computed on
roles alone, and the two consoles, from START on, can be made to follow every script that does
not break off.
-/

namespace SharkNetplay.Console

open Lib Lib.Framing Cell Machine

variable {cart : Cart} {c : Start} {x : Side} {m : Machine} {k : Proc} {duo : Duo} {v : Move}
  {xs : List Msg} {S : Scene} {r r' : Role}

/-! ## Cues -/

/-- What a member is to do next. -/
inductive Cue
  /-- `SES_HOLD` ends. -/
  | sit
  /-- A pass begins, with `n` bytes. -/
  | pump (n : Nat)
  /-- The first message is handled. -/
  | hear
  /-- The pass captures an input. -/
  | capture (input : Nat × Nat)
  /-- A round of a hold ends. -/
  | hold
  /-- The gate opens. -/
  | tick
  deriving DecidableEq

/-- The pass begins with the next `n` bytes. -/
def Role.pump (n : Nat) (r : Role) : Role :=
  { r with
    pc := if r.view.hold = 0 then .pumpGo else .pumpHold
    buffer := r.buffer ++ r.rest.take n }

/-- After a message, which leaves `es` in the inbox. -/
def Role.hear (e : Stamp × Msg) (es : List (Stamp × Msg)) (r : Role) : Role :=
  { toParty := r.take e es
    buffer := r.buffer.drop e.2.frame.length
    inj := match e.2 with
      | .piece _ => none
      | .closing => none
      | _ => r.inj
    rounds := match e.2 with
      | .opening _ => some 0
      | .piece _ => r.rounds
      | .closing => if r.view.hold = 0 then none else some 0
      | _ => none }

/-- After a tick at rest. -/
def Role.tick (j : Nat) (r : Role) : Role :=
  let ck := lsCksum (resting j)
  { toParty := r.run true ck (restSim j netNullTbl4)
    buffer := r.buffer
    inj := if (r.view.ran ck).due true then none else some j
    rounds := if r.view.tick % 64 ≠ 0 ∧ (r.view.pend = 0 ∨ r.view.seat ≠ 0 ∨ r.view.hold ≠ 0) then
      r.rounds else none }

/-- What a member makes of a cue, and what it sends. -/
def Role.cue (r : Role) : Cue → Option (Role × List Msg)
  | .sit => if r.pc = .pumpSes ∧ r.buffer = [] then some (r.sit, []) else none
  | .pump n =>
      if r.pc = .top ∧ r.view.dropped = 0 ∧ r.view.peerScr = 0 ∧ n ≤ 64 then some (r.pump n, [])
      else none
  | .hear =>
      match r.inbox with
      | [] => none
      | e :: es =>
          if (r.pc = .pumpGo ∨ r.pc = .pumpHold) ∧ cut headOk r.buffer ≠ .wait then
            some (r.hear e es, r.view.replies e.2)
          else none
  | .capture input =>
      if r.pc = .pumpGo ∧ cut headOk r.buffer = .wait then
        some ({ r with toParty := r.capture (captureInput input) },
          [.input r.view.seat r.view.ahead (captureInput input)])
      else none
  | .hold =>
      match r.rounds with
      | none => none
      | some n =>
          if r.pc = .pumpHold ∧ cut headOk r.buffer = .wait ∧ n < 255 then
            some ({ r with pc := .top, rounds := some (n + 1) }, [])
          else none
  | .tick =>
      match r.inj with
      | none => none
      | some j =>
          if r.pc = .gate ∧ r.view.dropped = 0 ∧ r.view.ready = true then
            let ck := lsCksum (resting j)
            some (r.tick j, tickMsgs r.view ck ((r.view.ran ck).due true) (image (resting j)))
          else none

/-- A cue that is followed: what it asks of a member, and what the member makes of it. -/
inductive Role.Cued (r : Role) : Cue → Role → List Msg → Prop
  | sit (hpc : r.pc = .pumpSes) (hbuf : r.buffer = []) : Cued r .sit r.sit []
  | pump {n : Nat} (hpc : r.pc = .top) (hdrop : r.view.dropped = 0) (hscr : r.view.peerScr = 0)
      (hn : n ≤ 64) : Cued r (.pump n) (r.pump n) []
  | hear {e : Stamp × Msg} {es : List (Stamp × Msg)} (hpc : r.pc = .pumpGo ∨ r.pc = .pumpHold)
      (hin : r.inbox = e :: es) (hready : cut headOk r.buffer ≠ .wait) :
      Cued r .hear (r.hear e es) (r.view.replies e.2)
  | capture {input : Nat × Nat} (hpc : r.pc = .pumpGo) (hwait : cut headOk r.buffer = .wait) :
      Cued r (.capture input) { r with toParty := r.capture (captureInput input) }
        [.input r.view.seat r.view.ahead (captureInput input)]
  | hold {n : Nat} (hpc : r.pc = .pumpHold) (hwait : cut headOk r.buffer = .wait)
      (hrounds : r.rounds = some n) (hn : n < 255) :
      Cued r .hold { r with pc := .top, rounds := some (n + 1) } []
  | tick {j : Nat} (hpc : r.pc = .gate) (hopen : r.view.ready = true) (hinj : r.inj = some j) :
      Cued r .tick (r.tick j) (tickMsgs r.view (lsCksum (resting j))
        ((r.view.ran (lsCksum (resting j))).due true) (image (resting j)))

theorem Role.cued {q : Cue} (h : r.cue q = some (r', xs)) : r.Cued q r' xs := by
  cases q with
  | sit =>
      simp only [Role.cue, Option.ite_none_right_eq_some, Option.some.injEq, Prod.mk.injEq] at h
      obtain ⟨⟨hpc, hbuf⟩, rfl, rfl⟩ := h
      exact .sit hpc hbuf
  | pump n =>
      simp only [Role.cue, Option.ite_none_right_eq_some, Option.some.injEq, Prod.mk.injEq] at h
      obtain ⟨⟨hpc, hdrop, hscr, hn⟩, rfl, rfl⟩ := h
      exact .pump hpc hdrop hscr hn
  | hear =>
      cases hin : r.inbox with
      | nil =>
          simp only [Role.cue, hin] at h
          exact absurd h (by simp)
      | cons e es =>
          simp only [Role.cue, hin, Option.ite_none_right_eq_some, Option.some.injEq,
            Prod.mk.injEq] at h
          obtain ⟨⟨hpc, hready⟩, rfl, rfl⟩ := h
          exact .hear hpc hin hready
  | capture input =>
      simp only [Role.cue, Option.ite_none_right_eq_some, Option.some.injEq, Prod.mk.injEq] at h
      obtain ⟨⟨hpc, hwait⟩, rfl, rfl⟩ := h
      exact .capture hpc hwait
  | hold =>
      cases hrounds : r.rounds with
      | none =>
          simp only [Role.cue, hrounds] at h
          exact absurd h (by simp)
      | some n =>
          simp only [Role.cue, hrounds, Option.ite_none_right_eq_some, Option.some.injEq,
            Prod.mk.injEq] at h
          obtain ⟨⟨hpc, hwait, hn⟩, rfl, rfl⟩ := h
          exact .hold hpc hwait hrounds hn
  | tick =>
      cases hinj : r.inj with
      | none =>
          simp only [Role.cue, hinj] at h
          exact absurd h (by simp)
      | some j =>
          simp only [Role.cue, hinj, Option.ite_none_right_eq_some, Option.some.injEq,
            Prod.mk.injEq] at h
          obtain ⟨⟨hpc, -, hopen⟩, rfl, rfl⟩ := h
          exact .tick hpc hopen hinj

/-- The match goes as the script says. -/
def Scene.play (S : Scene) : List (Side × Cue) → Option Scene
  | [] => some S
  | (x, q) :: cues =>
      match (S x).cue q with
      | none => none
      | some (r, xs) => (S.after x r xs).play cues

/-- The first cue of a script that does not break off, and the rest of it. -/
theorem Scene.play_cued {q : Cue} {cues : List (Side × Cue)} {S' : Scene}
    (h : S.play ((x, q) :: cues) = some S') :
    ∃ r xs, (S x).Cued q r xs ∧ (S.after x r xs).play cues = some S' := by
  cases hcue : (S x).cue q with
  | none =>
      simp only [Scene.play, hcue] at h
      exact absurd h (by simp)
  | some step =>
      obtain ⟨r, xs⟩ := step
      simp only [Scene.play, hcue] at h
      exact ⟨r, xs, Role.cued hcue, h⟩

theorem Staged.seat_le (h : Staged c duo S) (x : Side) : (S x).view.seat ≤ 3 := by
  have hseat := x.seat_lt
  rw [(h.portrays.fixed x).seat]
  omega

theorem Staged.count_le (h : Staged c duo S) (x : Side) : (S x).view.count ≤ 4 := by
  rw [(h.portrays.fixed x).count]
  decide

/-- The top of a pass begins a pump. -/
theorem stepTop_pumps (v : Arrival) (hdrop : m.view.dropped = 0) (hscr : m.view.peerScr = 0) :
    ∃ k pc, stepTop v m = ⟨pumpRecv v k, pc⟩ ∧ Pumped m .top pc ∧ (k = m ∨ k = lsFreeze m) ∧
      pc = if m.view.hold = 0 then .pumpGo else .pumpHold := by
  have hcells : ¬ m.rd peerScr ≠ 0 ∧ ¬ m.rd netDropped ≠ 0 := ⟨not_not.mpr hscr, not_not.mpr hdrop⟩
  unfold stepTop
  rw [if_neg hcells.1, if_neg hcells.2]
  by_cases hhold : m.view.hold = 0
  · have hcell : ¬ m.rd resyncHold ≠ 0 := not_not.mpr hhold
    rw [if_neg hcell, if_pos hhold]
    exact ⟨m, .pumpGo, rfl, .go hdrop hhold, .inl rfl, rfl⟩
  · have hcell : m.rd resyncHold ≠ 0 := hhold
    rw [if_pos hcell, if_neg hhold]
    exact ⟨lsFreeze m, .pumpHold, rfl, .hold hdrop hhold, .inr rfl, rfl⟩

/-- A pump begins. -/
theorem Staged.pump (cart : Cart) {n : Nat} (h : Staged c duo S) (hpc : (S x).pc = .top)
    (hdrop : (S x).view.dropped = 0) (hscr : (S x).view.peerScr = 0) (hn : n ≤ 64) :
    ∃ v duo', Duo.Step cart c (.turn x v) duo duo' ∧
      Staged c duo' (S.after x ((S x).pump n) []) := by
  obtain ⟨k, hproc, -⟩ := h.stands x
  obtain ⟨hstands, hshown, hwire⟩ := h.cast hproc
  have htop := hshown.pc.symm.trans hpc
  obtain ⟨m, pc₀⟩ := k
  obtain rfl : pc₀ = .top := htop
  have hview : (S x).view = m.view := hshown.view
  have hlen : ((S x).rest.take n).length ≤ 64 := by
    rw [List.length_take]
    omega
  let v : Move := ⟨Arrival.of ((S x).rest.take n), idleCells⟩
  have hlive : m.view.dropped = 0 ∧ m.view.peerScr = 0 := by
    rw [← hview]
    exact ⟨hdrop, hscr⟩
  obtain ⟨k, pc, hstep, hpumped, hk, hpc'⟩ := stepTop_pumps v.arrival hlive.1 hlive.2
  have hsplit : duo.wire x = (S x).rest.take n ++ (S x).rest.drop n := by
    rw [List.take_append_drop, hwire]
  rw [hsplit] at hshown
  have hplays := hshown.recv (v := v) (h.count_le x) hpumped hk (Arrival.of_delivers hlen)
  have hqueue : buffered (pumpRecv v.arrival k) = (S x).buffer ++ (S x).rest.take n := by
    have hafter : buffered (pumpRecv v.arrival k) ++ (S x).rest.drop n = (frames (S x).inbox).flatten :=
      hplays.shown.queue
    have hbefore : buffered m ++ ((S x).rest.take n ++ (S x).rest.drop n) =
      (frames (S x).inbox).flatten := hshown.queue
    rw [← hafter, ← List.append_assoc] at hbefore
    rw [← hstands.buffer]
    exact (List.append_cancel_right hbefore).symm
  have hread : Reads v ⟨m, .top⟩ ⟨pumpRecv v.arrival k, pc⟩ ((S x).rest.take n) :=
    reads_pump hpumped.pumps hlen idleCells
  have hsim : k.sim = m.sim := by
    rcases hk with rfl | rfl
    · rfl
    · exact (lsFreeze_quiet m).sim_eq
  have hstep' : Proc.step cart v ⟨m, .top⟩ = ⟨pumpRecv v.arrival k, pc⟩ := hstep
  rw [← hstep'] at hplays hread
  rw [hpc', ← hview] at hplays
  obtain ⟨duo', hturn, -, hstaged⟩ := h.turns (r := (S x).pump n) hproc hplays hsplit hread (by
      rw [hstep']
      refine ⟨hqueue, hstands.dozes ((sim_pumpRecv _ _).trans hsim), fun i hi => ?_⟩
      have hcount : Counts i m := hstands.rounds i hi
      refine Counts.pumpRecv ?_ _
      rcases hk with rfl | rfl
      · exact hcount
      · exact hcount.lsFreeze)
  exact ⟨_, duo', hturn, hstaged⟩

/-- A message is handled. -/
theorem Staged.hear (cart : Cart) {e : Stamp × Msg} {es : List (Stamp × Msg)} (h : Staged c duo S)
    (hpc : (S x).pc = .pumpGo ∨ (S x).pc = .pumpHold) (hin : (S x).inbox = e :: es)
    (hready : cut headOk (S x).buffer ≠ .wait) : ∃ v duo', Duo.Step cart c (.turn x v) duo duo' ∧
      Staged c duo' (S.after x ((S x).hear e es) ((S x).view.replies e.2)) := by
  obtain ⟨k, hproc, -⟩ := h.stands x
  obtain ⟨hstands, hshown, -⟩ := h.cast hproc
  have hseat : k.pc = .pumpGo ∨ k.pc = .pumpHold := by
    rw [← hshown.pc]
    exact hpc
  have hpump : k.pc.Pumps := by
    rcases hseat with hgo | hhold
    · exact .inr (.inr (.inl hgo))
    · exact .inr (.inl hhold)
  rcases hshown.cut with ⟨hwait, -⟩ | ⟨e', es', rest, hin', hcut, hrest⟩
  · rw [hstands.buffer] at hwait
    exact absurd hwait hready
  obtain ⟨rfl, rfl⟩ : e = e' ∧ es = es' := List.cons.inj (hin.symm.trans hin')
  have hplays := hshown.took (h.count_le x) hpump hin hcut hrest
  have hheeds := hshown.heeds (h.count_le x) hin hcut
  have hload := ppLoad_loaded hcut
  have hstep : k.step cart still = ⟨sesOnframe (ppLoad k.m), k.pc⟩ := by
    obtain ⟨hparse, -⟩ := parse_msg hcut
    obtain ⟨m, pc₀⟩ := k
    have hparse' : ppParse m = some (sesOnframe (ppLoad m)) := hparse
    rcases hseat with hgo | hhold
    · obtain rfl : pc₀ = .pumpGo := hgo
      unfold Proc.step
      simp only [hparse']
    · obtain rfl : pc₀ = .pumpHold := hhold
      unfold Proc.step
      simp only [hparse']
  have hqueue : buffered (sesOnframe (ppLoad k.m)) = (S x).buffer.drop e.2.frame.length := by
    have hafter : buffered (sesOnframe (ppLoad k.m)) ++ duo.wire x = (frames es).flatten :=
      hplays.shown.queue
    have hframe : buffered k.m = e.2.frame ++ rest := (cut_eq_frame headOk_zero hcut).1
    rw [← hstands.buffer, hframe, List.drop_left]
    exact List.append_cancel_right (hafter.trans hrest.symm)
  have hsound : e.2.Sound := hshown.sound e (by rw [hin]; exact List.mem_cons_self)
  have hbuf := hload.inBuf
  rw [← hstep] at hplays
  obtain ⟨duo', hturn, -, hstaged⟩ := h.moves (r := (S x).hear e es) hproc hplays
    (fun hno => hno.1 hpump) (by
      rw [hstep]
      refine ⟨hqueue, fun j hj => ?_, fun n hn => ?_⟩
      · have hplain : (∀ q, e.2 ≠ .piece q) ∧ e.2 ≠ .closing ∧ (S x).inj = some j := by
          unfold Role.hear at hj
          cases hmsg : e.2 <;> simp_all
        exact hstands.dozes (hheeds.undisturbed hplain.1 hplain.2.1).sim j hplain.2.2
      · unfold Role.hear at hn
        cases hmsg : e.2 with
        | opening t =>
            rw [hmsg] at hn hbuf
            obtain rfl : 0 = n := Option.some.inj hn
            exact counts_opening hbuf
        | piece q =>
            rw [hmsg] at hn hbuf hsound
            exact counts_piece hbuf hsound ((hstands.rounds n hn).ppLoad hload)
        | closing =>
            rw [hmsg] at hn hbuf
            have hhold : (S x).view.hold ≠ 0 := by
              intro hzero
              simp [hzero] at hn
            have hzero : n = 0 := by
              simp [hhold] at hn
              exact hn.symm
            rw [hzero]
            refine counts_closing hbuf ?_
            rw [hload.view, ← hshown.view]
            exact hhold
        | input s t cells =>
            rw [hmsg] at hn
            exact absurd hn (by simp)
        | report s t ck =>
            rw [hmsg] at hn
            exact absurd hn (by simp)
        | request t =>
            rw [hmsg] at hn
            exact absurd hn (by simp))
  exact ⟨_, duo', hturn, hstaged⟩

/-- The pump of a pass or of a hold is over. -/
theorem step_drained (cart : Cart) {pc : Pc} (hpump : pc = .pumpGo ∨ pc = .pumpHold)
    (hwait : cut headOk (buffered m) = .wait) :
    Proc.step cart v ⟨m, pc⟩ = afterPump v.input m pc := by
  have hparse : ppParse m = none := by
    rw [ppParse_eq, hwait]
  unfold Proc.step
  rcases hpump with rfl | rfl
  · simp only [hparse]
  · simp only [hparse]

/-- An input is captured. -/
theorem Staged.capture (cart : Cart) (h : Staged c duo S) (hpc : (S x).pc = .pumpGo)
    (hwait : cut headOk (S x).buffer = .wait) (input : Nat × Nat) :
    ∃ v duo', Duo.Step cart c (.turn x v) duo duo' ∧
      Staged c duo' (S.after x { S x with toParty := (S x).capture (captureInput input) }
        [.input (S x).view.seat (S x).view.ahead (captureInput input)]) := by
  obtain ⟨k, hproc, -⟩ := h.stands x
  obtain ⟨hstands, hshown, -⟩ := h.cast hproc
  have hgo := hshown.pc.symm.trans hpc
  obtain ⟨m, pc₀⟩ := k
  obtain rfl : pc₀ = .pumpGo := hgo
  have hwait' : cut headOk (buffered m) = .wait := by
    rw [show buffered m = (S x).buffer from hstands.buffer]
    exact hwait
  have hroom : (buffered m).length < 100 := by
    rcases hshown.cut with ⟨-, hshort⟩ | ⟨e, es, rest, -, hframe, -⟩
    · exact hshort
    · exact absurd (hwait'.symm.trans hframe) (by simp)
  let v : Move := ⟨Arrival.of [], input⟩
  have hstep : Proc.step cart v ⟨m, .pumpGo⟩ = ⟨lsCapture input m, .gate⟩ :=
    step_drained cart (.inl rfl) hwait'
  have hplays := hshown.captured (h.seat_le x) rfl hroom input
  have hseat : m.rd netSeat ≤ 3 := by
    have hcell : m.rd netSeat = m.view.seat := rfl
    have hview : (S x).view = m.view := hshown.view
    rw [hcell, ← hview]
    exact h.seat_le x
  have hquiet : Writes Quiet m (lsCapture input m) := (lsCapture_captured input hseat).1
  rw [← hstep] at hplays
  obtain ⟨duo', hturn, -, hstaged⟩ := h.moves
    (r := { S x with toParty := (S x).capture (captureInput input) }) hproc hplays
    (fun hno => hno.1 (.inr (.inr (.inl rfl)))) (by
      rw [hstep]
      refine ⟨hquiet.quiet_apart.buffered_eq.trans hstands.buffer, hstands.dozes hquiet.sim_eq,
        fun n hn => ?_⟩
      have hcount : Counts n m := hstands.rounds n hn
      exact hcount.lsCapture input hseat)
  exact ⟨_, duo', hturn, hstaged⟩

/-- A round of a hold ends. -/
theorem Staged.hold (cart : Cart) {n : Nat} (h : Staged c duo S) (hpc : (S x).pc = .pumpHold)
    (hwait : cut headOk (S x).buffer = .wait) (hrounds : (S x).rounds = some n) (hn : n < 255) :
    ∃ v duo', Duo.Step cart c (.turn x v) duo duo' ∧
      Staged c duo' (S.after x { S x with pc := .top, rounds := some (n + 1) } []) := by
  obtain ⟨k, hproc, -⟩ := h.stands x
  obtain ⟨hstands, hshown, -⟩ := h.cast hproc
  have hhold := hshown.pc.symm.trans hpc
  obtain ⟨m, pc₀⟩ := k
  obtain rfl : pc₀ = .pumpHold := hhold
  have hwait' : cut headOk (buffered m) = .wait := by
    rw [show buffered m = (S x).buffer from hstands.buffer]
    exact hwait
  have hroom : (buffered m).length < 100 := by
    rcases hshown.cut with ⟨-, hshort⟩ | ⟨e, es, rest, -, hframe, -⟩
    · exact hshort
    · exact absurd (hwait'.symm.trans hframe) (by simp)
  have hstep : Proc.step cart still ⟨m, .pumpHold⟩ = ⟨lsHeld m, .top⟩ :=
    step_drained cart (.inr rfl) hwait'
  have hcount : Counts n m := hstands.rounds n hrounds
  obtain ⟨hcount', hview⟩ := hcount.lsHeld hn
  have hwaited := lsHeld_waited m
  have hqueue : buffered (lsHeld m) = buffered m := hwaited.cells.quiet_apart.buffered_eq
  have hplays : Plays (S x).toParty { (S x).toParty with pc := .top } [] ⟨m, .pumpHold⟩
      (Proc.step cart still ⟨m, .pumpHold⟩) (duo.wire x) := by
    rw [hstep]
    refine ⟨.idle (.held hpc), hshown.moves hview hwaited.hist hwaited.answers hqueue fun _ => ?_,
      .silent hwaited.hist, fun y hy => absurd hy List.not_mem_nil⟩
    rw [hqueue]
    exact hroom
  obtain ⟨duo', hturn, -, hstaged⟩ := h.moves
    (r := { S x with pc := .top, rounds := some (n + 1) }) hproc hplays
    (fun hno => hno.1 (.inr (.inl rfl))) (by
      rw [hstep]
      refine ⟨hqueue.trans hstands.buffer, hstands.dozes hwaited.cells.sim_eq, fun i hi => ?_⟩
      obtain rfl : n + 1 = i := Option.some.inj hi
      exact hcount')
  exact ⟨_, duo', hturn, hstaged⟩

/-- A tick of any cart. -/
theorem Staged.ran {quiet : Bool} (h : Staged c duo S) (hproc : duo.proc x = some k)
    (hpc : (S x).pc = .gate) (hopen : (S x).view.ready = true)
    (hrun : RunOf cart quiet k.m (lsRun cart k.m))
    (hr : r.toParty = (S x).run quiet (nextCksum cart k.m) (lsTicked cart k.m).sim)
    (hstands : r.Stands ⟨lsRun cart k.m, .top⟩) :
    ∃ duo', Duo.Step cart c (.turn x still) duo duo' ∧
      Staged c duo' (S.after x r (tickMsgs (S x).view (nextCksum cart k.m)
        (((S x).view.ran (nextCksum cart k.m)).due quiet) (image (lsTicked cart k.m)))) := by
  obtain ⟨-, hshown, -⟩ := h.cast hproc
  have hgate := hshown.pc.symm.trans hpc
  obtain ⟨m, pc₀⟩ := k
  obtain rfl : pc₀ = .gate := hgate
  have hview : (S x).view = m.view := hshown.view
  have hopen' : gateOpen m = true := by
    rw [gateOpen_view (by rw [← hview]; exact h.count_le x), ← hview]
    exact hopen
  have hstep : Proc.step cart still ⟨m, .gate⟩ = ⟨lsRun cart m, .top⟩ := by
    show stepGate cart still.arrival m = _
    unfold stepGate
    exact if_pos (.inr hopen')
  have hplays := hshown.ran hrun (h.seat_le x) (h.count_le x) rfl (.inr hopen')
  rw [← hr, ← hstep] at hplays
  obtain ⟨duo', hturn, -, hstaged⟩ := h.moves (r := r) hproc hplays
    (fun hno => by
      rw [hstep] at hno
      exact absurd (show Pc.top.Pumps from hno.2) (by decide)) (by rw [hstep]; exact hstands)
  exact ⟨duo', hturn, hstaged⟩

/-- Role and console after a tick at rest. -/
theorem Role.Stands.tick {j : Nat} (h : r.Stands k) (hview : r.view = k.m.view)
    (hinj : r.inj = some j) : (r.tick j).Stands ⟨lsRun idleCart k.m, .top⟩ := by
  obtain ⟨hlt, hdozes⟩ := h.inj j hinj
  have hrun := lsRun_rest hdozes
  have hck := (ticked_rest hdozes hlt).1
  have hsim := (lsTicked_rest hdozes).1
  have hdue : dueAfter idleCart true k.m = (r.view.ran (lsCksum (resting j))).due true := by
    unfold dueAfter
    rw [← hview, hck]
  have hqueue : buffered (lsRun idleCart k.m) = r.buffer := hrun.apart.buffered_eq.trans h.buffer
  have hstill := hrun.sim
  have hcount : ∀ n, r.rounds = some n → k.m.view.tick % 64 ≠ 0 →
      k.m.view.pend = 0 ∨ k.m.view.seat ≠ 0 ∨ k.m.view.hold ≠ 0 →
      Counts n (lsRun idleCart k.m) := fun n hn => (h.rounds n hn).lsRun
  generalize lsRun idleCart k.m = m' at hqueue hstill hcount
  refine ⟨hqueue, fun i hi => ?_, fun n hn => ?_⟩
  · have hinj' : (r.tick j).inj =
        if (r.view.ran (lsCksum (resting j))).due true then none else some j := rfl
    rw [hinj'] at hi
    split at hi
    · exact absurd hi (by simp)
    · next hno =>
        obtain rfl : j = i := Option.some.inj hi
        refine ⟨hlt, netNullTbl4, .inr rfl, ?_⟩
        rw [← hsim]
        refine sim_congr fun a ha => hstill ?_ a ha
        rw [hdue]
        exact Bool.not_eq_true _ ▸ hno
  · have hrounds : (r.tick j).rounds =
        if r.view.tick % 64 ≠ 0 ∧ (r.view.pend = 0 ∨ r.view.seat ≠ 0 ∨ r.view.hold ≠ 0) then
          r.rounds else none := rfl
    rw [hrounds] at hn
    split at hn
    · next hkeep =>
        rw [hview] at hkeep
        exact hcount n hn hkeep.1 hkeep.2
    · exact absurd hn (by simp)

/-- A tick at rest. -/
theorem Staged.tick {j : Nat} (h : Staged c duo S) (hpc : (S x).pc = .gate)
    (hopen : (S x).view.ready = true) (hinj : (S x).inj = some j) :
    ∃ v duo', Duo.Step idleCart c (.turn x v) duo duo' ∧
      Staged c duo' (S.after x ((S x).tick j) (tickMsgs (S x).view (lsCksum (resting j))
        (((S x).view.ran (lsCksum (resting j))).due true) (image (resting j)))) := by
  obtain ⟨k, hproc, -⟩ := h.stands x
  obtain ⟨hstands, hshown, -⟩ := h.cast hproc
  obtain ⟨hlt, hdozes⟩ := hstands.inj j hinj
  obtain ⟨hck, himg⟩ := ticked_rest hdozes hlt
  have hran : ((S x).tick j).toParty =
      (S x).run true (nextCksum idleCart k.m) (lsTicked idleCart k.m).sim := by
    rw [hck, (lsTicked_rest hdozes).1]
    rfl
  obtain ⟨duo', hturn, hstaged⟩ := h.ran hproc hpc hopen (lsRun_rest hdozes) hran
    (hstands.tick hshown.view hinj)
  rw [hck, himg] at hstaged
  exact ⟨_, duo', hturn, hstaged⟩

/-- A tick after a push: what the simulation makes of it is not known. -/
theorem Staged.again (cart : Cart) (h : Staged c duo S) (hpc : (S x).pc = .gate)
    (hopen : (S x).view.ready = true) (hidle : (S x).view.pend = 0)
    (htick : (S x).view.tick % 64 ≠ 0) : ∃ ck sim v duo', Duo.Step cart c (.turn x v) duo duo' ∧
      Staged c duo' (S.after x ⟨(S x).run true ck sim, (S x).buffer, none, none⟩ []) := by
  obtain ⟨k, hproc, -⟩ := h.stands x
  obtain ⟨hstands, hshown, -⟩ := h.cast hproc
  have hrun := lsRun_phase cart k.m
  generalize quietPhase _ = quiet at hrun
  have hran : ((S x).view.ran (nextCksum cart k.m)).pend = 0 := by
    unfold View.ran View.report View.advance
    split <;> exact hidle
  have hdue : ∀ quiet, ((S x).view.ran (nextCksum cart k.m)).due quiet = false := fun quiet =>
    not_due_of_idle (.inl hran) quiet
  have hsame : (S x).run true (nextCksum cart k.m) (lsTicked cart k.m).sim =
      (S x).run quiet (nextCksum cart k.m) (lsTicked cart k.m).sim := by
    unfold Party.run View.pending
    rw [hdue, hdue, if_pos (Or.inl hran)]
  have hsilent : tickMsgs (S x).view (nextCksum cart k.m)
      (((S x).view.ran (nextCksum cart k.m)).due quiet) (image (lsTicked cart k.m)) = [] := by
    unfold tickMsgs
    rw [hdue, if_neg htick, if_neg Bool.false_ne_true]
    rfl
  have hqueue : buffered (lsRun cart k.m) = (S x).buffer :=
    hrun.apart.buffered_eq.trans hstands.buffer
  obtain ⟨r, hr⟩ : ∃ r : Role,
      r = ⟨(S x).run true (nextCksum cart k.m) (lsTicked cart k.m).sim, (S x).buffer, none, none⟩ :=
    ⟨_, rfl⟩
  have hparty : r.toParty = (S x).run quiet (nextCksum cart k.m) (lsTicked cart k.m).sim := by
    rw [hr]
    exact hsame
  have hknown : r.Stands ⟨lsRun cart k.m, .top⟩ := by
    rw [hr]
    generalize lsRun cart k.m = m' at hqueue
    exact .of_queue hqueue
  obtain ⟨duo', hturn, hstaged⟩ := h.ran hproc hpc hopen hrun hparty hknown
  rw [hsilent, hr] at hstaged
  exact ⟨nextCksum cart k.m, (lsTicked cart k.m).sim, _, duo', hturn, hstaged⟩

/-- Both members run one more tick. -/
theorem Staged.both (cart : Cart) (h : Staged c duo S) (hgate : ∀ x, (S x).pc = .gate ∧
    (S x).view.ready = true ∧ (S x).view.pend = 0 ∧ (S x).view.tick % 64 ≠ 0) :
    ∃ es duo' S', Run (Duo.Step cart c) duo es duo' ∧ Staged c duo' S' ∧ ∀ x,
      (S' x).view.dropped = (S x).view.dropped ∧ ∃ q ∈ (S' x).hist.ran, q.stamp = (S x).hist.stamp := by
  obtain ⟨hpc, hopen, hidle, htick⟩ := hgate .host
  obtain ⟨hpc', hopen', hidle', htick'⟩ := hgate .guest
  obtain ⟨ck, sim, v, duo₁, hturn, h₁⟩ := h.again cart hpc hopen hidle htick
  obtain ⟨ck', sim', v', duo₂, hturn', h₂⟩ := h₁.again (x := .guest) cart hpc' hopen' hidle' htick'
  have hkeeps : ∀ x ck sim, (S x).view.pend = 0 →
      ((S x).run true ck sim).view.dropped = (S x).view.dropped := by
    intro x ck sim hidle
    have hran : ((S x).view.ran ck).pend = 0 ∧ ((S x).view.ran ck).dropped = (S x).view.dropped := by
      unfold View.ran View.report View.advance
      split
      · exact ⟨hidle, rfl⟩
      · exact ⟨hidle, rfl⟩
    unfold Party.run View.pending
    rw [if_pos (Or.inl hran.1)]
    exact hran.2
  have hmem : ∀ x ck sim, ∃ q ∈ ((S x).run true ck sim).hist.ran, q.stamp = (S x).hist.stamp :=
    fun x ck sim => ⟨_, List.mem_append_right _ (List.mem_singleton_self _), rfl⟩
  refine ⟨_, duo₂, _, .cons hturn (.one hturn'), h₂, fun x => ?_⟩
  cases x with
  | host => exact ⟨hkeeps .host ck sim hidle, hmem .host ck sim⟩
  | guest => exact ⟨hkeeps .guest ck' sim' hidle', hmem .guest ck' sim'⟩

/-! ## Scripts -/

/-- A console follows a cue. -/
theorem Staged.turn {q : Cue} (h : Staged c duo S) (hq : q ≠ .sit) (hcue : (S x).Cued q r xs) :
    ∃ v duo', Duo.Step idleCart c (.turn x v) duo duo' ∧ Staged c duo' (S.after x r xs) := by
  cases hcue with
  | sit => exact absurd rfl hq
  | pump hpc hdrop hscr hn => exact h.pump idleCart hpc hdrop hscr hn
  | hear hpc hin hready => exact h.hear idleCart hpc hin hready
  | capture hpc hwait => exact h.capture idleCart hpc hwait _
  | hold hpc hwait hrounds hn => exact h.hold idleCart hpc hwait hrounds hn
  | tick hpc hopen hinj => exact h.tick hpc hopen hinj

theorem Staged.cue {q : Cue} (h : Staged c duo S) (hcue : (S x).Cued q r xs) :
    ∃ es duo', Run (Duo.Step idleCart c) duo es duo' ∧ Staged c duo' (S.after x r xs) := by
  by_cases hq : q = .sit
  · subst hq
    cases hcue with
    | sit hpc hbuf => exact h.sit idleCart hpc hbuf
  · obtain ⟨v, duo', hturn, hstaged⟩ := h.turn hq hcue
    exact ⟨_, duo', .one hturn, hstaged⟩

/-- A script of one cue is one turn. -/
theorem Staged.play_one {q : Cue} {S' : Scene} (h : Staged c duo S) (hq : q ≠ .sit)
    (hplay : S.play [(x, q)] = some S') :
    ∃ v duo', Duo.Step idleCart c (.turn x v) duo duo' ∧ Staged c duo' S' := by
  obtain ⟨r, xs, hcue, hplay'⟩ := Scene.play_cued hplay
  rw [← Option.some.inj hplay']
  exact h.turn hq hcue

/-- The consoles follow a script. -/
theorem Staged.play {cues : List (Side × Cue)} {S' : Scene} (h : Staged c duo S)
    (hplay : S.play cues = some S') :
    ∃ es duo', Run (Duo.Step idleCart c) duo es duo' ∧ Staged c duo' S' := by
  induction cues generalizing S duo with
  | nil =>
      obtain rfl : S = S' := Option.some.inj hplay
      exact ⟨[], duo, .nil duo, h⟩
  | cons cue cues ih =>
      obtain ⟨x, q⟩ := cue
      obtain ⟨r, xs, hcue, hplay'⟩ := Scene.play_cued hplay
      obtain ⟨es, duo₁, hrun, hstaged⟩ := h.cue hcue
      obtain ⟨fs, duo', hrun', hstaged'⟩ := ih hstaged hplay'
      exact ⟨_, duo', hrun.append hrun', hstaged'⟩

/-! ## START -/

/-- START leaves a simulation alone that has its seed. -/
theorem sim_ofStart {σ : Nat → Nat} (h : m.sim = σ) (hlo : m.rd (frmBuf + 4) = 0)
    (hhi : m.rd (frmBuf + 5) = 0) (hrng : σ rngLo = 0 ∧ σ rngHi = 0) : (ofStart m).sim = σ := by
  have hscratch : ∀ {k : Machine} {a : Nat} (v : Nat), k.sim = σ → simCell a = false →
      (k.wr a v).sim = σ := fun v hk ha => sim_wr_scratch hk ha
  have hcells : ∀ {k k' : Machine} {T : Nat → Nat → Prop}, k.sim = σ → Writes T k k' →
      (∀ a v, simCell a = true → ¬ T a v) → k'.sim = σ := fun hk hw hT =>
    (sim_congr fun a ha => hw.frame fun v => hT a v ha).trans hk
  have hout : ∀ a lo, 0x81A0 ≤ lo → simCell a = true → ¬ lo ≤ a := by
    intro a lo hlo hsim
    have hrange := simCell_range hsim
    omega
  unfold ofStart
  split
  · exact h
  extract_lets m₁ m₂ m₃ m₄ m₅ m₆ m₇ m₈ m₉
  have h₂ : m₂.sim = σ := hscratch _ (hscratch _ h (by decide)) (by decide)
  have hlo₂ : m₂.rd (frmBuf + 4) = 0 := by
    rw [rd_wr, if_neg (by decide), rd_wr, if_neg (by decide), hlo]
  have h₃ : m₃.sim = σ := by
    refine sim_wr_keeps h₂ fun _ => ?_
    rw [hlo₂, hrng.1]
    rfl
  have hhi₃ : m₃.rd (frmBuf + 5) = 0 := by
    rw [rd_wr, if_neg (by decide), rd_wr, if_neg (by decide), rd_wr, if_neg (by decide), hhi]
  have h₄ : m₄.sim = σ := by
    refine sim_wr_keeps h₃ fun _ => ?_
    rw [hhi₃, hrng.2]
    rfl
  have h₅ : m₅.sim = σ := hscratch _ h₄ (by decide)
  have h₆ : m₆.sim = σ := hcells h₅ (sesCproster_names _ _) fun a _ ha hname =>
    hout a _ (by decide) ha hname.1
  have hrings : (lsRingInit m₆).sim = σ := hcells h₆ (lsRingInit_cells _) fun a _ ha hring =>
    hout a _ (by decide) ha hring.1
  have h₇ : m₇.sim = σ := hcells hrings (rsClrCrc_base _) fun _ v ha => not_baseCell_of_sim ha v
  have h₈ : m₈.sim = σ := hcells h₇ (putWm_cells _ _ _ _ _) fun a _ ha hwm =>
    hout a _ (by decide) ha hwm.1
  exact hscratch _ (hscratch _ (hscratch _ h₈ (by decide)) (by decide)) (by decide)

/-- After `NET_START` the simulation of a blank console rests. -/
theorem sim_netStart : (netStart blank).sim = restSim 0 0 := by
  refine sim_rests fun b hb => ?_
  have hrest : restSim 0 0 b = (seedCounts blank).rd b := by
    have hzero : (seedCounts blank).rd ssInj = 0 ∧ (seedCounts blank).rd execHtbl = 0 := by decide
    unfold restSim
    split
    · next h => rw [h, hzero.1]
    · split
      · next h => rw [h, hzero.2]
      · exact if_pos hb
  have hclear : ∀ a, (netClear blank).rd a = 0 := by
    intro a
    unfold netClear
    rw [rd_fill]
    split
    · rfl
    · rfl
  have hcount : b ≠ netCount := by
    rintro rfl
    exact absurd hb (by decide)
  rw [hrest]
  unfold netStart seedCounts
  rw [rd_wr, if_neg hcount]
  simp only [rd_wr, hclear]
  rfl

/-- A console that comes to its match from `NET_START`, with `j` in `SS_INJ`. -/
theorem enters_match (c : Start) (hseed : c.seed = 0) (x : Side) {j : Nat} (hj : j < 256) :
    ∃ m, Enters (c.frame x) m ∧ Willing m ∧ buffered m = [] ∧ m.sim = restSim j 0 := by
  have hf := c.frame_framed x
  have hlen : (c.frame x).length = 39 := by simp [Start.frame, c.names_length]
  -- the lobby phase writes `SS_INJ`, and a pump brings START
  let k := (netStart blank).wr ssInj j
  have hview : k.view = (netStart blank).view := view_wr (by simp [ViewCell])
  have hother : LobbyEvent.Step .other (netStart blank) k := by
    refine ⟨hview, fun h => ?_⟩
    rw [rd_wr, if_neg (by decide)]
    exact h
  have hempty : buffered k = [] := by
    rw [← netStart_empty blank]
    refine buffered_congr fun a ha => (rd_wr _ _ _ _).trans (if_neg ?_)
    simp only [RxCell, rxWr, rxRd, ssInj] at ha ⊢
    omega
  have hsim : k.sim = restSim j 0 := by
    refine sim_rests fun b hb => ?_
    rw [rd_wr]
    unfold restSim
    split
    · exact Nat.mod_eq_of_lt hj
    · next hne =>
        rw [rd_of_sim sim_netStart hb, restSim, if_neg hne]
  have hans : k.answers = [] :=
    (answers_wr _ _ _).trans (netStart_keeps blank).2
  have hrun : Run LobbyEvent.Step (netStart blank) [.other, .other]
      (pumpRecv (Arrival.of (c.frame x)) k) :=
    .cons hother (.one (pump_other _ _))
  have hstart := handles_short hf (by rw [hlen]; decide) hempty
  have hload := ppLoad_loaded (reads_short hf (by rw [hlen]; decide) hempty)
  have hmail : (pumpRecv (Arrival.of (c.frame x)) k).sim = restSim j 0 ∧
      (pumpRecv (Arrival.of (c.frame x)) k).answers = [] := by
    refine ⟨(sim_pumpRecv _ k).trans hsim, ?_⟩
    rw [answers_pumpRecv, hans]
  generalize pumpRecv (Arrival.of (c.frame x)) k = m₀ at *
  have hty : (ppLoad m₀).rd (frmBuf + 1) = ftStart := hload.inBuf.cell 1 (by rw [hlen]; decide)
  have hseeds : (logHandled (ppLoad m₀)).rd (frmBuf + 4) = 0 ∧
      (logHandled (ppLoad m₀)).rd (frmBuf + 5) = 0 := by
    have h₄ : (ppLoad m₀).rd (frmBuf + 4) = c.seed % 256 := hload.inBuf.cell 4 (by rw [hlen]; decide)
    have h₅ : (ppLoad m₀).rd (frmBuf + 5) = c.seed / 256 := hload.inBuf.cell 5 (by rw [hlen]; decide)
    rw [rd_logHandled, rd_logHandled, h₄, h₅, hseed]
    decide
  have hloaded : (logHandled (ppLoad m₀)).sim = restSim j 0 := by
    refine Eq.trans (sim_congr fun a ha => ?_) hmail.1
    have hrange := simCell_range ha
    refine hload.frame a ?_ (by omega)
    simp only [rxRd]
    omega
  refine ⟨(sesOnframe (ppLoad m₀)).note fun _ => {},
    ⟨blank, m₀, _, _, hrun, ?_, hstart, rfl⟩, fun a ha => ?_, ?_, ?_⟩
  · rintro ⟨f, hmem, -⟩
    simp at hmem
  · rw [answers_note, sesOnframe_start hty, answers_ofStart] at ha
    have hnone : (logHandled (ppLoad m₀)).answers = [] := by
      show (ppLoad m₀).answers = []
      rw [hload.answers]
      exact hmail.2
    rw [hnone] at ha
    exact absurd ha List.not_mem_nil
  · refine (buffered_congr fun a _ => rd_note _ _ a).trans ?_
    rw [sesOnframe_start hty, buffered_writes (ofStart_writes _) fun a v hv => ?_]
    · rw [buffered_logHandled, hload.queue]
    · simp only [HandlerCell, RxCell, rxWr, rxRd] at *
      omega
  · refine Eq.trans (sim_congr fun a _ => rd_note _ _ a) ?_
    rw [sesOnframe_start hty]
    exact sim_ofStart hloaded hseeds.1 hseeds.2 ⟨rfl, rfl⟩

/-- Both members at START. -/
def Scene.opening (c : Start) (j : Side → Nat) : Scene := fun x => ⟨Pair.init c x, [], some (j x), none⟩

theorem Staged.opening (cart : Cart) (c : Start) (hseed : c.seed = 0) {j : Side → Nat}
    (hj : ∀ x, j x < 256) : ∃ es duo, Run (Duo.Step cart c) Duo.init es duo ∧
      Staged c duo (Scene.opening c j) := by
  obtain ⟨m, henter, hwill, hqueue, hsim⟩ := enters_match c hseed .host (hj .host)
  obtain ⟨n, henter', hwill', hqueue', hsim'⟩ := enters_match c hseed .guest (hj .guest)
  let duo₁ : Duo := ⟨fun x => if x = .host then some ⟨m, .pumpSes⟩ else none, fun _ => []⟩
  let duo₂ : Duo := ⟨fun x => if x = .host then some ⟨m, .pumpSes⟩ else some ⟨n, .pumpSes⟩,
    fun _ => []⟩
  have hstep₁ : Duo.Step cart c (.start .host m) Duo.init duo₁ :=
    .start rfl henter hwill (by rw [hqueue]; rfl) rfl rfl rfl
  have hstep₂ : Duo.Step cart c (.start .guest n) duo₁ duo₂ :=
    .start rfl henter' hwill' (by rw [hqueue']; rfl) rfl rfl rfl
  have hportrays := ((Portrays.init c).start hstep₁).start hstep₂
  refine ⟨_, duo₂, .cons hstep₁ (.one hstep₂), hportrays, fun x => ?_⟩
  cases x with
  | host =>
      exact ⟨⟨m, .pumpSes⟩, rfl, hqueue, fun i hi => ⟨Option.some.inj hi ▸ hj .host, 0, .inl rfl,
        hsim.trans (by rw [← Option.some.inj hi])⟩, fun _ hn => absurd hn (by simp [Scene.opening])⟩
  | guest =>
      exact ⟨⟨n, .pumpSes⟩, rfl, hqueue', fun i hi => ⟨Option.some.inj hi ▸ hj .guest, 0, .inl rfl,
        hsim'.trans (by rw [← Option.some.inj hi])⟩,
        fun _ hn => absurd hn (by simp [Scene.opening])⟩

/-- A match that follows a script from START. -/
theorem Staged.follow (c : Start) (hseed : c.seed = 0) {j : Side → Nat} (hj : ∀ x, j x < 256)
    (cues : List (Side × Cue)) {P : Scene → Prop} [DecidablePred P]
    (h : ((Scene.opening c j).play cues).any (fun S => decide (P S)) = true) :
    ∃ es duo S, Run (Duo.Step idleCart c) Duo.init es duo ∧ Staged c duo S ∧
      (Scene.opening c j).play cues = some S ∧ P S := by
  obtain ⟨S, hplay, hP⟩ := (Option.any_eq_true _ _).mp h
  obtain ⟨es, duo, hrun, hstaged⟩ := Staged.opening idleCart c hseed hj
  obtain ⟨fs, duo', hrun', hstaged'⟩ := hstaged.play hplay
  exact ⟨_, duo', S, hrun.append hrun', hstaged', hplay, of_decide_eq_true hP⟩

/-- The console of a member, and what the member tells of it. -/
theorem Staged.console (h : Staged c duo S) (x : Side) : ∃ k, duo.proc x = some k ∧
    k.m.view = (S x).view ∧ { k.m.hist with sent := [] } = (S x).hist ∧
    sentFrames k.m = mailFrames (S x.peer).toParty ∧
    buffered k.m ++ duo.wire x = (frames (S x).inbox).flatten := by
  obtain ⟨k, hproc, -⟩ := h.stands x
  obtain ⟨hshown, hmail⟩ := h.portrays.shown x k hproc
  exact ⟨k, hproc, hshown.view.symm, hshown.hist.symm, hmail, hshown.queue⟩

/-! ## The simulation in a script -/

/-- Every tick so far was at rest on `j`. -/
structure Role.Rested (j : Nat) (r : Role) : Prop where
  inj : ∀ i, r.inj = some i → i = j
  ran : ∀ q ∈ r.hist.ran, q.sim = restSim j netNullTbl4

theorem Role.Rested.congr {j : Nat} (h : r.Rested j) (hinj : r'.inj = r.inj)
    (hran : r'.hist.ran = r.hist.ran) : r'.Rested j :=
  ⟨fun i hi => h.inj i (hinj ▸ hi), fun q hq => h.ran q (hran ▸ hq)⟩

theorem Role.Rested.cue {j : Nat} {q : Cue} (h : r.Rested j) (hcue : r.Cued q r' xs) :
    r'.Rested j := by
  cases hcue with
  | sit => exact h.congr rfl rfl
  | pump => exact h.congr rfl rfl
  | @hear e es _ _ _ =>
      refine ⟨fun i hi => ?_, h.ran⟩
      unfold Role.hear at hi
      cases hmsg : e.2 <;> simp only [hmsg] at hi
      case piece => exact absurd hi (by simp)
      case closing => exact absurd hi (by simp)
      all_goals exact h.inj i hi
  | capture => exact h.congr rfl rfl
  | hold => exact h.congr rfl rfl
  | @tick i _ _ hinj =>
      obtain rfl : i = j := h.inj i hinj
      refine ⟨fun n hn => ?_, fun q hq => ?_⟩
      · unfold Role.tick at hn
        dsimp only at hn
        split at hn
        · exact absurd hn (by simp)
        · exact (Option.some.inj hn).symm
      · rcases List.mem_append.mp (show q ∈ r.hist.ran ++ [_] from hq) with hq | hq
        · exact h.ran q hq
        · rw [List.mem_singleton.mp hq]

/-- In a script no tick leaves another simulation than the one a member rests on. -/
theorem Scene.play_rested {j : Side → Nat} {cues : List (Side × Cue)} {S' : Scene}
    (h : ∀ x, (S x).Rested (j x)) (hplay : S.play cues = some S') : ∀ x, (S' x).Rested (j x) := by
  induction cues generalizing S with
  | nil =>
      obtain rfl : S = S' := Option.some.inj hplay
      exact h
  | cons cue cues ih =>
      obtain ⟨x, q⟩ := cue
      obtain ⟨r, xs, hcue, hplay'⟩ := Scene.play_cued hplay
      refine ih (fun y => ?_) hplay'
      rcases Side.eq_or_peer x y with rfl | rfl
      · rw [Scene.after_self]
        exact (h y).cue hcue
      · rw [Scene.after_peer]
        exact (h x.peer).congr rfl rfl

theorem Scene.opening_rested (c : Start) (j : Side → Nat) (x : Side) :
    (Scene.opening c j x).Rested (j x) :=
  ⟨fun _ hi => (Option.some.inj hi).symm, fun _ hq => absurd hq List.not_mem_nil⟩

/-! ## Three matches -/

/-- A match of two with delay 1. -/
def startOne : Start :=
  ⟨0, 1, List.replicate 32 0, by decide, by decide, rfl, by
    intro b hb
    rw [List.eq_of_mem_replicate hb]
    decide⟩

theorem seat_byte (x : Side) : x.seat < 256 := Nat.lt_trans x.seat_lt (by decide)

/-- A pass of member `x`: `n` bytes with `k` messages, an input, and the tick. -/
def passCues (x : Side) (n k : Nat) (input : Nat × Nat) : List (Side × Cue) :=
  (x, .pump n) :: (List.replicate k (x, .hear) ++ [(x, .capture input), (x, .tick)])

/-- A round of a hold. -/
def heldCues (x : Side) (k : Nat) : List (Side × Cue) :=
  (x, .pump 64) :: (List.replicate k (x, .hear) ++ [(x, .hold)])

/-- Both come to tick 0 and run it. -/
def firstCues : List (Side × Cue) :=
  [(.host, .sit), (.guest, .sit)] ++ passCues .host 0 0 (0x41, 1) ++ passCues .guest 0 0 (0x44, 2)

/-- Both run ticks 0 and 1, and all they sent is handled. -/
def calmCues : List (Side × Cue) :=
  firstCues ++ passCues .host 14 2 (0x42, 3) ++ passCues .guest 21 3 (0x48, 4) ++
    [(.host, .pump 7), (.host, .hear)]

/-- Both run tick 0 and handle the other's checksum of it. -/
def apartCues : List (Side × Cue) :=
  firstCues ++ [(.guest, .pump 14), (.guest, .hear), (.guest, .hear), (.host, .pump 14),
    (.host, .hear), (.host, .hear)]

/-- From there to the tick after which the host pushes. -/
def wantedCues : List (Side × Cue) := apartCues ++ [(.host, .capture (0x42, 3))]

/-- After the push the guest runs ticks 1 and 2 and takes the push in, all but its END. -/
def takenCues : List (Side × Cue) :=
  [(.guest, .capture (0x48, 4)), (.guest, .tick)] ++ passCues .guest 13 2 (0x50, 5) ++
    [0, 1, 0, 1, 1, 0, 1, 1, 0, 1, 1, 0].flatMap (heldCues .guest) ++
    [(.guest, .pump 64), (.guest, .hear), (.guest, .hear)]

/-- END ends the hold, and both come to the gate of the next tick. -/
def mendedCues : List (Side × Cue) :=
  [(.guest, .hear), (.guest, .hold), (.guest, .pump 0), (.guest, .capture (0x60, 6)),
    (.host, .pump 0), (.host, .capture (0x61, 7))]

end SharkNetplay.Console
