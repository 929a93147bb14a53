import SharkNetplay.Console.Course

/-!
# The host's messages on their way

Each turn of the pair keeps `Downstream`: a turn of the host extends the run to its new
place, a turn of the guest takes the first step of it.
-/

namespace SharkNetplay.Console

open Lib

variable {n n' : Nat → Nat} {d front got : Nat} {h h' g g' : Party}

/-! ## What a view keeps -/

/-- Handling a message of the guest moves neither tick nor baseline. -/
theorem Tells.still {e : Stamp × Msg} (ht : Tells n d e) (v : View) :
    (v.onMsg e.2).tick = v.tick ∧ (v.onMsg e.2).hold = v.hold ∧ v.adopts e.2 = false := by
  cases ht with
  | input st c =>
      refine ⟨?_, ?_, rfl⟩
      · show (v.onInput _ _ _).tick = v.tick
        unfold View.onInput
        split <;> rfl
      · show (v.onInput _ _ _).hold = v.hold
        unfold View.onInput
        split <;> rfl
  | report st ck hb =>
      refine ⟨?_, ?_, rfl⟩
      · show (v.onCrc _ _).tick = v.tick
        unfold View.onCrc
        split <;> rfl
      · show (v.onCrc _ _).hold = v.hold
        unfold View.onCrc
        split <;> rfl
  | request st t =>
      refine ⟨?_, ?_, rfl⟩
      · show v.onReq.tick = v.tick
        unfold View.onReq
        split <;> rfl
      · show v.onReq.hold = v.hold
        unfold View.onReq
        split <;> rfl

/-- A handler that adopts nothing leaves the stamp. -/
theorem hear_stamp {v : View} {x : Msg} (hx : v.adopts x = false) (r : Record) :
    (r.hear v x).stamp = r.stamp := by
  unfold Record.hear
  simp [hx]

/-- `RS_PENDING` away from a push counts the pass at most. -/
theorem View.pending_still {quiet : Bool} {v : View} (hdue : v.due quiet = false) :
    ∃ p, v.pending quiet = { v with ptmo := p } := by
  rcases View.pending_cases quiet v with ⟨-, -, h⟩ | ⟨hpush, -⟩ | ⟨-, -, -, -, -, h⟩
  · exact ⟨_, h⟩
  · exact absurd hpush (by simp [hdue])
  · exact ⟨_, h⟩

theorem View.pending_due {quiet : Bool} {v : View} (hdue : v.due quiet = true) :
    v.pending quiet = v.push := by
  rcases View.pending_cases quiet v with ⟨hno, -⟩ | ⟨-, -, -, -, h⟩ | ⟨hno, -⟩
  · exact absurd hno (by simp [hdue])
  · exact h
  · exact absurd hno (by simp [hdue])

namespace Downstream

/-! ## Turns of the host -/

/-- The baselines that have ended are what counts. -/
theorem extend (hd : Downstream n d got h g) (hn : ∀ i < h.epoch, n' i = n i) :
    Downstream n' d got h g := by
  obtain ⟨hflow, hwithin⟩ := hears_congr hd.flow hn (.inr ⟨rfl, rfl⟩)
  have hle : g.epoch ≤ h.epoch := by
    rcases hd.behind with ⟨heq, -⟩ | ⟨hlt, -⟩
    · exact Nat.le_of_eq heq
    · exact Nat.le_of_lt hlt
  have hguest : firstTick n' g.epoch = firstTick n g.epoch :=
    firstTick_congr fun i hi => hn i (Nat.lt_of_lt_of_le hi hle)
  exact {
    hostTick := by rw [firstTick_congr hn]; exact hd.hostTick
    guestTick := by rw [hguest]; exact hd.guestTick
    mark := by rw [hguest]; exact hd.mark
    pace := hd.pace
    free := hd.free
    flow := hflow
    resume := by
      intro hhold
      have hlt : g.epoch < h.epoch := by
        rcases hwithin with hlt | ⟨-, hheld⟩
        · exact hlt
        · exact absurd hheld (by simpa using hhold)
      rw [firstTick_congr fun i hi => hn i (by omega)]
      exact hd.resume hhold }

/-- A message of the guest is handled. -/
theorem hostTook (hd : Downstream n d got h g) {e : Stamp × Msg} (rest : List (Stamp × Msg))
    (ht : Tells n d e) : Downstream n d got { h with
      view := h.view.onMsg e.2
      hist := h.hist.hear h.view e.2
      heard := h.heard ++ [e]
      inbox := rest } g := by
  obtain ⟨htick, hhold, hadopt⟩ := ht.still h.view
  have hstamp := hear_stamp hadopt h.hist
  apply hd.congr
  · exact htick
  · exact hstamp
  · show (h.hist.hear h.view e.2).stamp.age + _ = h.hist.stamp.age + _
    rw [hstamp]
  · exact hhold
  all_goals rfl

/-- An INPUT is captured and sent. -/
theorem hostCaptured (hd : Downstream n d got h g) (hdelay : h.view.delay = d)
    (hseat : h.view.seat = 0) (hpc : h.pc = .pumpGo) (c : Nat × Nat) :
    Downstream n d got { h with
      pc := .gate
      view := h.view.put h.view.seat (h.view.ahead % 256) c
      hist := { h.hist with captured := h.hist.captured ++ [c] } }
      (g.gets h.hist.stamp [.input h.view.seat h.view.ahead c]) := by
  have hcap : h.captures = h.age := by
    unfold Party.captures
    rw [hpc, if_neg (by decide)]
    rfl
  have hahead : h.view.ahead = (firstTick n h.epoch + h.age + d) % 65536 := by
    unfold View.ahead
    rw [hd.hostTick, hdelay]
    omega
  have hsend : Run (Hears n d) ⟨h.epoch, h.captures, false⟩
      [(h.hist.stamp, .input h.view.seat h.view.ahead c)] ⟨h.epoch, h.age + 1, false⟩ := by
    rw [hcap, hahead, hseat]
    exact .one (.input h.epoch h.age c)
  exact {
    hostTick := hd.hostTick
    guestTick := hd.guestTick
    mark := hd.mark
    pace := hd.pace
    free := hd.free
    flow := hd.flow.append hsend
    resume := hd.resume }

/-- The report of a tick that is run. -/
theorem hostReport (hd : Downstream n d got h g) (hpc : h.pc = .gate) (hseat : h.view.seat = 0)
    (ck : Nat) : Run (Hears n d) ⟨g.epoch, got, decide (g.view.hold ≠ 0)⟩
      (g.inbox ++ (if h.view.tick % 64 = 0 then [Msg.report h.view.seat h.view.tick ck]
        else []).map fun x => (h.hist.stamp, x)) ⟨h.epoch, h.age + 1, false⟩ := by
  have hflow := hd.flow
  rw [Party.captures_gate hpc] at hflow
  split
  · next hb =>
      refine hflow.append (.one ?_)
      have htick := hd.hostTick
      rw [htick] at hb
      rw [hseat, htick]
      exact .report h.epoch h.age ck (by omega)
  · rw [List.map_nil, List.append_nil]
    exact hflow

/-- A tick is run, and no push is made. -/
theorem hostRan (hd : Downstream n d got h g) (hpc : h.pc = .gate) (hseat : h.view.seat = 0)
    {ck : Nat} (img : List Nat) {quiet : Bool} (sim : Nat → Nat)
    (hdue : (h.view.ran ck).due quiet = false) : Downstream n d got { h with
      pc := .top
      view := (h.view.ran ck).pending quiet
      hist := h.hist.ranTick h.view ck sim ((h.view.ran ck).due quiet) }
      (g.gets h.hist.stamp (tickMsgs h.view ck ((h.view.ran ck).due quiet) img)) := by
  obtain ⟨p, hpend⟩ := View.pending_still hdue
  have hflow := hd.hostReport hpc hseat ck
  have htick := hd.hostTick
  rw [hdue, hpend, View.ran_eq]
  exact {
    hostTick := by
      show (h.view.tick + 1) % 65536 = (firstTick n h.epoch + (h.age + 1)) % 65536
      omega
    guestTick := hd.guestTick
    mark := hd.mark
    pace := hd.pace
    free := hd.free
    flow := by
      have hmsgs : tickMsgs h.view ck false img = if h.view.tick % 64 = 0 then
          [Msg.report h.view.seat h.view.tick ck] else [] := List.append_nil _
      rw [hmsgs]
      exact hflow
    resume := hd.resume }

/-- A tick is run, and the push is made. -/
theorem hostPushed (hd : Downstream n d got h g) (hpc : h.pc = .gate) (hseat : h.view.seat = 0)
    {ck : Nat} (img : List Nat) {quiet : Bool} (sim : Nat → Nat)
    (hdue : (h.view.ran ck).due quiet = true) (hspan : n h.epoch = h.age + 1) :
    Downstream n d got { h with
      pc := .top
      view := (h.view.ran ck).pending quiet
      hist := h.hist.ranTick h.view ck sim ((h.view.ran ck).due quiet) }
      (g.gets h.hist.stamp (tickMsgs h.view ck ((h.view.ran ck).due quiet) img)) := by
  have hflow := hd.hostReport hpc hseat ck
  have hnext : firstTick n (h.epoch + 1) = firstTick n h.epoch + (h.age + 1) + 16 := by
    rw [← hspan]
    rfl
  have htick := hd.hostTick
  have hresume : ((h.view.tick + 1) % 65536 + 16) % 65536 =
      firstTick n (h.epoch + 1) % 65536 := by
    rw [hnext, htick]
    omega
  rw [View.pending_due hdue, hdue]
  exact {
    hostTick := by
      show (h.view.ran ck).push.tick = firstTick n (h.epoch + 1) % 65536
      rw [View.ran_eq]
      exact hresume
    guestTick := hd.guestTick
    mark := hd.mark
    pace := hd.pace
    free := rfl
    flow := by
      have hmsgs : tickMsgs h.view ck true img = (if h.view.tick % 64 = 0 then
          [Msg.report h.view.seat h.view.tick ck] else []) ++
            pushMsgs (firstTick n (h.epoch + 1) % 65536) img := by rw [← hresume]; rfl
      rw [hmsgs]
      unfold Party.gets
      dsimp only
      rw [List.map_append, ← List.append_assoc]
      exact hflow.append (hears_push hspan)
    resume := hd.resume }

/-! ## Turns of the guest -/

/-- An INPUT of the host is always the next one. -/
theorem next_input (hd : Downstream n d got h g) (hseat : g.view.seat = 1)
    (hcount : g.view.count = 2) (c : Nat × Nat) :
    g.view.onInput 0 ((firstTick n g.epoch + got + d) % 65536) c =
      (g.view.put 0 ((firstTick n g.epoch + got + d) % 65536 % 256) c).mark 0
        ((firstTick n g.epoch + got + d) % 65536) := by
  have hdelta : g.view.delta 0 ((firstTick n g.epoch + got + d) % 65536) = 1 := by
    unfold View.delta
    rw [hd.mark]
    omega
  have hfresh : g.view.fresh 0 ((firstTick n g.epoch + got + d) % 65536) = true := by
    unfold View.fresh
    rw [hdelta, hseat, hcount]
    decide
  unfold View.onInput
  rw [if_pos hfresh]

/-- A message of the host is handled. -/
theorem guestTook (hd : Downstream n d got h g) (hdelay : g.view.delay = d)
    (hseat : g.view.seat = 1) (hcount : g.view.count = 2) {e : Stamp × Msg}
    {rest : List (Stamp × Msg)} (hin : g.inbox = e :: rest) :
    ∃ got', Downstream n d got' h { g with
      view := g.view.onMsg e.2
      hist := g.hist.hear g.view e.2
      heard := g.heard ++ [e]
      inbox := rest } := by
  have hflow := hd.flow
  rw [hin] at hflow
  obtain ⟨q, hhears, hrest⟩ := hears_cons hflow
  generalize hplace : (⟨g.epoch, got, decide (g.view.hold ≠ 0)⟩ : Place) = p at hhears
  cases hhears with
  | input i k c =>
      obtain ⟨rfl, rfl, hheld⟩ := Place.mk.inj hplace
      have hmsg := hd.next_input hseat hcount c
      refine ⟨got + 1, ?_⟩
      show Downstream n d (got + 1) h { g with
        view := g.view.onInput 0 _ c, hist := g.hist.hear g.view (.input 0 _ c),
        heard := _, inbox := rest }
      rw [hmsg]
      have hpace := hd.pace
      exact {
        hostTick := hd.hostTick
        guestTick := hd.guestTick
        mark := by
          show (firstTick n g.epoch + got + d) % 65536 =
            (firstTick n g.epoch + d + (got + 1) + 65535) % 65536
          omega
        pace := Nat.le_succ_of_le hpace
        free := hd.free
        flow := by
          show Run (Hears n d) ⟨g.epoch, got + 1, decide (g.view.hold ≠ 0)⟩ rest _
          rw [hheld]
          exact hrest
        resume := hd.resume }
  | report i k ck hb =>
      refine ⟨got, ?_⟩
      have hsame : Downstream n d got h { g with inbox := rest } :=
        { hd with flow := by rw [← hplace] at hrest; exact hrest }
      show Downstream n d got h { g with
        view := g.view.onCrc _ ck, hist := g.hist.hear g.view (.report 0 _ ck),
        heard := _, inbox := rest }
      unfold View.onCrc
      split <;> exact hsame.congr rfl rfl rfl rfl rfl rfl rfl rfl rfl rfl
  | opening i k hspan =>
      obtain ⟨rfl, rfl, hheld⟩ := Place.mk.inj hplace
      refine ⟨k + 1, ?_⟩
      exact {
        hostTick := hd.hostTick
        guestTick := hd.guestTick
        mark := hd.mark
        pace := hd.pace
        free := hd.free
        flow := hrest
        resume := fun _ => rfl }
  | piece i k q =>
      refine ⟨got, ?_⟩
      have hsame : Downstream n d got h { g with inbox := rest } :=
        { hd with flow := by rw [← hplace] at hrest; exact hrest }
      exact hsame.congr rfl rfl rfl rfl rfl rfl rfl rfl rfl rfl
  | closing i k hspan =>
      obtain ⟨rfl, rfl, hheld⟩ := Place.mk.inj hplace
      have hhold : g.view.hold ≠ 0 := by simpa using hheld
      have hresume := hd.resume hhold
      refine ⟨0, ?_⟩
      have hend : g.view.onMsg .closing = g.view.rebase := if_neg hhold
      have hstamp : (g.hist.hear g.view .closing).stamp = ⟨g.epoch + 1, 0⟩ := by
        have hadopt : g.view.adopts .closing = true := decide_eq_true hhold
        unfold Record.hear
        rw [hadopt]
        rfl
      have hepoch : (g.hist.hear g.view .closing).stamp.epoch = g.epoch + 1 := by rw [hstamp]
      have hage : (g.hist.hear g.view .closing).stamp.age = 0 := by rw [hstamp]
      rw [hend]
      exact {
        hostTick := hd.hostTick
        guestTick := by
          show g.view.resume = (firstTick n (g.hist.hear g.view .closing).stamp.epoch +
            (g.hist.hear g.view .closing).stamp.age) % 65536
          rw [hepoch, hage]
          exact hresume
        mark := by
          show (g.view.resume + g.view.delay + 65535) % 65536 =
            (firstTick n (g.hist.hear g.view .closing).stamp.epoch + d + 0 + 65535) % 65536
          rw [hepoch, hresume, hdelay]
          omega
        pace := by
          show (g.hist.hear g.view .closing).stamp.age ≤ d + 0
          rw [hage]
          exact Nat.zero_le _
        free := hd.free
        flow := by
          show Run (Hears n d) ⟨(g.hist.hear g.view .closing).stamp.epoch, 0, false⟩ rest _
          rw [hepoch]
          exact hrest
        resume := fun hno => absurd rfl hno }

/-- A tick is run with the host's INPUT in. -/
theorem guestRan (hd : Downstream n d got h g) (hseat : g.view.seat = 1)
    (hready : g.age + 1 ≤ d + got) (ck : Nat) (quiet : Bool) (sim : Nat → Nat) :
    Downstream n d got h { g with
      pc := .top
      view := (g.view.ran ck).pending quiet
      hist := g.hist.ranTick g.view ck sim ((g.view.ran ck).due quiet) } := by
  have hseat' : (g.view.ran ck).seat ≠ 0 := by
    rw [View.ran_eq]
    show g.view.seat ≠ 0
    rw [hseat]
    decide
  have hdue := View.not_due_guest hseat' quiet
  obtain ⟨p, hpend⟩ := View.pending_still hdue
  have htick := hd.guestTick
  rw [hdue, hpend, View.ran_eq]
  exact {
    hostTick := hd.hostTick
    guestTick := by
      show (g.view.tick + 1) % 65536 = (firstTick n g.epoch + (g.age + 1)) % 65536
      omega
    mark := hd.mark
    pace := hready
    free := hd.free
    flow := hd.flow
    resume := hd.resume }

end Downstream

end SharkNetplay.Console
