import SharkNetplay.Console.Repair

/-!
# A push reaches the guest whole

Between the first chunk of a push and its END the guest runs no tick, and right after the END it
has what the host had right after the push: image, tick, ring pages, watermarks and records.

## Implementation notes

A tick is before a chunk of its baseline when fewer ticks of that baseline had been run than when
the chunk was handled.
-/

namespace SharkNetplay.Console

open Lib Cell Machine

variable {cart : Cart} {c : Start} {x : Side} {n : Nat → Nat} {d got : Nat} {h p p' : Party}
  {s t : Pair} {duo duo' duo₁ duo₂ duo₃ duo₄ : Duo} {k : Proc} {m : Machine} {v w : Move}
  {xs : List Msg} {y : Stamp × Msg} {l l' rest : List (Stamp × Msg)} {e : Nat}

/-! ## No tick inside a push -/

/-- A data frame of a push was handled. -/
def Handled.Data (hd : Handled) : Prop := hd.frame.getD 1 0 = ftState ∧ hd.frame.getD 3 0 ≠ 0xFF

/-- Only a chunk is data. -/
theorem Msg.data {x : Msg} {st : Stamp} {took : Bool} (h : (⟨st, x.frame, took⟩ : Handled).Data) :
    ∃ q, x = .piece q := by
  obtain ⟨hty, hpos⟩ := h
  cases x with
  | piece q => exact ⟨q, rfl⟩
  | opening r => exact absurd rfl hpos
  | closing => exact absurd rfl hpos
  | _ => exact absurd hty (by simp [Msg.frame, inputFrame, crcFrame, reqFrame])

/-- The chunks a guest has handled against the ticks it has run. -/
structure Seamless (p : Party) : Prop where
  past : ∀ hd ∈ p.hist.handled, hd.stamp.epoch ≤ p.epoch
  late : ∀ hd ∈ p.hist.handled, hd.Data → ∀ r ∈ p.hist.ran, r.stamp.epoch = hd.stamp.epoch →
    r.stamp.age < hd.stamp.age
  here : ∀ hd ∈ p.hist.handled, hd.Data → hd.stamp.epoch = p.epoch → chunks p.heard p.epoch ≠ []

namespace Seamless

theorem congr (ha : Seamless p) (hhist : p'.hist.handled = p.hist.handled)
    (hran : p'.hist.ran = p.hist.ran) (hepoch : p'.epoch = p.epoch) (hheard : p'.heard = p.heard) :
    Seamless p' := by
  refine ⟨?_, ?_, ?_⟩
  · rw [hhist, hepoch]
    exact ha.past
  · rw [hhist, hran]
    exact ha.late
  · rw [hhist, hepoch, hheard]
    exact ha.here

/-- A message is handled. -/
theorem took (ha : Seamless p) (hd : Downstream n d got h p) (hr : Records n p)
    (hin : p.inbox = y :: rest) : Seamless { p with
      view := p.view.onMsg y.2
      hist := p.hist.hear p.view y.2
      heard := p.heard ++ [y]
      inbox := rest } := by
  have hflow := hd.flow
  rw [hin] at hflow
  obtain ⟨place, hhears, -⟩ := hears_cons hflow
  have hof : y.1.epoch = p.epoch := hhears.epoch.1
  have hage : (p.hist.hear p.view y.2).stamp.epoch = p.epoch ∨
      (p.hist.hear p.view y.2).stamp.epoch = p.epoch + 1 := by
    unfold Record.hear
    dsimp only
    split
    · exact .inr rfl
    · exact .inl rfl
  refine ⟨fun hd hmem => ?_, fun hd hmem hdata r hran heq => ?_, fun hd hmem hdata heq => ?_⟩
  · show hd.stamp.epoch ≤ (p.hist.hear p.view y.2).stamp.epoch
    rcases List.mem_append.mp hmem with hmem | hmem
    · have hle := ha.past hd hmem
      omega
    · rw [List.mem_singleton.mp hmem]
      show p.epoch ≤ _
      omega
  · rcases List.mem_append.mp hmem with hmem | hmem
    · exact ha.late hd hmem hdata r hran heq
    · obtain rfl := List.mem_singleton.mp hmem
      exact (hr.ran r hran).2.2 heq
  · have heq' : hd.stamp.epoch = (p.hist.hear p.view y.2).stamp.epoch := heq
    show chunks (p.heard ++ [y]) (p.hist.hear p.view y.2).stamp.epoch ≠ []
    have hle : hd.stamp.epoch ≤ p.epoch := by
      rcases List.mem_append.mp hmem with hmem | hmem
      · exact ha.past hd hmem
      · rw [List.mem_singleton.mp hmem]
        exact Nat.le_refl _
    have hstill : (p.hist.hear p.view y.2).stamp.epoch = p.epoch := by omega
    rw [hstill] at heq' ⊢
    rcases List.mem_append.mp hmem with hmem | hmem
    · intro hnone
      rw [chunks_append] at hnone
      exact ha.here hd hmem hdata heq' (List.append_eq_nil_iff.mp hnone).1
    · obtain rfl := List.mem_singleton.mp hmem
      obtain ⟨q, hq⟩ := Msg.data hdata
      obtain ⟨⟨i, a⟩, z⟩ := y
      obtain rfl : i = p.epoch := hof
      obtain rfl : z = .piece q := hq
      rw [chunks_piece]
      exact List.append_ne_nil_of_right_ne_nil _ (List.cons_ne_nil _ _)

/-- A tick is run, with no chunk of its baseline heard. -/
theorem ran (ha : Seamless p) (hquiet : chunks p.heard p.epoch = [])
    (hhandled : p'.hist.handled = p.hist.handled) {r : Ran} (hran : p'.hist.ran = p.hist.ran ++ [r])
    (hstamp : r.stamp.epoch = p.epoch) (hepoch : p'.epoch = p.epoch) (hheard : p'.heard = p.heard) :
    Seamless p' := by
  refine ⟨?_, fun hd hmem hdata r' hmem' heq => ?_, ?_⟩
  · rw [hhandled, hepoch]
    exact ha.past
  · rw [hhandled] at hmem
    rw [hran] at hmem'
    rcases List.mem_append.mp hmem' with hmem' | hmem'
    · exact ha.late hd hmem hdata r' hmem' heq
    · rw [List.mem_singleton.mp hmem', hstamp] at heq
      exact absurd hquiet (ha.here hd hmem hdata heq.symm)
  · rw [hhandled, hepoch, hheard]
    exact ha.here

/-- A turn of the guest. -/
theorem turn (ha : Seamless p) (hd : Downstream n d got h p) (hr : Records n p)
    (hseat : p.view.seat ≠ 0) (hturn : Turn p p' xs) (hsteady : p'.view.dropped = 0)
    (hquiet : p.pc = .gate → p.view.ready = true → chunks p.heard p.epoch = []) : Seamless p' := by
  have hbefore := hturn.given_up hsteady
  cases hturn with
  | idle hidle => exact ha.congr rfl rfl rfl rfl
  | left hpc hdrop => exact absurd hbefore hdrop
  | took hpump hin => exact ha.took hd hr hin
  | captured hi hgo => exact ha.congr rfl rfl rfl rfl
  | gaveUp hpc hh => exact absurd hsteady Nat.one_ne_zero
  | ran quiet sim hpc hopen hck himg hbytes =>
      rename_i ck img
      have hseat' : (p.view.ran ck).seat ≠ 0 := by
        rw [View.ran_eq]
        exact hseat
      have hno := View.not_due_guest hseat' quiet
      have hready := hopen.resolve_left (not_not.mpr hbefore)
      refine ha.ran (hquiet hpc hready) rfl rfl rfl ?_ rfl
      show (p.hist.ranTick p.view ck sim ((p.view.ran ck).due quiet)).stamp.epoch = p.epoch
      rw [hno]
      rfl

end Seamless

/-- No tick of the guest is between a chunk of a push and its END. -/
def Duo.Unbroken (duo : Duo) : Prop :=
  ∀ k, duo.proc .guest = some k → ∀ hd ∈ k.m.hist.handled, hd.Data → ∀ r ∈ k.m.hist.ran,
    r.stamp.epoch = hd.stamp.epoch → r.stamp.age < hd.stamp.age

theorem Seamless.step (ha : Seamless (s .guest)) (hf : Tracked cart c duo s) (hsteady : s.Steady)
    (hsteady' : t.Steady) (hstep : Pair.Step x s t) : Seamless (t .guest) := by
  obtain ⟨n, got, front, hc⟩ := hf.coursing.course hsteady
  have hk := hf.mended hsteady
  obtain ⟨xs, hturn, hpeer⟩ := hstep
  cases x with
  | host =>
      have hguest : t .guest = (s .guest).gets (s .host).hist.stamp xs := hpeer
      rw [hguest]
      exact ha.congr rfl rfl rfl rfl
  | guest =>
      have hseat : (s .guest).view.seat ≠ 0 := by
        rw [(hf.coursing.orderly.fixed .guest).seat]
        decide
      refine ha.turn hc.down hc.guestRecords hseat hturn (hsteady' .guest) fun hpc hready => ?_
      match hproc : duo.proc .guest with
      | none =>
          rw [(hf.portrays.fresh .guest hproc).1] at hpc
          exact absurd hpc Pc.noConfusion
      | some k => exact (hk.seam k hproc).none (.inr ⟨.inl hpc, hready⟩)

/-- No pass of the guest runs a tick after a chunk of a push was applied and before its END was
handled. -/
theorem never_inside (hone : 1 ≤ c.delay) (hlap : 2 * c.delay + 2 < 256) {es : List Event}
    (hrun : Run (Duo.Step cart c) Duo.init es duo) (hsteady : duo.Steady) : duo.Unbroken := by
  obtain ⟨s, hf, hkept⟩ := (Tracked.init hone (by omega)).run (by omega)
    (P := fun s => Seamless (s .guest))
    ⟨fun _ hmem => absurd hmem List.not_mem_nil, fun _ hmem => absurd hmem List.not_mem_nil,
      fun _ hmem => absurd hmem List.not_mem_nil⟩
    (fun _ _ _ _ hf hsteady hsteady' ha hturn => ha.step hf hsteady hsteady' hturn) hrun
  have hs := hf.portrays
  have ha := (hkept (hs.steady hsteady)).2
  intro k hk hd hmem hdata r hran heq
  have hhist := (hs.shown .guest k hk).1.hist
  refine ha.late hd ?_ hdata r ?_ heq
  · rw [hhist]
    exact hmem
  · rw [hhist]
    exact hran

/-- The guest ran ticks 0 to 2 and then took in a push, all but its END. -/
theorem never_inside_pushed : ∃ es duo k, Run (Duo.Step idleCart startOne) Duo.init es duo ∧
    duo.proc .guest = some k ∧ k.m.rd resyncHold = 1 ∧ (∃ hd ∈ k.m.hist.handled, hd.Data) ∧
    k.m.hist.ran.map Ran.tick = [0, 1, 2] ∧ duo.Unbroken := by
  obtain ⟨es, duo, S, hrun, hstaged, -, hhold, hdata, hran, hdrop, hdrop'⟩ :=
    Staged.follow startOne rfl seat_byte (wantedCues ++ [(.host, .tick)] ++ takenCues)
      (P := fun S => (S .guest).view.hold = 1 ∧
        (∃ hd ∈ (S .guest).hist.handled, hd.frame.getD 1 0 = ftState ∧ hd.frame.getD 3 0 ≠ 0xFF) ∧
        (S .guest).hist.ran.map Ran.tick = [0, 1, 2] ∧ (S .host).view.dropped = 0 ∧
        (S .guest).view.dropped = 0) (by decide +kernel)
  obtain ⟨k, hk, hview, hhist, -⟩ := hstaged.console .guest
  rw [← hhist] at hdata hran
  rw [← hview] at hhold
  exact ⟨es, duo, k, hrun, hk, hhold, hdata, hran,
    never_inside (by decide) (by decide) hrun (hstaged.steady hdrop hdrop')⟩

/-! ## What is handed over -/

/-- The part of a console that a push sets. -/
structure Baseline where
  image : List Nat
  tick : Nat
  ring : Nat → Nat → Nat
  kp : Nat → Nat → Nat
  wm : Nat → Nat
  own : Nat → Nat
  hold : Nat
  pend : Nat

/-- The baseline a console is at with image `img`. -/
def View.baseline (img : List Nat) (v : View) : Baseline :=
  ⟨img, v.tick, v.ring, v.kp, v.wm, v.own, v.hold, v.pend⟩

def Machine.baseline (m : Machine) : Baseline := m.view.baseline (image m)

/-- A baseline depends on image, resume tick and delay only. -/
theorem View.rebase_baseline {img img' : List Nat} {v v' : View} (himg : img' = img)
    (hresume : v'.resume = v.resume) (hdelay : v'.delay = v.delay) :
    v'.rebase.baseline img' = v.rebase.baseline img := by
  have hwm : v'.rebase.wm = v.rebase.wm := by
    funext s
    have hlead : (v'.resume + v'.delay + 65535) % 65536 = (v.resume + v.delay + 65535) % 65536 := by
      rw [hresume, hdelay]
    exact congrArg (fun t => if s < 4 then t else 0) hlead
  have hring : ∀ u : View, u.rebase.ring = fun s i => if s < 4 ∧ i < 256 then 0x40 else 0 := fun _ => rfl
  have hkp : ∀ u : View, u.rebase.kp = fun _ _ => 0 := fun _ => rfl
  have hown : ∀ u : View, u.rebase.own = fun i => if i < 32 then 0xFF else 0 := fun _ => rfl
  show (⟨img', v'.resume, v'.rebase.ring, v'.rebase.kp, v'.rebase.wm, v'.rebase.own, 0, 0⟩ : Baseline) =
    ⟨img, v.resume, v.rebase.ring, v.rebase.kp, v.rebase.wm, v.rebase.own, 0, 0⟩
  rw [himg, hresume, hwm, hring, hring, hkp, hkp, hown, hown]

/-- The messages sent since the host came to baseline `e`. -/
structure Since (e : Nat) (l : List (Stamp × Msg)) (s : Pair) : Prop where
  epoch : e ≤ (s .host).epoch
  mail : ∃ l', mail s = l ++ l' ∧ ∀ y ∈ l', e ≤ y.1.epoch

theorem Since.step (hs : Since e l s) (hcourse : Coursing c s) (hstep : Pair.Step x s t) :
    Since e l t := by
  obtain ⟨hepoch, l', hmail, hlate⟩ := hs
  obtain ⟨xs, hturn, hpeer⟩ := hstep
  cases x with
  | guest =>
      have hhost : t .host = (s .host).gets (s .guest).hist.stamp xs := hpeer
      have hsame : Console.mail t = Console.mail s := hturn.mail
      refine ⟨?_, l', hsame.trans hmail, hlate⟩
      rw [hhost]
      exact hepoch
  | host =>
      have hguest : t .guest = (s .guest).gets (s .host).hist.stamp xs := hpeer
      refine ⟨?_, l' ++ xs.map fun y => ((s .host).hist.stamp, y), ?_, fun y hy => ?_⟩
      · cases hturn.posts (hcourse.orderly.fixed .host).seat hcourse.orderly.plain with
        | plain hkeep hpushes hxs =>
            rw [hkeep]
            exact hepoch
        | push hstamp hview hresume hdelay hys himg hxs =>
            have hnext : (t .host).epoch = (s .host).epoch + 1 := congrArg Stamp.epoch hstamp
            omega
      · rw [mail_sent hguest, hmail, List.append_assoc]
      · rcases List.mem_append.mp hy with hy | hy
        · exact hlate y hy
        · obtain ⟨z, -, rfl⟩ := List.mem_map.mp hy
          exact hepoch

/-- What a baseline starts from is settled once the host is past it. -/
theorem Since.openings_eq (hs : Since (e + 1) l s) : openings (Console.mail s) e = openings l e := by
  obtain ⟨-, l', hmail, hlate⟩ := hs
  have hnone : under Msg.resumes l' e = [] := under_other fun y hy => by
    have hle := hlate y hy
    omega
  rw [hmail, openings, under_append, hnone, List.append_nil]
  rfl

theorem Since.image_eq (hs : Since e l s) : baseImage (Console.mail s) e = baseImage l e := by
  obtain ⟨-, l', hmail, hlate⟩ := hs
  rw [hmail]
  exact baseImage_append l hlate e (Nat.le_refl e)

/-- Only an END in the hold takes the guest to the next baseline. -/
theorem Turn.adopts (hturn : Turn p p' xs) (hseat : p.view.seat ≠ 0) (hsteady : p'.view.dropped = 0)
    (hnext : p'.epoch = p.epoch + 1) : p.view.hold ≠ 0 ∧ p'.view = p.view.rebase ∧ p'.age = 0 := by
  have hstill : p'.epoch ≠ p.epoch := by omega
  cases hturn with
  | took hpump hin =>
      rename_i y rest
      cases hx : y.2 with
      | closing =>
          rw [hx] at hnext
          have hhold : p.view.hold ≠ 0 := by
            intro hfree
            have hkeep : p.view.adopts .closing = false := decide_eq_false (not_not.mpr hfree)
            have hsame : (p.hist.hear p.view .closing).stamp.epoch = p.epoch + 1 := hnext
            rw [hear_stamp hkeep] at hsame
            exact absurd hsame (Nat.succ_ne_self _).symm
          have hadopt : p.view.adopts .closing = true := decide_eq_true hhold
          refine ⟨hhold, if_neg hhold, ?_⟩
          show (p.hist.hear p.view .closing).stamp.age = 0
          unfold Record.hear
          rw [hadopt]
          rfl
      | _ =>
          rw [hx] at hstill
          exact absurd rfl hstill
  | ran quiet sim hpc hopen hck himg hbytes =>
      rename_i ck img
      have hseat' : (p.view.ran ck).seat ≠ 0 := by
        rw [View.ran_eq]
        exact hseat
      have hsame : (p.hist.ranTick p.view ck sim ((p.view.ran ck).due quiet)).stamp.epoch = p.epoch := by
        rw [View.not_due_guest hseat' quiet]
        rfl
      exact absurd hsame hstill
  | _ => exact absurd rfl hstill

/-- Right after the END of a push the guest is at the baseline the host was at right after that
push. -/
def Duo.HandsOver (cart : Cart) (c : Start) (duo₁ : Duo) : Prop :=
  ∀ v duo₂ es duo₃ w duo₄, Duo.Step cart c (.turn .host v) duo₁ duo₂ →
    Run (Duo.Step cart c) duo₂ es duo₃ → Duo.Step cart c (.turn .guest w) duo₃ duo₄ →
    duo₄.Steady → ∀ k₁ k₂ l₃ l₄, duo₁.proc .host = some k₁ → duo₂.proc .host = some k₂ →
    duo₃.proc .guest = some l₃ → duo₄.proc .guest = some l₄ →
    k₂.m.hist.pushes = k₁.m.hist.pushes + 1 →
    l₄.m.hist.stamp.epoch = l₃.m.hist.stamp.epoch + 1 →
    l₄.m.hist.stamp.epoch = k₂.m.hist.stamp.epoch → l₄.m.baseline = k₂.m.baseline

/-- The host right after a push. -/
theorem Tracked.pushed (hf : Tracked cart c duo s) (hf' : Tracked cart c duo' t) (hsteady : t.Steady)
    (hstep : Pair.Step .host s t) {k l : Proc} (hk : duo.proc .host = some k)
    (hl : duo'.proc .host = some l) (hpushes : l.m.hist.pushes = k.m.hist.pushes + 1) :
    ∃ v : View, l.m.view = v.rebase ∧ v.delay = c.delay ∧ (t .host).epoch = (s .host).epoch + 1 ∧
      openings (mail t) (s .host).epoch = [v.resume] ∧
      image l.m = baseImage (mail t) (t .host).epoch := by
  have hbefore := Pair.Steady.before hstep hsteady
  have hposted := (hf.mended hbefore).based.posted
  have hmended := hf'.mended hsteady
  have hfixed := hf.portrays.fixed .host
  have hshown := (hf.portrays.shown .host k hk).1
  have hshown' := (hf'.portrays.shown .host l hl).1
  obtain ⟨xs, hturn, hpeer⟩ := hstep
  have hguest : t .guest = (s .guest).gets (s .host).hist.stamp xs := hpeer
  cases hturn.posts hfixed.seat hf.coursing.orderly.plain with
  | plain hepoch hsame hxs =>
      rw [hshown.hist, hshown'.hist] at hsame
      have hkeep : l.m.hist.pushes = k.m.hist.pushes := hsame
      omega
  | @push ys resume img v hstamp hview hresume hdelay hys himg hxs =>
      have hepoch : (t .host).epoch = (s .host).epoch + 1 := congrArg Stamp.epoch hstamp
      refine ⟨v, hshown'.view.symm.trans hview, hdelay.trans hfixed.delay, hepoch, ?_, ?_⟩
      · have hplain : under Msg.resumes (ys.map fun y => ((s .host).hist.stamp, y)) (s .host).epoch = [] :=
          under_plain _ (fun y hy => (hys y hy).resumes) _
        have hopen := openings_push (s .host).hist.stamp resume img
        have hnone : under Msg.resumes (mail s) (s .host).epoch = [] := hposted.unopened
        rw [mail_sent hguest, hxs, List.map_append, openings, under_append, under_append, hnone, hplain,
          hresume]
        exact hopen
      · have hstamp' : l.m.hist.stamp = ⟨(s .host).epoch + 1, 0⟩ := by
          rw [← hstamp, hshown'.hist]
        have hroot := (hmended.rooted .host l hl).fresh (hmended.based.host_quiet _)
        rw [hstamp'] at hroot
        rw [hepoch]
        exact hroot rfl (Nat.succ_ne_zero _)

/-- The guest right after an END. -/
theorem Tracked.adopted (hf : Tracked cart c duo s) (hf' : Tracked cart c duo' t) (hsteady : t.Steady)
    (hstep : Pair.Step .guest s t) {k l : Proc} (hk : duo.proc .guest = some k)
    (hl : duo'.proc .guest = some l)
    (hnext : l.m.hist.stamp.epoch = k.m.hist.stamp.epoch + 1) :
    ∃ v : View, l.m.view = v.rebase ∧ v.delay = c.delay ∧ (t .guest).epoch = (s .guest).epoch + 1 ∧
      v.resume ∈ (openings (mail t) (s .guest).epoch).head? ∧
      image l.m = baseImage (mail t) (t .guest).epoch := by
  have hbefore := Pair.Steady.before hstep hsteady
  have hhearing := (hf.mended hbefore).based.hearing
  have hmended := hf'.mended hsteady
  have hfixed := hf.portrays.fixed .guest
  have hshown := (hf.portrays.shown .guest k hk).1
  have hshown' := (hf'.portrays.shown .guest l hl).1
  obtain ⟨xs, hturn, -⟩ := hstep
  have hmail : mail t = mail s := hturn.mail
  have hepoch : (t .guest).epoch = (s .guest).epoch + 1 := by
    rw [Party.epoch, Party.epoch, hshown.hist, hshown'.hist]
    exact hnext
  have hseat : (s .guest).view.seat ≠ 0 := by
    rw [hfixed.seat]
    decide
  obtain ⟨hhold, hview, hage⟩ := hturn.adopts hseat (hsteady .guest) hepoch
  refine ⟨(s .guest).view, hshown'.view.symm.trans hview, hfixed.delay, hepoch, ?_, ?_⟩
  · have hopened : under Msg.resumes (s .guest).heard (s .guest).epoch = [(s .guest).view.resume] :=
      hhearing.opened hhold
    rw [hmail, mail, openings, under_append, hopened]
    rfl
  · have hfree : (t .guest).view.hold = 0 := by
      rw [hview]
      rfl
    have hnone := hmended.based.hearing.idle hfree
    have hstamp : l.m.hist.stamp = ⟨(t .guest).epoch, (t .guest).age⟩ := by
      rw [Party.epoch, Party.age, hshown'.hist]
    have hroot := (hmended.rooted .guest l hl).fresh
    rw [hstamp] at hroot
    have hne : (t .guest).epoch ≠ 0 := by omega
    exact hroot hnone hage hne

/-- A push leaves the guest where it left the host. -/
theorem hands_over (hone : 1 ≤ c.delay) (hlap : 2 * c.delay + 2 < 256) {es : List Event}
    (hrun : Run (Duo.Step cart c) Duo.init es duo) : duo.HandsOver cart c := by
  have hlap' : c.delay ≤ 126 := by omega
  obtain ⟨s₁, hf₁, -⟩ := (Tracked.init hone hlap').run hlap' (P := fun _ => True) trivial
    (fun _ _ _ _ _ _ _ _ _ => trivial) hrun
  intro v duo₂ es₂ duo₃ w duo₄ hpush hrun₂ hadopt hsteady k₁ k₂ l₃ l₄ hk₁ hk₂ hl₃ hl₄ hpushes hnext
    hsame
  obtain ⟨s₂, hturn, hf₂⟩ := hf₁.turn hlap' hpush
  obtain ⟨s₃, hf₃, hkept⟩ := hf₂.run hlap' (P := Since (s₂ .host).epoch (mail s₂))
    ⟨Nat.le_refl _, [], (List.append_nil _).symm, fun _ hy => absurd hy List.not_mem_nil⟩
    (fun _ _ _ _ hf _ _ hsince hstep => hsince.step hf.coursing hstep) hrun₂
  obtain ⟨s₄, hturn', hf₄⟩ := hf₃.turn hlap' hadopt
  have hsteady₄ := hf₄.portrays.steady hsteady
  have hsteady₃ := Pair.Steady.before hturn' hsteady₄
  obtain ⟨hsteady₂, hsince₃⟩ := hkept hsteady₃
  have hsince := hsince₃.step hf₃.coursing hturn'
  obtain ⟨u, hview, hdelay, hhost, hopened, himg⟩ := hf₁.pushed hf₂ hsteady₂ hturn hk₁ hk₂ hpushes
  obtain ⟨u', hview', hdelay', hguest, hheard, himg'⟩ := hf₃.adopted hf₄ hsteady₄ hturn' hl₃ hl₄ hnext
  -- both are at the baseline that push began
  have hepoch : (s₄ .guest).epoch = (s₂ .host).epoch := by
    rw [Party.epoch, Party.epoch, (hf₄.portrays.shown .guest l₄ hl₄).1.hist,
      (hf₂.portrays.shown .host k₂ hk₂).1.hist]
    exact hsame
  have hleft : (s₃ .guest).epoch = (s₁ .host).epoch := by omega
  have hresume : u'.resume = u.resume := by
    have hsince' := hsince
    rw [hhost] at hsince'
    rw [hleft, hsince'.openings_eq, hopened] at hheard
    exact (Option.some.inj hheard).symm
  have himage : image l₄.m = image k₂.m := by
    rw [himg', himg, hepoch, hsince.image_eq]
  unfold Machine.baseline
  rw [hview, hview']
  exact View.rebase_baseline himage hresume (hdelay'.trans hdelay.symm)

/-- A push of the host and the END of it at the guest. -/
theorem hands_over_pushed : ∃ es duo₁ v duo₂ es₂ duo₃ w duo₄ k₂ l₄,
    Run (Duo.Step idleCart startOne) Duo.init es duo₁ ∧
    Duo.Step idleCart startOne (.turn .host v) duo₁ duo₂ ∧
    Run (Duo.Step idleCart startOne) duo₂ es₂ duo₃ ∧
    Duo.Step idleCart startOne (.turn .guest w) duo₃ duo₄ ∧
    duo₂.proc .host = some k₂ ∧ k₂.m.hist.pushes = 1 ∧ duo₄.proc .guest = some l₄ ∧
    l₄.m.hist.stamp.epoch = 1 ∧ duo₁.HandsOver idleCart startOne ∧
    l₄.m.baseline = k₂.m.baseline := by
  obtain ⟨es, duo₁, S₁, hrun, h₁, -, hbefore, hplays⟩ :=
    Staged.follow startOne rfl seat_byte wantedCues (P := fun S₁ => (S₁ .host).hist.pushes = 0 ∧
      ((S₁.play [(.host, .tick)]).any fun S₂ =>
        decide ((S₂ .host).hist.pushes = 1 ∧ (S₂ .host).hist.stamp.epoch = 1) &&
        (S₂.play takenCues).any fun S₃ => decide ((S₃ .guest).hist.stamp.epoch = 0) &&
          (S₃.play [(.guest, .hear)]).any fun S₄ => decide ((S₄ .guest).hist.stamp.epoch = 1 ∧
            (S₄ .host).view.dropped = 0 ∧ (S₄ .guest).view.dropped = 0)) = true) (by decide +kernel)
  simp only [Option.any_eq_true, Bool.and_eq_true, decide_eq_true_eq] at hplays
  obtain ⟨S₂, hplay₁, ⟨hpushes, hepoch₂⟩, S₃, hplay₂, hepoch₃, S₄, hplay₃, hepoch₄, hdrop, hdrop'⟩ :=
    hplays
  obtain ⟨v, duo₂, hpush, h₂⟩ := h₁.play_one (by decide) hplay₁
  obtain ⟨es₂, duo₃, hrun₂, h₃⟩ := h₂.play hplay₂
  obtain ⟨w, duo₄, hadopt, h₄⟩ := h₃.play_one (by decide) hplay₃
  obtain ⟨k₁, hk₁, -, hhist₁, -⟩ := h₁.console .host
  obtain ⟨k₂, hk₂, -, hhist₂, -⟩ := h₂.console .host
  obtain ⟨l₃, hl₃, -, hhist₃, -⟩ := h₃.console .guest
  obtain ⟨l₄, hl₄, -, hhist₄, -⟩ := h₄.console .guest
  rw [← hhist₁] at hbefore
  rw [← hhist₂] at hpushes hepoch₂
  rw [← hhist₃] at hepoch₃
  rw [← hhist₄] at hepoch₄
  dsimp only at hbefore hpushes hepoch₂ hepoch₃ hepoch₄
  have hover := hands_over (by decide) (by decide) hrun
  exact ⟨es, duo₁, v, duo₂, es₂, duo₃, w, duo₄, k₂, l₄, hrun, hpush, hrun₂, hadopt, hk₂, hpushes, hl₄,
    hepoch₄, hover, hover v duo₂ es₂ duo₃ w duo₄ hpush hrun₂ hadopt (h₄.steady hdrop hdrop') k₁ k₂ l₃
      l₄ hk₁ hk₂ hl₃ hl₄ (by rw [hpushes, hbefore]) (by rw [hepoch₄, hepoch₃])
      (by rw [hepoch₄, hepoch₂])⟩

end SharkNetplay.Console
