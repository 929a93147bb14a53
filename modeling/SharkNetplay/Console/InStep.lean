import SharkNetplay.Console.Acts
import SharkNetplay.Console.Agreement

/-!
# In step

Two consoles whose first ticks leave one simulation state stay in it: every tick both run
leaves one state and one checksum, and no resync is ever wanted or made.

## Implementation notes

The pair of `Duo` has no simulation in it, so what a tick makes of the state is followed at
the consoles: a record is tied to the one before by some machine that runs from the one to
the other.
-/

namespace SharkNetplay.Console

open Lib Cell Machine

variable {cart : Cart} {c : Start} {x : Side} {p p' : Party} {k k' : Proc} {m m' : Machine}
  {s t : Pair} {duo duo' : Duo} {wire bytes : List Nat} {v : Move} {xs : List Msg} {r r₀ r' r₀' : Ran}

/-! ## From tick to tick -/

/-- A tick that was run from the state tick `r₀` left. -/
def Follows (cart : Cart) (r₀ r : Ran) : Prop := ∃ m : Machine, m.sim = r₀.sim ∧
  m.rd netCount = 2 ∧ m.view.cells 0 = r.seat0 ∧ m.view.cells 1 = r.seat1 ∧
  (lsTicked cart m).sim = r.sim

/-- The checksum of a tick is that of the state it left. -/
def Summed (r : Ran) : Prop := ∃ m : Machine, m.sim = r.sim ∧ lsCksum m = r.cksum

/-- The same inputs from the same state leave the same state. -/
theorem Follows.sim_eq (h : Follows cart r₀ r) (h' : Follows cart r₀' r') (hsim : r₀.sim = r₀'.sim)
    (hseat0 : r.seat0 = r'.seat0) (hseat1 : r.seat1 = r'.seat1) : r.sim = r'.sim := by
  obtain ⟨m, hm, hcount, h0, h1, hleft⟩ := h
  obtain ⟨m', hm', hcount', h0', h1', hleft'⟩ := h'
  rw [← hleft, ← hleft']
  apply lsTicked_alike
  · rw [hm, hm', hsim]
  · rw [hcount, hcount']
  · intro u hu
    match u, hu with
    | 0, _ => rw [h0, h0', hseat0]
    | 1, _ => rw [h1, h1', hseat1]

theorem Summed.cksum_eq (h : Summed r) (h' : Summed r') (hsim : r.sim = r'.sim) :
    r.cksum = r'.cksum := by
  obtain ⟨m, hm, hck⟩ := h
  obtain ⟨m', hm', hck'⟩ := h'
  rw [← hck, ← hck']
  exact lsCksum_alike (by rw [hm, hm', hsim])

/-- The ticks of a console, each run from where the one before left the simulation. -/
structure Chain (cart : Cart) (m : Machine) : Prop where
  summed : ∀ r ∈ m.hist.ran, Summed r
  follows : ∀ r ∈ m.hist.ran, r.stamp.age ≠ 0 →
    ∃ r₀ ∈ m.hist.ran, r₀.stamp = ⟨r.stamp.epoch, r.stamp.age - 1⟩ ∧ Follows cart r₀ r
  last : m.hist.stamp.age ≠ 0 → ∃ r₀ ∈ m.hist.ran,
    r₀.stamp = ⟨m.hist.stamp.epoch, m.hist.stamp.age - 1⟩ ∧ m.sim = r₀.sim

theorem Chain.keeps (h : Chain cart m) (hk : Undisturbed m m') : Chain cart m' := by
  refine ⟨?_, ?_, ?_⟩
  · rw [hk.ran]
    exact h.summed
  · rw [hk.ran]
    exact h.follows
  · rw [hk.ran, hk.stamp, hk.sim]
    exact h.last

/-- A tick that is not followed by a push. -/
theorem Chain.ran (h : Chain cart m) (hcount : m.rd netCount = 2) (hpend : m.view.pend = 0) :
    Chain cart (lsRun cart m) ∧ ∃ r, (lsRun cart m).hist.ran = m.hist.ran ++ [r] ∧
      r.stamp = m.hist.stamp ∧ (lsRun cart m).hist.stamp = ⟨m.hist.stamp.epoch, m.hist.stamp.age + 1⟩ := by
  obtain ⟨quiet, hrun⟩ := lsRun_spec cart m
  have hdue : dueAfter cart quiet m = false := by
    refine not_due_of_idle (.inl ?_) quiet
    rw [View.ran_eq]
    exact hpend
  obtain ⟨l, -, -, hhist, -⟩ := hrun.hist
  rw [hdue, if_neg Bool.false_ne_true, if_neg Bool.false_ne_true] at hhist
  have hran : (lsRun cart m).hist.ran = m.hist.ran ++ [⟨m.hist.stamp, m.view.tick, m.view.cells 0,
      m.view.cells 1, (lsTicked cart m).sim, nextCksum cart m⟩] := by rw [hhist]
  have hstamp : (lsRun cart m).hist.stamp = ⟨m.hist.stamp.epoch, m.hist.stamp.age + 1⟩ := by
    rw [hhist]
  have hsim : (lsRun cart m).sim = (lsTicked cart m).sim := sim_congr (hrun.sim hdue)
  refine ⟨⟨fun r hr => ?_, fun r hr hage => ?_, fun hage => ?_⟩, _, hran, rfl, hstamp⟩
  · rw [hran] at hr
    rcases List.mem_append.mp hr with hr | hr
    · exact h.summed r hr
    · rw [List.mem_singleton.mp hr]
      exact ⟨lsTicked cart m, rfl, rfl⟩
  · rw [hran] at hr ⊢
    rcases List.mem_append.mp hr with hr | hr
    · obtain ⟨r₀, hr₀, hbefore, hfollows⟩ := h.follows r hr hage
      exact ⟨r₀, List.mem_append_left _ hr₀, hbefore, hfollows⟩
    · obtain rfl := List.mem_singleton.mp hr
      obtain ⟨r₀, hr₀, hbefore, hleft⟩ := h.last hage
      exact ⟨r₀, List.mem_append_left _ hr₀, hbefore, m, hleft, hcount, rfl, rfl, rfl⟩
  · rw [hran, hstamp, hsim]
    exact ⟨_, List.mem_append_right _ (List.mem_singleton.mpr rfl), rfl, rfl⟩

/-! ## The pair while nothing is wrong -/

/-- No resync was wanted or made so far. -/
structure Clean (s : Pair) : Prop where
  first : ∀ x, (s x).epoch = 0
  hold : ∀ x, (s x).view.hold = 0
  pend : ∀ x, (s x).view.pend = 0
  pushes : ∀ x, (s x).hist.pushes = 0
  plain : ∀ x, ∀ e ∈ (s x).heard ++ (s x).inbox, e.2.Plain

theorem Clean.init : Clean (Pair.init c) :=
  ⟨fun _ => rfl, fun _ => rfl, fun _ => rfl, fun _ => rfl, fun _ _ he => absurd he List.not_mem_nil⟩

/-- What a turn of a clean member leaves as it is, and what it may send. -/
structure Calmly (p p' : Party) (xs : List Msg) : Prop where
  epoch : p'.epoch = p.epoch
  hold : p'.view.hold = p.view.hold
  pend : p'.view.pend = p.view.pend
  pushes : p'.hist.pushes = p.hist.pushes
  plain : ∀ y ∈ xs, y.Plain

/-- A turn that handles no checksum that differs. -/
theorem Turn.calmly (hturn : Turn p p' xs) (hpend : p.view.pend = 0)
    (hsteady : p'.view.dropped = 0) (hplain : ∀ e ∈ p.inbox, e.2.Plain)
    (hsame : ∀ e rest, p.inbox = e :: rest → ∀ sd u ck, e.2 = .report sd u ck →
      p.view.clashes u ck = false) : Calmly p p' xs := by
  have hbefore := hturn.given_up hsteady
  cases hturn with
  | idle hidle => exact ⟨rfl, rfl, rfl, rfl, fun y hy => absurd hy List.not_mem_nil⟩
  | left hpc hdrop => exact absurd hbefore hdrop
  | took hpump hin =>
      rename_i e rest
      have hmsg := hplain e (by rw [hin]; exact List.mem_cons_self)
      have hsame' := hsame e rest hin
      obtain ⟨st, y⟩ := e
      cases y with
      | input sd u i =>
          have hview : (p.view.onInput sd u i).hold = p.view.hold ∧
              (p.view.onInput sd u i).pend = p.view.pend := by
            unfold View.onInput
            split
            · exact ⟨rfl, rfl⟩
            · exact ⟨rfl, rfl⟩
          exact ⟨rfl, hview.1, hview.2, rfl, fun y hy => absurd hy List.not_mem_nil⟩
      | report sd u ck =>
          have hno := hsame' sd u ck rfl
          have hview : p.view.onCrc u ck = p.view := by
            unfold View.onCrc
            rw [hno, if_neg Bool.false_ne_true]
          have hquiet : p.view.replies (.report sd u ck) = [] :=
            if_neg fun hboth => Bool.false_ne_true (hno.symm.trans hboth.1)
          refine ⟨rfl, congrArg View.hold hview, congrArg View.pend hview, rfl, fun y hy => ?_⟩
          rw [hquiet] at hy
          exact absurd hy List.not_mem_nil
      | request u => exact absurd hmsg id
      | opening r => exact absurd hmsg id
      | piece q => exact absurd hmsg id
      | closing => exact absurd hmsg id
  | captured hi hgo =>
      refine ⟨rfl, rfl, rfl, rfl, fun y hy => ?_⟩
      rw [List.mem_singleton.mp hy]
      exact trivial
  | gaveUp hpc hh => exact absurd hsteady Nat.one_ne_zero
  | ran quiet sim hgate hopen hck himg hbytes =>
      rename_i ck img
      have hidle : (p.view.ran ck).pend = 0 := by
        rw [View.ran_eq]
        exact hpend
      have hno : (p.view.ran ck).due quiet = false := not_due_of_idle (.inl hidle) quiet
      have hview : (p.view.ran ck).pending quiet = p.view.ran ck := by
        unfold View.pending
        exact if_pos (.inl hidle)
      have hstamp : (p.hist.ranTick p.view ck sim ((p.view.ran ck).due quiet)).stamp =
          ⟨p.epoch, p.age + 1⟩ := by
        rw [hno]
        rfl
      have hpushes : (p.hist.ranTick p.view ck sim ((p.view.ran ck).due quiet)).pushes =
          p.hist.pushes := by
        rw [hno]
        rfl
      have hcells : (p.view.ran ck).hold = p.view.hold ∧ (p.view.ran ck).pend = p.view.pend := by
        rw [View.ran_eq]
        exact ⟨rfl, rfl⟩
      refine ⟨(congrArg Stamp.epoch hstamp :), (congrArg View.hold hview).trans hcells.1,
        (congrArg View.pend hview).trans hcells.2, hpushes, fun y hy => ?_⟩
      rcases List.mem_append.mp hy with hy | hy
      · split at hy
        · rw [List.mem_singleton.mp hy]
          exact trivial
        · exact absurd hy List.not_mem_nil
      · rw [hno, if_neg Bool.false_ne_true] at hy
        exact absurd hy List.not_mem_nil

theorem Clean.step (hs : Clean s) (hstep : Pair.Step x s t) (hsteady : t.Steady)
    (hsame : ∀ e rest, (s x).inbox = e :: rest → ∀ sd u ck, e.2 = .report sd u ck →
      (s x).view.clashes u ck = false) : Clean t := by
  obtain ⟨xs, hturn, hpeer⟩ := hstep
  have hcalm := hturn.calmly (hs.pend x) (hsteady x)
    (fun e he => hs.plain x e (List.mem_append_right _ he)) hsame
  refine ⟨fun y => ?_, fun y => ?_, fun y => ?_, fun y => ?_, fun y e he => ?_⟩
  · rcases Side.eq_or_peer x y with rfl | rfl
    · exact hcalm.epoch.trans (hs.first y)
    · rw [hpeer]
      exact hs.first x.peer
  · rcases Side.eq_or_peer x y with rfl | rfl
    · exact hcalm.hold.trans (hs.hold y)
    · rw [hpeer]
      exact hs.hold x.peer
  · rcases Side.eq_or_peer x y with rfl | rfl
    · exact hcalm.pend.trans (hs.pend y)
    · rw [hpeer]
      exact hs.pend x.peer
  · rcases Side.eq_or_peer x y with rfl | rfl
    · exact hcalm.pushes.trans (hs.pushes y)
    · rw [hpeer]
      exact hs.pushes x.peer
  · rcases Side.eq_or_peer x y with rfl | rfl
    · rw [hturn.mail] at he
      exact hs.plain y e he
    · rw [hpeer] at he
      rcases List.mem_append.mp (show e ∈ (s x.peer).heard ++ ((s x.peer).inbox ++ _) from he) with
        hold | hnew
      · exact hs.plain x.peer e (List.mem_append_left _ hold)
      · rcases List.mem_append.mp hnew with hold | hnew
        · exact hs.plain x.peer e (List.mem_append_right _ hold)
        · obtain ⟨y, hy, rfl⟩ := List.mem_map.mp hnew
          exact hcalm.plain y hy

/-! ## Both consoles -/

/-- The first ticks leave one simulation state. -/
def FirstAlike (s : Pair) : Prop := ∀ r ∈ (s .host).hist.ran, ∀ r' ∈ (s .guest).hist.ran,
  r.stamp = ⟨0, 0⟩ → r'.stamp = ⟨0, 0⟩ → r.sim = r'.sim

/-- What holds of two consoles in step. -/
structure Kept (cart : Cart) (c : Start) (duo : Duo) (s : Pair) : Prop where
  clean : Clean s
  agreed : Agreed c.delay s
  reported : Reported s
  chain : ∀ x k, duo.proc x = some k → Chain cart k.m
  alike : ∀ x, ∀ r ∈ (s x).hist.ran, ∀ r' ∈ (s x.peer).hist.ran, r.stamp = r'.stamp → r.sim = r'.sim

/-- A console that ran a tick is in the match. -/
theorem Portrays.ran (hs : Portrays c duo s) (hr : r ∈ (s x).hist.ran) :
    ∃ k, duo.proc x = some k ∧ r ∈ k.m.hist.ran := by
  match hx : duo.proc x with
  | none =>
      rw [(hs.fresh x hx).1] at hr
      exact absurd hr List.not_mem_nil
  | some k =>
      rw [(hs.shown x k hx).1.hist] at hr
      exact ⟨k, rfl, hr⟩

/-- Ticks under one stamp have one checksum. -/
theorem Kept.cksum_eq (hk : Kept cart c duo s) (hs : Portrays c duo s) (hr : r ∈ (s x).hist.ran)
    (hr' : r' ∈ (s x.peer).hist.ran) (hstamp : r.stamp = r'.stamp) : r.cksum = r'.cksum := by
  obtain ⟨k, hx, hmem⟩ := hs.ran hr
  obtain ⟨k', hx', hmem'⟩ := hs.ran hr'
  exact ((hk.chain x k hx).summed r hmem).cksum_eq ((hk.chain x.peer k' hx').summed r' hmem')
    (hk.alike x r hr r' hr' hstamp)

/-- No checksum that is about to be handled differs. -/
theorem Kept.same (hk : Kept cart c duo s) (hs : Portrays c duo s) (hcourse : Coursing c s)
    (hlap : c.delay ≤ 126) (hsteady : s.Steady) {e : Stamp × Msg} {rest : List (Stamp × Msg)}
    (hin : (s x).inbox = e :: rest) {sd u ck : Nat} (hmsg : e.2 = .report sd u ck) :
    (s x).view.clashes u ck = false := by
  refine Bool.eq_false_iff.mpr fun hclash => ?_
  have htakes : (s x).view.takes e.2 = true := by
    rw [hmsg]
    exact hclash
  have hfair := hcourse.takes hlap (.inr (hk.clean.first .host)) hsteady hin htakes
  obtain ⟨r, hr, hstamp, -, hne⟩ := hfair.differs sd u ck hmsg
  have hmem : e ∈ (s x).heard ++ (s x).inbox := by
    rw [hin]
    exact List.mem_append_right _ List.mem_cons_self
  obtain ⟨r', hr', hstamp', -, hck⟩ := hk.reported x e hmem sd u ck hmsg
  exact hne ((hk.cksum_eq hs hr hr' (hstamp.trans hstamp'.symm)).trans hck)

/-- A member takes a step. -/
theorem Kept.turn (hk : Kept cart c duo s) (hs : Portrays c duo s) (hcourse : Coursing c s)
    (hone : 1 ≤ c.delay) (hlap : 2 * c.delay + 2 < 256) (hsteady : s.Steady)
    (hstep : Duo.Step cart c (.turn x v) duo duo') (hturn : Pair.Step x s t)
    (ht : Portrays c duo' t) (hsteady' : t.Steady) (hfirst : FirstAlike t) :
    Kept cart c duo' t := by
  have hclean : Clean t := hk.clean.step hturn hsteady' fun e rest hin sd u ck hmsg =>
    hk.same hs hcourse (by omega) hsteady hin hmsg
  have hagreed : Agreed c.delay t :=
    hk.agreed.step hcourse hone hlap (.inr (hk.clean.first .host)) hsteady hsteady' hturn
  have hpeer_ran : (t x.peer).hist.ran = (s x.peer).hist.ran := by
    obtain ⟨xs, -, hpeer⟩ := hturn
    rw [hpeer]
    rfl
  cases hstep with
  | @turn _ _ _ _ k bytes hproc hread hwire hthis hpeer hsent =>
      have hshown := (hs.shown x k hproc).1
      rw [hwire] at hshown
      have hfixed := hs.fixed x
      have hseat := x.seat_lt
      have hkeep := hshown.keeps (by rw [hfixed.seat]; omega) (by rw [hfixed.count]; decide) hread
        (hsteady x) fun e he => hk.clean.plain x e (List.mem_append_right _ he)
      have hran : (s x).hist.ran = k.m.hist.ran := by rw [hshown.hist]
      have hran' : (t x).hist.ran = (k.step cart v).m.hist.ran := by
        rw [(ht.shown x _ hthis).1.hist]
      have hother : ∀ l, duo'.proc x.peer = some l → Chain cart l.m := fun l hl =>
        hk.chain x.peer l (hpeer ▸ hl)
      rcases hkeep with hkeep | ⟨hgate, hlast⟩
      · refine ⟨hclean, hagreed, hk.reported.step hturn, fun y l hl => ?_, fun y r hr r' hr' => ?_⟩
        · rcases Side.eq_or_peer x y with rfl | rfl
          · obtain rfl : k.step cart v = l := Option.some.inj (hthis.symm.trans hl)
            exact (hk.chain y k hproc).keeps hkeep
          · exact hother l hl
        · have hsame : ∀ z, (t z).hist.ran = (s z).hist.ran := by
            intro z
            rcases Side.eq_or_peer x z with rfl | rfl
            · rw [hran', hkeep.ran, hran]
            · exact hpeer_ran
          rw [hsame] at hr hr'
          exact hk.alike y r hr r' hr'
      · have hcount : k.m.rd netCount = 2 := by
          have hcell : k.m.rd netCount = k.m.view.count := rfl
          rw [hcell, ← hshown.view]
          exact hfixed.count
        have hpend : k.m.view.pend = 0 := by
          rw [← hshown.view]
          exact hk.clean.pend x
        obtain ⟨hchain, new, hadded, hstamp, -⟩ := (hk.chain x k hproc).ran hcount hpend
        rw [← hlast] at hchain hadded
        rw [hadded] at hran'
        have hchains : ∀ y l, duo'.proc y = some l → Chain cart l.m := by
          intro y l hl
          rcases Side.eq_or_peer x y with rfl | rfl
          · obtain rfl : k.step cart v = l := Option.some.inj (hthis.symm.trans hl)
            exact hchain
          · exact hother l hl
        -- the new tick against those of the peer
        have hkey : ∀ r ∈ (t x).hist.ran, ∀ r' ∈ (t x.peer).hist.ran, r.stamp = r'.stamp →
            r.sim = r'.sim := by
          intro r hr r' hr' heq
          have hold' : r' ∈ (s x.peer).hist.ran := hpeer_ran ▸ hr'
          by_cases hold : r ∈ (s x).hist.ran
          · exact hk.alike x r hold r' hold' heq
          · have hnew : r = new := by
              rw [hran'] at hr
              rcases List.mem_append.mp hr with hr | hr
              · exact absurd (hran ▸ hr) hold
              · exact List.mem_singleton.mp hr
            have hepoch : r.stamp.epoch = 0 := by
              rw [hnew, hstamp]
              have hzero := hk.clean.first x
              rw [Party.epoch, hshown.hist] at hzero
              exact hzero
            by_cases hage : r.stamp.age = 0
            · have hzero : r.stamp = ⟨0, 0⟩ := Stamp.of_eq hepoch hage
              cases x with
              | host => exact hfirst r hr r' hr' hzero (heq ▸ hzero)
              | guest => exact (hfirst r' hr' r hr (heq ▸ hzero) hzero).symm
            · obtain ⟨r₀, hr₀, hbefore, hfollows⟩ :=
                hchain.follows r (by rw [hadded, hnew]; simp) hage
              have hr₀_old : r₀ ∈ (s x).hist.ran := by
                rw [hadded] at hr₀
                rw [hran]
                rcases List.mem_append.mp hr₀ with hr₀ | hr₀
                · exact hr₀
                · have hself : r₀.stamp.age = r.stamp.age - 1 := congrArg Stamp.age hbefore
                  rw [List.mem_singleton.mp hr₀, ← hnew] at hself
                  omega
              obtain ⟨l, hl, hmem⟩ := ht.ran hr'
              obtain ⟨r₀', hr₀', hbefore', hfollows'⟩ :=
                (hchains x.peer l hl).follows r' hmem (heq ▸ hage)
              have hr₀'_old : r₀' ∈ (s x.peer).hist.ran := by
                rw [← hpeer_ran, (ht.shown x.peer l hl).1.hist]
                exact hr₀'
              have hsim := hk.alike x r₀ hr₀_old r₀' hr₀'_old
                (by rw [hbefore, hbefore', heq])
              have hours := (hagreed.ran x r hr).1
              have htheirs := (hagreed.ran x.peer r' hr').1
              refine hfollows.sim_eq hfollows' hsim ?_ ?_
              · rw [hours.seat0, htheirs.seat0, heq]
              · rw [hours.seat1, htheirs.seat1, heq]
        refine ⟨hclean, hagreed, hk.reported.step hturn, hchains, fun y r hr r' hr' heq => ?_⟩
        rcases Side.eq_or_peer x y with rfl | rfl
        · exact hkey r hr r' hr' heq
        · rw [x.peer_peer] at hr'
          exact (hkey r' hr' r hr heq.symm).symm

/-! ## Whole runs -/

/-- What is kept of two consoles and their pair. -/
structure Followed (cart : Cart) (c : Start) (duo : Duo) (s : Pair) : Prop where
  portrays : Portrays c duo s
  coursing : Coursing c s
  kept : s.Steady → FirstAlike s → Kept cart c duo s

theorem Followed.init (hone : 1 ≤ c.delay) (hlap : c.delay ≤ 126) :
    Followed cart c Duo.init (Pair.init c) := by
  refine ⟨.init c, .init hone hlap, fun _ _ => ⟨.init, .init hone hlap, ?_, ?_, ?_⟩⟩
  · exact fun _ _ he => absurd he List.not_mem_nil
  · exact fun x k hx => absurd hx (by simp [Duo.init])
  · exact fun _ _ hr => absurd hr List.not_mem_nil

/-- The first ticks were alike before. -/
theorem FirstAlike.before (hstep : Pair.Step x s t) (h : FirstAlike t) : FirstAlike s := by
  obtain ⟨xs, hturn, hpeer⟩ := hstep
  have hsub : ∀ y, ∀ r ∈ (s y).hist.ran, r ∈ (t y).hist.ran := by
    intro y r hr
    rcases Side.eq_or_peer x y with rfl | rfl
    · exact hturn.ran_subset r hr
    · rw [hpeer]
      exact hr
  exact fun r hr r' hr' => h r (hsub _ r hr) r' (hsub _ r' hr')

theorem Followed.step {e : Event} (hf : Followed cart c duo s) (hone : 1 ≤ c.delay)
    (hlap : 2 * c.delay + 2 < 256) (hstep : Duo.Step cart c e duo duo') :
    ∃ t, Followed cart c duo' t := by
  cases e with
  | start x m =>
      refine ⟨s, hf.portrays.start hstep, hf.coursing, fun hsteady hfirst => ?_⟩
      have hk := hf.kept hsteady hfirst
      refine ⟨hk.clean, hk.agreed, hk.reported, fun y k hy => ?_, hk.alike⟩
      cases hstep with
      | start hproc henter hwill hwire hthis hpeer hsent =>
          rcases Side.eq_or_peer x y with rfl | rfl
          · obtain rfl : (⟨m, .pumpSes⟩ : Proc) = k := Option.some.inj (hthis.symm.trans hy)
            have hhist := (henter.view (c.frame_framed y) rfl).2
            refine ⟨fun r hr => ?_, fun r hr => ?_, fun hage => ?_⟩
            · rw [hhist] at hr
              exact absurd hr List.not_mem_nil
            · rw [hhist] at hr
              exact absurd hr List.not_mem_nil
            · rw [hhist] at hage
              exact absurd rfl hage
          · exact hk.chain x.peer k (hpeer ▸ hy)
  | turn x v =>
      obtain ⟨t, hturn, ht⟩ := hf.portrays.turn hstep
      refine ⟨t, ht, hf.coursing.step (by omega) hturn, fun hsteady hfirst => ?_⟩
      have hsteady' := Pair.Steady.before hturn hsteady
      exact (hf.kept hsteady' (hfirst.before hturn)).turn hf.portrays hf.coursing hone hlap hsteady'
        hstep hturn ht hsteady hfirst

/-- The ticks the two consoles ran first under the baseline of START leave one state. -/
def Duo.StartsAlike (duo : Duo) : Prop :=
  ∀ k l, duo.proc .host = some k → duo.proc .guest = some l → ∀ r ∈ k.m.hist.ran,
    ∀ r' ∈ l.m.hist.ran, r.stamp = ⟨0, 0⟩ → r'.stamp = ⟨0, 0⟩ → r.sim = r'.sim

/-- No console wants a resync or made one, and what both ran under one stamp is one tick with one
simulation state and one checksum. -/
structure Duo.InStep (duo : Duo) : Prop where
  calm : ∀ x k, duo.proc x = some k → k.m.rd rsPend = 0 ∧ k.m.rd resyncHold = 0 ∧
    k.m.hist.pushes = 0 ∧ k.m.hist.stamp.epoch = 0
  ticks : ∀ x k l, duo.proc x = some k → duo.proc x.peer = some l →
    ∀ r ∈ k.m.hist.ran, ∀ r' ∈ l.m.hist.ran, r.stamp = r'.stamp →
      r.tick = r'.tick ∧ r.sim = r'.sim ∧ r.cksum = r'.cksum

/-- Two consoles whose first ticks leave one simulation state stay in step while nobody gives up. -/
theorem stays_in_step (hone : 1 ≤ c.delay) (hlap : 2 * c.delay + 2 < 256) {es : List Event}
    (hrun : Run (Duo.Step cart c) Duo.init es duo) (hsteady : duo.Steady)
    (hstarts : duo.StartsAlike) : duo.InStep := by
  obtain ⟨s, hf⟩ := hrun.invariant (P := fun duo => ∃ s, Followed cart c duo s)
    (fun _ _ _ hstep ⟨_, hf⟩ => hf.step hone hlap hstep)
    ⟨_, .init hone (by omega)⟩
  have hs := hf.portrays
  have hsteady' := hs.steady hsteady
  have hfirst : FirstAlike s := by
    intro r hr r' hr'
    obtain ⟨k, hk, hmem⟩ := hs.ran hr
    obtain ⟨l, hl, hmem'⟩ := hs.ran hr'
    exact hstarts k l hk hl r hmem r' hmem'
  have hkept := hf.kept hsteady' hfirst
  obtain ⟨n, hplaced⟩ := hf.coursing.placed hlap hsteady'
  refine ⟨fun x k hk => ?_, fun x k l hk hl r hr r' hr' heq => ?_⟩
  · have hshown := (hs.shown x k hk).1
    have hhist := hshown.hist
    have hpend : k.m.view.pend = 0 := hshown.view ▸ hkept.clean.pend x
    have hhold : k.m.view.hold = 0 := hshown.view ▸ hkept.clean.hold x
    have hpushes := hkept.clean.pushes x
    have hepoch := hkept.clean.first x
    rw [hhist] at hpushes
    rw [Party.epoch, hhist] at hepoch
    exact ⟨hpend, hhold, hpushes, hepoch⟩
  · have hran : r ∈ (s x).hist.ran := by
      rw [(hs.shown x k hk).1.hist]
      exact hr
    have hran' : r' ∈ (s x.peer).hist.ran := by
      rw [(hs.shown x.peer l hl).1.hist]
      exact hr'
    have htick := ((hplaced x).records.ran r hran).1
    have htick' := ((hplaced x.peer).records.ran r' hran').1
    exact ⟨by rw [htick, htick', heq], hkept.alike x r hran r' hran' heq,
      hkept.cksum_eq hs hran hran' heq⟩

/-- Both ran ticks 0 and 1 from one simulation state. -/
theorem stays_in_step_calm : ∃ es duo k l, Run (Duo.Step idleCart startOne) Duo.init es duo ∧
    duo.proc .host = some k ∧ duo.proc .guest = some l ∧
    (∃ r ∈ k.m.hist.ran, ∃ r' ∈ l.m.hist.ran, r.stamp = r'.stamp ∧ r.tick = 1) ∧ duo.InStep := by
  obtain ⟨es, duo, S, hrun, hstaged, hplay, hran, hdrop, hdrop'⟩ :=
    Staged.follow startOne rfl (j := fun _ => 0) (fun _ => by decide) calmCues (P := fun S =>
      (∃ r ∈ (S .host).hist.ran, ∃ r' ∈ (S .guest).hist.ran, r.stamp = r'.stamp ∧ r.tick = 1) ∧
      (S .host).view.dropped = 0 ∧ (S .guest).view.dropped = 0) (by decide +kernel)
  obtain ⟨k, hk, -, hhist, -⟩ := hstaged.console .host
  obtain ⟨l, hl, -, hhist', -⟩ := hstaged.console .guest
  have hrested := Scene.play_rested (Scene.opening_rested startOne fun _ => 0) hplay
  have hstarts : duo.StartsAlike := by
    intro k' l' hk' hl' r hr r' hr' _ _
    obtain rfl : k = k' := Option.some.inj (hk.symm.trans hk')
    obtain rfl : l = l' := Option.some.inj (hl.symm.trans hl')
    have hmem : r ∈ (S .host).hist.ran := by
      rw [← hhist]
      exact hr
    have hmem' : r' ∈ (S .guest).hist.ran := by
      rw [← hhist']
      exact hr'
    rw [(hrested .host).ran r hmem, (hrested .guest).ran r' hmem']
  rw [← hhist, ← hhist'] at hran
  exact ⟨es, duo, k, l, hrun, hk, hl, hran,
    stays_in_step (by decide) (by decide) hrun (hstaged.steady hdrop hdrop') hstarts⟩

end SharkNetplay.Console
