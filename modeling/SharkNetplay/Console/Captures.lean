import SharkNetplay.Console.Agreement

/-!
# What is dispatched was captured

Before the first push a console dispatches for each seat at tick `T` what that seat captured
at its ticks `T - d` and `T - 1 - d`, idle where these are negative.

## Implementation notes

Under the baseline of START no capture is skipped, so a capture's place in the record is the
tick it was made at.
-/

namespace SharkNetplay.Console

open Lib Cell Machine

variable {d u : Nat} {p p' : Party} {c : Start} {cart : Cart} {x : Side} {s t : Pair} {duo : Duo}
  {l : List (Nat × Nat)} {i : Nat × Nat} {r : Ran}

/-- The slot of tick `u - 1` with the captures `l`, one a tick. -/
def captureFor (l : List (Nat × Nat)) (d u : Nat) : Nat × Nat :=
  if u ≤ d then idleCells else l.getD (u - 1 - d) idleCells

/-- The cells to be dispatched at tick `u` with the captures `l`. -/
def capturedCells (l : List (Nat × Nat)) (d u : Nat) : VdCells :=
  ⟨(captureFor l d (u + 1)).1, (captureFor l d u).1, (captureFor l d (u + 1)).2,
    (captureFor l d u).2⟩

/-- Captures under the ticks they were made at. -/
def stamped (l : List (Nat × Nat)) : List (Stamp × (Nat × Nat)) :=
  l.zipIdx.map fun a => (⟨0, a.2⟩, a.1)

theorem stamped_append (l : List (Nat × Nat)) (i : Nat × Nat) :
    stamped (l ++ [i]) = stamped l ++ [(⟨0, l.length⟩, i)] := by
  unfold stamped
  rw [List.zipIdx_append, List.map_append]
  simp

theorem mem_stamped {a : Stamp × (Nat × Nat)} :
    a ∈ stamped l ↔ a.1.epoch = 0 ∧ l[a.1.age]? = some a.2 := by
  obtain ⟨⟨e, k⟩, i⟩ := a
  unfold stamped
  rw [List.mem_map]
  constructor
  · rintro ⟨⟨j, b⟩, hmem, heq⟩
    obtain ⟨hstamp, rfl⟩ := Prod.mk.inj heq
    obtain ⟨rfl, rfl⟩ := Stamp.mk.inj hstamp
    exact ⟨rfl, List.mem_zipIdx_iff_getElem?.mp hmem⟩
  · rintro ⟨rfl, hget⟩
    exact ⟨(i, k), List.mem_zipIdx_iff_getElem?.mpr hget, rfl⟩

theorem inputAt_stamped (hsorted : (stamped l).Pairwise fun a b => a.1.Lt b.1) (k : Nat) :
    inputAt (stamped l) ⟨0, k⟩ = l.getD k idleCells := by
  rw [List.getD_eq_getElem?_getD]
  match hk : l[k]? with
  | some i => exact inputAt_mem hsorted (mem_stamped.mpr ⟨rfl, hk⟩)
  | none =>
      refine inputAt_none fun a ha heq => ?_
      have hget := (mem_stamped.mp ha).2
      rw [heq, hk] at hget
      cases hget

theorem playedCells_stamped (hsorted : (stamped l).Pairwise fun a b => a.1.Lt b.1) (k : Nat) :
    playedCells (stamped l) d ⟨0, k⟩ = capturedCells l d k := by
  have hplay : ∀ u, play (stamped l) d 0 u = captureFor l d u := by
    intro u
    unfold play captureFor
    rw [inputAt_stamped hsorted]
  unfold playedCells capturedCells
  rw [hplay, hplay]

/-! ## The records of captures -/

/-- What was captured so far is in the record, under the baseline of START. -/
def Recorded (s : Pair) : Prop := (s .host).epoch = 0 → ∀ x,
  plays (s x.peer) = stamped (s x).hist.captured ∧ (s x).hist.captured.length = (s x).captures

theorem Recorded.init : Recorded (Pair.init c) := fun _ _ => ⟨rfl, rfl⟩

/-- Nobody is past the first baseline when the host is not. -/
theorem Coursing.first (hcourse : Coursing c s) (hsteady : s.Steady) (hzero : (s .host).epoch = 0)
    (x : Side) : (s x).epoch = 0 := by
  obtain ⟨n, got, front, hc⟩ := hcourse.course hsteady
  have hbehind := hc.down.behind
  cases x with
  | host => exact hzero
  | guest => omega

theorem Recorded.step (hs : Recorded s) (hcourse : Coursing c s) (hlap : c.delay ≤ 126)
    (hsteady : s.Steady) (hsteady' : t.Steady) (hstep : Pair.Step x s t) : Recorded t := by
  intro hzero y
  have hfirst := (hcourse.step hlap hstep).first hsteady' hzero
  have hs' := hs (hstep.first hzero)
  rcases hcourse.turn_cases hsteady hsteady' hstep with ⟨i, hgo, hthis, hpeer⟩ | ⟨hquiet, hmoves, hcap⟩
  · have hcaptures : (s x).captures = (s x).age := by
      unfold Party.captures
      rw [hgo]
      rfl
    obtain ⟨hplays, hlength⟩ := hs' x
    have hzero' : (s x).hist.stamp.epoch = 0 := by
      have hsame := hfirst x
      rw [hthis] at hsame
      exact hsame
    have hstamp : (s x).hist.stamp = ⟨0, (s x).hist.captured.length⟩ := by
      rw [hlength, hcaptures]
      exact Stamp.of_eq hzero' rfl
    rcases Side.eq_or_peer x y with rfl | rfl
    · rw [hpeer, plays_gets, hthis, hplays]
      refine ⟨?_, ?_⟩
      · dsimp only
        rw [stamped_append, ← hstamp]
        rfl
      · rw [Party.captures_gate rfl]
        show ((s y).hist.captured ++ [i]).length = (s y).age + 1
        rw [List.length_append, hlength, hcaptures]
        rfl
    · have hold := hs' x.peer
      rw [x.peer_peer] at hold ⊢
      rw [hthis, hpeer]
      exact hold
  · obtain ⟨hplays, hlength⟩ := hs' y
    rw [hquiet.plays]
    rcases Side.eq_or_peer x y with rfl | rfl
    · have hsame : (t y).captures = (s y).captures := by
        rcases hmoves.captures with ⟨-, hsame⟩ | ⟨hnext, -⟩
        · exact hsame
        · have hnow := hfirst y
          omega
      rw [hcap, hsame]
      exact ⟨hplays, hlength⟩
    · rw [hquiet.hist, hquiet.captures]
      exact ⟨hplays, hlength⟩

/-! ## The consoles -/

/-- What a member captured so far. -/
def Duo.captures (duo : Duo) (x : Side) : List (Nat × Nat) :=
  match duo.proc x with
  | none => []
  | some k => k.m.hist.captured

/-- Tick `T` is given what each seat captured at its ticks `T - d` and `T - 1 - d`, and what it is
given was captured by then. -/
def Duo.PlaysCaptures (d : Nat) (duo : Duo) : Prop :=
  ∀ x k, duo.proc x = some k → ∀ r ∈ k.m.hist.ran, r.tick = r.stamp.age % 65536 ∧
    r.seat0 = capturedCells (duo.captures .host) d r.stamp.age ∧
    r.seat1 = capturedCells (duo.captures .guest) d r.stamp.age ∧
    ∀ y, r.stamp.age < d + (duo.captures y).length

theorem Portrays.captures (hs : Portrays c duo s) (x : Side) :
    duo.captures x = (s x).hist.captured := by
  unfold Duo.captures
  match hx : duo.proc x with
  | none =>
      rw [(hs.fresh x hx).1]
      rfl
  | some k =>
      rw [(hs.shown x k hx).1.hist]

/-- Before the first push, and while nobody gives up, what a tick is given is what was captured a
delay of ticks before it. -/
theorem plays_captures (hone : 1 ≤ c.delay) (hlap : 2 * c.delay + 2 < 256) {es : List Event}
    (hrun : Run (Duo.Step cart c) Duo.init es duo) (hsteady : duo.Steady)
    (hfirst : ∀ k, duo.proc .host = some k → k.m.hist.stamp.epoch = 0) :
    duo.PlaysCaptures c.delay := by
  obtain ⟨s, hs, hcourse, hsteady', hagreed, hrecorded⟩ := steady_pair
    (Q := fun s => ((s .host).epoch = 0 → Agreed c.delay s) ∧ Recorded s) hone (by omega)
    ⟨fun _ => .init hone (by omega), .init⟩
    (fun x s t hcourse hbefore hafter hkeep hstep =>
      ⟨fun hzero => (hkeep.1 (hstep.first hzero)).step hcourse hone hlap (.inr (hstep.first hzero))
        hbefore hafter hstep, hkeep.2.step hcourse (by omega) hbefore hafter hstep⟩) hrun hsteady
  have hzero : (s .host).epoch = 0 := by
    match hx : duo.proc .host with
    | none =>
        rw [(hs.fresh .host hx).1]
        rfl
    | some k =>
        have hhist := (hs.shown .host k hx).1.hist
        show (s .host).hist.stamp.epoch = 0
        rw [hhist]
        exact hfirst k hx
  have hs' := hrecorded hzero
  have hall := hagreed hzero
  obtain ⟨n, hplaced⟩ := hcourse.placed hlap hsteady'
  intro x k hk r hr
  have hran : r ∈ (s x).hist.ran := by
    rw [(hs.shown x k hk).1.hist]
    exact hr
  obtain ⟨htick, hle, -⟩ := (hplaced x).records.ran r hran
  have hepoch : r.stamp.epoch = 0 := by
    have hnow := hcourse.first hsteady' hzero x
    omega
  have hstamp : r.stamp = ⟨0, r.stamp.age⟩ := Stamp.of_eq hepoch rfl
  obtain ⟨hdispatch, hsettled⟩ := hall.ran x r hran
  have hseat : ∀ y : Side, playedCells (plays (s y.peer)) c.delay r.stamp =
      capturedCells (duo.captures y) c.delay r.stamp.age := by
    intro y
    have hsorted := hall.sorted y.peer
    rw [(hs' y).1] at hsorted ⊢
    rw [hs.captures, hstamp]
    exact playedCells_stamped hsorted r.stamp.age
  refine ⟨?_, ?_, ?_, fun y => ?_⟩
  · rw [htick, hepoch]
    exact congrArg (· % 65536) (Nat.zero_add _)
  · exact hdispatch.seat0.trans (hseat .host)
  · exact hdispatch.seat1.trans (hseat .guest)
  · have hy := hsettled y
    have hnow := hcourse.first hsteady' hzero y
    have hlength := (hs' y).2
    rw [hs.captures, hlength]
    unfold Settled at hy
    omega

/-- Tick 1 is dispatched from what both consoles captured at tick 0. -/
theorem plays_captures_calm : ∃ es duo k, Run (Duo.Step idleCart startOne) Duo.init es duo ∧
    duo.proc .guest = some k ∧ duo.captures .host = [(0x41, 1), (0x42, 3)] ∧
    duo.captures .guest = [(0x44, 2), (0x48, 4)] ∧
    (∃ r ∈ k.m.hist.ran, r.tick = 1 ∧ r.seat0.cur = 0x41 ∧ r.seat1.cur = 0x44) ∧
    duo.PlaysCaptures startOne.delay := by
  obtain ⟨es, duo, S, hrun, hstaged, -, hran, hcaps, hcaps', hepoch, hdrop, hdrop'⟩ :=
    Staged.follow startOne rfl (j := fun _ => 0) (fun _ => by decide) calmCues (P := fun S =>
      (∃ r ∈ (S .guest).hist.ran, r.tick = 1 ∧ r.seat0.cur = 0x41 ∧ r.seat1.cur = 0x44) ∧
      (S .host).hist.captured = [(0x41, 1), (0x42, 3)] ∧
      (S .guest).hist.captured = [(0x44, 2), (0x48, 4)] ∧ (S .host).hist.stamp.epoch = 0 ∧
      (S .host).view.dropped = 0 ∧ (S .guest).view.dropped = 0) (by decide +kernel)
  obtain ⟨l, hl, -, hhist', -⟩ := hstaged.console .host
  obtain ⟨k, hk, -, hhist, -⟩ := hstaged.console .guest
  rw [← hhist] at hran
  rw [← hhist'] at hepoch
  refine ⟨es, duo, k, hrun, hk, (hstaged.portrays.captures .host).trans hcaps,
    (hstaged.portrays.captures .guest).trans hcaps', hran,
    plays_captures (by decide) (by decide) hrun (hstaged.steady hdrop hdrop') fun l' hl' => ?_⟩
  obtain rfl : l = l' := Option.some.inj (hl.symm.trans hl')
  exact hepoch

end SharkNetplay.Console
