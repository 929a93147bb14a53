import Mathlib.Data.List.Basic

/-!
# Countdown timers

What a run of countdown timers leaves behind: a timer is armed, stopped, or evaluated, and
an evaluation fires it or not. The history of a timer is whether it is armed and how many
evaluations it has waited since it was last armed or last fired.

## Implementation notes

The history is read off the marks alone. `Counts` ties it to a countdown that holds what is
left of the interval.
-/

namespace SharkNetplay.Lib

namespace Cadence

variable {ι : Type*} [DecidableEq ι]

/-- What happens to the timers. -/
inductive Mark (ι : Type*)
  | arm (i : ι)
  | stop (i : ι)
  | eval (i : ι) (fired : Bool)
  deriving DecidableEq

/-- The timer it is about. -/
def Mark.timer : Mark ι → ι
  | .arm i => i
  | .stop i => i
  | .eval i _ => i

/-- The timer evaluated. -/
def Mark.evaluated : Mark ι → Option ι
  | .eval i _ => some i
  | _ => none

/-- Whether a timer is armed, and the evaluations it has waited while armed since it was
last armed or last fired. -/
structure History where
  armed : Bool := false
  waited : Nat := 0
  deriving DecidableEq

namespace History

/-- One more mark in the history of timer `i`. -/
def note (i : ι) (h : History) : Mark ι → History
  | .arm j => if j = i then ⟨true, 0⟩ else h
  | .stop j => if j = i then { h with armed := false } else h
  | .eval j fired =>
    if j = i ∧ h.armed = true then { h with waited := if fired then 0 else h.waited + 1 } else h

theorem note_arm (i : ι) (h : History) : note i h (.arm i) = ⟨true, 0⟩ := if_pos rfl

theorem note_stop (i : ι) (h : History) : note i h (.stop i) = { h with armed := false } :=
  if_pos rfl

theorem note_eval {i : ι} {h : History} (harmed : h.armed = true) (fired : Bool) :
    note i h (.eval i fired) = { h with waited := if fired then 0 else h.waited + 1 } :=
  if_pos ⟨rfl, harmed⟩

theorem note_eval_off {i : ι} {h : History} (hoff : ¬ h.armed = true) (fired : Bool) :
    note i h (.eval i fired) = h :=
  if_neg fun hboth => hoff hboth.2

/-- A mark of another timer. -/
theorem note_ne {i : ι} (h : History) {k : Mark ι} (hk : k.timer ≠ i) : note i h k = h := by
  unfold note
  cases k with
  | arm j => exact if_neg hk
  | stop j => exact if_neg hk
  | eval j b => exact if_neg fun hj => hk hj.1

/-- The history of timer `i` after all marks. -/
def of (i : ι) (marks : List (Mark ι)) : History := marks.foldl (note i) {}

theorem of_append (i : ι) (a b : List (Mark ι)) : of i (a ++ b) = b.foldl (note i) (of i a) :=
  List.foldl_append

end History

/-- Each evaluation among the marks fires exactly when its timer is armed and this is the
last evaluation of the interval. -/
def OnTime (interval : ι → Nat) (marks : List (Mark ι)) : Prop :=
  ∀ before i fired after, marks = before ++ .eval i fired :: after →
    (fired = true ↔
      (History.of i before).armed = true ∧ (History.of i before).waited + 1 = interval i)

namespace OnTime

variable {interval : ι → Nat} {marks : List (Mark ι)}

theorem nil : OnTime interval ([] : List (Mark ι)) := by
  intro before i fired after hmarks
  exact absurd hmarks.symm (by simp)

/-- One more mark. -/
theorem note {k : Mark ι} (h : OnTime interval marks)
    (hk : ∀ i fired, k = .eval i fired → (fired = true ↔
      (History.of i marks).armed = true ∧ (History.of i marks).waited + 1 = interval i)) :
    OnTime interval (marks ++ [k]) := by
  intro before i fired after hmarks
  rcases List.eq_nil_or_concat after with rfl | ⟨init, last, rfl⟩
  · obtain ⟨rfl, hlast⟩ := List.append_inj' hmarks rfl
    exact hk i fired (List.head_eq_of_cons_eq hlast)
  · have hsplit : marks ++ [k] = (before ++ .eval i fired :: init) ++ [last] := by
      rw [hmarks]
      simp
    exact h before i fired init (List.append_inj' hsplit rfl).1

end OnTime

/-- The countdown is what is left of the interval while the timer is armed, and within it
always. -/
structure Counts (interval : Nat) (h : History) (armed : Bool) (count : Nat) : Prop where
  armed_eq : armed = h.armed
  pos : 1 ≤ count
  le : count ≤ interval
  left : h.armed = true → count + h.waited = interval

namespace Counts

variable {i j : ι} {interval count : Nat} {h : History} {armed : Bool}

/-- A timer that was never armed. -/
theorem start (hpos : 1 ≤ interval) : Counts interval {} false interval :=
  ⟨rfl, hpos, Nat.le_refl _, nofun⟩

/-- The timer fires when one evaluation is left. -/
theorem fires_iff (hc : Counts interval h armed count) :
    (armed = true ∧ count = 1) ↔ (h.armed = true ∧ h.waited + 1 = interval) := by
  rw [hc.armed_eq]
  refine and_congr_right fun harmed => ?_
  have hleft := hc.left harmed
  omega

theorem arm (hpos : 1 ≤ interval) : Counts interval (History.note i h (.arm i)) true interval := by
  rw [History.note_arm]
  exact ⟨rfl, hpos, Nat.le_refl _, fun _ => rfl⟩

theorem stop (hc : Counts interval h armed count) :
    Counts interval (History.note i h (.stop i)) false count := by
  rw [History.note_stop]
  exact ⟨rfl, hc.pos, hc.le, nofun⟩

/-- An evaluation that does not fire. -/
theorem hold (hc : Counts interval h armed count) (hno : ¬ (armed = true ∧ count = 1)) :
    Counts interval (History.note i h (.eval i false)) armed
      (if armed = true then count - 1 else count) := by
  have hpos := hc.pos
  have hle := hc.le
  by_cases harmed : armed = true
  · have hnow : h.armed = true := hc.armed_eq ▸ harmed
    have hleft := hc.left hnow
    have hmore : count ≠ 1 := fun h1 => hno ⟨harmed, h1⟩
    rw [if_pos harmed, History.note_eval hnow, if_neg Bool.false_ne_true]
    refine ⟨hc.armed_eq, by omega, by omega, fun _ => ?_⟩
    dsimp only
    omega
  · have hnow : ¬ h.armed = true := hc.armed_eq ▸ harmed
    rw [if_neg harmed, History.note_eval_off hnow]
    exact hc

end Counts

end Cadence

end SharkNetplay.Lib
