import Mathlib.Data.List.Basic

/-!
# Runs of a labelled transition relation

A run is a finite sequence of labelled steps. Invariants are carried along a run
from what one step does; a run may be asked to meet a condition at every step.
-/

namespace SharkNetplay.Lib

variable {σ ε : Type*}

/-- A run of `step` through the labels of a list. -/
inductive Run (step : ε → σ → σ → Prop) : σ → List ε → σ → Prop
  | nil (s : σ) : Run step s [] s
  | cons {s t u : σ} {e : ε} {es : List ε} :
    step e s t → Run step t es u → Run step s (e :: es) u

namespace Run

variable {step : ε → σ → σ → Prop} {s t u : σ} {es fs : List ε}

theorem one {e : ε} (h : step e s t) : Run step s [e] t := .cons h (.nil t)

theorem append (h₁ : Run step s es t) (h₂ : Run step t fs u) : Run step s (es ++ fs) u := by
  induction h₁ with
  | nil => exact h₂
  | cons hstep _ ih => exact .cons hstep (ih h₂)

theorem split (h : Run step s (es ++ fs) u) : ∃ t, Run step s es t ∧ Run step t fs u := by
  induction es generalizing s with
  | nil => exact ⟨s, .nil s, h⟩
  | cons e es ih =>
      cases h with
      | cons hstep hrest =>
          obtain ⟨t, hes, hfs⟩ := ih hrest
          exact ⟨t, .cons hstep hes, hfs⟩

/-- What every step preserves holds at the end of a run from where it holds. -/
theorem invariant {P : σ → Prop} (hstep : ∀ e s t, step e s t → P s → P t)
    (h : Run step s es t) (hs : P s) : P t := by
  induction h with
  | nil => exact hs
  | cons hst _ ih => exact ih (hstep _ _ _ hst hs)

/-- What every step relates is related across a run, when it is a preorder. -/
theorem relates {R : σ → σ → Prop} (hrefl : ∀ s, R s s)
    (htrans : ∀ {s t u}, R s t → R t u → R s u) {P : σ → Prop}
    (hstep : ∀ e s t, step e s t → P s → R s t ∧ P t)
    (h : Run step s es t) (hs : P s) : R s t := by
  induction h with
  | nil => exact hrefl _
  | cons hst _ ih =>
      obtain ⟨hR, hP⟩ := hstep _ _ _ hst hs
      exact htrans hR (ih hP)

end Run

end SharkNetplay.Lib
