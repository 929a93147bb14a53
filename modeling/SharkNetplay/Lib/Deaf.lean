import Mathlib.Data.List.Basic

/-!
# Steps that do not look at part of a state

`erase` blanks part of a state. A step is deaf to that part when blanking before it and
after it come to the same. Deaf steps compose, branch on what they read elsewhere, and are
folded along a list.
-/

namespace SharkNetplay.Lib

variable {σ : Type*}

/-- A step that does not look at what `erase` blanks. -/
def Deaf (erase : σ → σ) (f : σ → σ) : Prop := ∀ s, erase (f s) = f (erase s)

/-- A step that also returns a flag. -/
def DeafRaising (erase : σ → σ) (f : σ → σ × Bool) : Prop :=
  ∀ s, f (erase s) = (erase (f s).1, (f s).2)

variable {erase : σ → σ}

namespace Deaf

variable {f g : σ → σ}

theorem id : Deaf erase fun s => s := fun _ => rfl

theorem comp (hf : Deaf erase f) (hg : Deaf erase g) : Deaf erase fun s => g (f s) := by
  intro s
  show erase (g (f s)) = g (f (erase s))
  rw [hg, hf]

variable (erase)

/-- A step that depends on something it reads elsewhere. -/
theorem read {α : Type*} (a : σ → α) (ha : ∀ s, a (erase s) = a s) {k : α → σ → σ}
    (hk : ∀ x, Deaf erase (k x)) : Deaf erase fun s => k (a s) s := by
  intro s
  show erase (k (a s) s) = k (a (erase s)) (erase s)
  rw [ha, hk]

theorem ite {p : σ → Prop} [∀ s, Decidable (p s)] (hp : ∀ s, p (erase s) ↔ p s)
    (hf : Deaf erase f) (hg : Deaf erase g) : Deaf erase fun s => if p s then f s else g s := by
  intro s
  show erase (if p s then f s else g s) = if p (erase s) then f (erase s) else g (erase s)
  by_cases h : p s
  · rw [if_pos h, if_pos ((hp s).mpr h), hf]
  · rw [if_neg h, if_neg fun h' => h ((hp s).mp h'), hg]

/-- A step that goes on with the number it finds, if it finds one. -/
theorem found (a : σ → Option Nat) (ha : ∀ s, a (erase s) = a s) {k : Nat → σ → σ}
    (hf : Deaf erase f) (hk : ∀ x, Deaf erase (k x)) : Deaf erase fun s =>
      match a s with
      | none => f s
      | some x => k x s := by
  intro s
  dsimp only
  rw [ha]
  cases a s with
  | none => exact hf s
  | some x => exact hk x s

variable {erase}

theorem foldl {α : Type*} {k : α → σ → σ} (hk : ∀ a, Deaf erase (k a)) (l : List α) :
    Deaf erase fun s => l.foldl (fun s a => k a s) s := by
  induction l with
  | nil => exact id
  | cons a l ih => exact (hk a).comp ih

theorem raising (hf : Deaf erase f) (raised : Bool) : DeafRaising erase fun s => (f s, raised) := by
  intro s
  show (f (erase s), raised) = (erase (f s), raised)
  rw [hf]

theorem compRaising {k : σ → σ × Bool} (hf : Deaf erase f) (hk : DeafRaising erase k) :
    DeafRaising erase fun s => k (f s) := by
  intro s
  show k (f (erase s)) = _
  rw [← hf, hk]

end Deaf

namespace DeafRaising

variable (erase) {f g : σ → σ × Bool}

theorem read {α : Type*} (a : σ → α) (ha : ∀ s, a (erase s) = a s) {k : α → σ → σ × Bool}
    (hk : ∀ x, DeafRaising erase (k x)) : DeafRaising erase fun s => k (a s) s := by
  intro s
  show k (a (erase s)) (erase s) = _
  rw [ha, hk]

theorem ite {p : σ → Prop} [∀ s, Decidable (p s)] (hp : ∀ s, p (erase s) ↔ p s)
    (hf : DeafRaising erase f) (hg : DeafRaising erase g) :
    DeafRaising erase fun s => if p s then f s else g s := by
  intro s
  show (if p (erase s) then f (erase s) else g (erase s)) =
    (erase (if p s then f s else g s).1, (if p s then f s else g s).2)
  by_cases h : p s
  · rw [if_pos h, if_pos ((hp s).mpr h), hf]
  · rw [if_neg h, if_neg fun h' => h ((hp s).mp h'), hg]

theorem found (a : σ → Option Nat) (ha : ∀ s, a (erase s) = a s) {k : Nat → σ → σ × Bool}
    (hf : DeafRaising erase f) (hk : ∀ x, DeafRaising erase (k x)) : DeafRaising erase fun s =>
      match a s with
      | none => f s
      | some x => k x s := by
  intro s
  dsimp only
  rw [ha]
  cases a s with
  | none => exact hf s
  | some x => exact hk x s

end DeafRaising

end SharkNetplay.Lib
