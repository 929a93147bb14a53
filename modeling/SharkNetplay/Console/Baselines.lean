import SharkNetplay.Console.Requests

/-!
# Ticks across baselines

The 16-bit ticks of a match as unbounded numbers. Under baseline `e` the host runs
`n e` ticks and then pushes with 16 ticks of headroom, which fixes the first tick of
the next baseline. The messages of the host are read against these numbers.

## Implementation notes

`n` is known for the baselines the host has left. The stream to the guest is described
by what it moves a reader from and to, so that the messages in flight are a run between
the place of the guest and the place of the host.
-/

namespace SharkNetplay.Console

open Lib

/-- The first tick of a baseline. -/
def firstTick (n : Nat → Nat) : Nat → Nat
  | 0 => 0
  | e + 1 => firstTick n e + n e + 16

variable {n n' : Nat → Nat} {d : Nat}

theorem firstTick_congr {e : Nat} (h : ∀ i < e, n' i = n i) : firstTick n' e = firstTick n e := by
  induction e with
  | zero => rfl
  | succ e ih =>
      have hprev := ih fun i hi => h i (Nat.lt_succ_of_lt hi)
      simp only [firstTick, hprev, h e (Nat.lt_succ_self e)]

/-- Every baseline skips 16 ticks. -/
theorem firstTick_add (n : Nat → Nat) (e k : Nat) :
    firstTick n e + 16 * k ≤ firstTick n (e + k) := by
  induction k with
  | zero => simp
  | succ k ih =>
      have hstep : firstTick n (e + (k + 1)) = firstTick n (e + k) + n (e + k) + 16 := rfl
      omega

theorem firstTick_mono {e e' : Nat} (h : e ≤ e') : firstTick n e ≤ firstTick n e' := by
  obtain ⟨k, rfl⟩ := Nat.exists_eq_add_of_le h
  have hadd := firstTick_add n e k
  omega

/-- A baseline that has ended is followed by the next one. -/
theorem firstTick_next {e e' : Nat} (h : e < e') :
    firstTick n e + n e + 16 ≤ firstTick n e' := by
  have hmono := firstTick_mono (n := n) (Nat.succ_le_of_lt h)
  exact hmono

/-- Baselines of at most `k` ticks, the first one of at most `a` more. -/
theorem firstTick_le {e a k : Nat} (j : Nat) (h : ∀ i < j, n (e + i) ≤ k ∨ i = 0 ∧ n e ≤ k + a) :
    firstTick n (e + j) ≤ firstTick n e + a + j * (k + 16) := by
  induction j with
  | zero => simp
  | succ j ih =>
      have hstep : firstTick n (e + (j + 1)) = firstTick n (e + j) + n (e + j) + 16 := rfl
      have hmul : (j + 1) * (k + 16) = j * (k + 16) + (k + 16) :=
        Nat.succ_mul _ _
      rcases Nat.eq_zero_or_pos j with rfl | hpos
      · have h₀ := h 0 (by omega)
        have hzero : n (e + 0) = n e := rfl
        simp only [Nat.zero_mul] at hmul
        simp only [Nat.add_zero] at hstep h₀
        omega
      · have hprev := ih fun i hi => h i (by omega)
        have hlast := h j (by omega)
        omega

/-! ## Places in the stream to the guest -/

/-- Where a reader of the host's messages is: the baseline, the INPUTs of it that are
read, and whether a push is open. -/
structure Place where
  epoch : Nat
  got : Nat
  held : Bool

/-- What a message of the host moves its reader from and to. -/
inductive Hears (n : Nat → Nat) (d : Nat) : Stamp × Msg → Place → Place → Prop
  | input (e k : Nat) (c : Nat × Nat) :
    Hears n d (⟨e, k⟩, .input 0 ((firstTick n e + k + d) % 65536) c) ⟨e, k, false⟩ ⟨e, k + 1, false⟩
  | report (e k ck : Nat) (hb : (firstTick n e + k) % 64 = 0) :
    Hears n d (⟨e, k⟩, .report 0 ((firstTick n e + k) % 65536) ck) ⟨e, k + 1, false⟩
      ⟨e, k + 1, false⟩
  | opening (e k : Nat) (hspan : n e = k + 1) :
    Hears n d (⟨e, k⟩, .opening (firstTick n (e + 1) % 65536)) ⟨e, k + 1, false⟩ ⟨e, k + 1, true⟩
  | piece (e k : Nat) (q : Piece Nat) :
    Hears n d (⟨e, k⟩, .piece q) ⟨e, k + 1, true⟩ ⟨e, k + 1, true⟩
  | closing (e k : Nat) (hspan : n e = k + 1) :
    Hears n d (⟨e, k⟩, .closing) ⟨e, k + 1, true⟩ ⟨e + 1, 0, false⟩

/-- A place that does not depend on the length of baseline `e`. -/
def Place.Within (e : Nat) (p : Place) : Prop := p.epoch < e ∨ p.epoch = e ∧ p.held = false

/-- The lengths of the baselines to come do not matter. -/
theorem Hears.congr {x : Stamp × Msg} {p q : Place} {e : Nat} (h : Hears n d x p q)
    (hn : ∀ i < e, n' i = n i) (hq : q.Within e) : Hears n' d x p q ∧ p.Within e := by
  have hfirst : ∀ i ≤ e, firstTick n' i = firstTick n i := fun i hi =>
    firstTick_congr fun j hj => hn j (by omega)
  cases h with
  | input i k c =>
      have hle : i ≤ e := by rcases hq with hq | ⟨hq, -⟩ <;> (dsimp only at hq; omega)
      rw [← hfirst i hle]
      exact ⟨.input i k c, hq⟩
  | report i k ck hb =>
      have hle : i ≤ e := by rcases hq with hq | ⟨hq, -⟩ <;> (dsimp only at hq; omega)
      rw [← hfirst i hle] at hb ⊢
      exact ⟨.report i k ck hb, hq⟩
  | opening i k hspan =>
      have hlt : i < e := by
        rcases hq with hq | ⟨-, hq⟩
        · exact hq
        · exact absurd hq (by simp)
      rw [← hfirst (i + 1) hlt]
      exact ⟨.opening i k (by rw [hn i hlt, hspan]), .inl hlt⟩
  | piece i k q => exact ⟨.piece i k q, hq⟩
  | closing i k hspan =>
      have hlt : i < e := by rcases hq with hq | ⟨hq, -⟩ <;> (dsimp only at hq; omega)
      exact ⟨.closing i k (by rw [hn i hlt, hspan]), .inl hlt⟩

theorem hears_congr {es : List (Stamp × Msg)} {p q : Place} {e : Nat}
    (h : Run (Hears n d) p es q) (hn : ∀ i < e, n' i = n i) (hq : q.Within e) :
    Run (Hears n' d) p es q ∧ p.Within e := by
  induction h with
  | nil p => exact ⟨.nil p, hq⟩
  | cons hstep _ ih =>
      obtain ⟨hrun, hmid⟩ := ih hq
      obtain ⟨hstep', hp⟩ := hstep.congr hn hmid
      exact ⟨.cons hstep' hrun, hp⟩

/-- A reader is not past the writer. -/
theorem hears_le {es : List (Stamp × Msg)} {p q : Place} (h : Run (Hears n d) p es q) :
    p.epoch = q.epoch ∧ p.got ≤ q.got ∨ p.epoch < q.epoch ∧ p.got ≤ n p.epoch := by
  induction h with
  | nil p => exact .inl ⟨rfl, Nat.le_refl _⟩
  | cons hstep _ ih =>
      cases hstep with
      | input i k c =>
          dsimp only at ih ⊢
          omega
      | report i k ck hb => exact ih
      | opening i k hspan => exact ih
      | piece i k q => exact ih
      | closing i k hspan =>
          dsimp only at ih ⊢
          omega

/-- Nothing in flight: the reader is where the writer is. -/
theorem hears_nil {p q : Place} (h : Run (Hears n d) p [] q) : p = q := by
  cases h
  rfl

theorem hears_cons {x : Stamp × Msg} {es : List (Stamp × Msg)} {p q : Place}
    (h : Run (Hears n d) p (x :: es) q) : ∃ p', Hears n d x p p' ∧ Run (Hears n d) p' es q := by
  cases h with
  | cons hstep hrun => exact ⟨_, hstep, hrun⟩

/-- A push moves the reader to the next baseline. -/
theorem hears_push {e k : Nat} {img : List Nat} (hspan : n e = k + 1) :
    Run (Hears n d) ⟨e, k + 1, false⟩
      ((pushMsgs (firstTick n (e + 1) % 65536) img).map fun x => (⟨e, k⟩, x)) ⟨e + 1, 0, false⟩ := by
  have hpieces : ∀ qs : List (Piece Nat), Run (Hears n d) ⟨e, k + 1, true⟩
      ((qs.map Msg.piece).map fun x => (⟨e, k⟩, x)) ⟨e, k + 1, true⟩ := by
    intro qs
    induction qs with
    | nil => exact .nil _
    | cons q qs ih => exact .cons (.piece e k q) ih
  unfold pushMsgs
  rw [List.map_cons, List.map_append]
  exact .cons (.opening e k hspan) ((hpieces _).append (.one (.closing e k hspan)))

end SharkNetplay.Console
