import SharkNetplay.Lobby.Publisher

/-!
# The debounce of the publisher

Between two POSTs of the worker stands a debounce wait. The Python worker leaves it only
by its timeout until shutdown. The C worker rests on the condition variable that updates
broadcast on, so an update wakes it; without one its debounce is the same.
-/

namespace SharkNetplay.Lobby

open Lib

variable {k : Impl} {s t : Publisher} {e : Event} {es : List Event}

/-- No debounce wait ends before its timeout, and one ends between two POSTs. -/
def Debounced (es : List Event) : Prop :=
  .rested false ∉ es ∧
    ∀ a b c, es = a ++ .post :: (b ++ .post :: c) → .rested true ∈ b

/-- The worker is at rest, or on its way from a POST to its rest. -/
def Resting (s : Publisher) : Prop :=
  (∃ b, s.worker = .posting b) ∨ s.worker = .posted ∨ ∃ signalled, s.worker = .resting signalled

/-- The worker is in its debounce wait. -/
def AtRest (s : Publisher) : Prop := ∃ signalled, s.worker = .resting signalled

/-- The step brings no update and no spurious signal to a worker at rest. -/
def Undisturbed (e : Event) (s : Publisher) : Prop :=
  (∃ n, e = .update n) ∨ e = .spurious → ¬ AtRest s

theorem Resting.step (hr : Resting s) (h : Step k e s t) (hstop : s.stopEvt = false)
    (hno : ∀ timedOut, e ≠ .rested timedOut) : Resting t := by
  have hnotify : ∀ {j : Impl}, Resting { s with worker := notify j s.worker } := by
    intro j
    rcases hr with ⟨b, hw⟩ | hw | ⟨signalled, hw⟩
    · exact Or.inl ⟨b, by simp [hw, notify]⟩
    · exact Or.inr (Or.inl (by simp [hw, notify]))
    · exact Or.inr (Or.inr ⟨_, by rw [hw]; rfl⟩)
  have haway : ∀ {w : Worker}, s.worker = w → (∀ b, w ≠ .posting b) → w ≠ .posted →
      (∀ b, w ≠ .resting b) → False := by
    intro w hw h₁ h₂ h₃
    rcases hr with ⟨b, h⟩ | h | ⟨b, h⟩
    · exact h₁ b (hw.symm.trans h)
    · exact h₂ (hw.symm.trans h)
    · exact h₃ b (hw.symm.trans h)
  cases h.moved with
  | refused => exact hr
  | update => exact hnotify
  | enter hw => exact (haway hw (by simp) (by simp) (by simp)).elim
  | keepalive hw => exact (haway hw (by simp) (by simp) (by simp)).elim
  | woken hw => exact (haway hw (by simp) (by simp) (by simp)).elim
  | post hw => exact Or.inl ⟨_, rfl⟩
  | answer => exact Or.inr (Or.inl rfl)
  | skip hw hevt => exact absurd (hstop.symm.trans hevt) (by simp)
  | rest => exact Or.inr (Or.inr ⟨false, rfl⟩)
  | rested timedOut => exact absurd rfl (hno timedOut)
  | spurious => exact hnotify
  | stop =>
      cases k
      · exact hnotify
      · exact hnotify
  | setStopEvt =>
      rcases hr with ⟨b, hw⟩ | hw | ⟨signalled, hw⟩
      · exact Or.inl ⟨b, by simp [hw, wakeResting]⟩
      · exact Or.inr (Or.inl (by simp [hw, wakeResting]))
      · exact Or.inr (Or.inr ⟨true, by simp [hw, wakeResting]⟩)
  | join => exact hr
  | joinTimeout => exact hr
  | finalPost => exact hr
  | finalAnswer => exact hr

/-- Before shutdown, no signal having reached the debounce wait. -/
structure Calm (s : Publisher) : Prop where
  stopEvt : s.stopEvt = false
  live : s.caller = .live
  unwoken : s.worker ≠ .resting true

theorem start_calm : Calm start := ⟨rfl, rfl, by decide⟩

/-- A signal that does not find a C worker at rest wakes no debounce wait. -/
theorem notify_unwoken {w : Worker} (hw : w ≠ .resting true)
    (hq : k = .c → ∀ signalled, w ≠ .resting signalled) : notify k w ≠ .resting true := by
  cases w with
  | resting signalled =>
      cases k with
      | python => simpa [notify] using hw
      | c => exact absurd rfl (hq rfl signalled)
  | _ => simp [notify]

theorem check_unwoken (s : Publisher) : (check s).worker ≠ .resting true := by
  unfold check
  dsimp only
  split_ifs
  all_goals simp

@[simp] theorem check_stopEvt (s : Publisher) : (check s).stopEvt = s.stopEvt := by
  unfold check
  dsimp only
  split_ifs <;> rfl

theorem Calm.step (hc : Calm s) (h : Step k e s t) (hstop : e ≠ .stop)
    (hq : k = .c → Undisturbed e s) : Calm t := by
  obtain ⟨hevt, hlive, hw⟩ := hc
  have haway : ∀ {c : Caller}, s.caller = c → c ≠ .live → False := fun hcaller hne =>
    hne (hcaller.symm.trans hlive)
  cases h.moved with
  | refused => exact ⟨hevt, hlive, hw⟩
  | update n =>
      refine ⟨hevt, hlive, notify_unwoken hw fun hk signalled hrest => ?_⟩
      exact hq hk (Or.inl ⟨n, rfl⟩) ⟨signalled, hrest⟩
  | enter => exact ⟨by simpa using hevt, by simpa using hlive, check_unwoken _⟩
  | keepalive => exact ⟨by simpa using hevt, by simpa using hlive, check_unwoken _⟩
  | woken => exact ⟨by simpa using hevt, by simpa using hlive, check_unwoken _⟩
  | post => exact ⟨hevt, hlive, by simp⟩
  | answer => exact ⟨hevt, hlive, by simp⟩
  | skip => exact ⟨hevt, hlive, by simp⟩
  | rest => exact ⟨hevt, hlive, by simp⟩
  | rested => exact ⟨hevt, hlive, by simp⟩
  | spurious hk =>
      refine ⟨hevt, hlive, notify_unwoken hw fun _ signalled hrest => ?_⟩
      exact hq hk (Or.inr rfl) ⟨signalled, hrest⟩
  | stop => exact absurd rfl hstop
  | setStopEvt hcaller => exact (haway hcaller (by simp)).elim
  | join hcaller => exact (haway hcaller (by simp)).elim
  | joinTimeout hcaller => exact (haway hcaller (by simp)).elim
  | finalPost hcaller => exact (haway hcaller (by simp)).elim
  | finalAnswer ok hcaller => exact (haway hcaller (by simp)).elim

/-- A calm debounce wait does not end before its timeout. -/
theorem Calm.not_early (hc : Calm s) (h : Step k e s t) : e ≠ .rested false := by
  rintro rfl
  cases h.moved with
  | rested _ hw hwoken =>
      rw [Bool.false_or] at hwoken
      exact hc.unwoken (hwoken ▸ hw)

/-- A step that does not disturb the debounce; the Python worker no step does. -/
def QuietStep (k : Impl) (e : Event) (s t : Publisher) : Prop :=
  Step k e s t ∧ (k = .c → Undisturbed e s)

theorem run_calm (h : Run (QuietStep k) s es t) (hstop : .stop ∉ es) (hc : Calm s) :
    Calm t ∧ .rested false ∉ es := by
  induction h with
  | nil => exact ⟨hc, by simp⟩
  | @cons s u t e es hst hrest ih =>
      rw [List.mem_cons, not_or] at hstop
      obtain ⟨hct, hes⟩ := ih hstop.2 (hc.step hst.1 (Ne.symm hstop.1) hst.2)
      refine ⟨hct, ?_⟩
      rw [List.mem_cons, not_or]
      exact ⟨Ne.symm (hc.not_early hst.1), hes⟩

/-- A worker that has posted stays on its way to rest, or at rest, until a wait ends. -/
theorem run_resting (h : Run (QuietStep k) s es t) (hstop : .stop ∉ es) (hc : Calm s)
    (hr : Resting s) (hno : ∀ timedOut, .rested timedOut ∉ es) : Resting t := by
  induction h with
  | nil => exact hr
  | @cons s u t e es hst hrest ih =>
      rw [List.mem_cons, not_or] at hstop
      have hhead : ∀ timedOut, e ≠ .rested timedOut := by
        rintro timedOut rfl
        exact hno timedOut List.mem_cons_self
      exact ih hstop.2 (hc.step hst.1 (Ne.symm hstop.1) hst.2) (hr.step hst.1 hc.stopEvt hhead)
        fun timedOut hmem => hno timedOut (List.mem_cons_of_mem _ hmem)

/-- Before shutdown the Python publisher is debounced in every run, the C publisher in
every run in which no update and no spurious signal finds its worker in the debounce. -/
theorem publisher_debounced (k : Impl) (es : List Event) (s : Publisher)
    (h : Run (QuietStep k) start es s) (hstop : .stop ∉ es) : Debounced es := by
  have hearly := (run_calm h hstop start_calm).2
  refine ⟨hearly, ?_⟩
  rintro a b c rfl
  simp only [List.mem_append, List.mem_cons, not_or] at hstop hearly
  obtain ⟨s₁, ha, hrest⟩ := h.split
  have hcalm₁ := (run_calm ha hstop.1 start_calm).1
  cases hrest with
  | @cons _ s₂ _ _ _ hpost hrest =>
      have hcalm₂ := hcalm₁.step hpost.1 (by simp) hpost.2
      obtain ⟨s₃, hb, hlast⟩ := hrest.split
      have hresting : Resting s₂ := by
        cases hpost.1.moved with
        | post hw => exact Or.inl ⟨_, rfl⟩
      by_contra hno
      have hend : Resting s₃ := by
        refine run_resting hb hstop.2.2.1 hcalm₂ hresting fun timedOut => ?_
        cases timedOut
        · exact hearly.2.2.1
        · exact hno
      -- a worker at rest holds no snapshot to post
      cases hlast with
      | cons hpost' _ =>
          cases hpost'.1.moved with
          | post hw =>
              rcases hend with ⟨b, h⟩ | h | ⟨b, h⟩
              · exact absurd (hw.symm.trans h) (by simp)
              · exact absurd (hw.symm.trans h) (by simp)
              · exact absurd (hw.symm.trans h) (by simp)

/-- Two updates, the second behind the debounce of the first. -/
def politeRun : List Event :=
  [.update 1, .enter, .post, .answer true, .rest, .rested true, .update 2, .enter, .post]

theorem publisher_debounced_polite :
    (∃ s, Run (QuietStep .c) start politeRun s) ∧ .stop ∉ politeRun ∧ Debounced politeRun := by
  have hrun : ∃ s, Run (QuietStep .c) start politeRun s := by
    refine ⟨_, .cons ⟨rfl, fun _ => ?_⟩ (.cons ⟨rfl, fun _ => ?_⟩ (.cons ⟨rfl, fun _ => ?_⟩
      (.cons ⟨rfl, fun _ => ?_⟩ (.cons ⟨rfl, fun _ => ?_⟩ (.cons ⟨rfl, fun _ => ?_⟩
        (.cons ⟨rfl, fun _ => ?_⟩ (.cons ⟨rfl, fun _ => ?_⟩ (.one ⟨rfl, fun _ => ?_⟩))))))))⟩
    all_goals simp [Undisturbed, AtRest, start]
  have hstop : .stop ∉ politeRun := by decide
  obtain ⟨s, hs⟩ := hrun
  exact ⟨⟨s, hs⟩, hstop, publisher_debounced .c politeRun s hs hstop⟩

/-- An update comes while the C worker is in its debounce. -/
def churnRun : List Event :=
  [.update 1, .enter, .post, .answer true, .rest, .update 2, .rested false, .enter, .post]

/-- The update ends the wait, and the worker posts again at once. -/
theorem churn_not_debounced :
    ¬ ∀ k es s, Run (Step k) start es s → .stop ∉ es → Debounced es := by
  intro hall
  have hrun : ∃ s, replay .c start churnRun = some s := ⟨_, rfl⟩
  obtain ⟨s, hs⟩ := hrun
  exact (hall .c churnRun s (run_of_replay hs) (by decide)).1 (by decide)

end SharkNetplay.Lobby
