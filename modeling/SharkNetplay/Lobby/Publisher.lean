import SharkNetplay.Lib.Run

/-!
# The lobby publisher

The worker thread, the threads that call `update` and `shutdown`, and the flags they
share, for the Python class and for `lobby.c`. Every critical section is one step, and so
are the begin and the end of a POST.

## Implementation notes

The two publishers are one transition function with the implementation as a parameter.
They differ in what an update wakes: the Python worker rests on an event of its own, the
C worker rests on the condition variable every update broadcasts on. A POST is its two
fields that change, the other fields being fixed at the start.
-/

namespace SharkNetplay.Lobby

open Lib

/-- The two publishers. -/
inductive Impl
  | python
  | c
  deriving DecidableEq

/-- What a POST says: the player count and the status. -/
structure Body where
  count : Int
  offline : Bool
  deriving DecidableEq

/-- Where the worker thread is. -/
inductive Worker
  /-- At the head of its loop, before the lock. -/
  | top
  /-- In the wait of its loop; it has been signalled or not. -/
  | idle (signalled : Bool)
  /-- With a snapshot, the lock released. -/
  | holding (b : Body)
  | posting (b : Body)
  /-- After the POST, before the debounce. -/
  | posted
  /-- In the debounce wait; it has been signalled or not. -/
  | resting (signalled : Bool)
  | exited
  deriving DecidableEq

/-- Where the thread that calls `shutdown` is. -/
inductive Caller
  | live
  /-- After the critical section of the Python `shutdown`. -/
  | stopped (b : Body)
  | joining (b : Body)
  /-- After the join, which ran into its timeout or not. -/
  | finishing (b : Body) (late : Bool)
  | posting (b : Body) (late : Bool)
  | done (late : Bool)
  deriving DecidableEq

/-- The shared fields, the positions of the threads, and the POST attempts so far. -/
structure Publisher where
  count : Int
  offline : Bool
  dirty : Bool
  stopping : Bool
  stopEvt : Bool
  failures : Nat
  worker : Worker
  caller : Caller
  attempts : List Body
  deriving DecidableEq

/-- The publisher when its worker has been started. -/
def start : Publisher where
  count := 0
  offline := false
  dirty := false
  stopping := false
  stopEvt := false
  failures := 0
  worker := .top
  caller := .live
  attempts := []

/-- The steps of the threads, with the choices of the surroundings. -/
inductive Event
  | update (n : Int)
  /-- The worker takes the lock at the head of its loop. -/
  | enter
  /-- The wait of the loop returns. -/
  | wake (timedOut : Bool)
  | post
  | answer (ok : Bool)
  /-- The worker comes to its debounce. -/
  | rest
  /-- The debounce wait returns. -/
  | rested (timedOut : Bool)
  /-- A condition variable wakes without a signal. -/
  | spurious
  | stop
  /-- `self._stop_evt.set()`. -/
  | setStopEvt
  | join
  | joinTimeout
  | finalPost
  | finalAnswer (ok : Bool)
  deriving DecidableEq

/-- Who a signal on the condition variable wakes. -/
def notify (k : Impl) : Worker → Worker
  | .idle _ => .idle true
  | .resting signalled => .resting (signalled || k = .c)
  | w => w

/-- Who the debounce event of the Python publisher wakes. -/
def wakeResting : Worker → Worker
  | .resting _ => .resting true
  | w => w

/-- The loop's critical section, from the test of its `while` on. -/
def check (s : Publisher) : Publisher :=
  if !s.dirty && !s.stopping then { s with worker := .idle false }
  else
    let s := { s with dirty := false }
    if s.stopping then { s with worker := .exited }
    else { s with worker := .holding ⟨s.count, s.offline⟩ }

/-- The critical section of `shutdown`. -/
def stop (k : Impl) (s : Publisher) : Publisher :=
  let s := { s with stopping := true, offline := true, worker := notify k s.worker }
  match k with
  | .python => { s with caller := .stopped ⟨s.count, true⟩ }
  | .c => { s with stopEvt := true, caller := .joining ⟨s.count, true⟩ }

/-- One step; `none` when the thread is not where the step starts. -/
def step (k : Impl) (s : Publisher) : Event → Option Publisher
  | .update n =>
    if s.stopping then some s
    else some { s with count := n, dirty := true, worker := notify k s.worker }
  | .enter =>
    match s.worker with
    | .top => some (check s)
    | _ => none
  | .wake timedOut =>
    match s.worker with
    | .idle signalled =>
      -- a wait that ran into the keepalive marks the entry dirty
      if timedOut then some (check { s with dirty := true })
      else if signalled then some (check s)
      else none
    | _ => none
  | .post =>
    match s.worker with
    | .holding b => some { s with worker := .posting b, attempts := s.attempts ++ [b] }
    | _ => none
  | .answer ok =>
    match s.worker with
    | .posting _ =>
      some { s with worker := .posted, failures := if ok then s.failures else s.failures + 1 }
    | _ => none
  | .rest =>
    match s.worker with
    | .posted => some { s with worker := if s.stopEvt then .top else .resting false }
    | _ => none
  | .rested timedOut =>
    match s.worker with
    | .resting signalled =>
      if timedOut || signalled then some { s with worker := .top } else none
    | _ => none
  | .spurious =>
    match k with
    | .python => none
    | .c => some { s with worker := notify .c s.worker }
  | .stop =>
    match s.caller with
    | .live => some (stop k s)
    | _ => none
  | .setStopEvt =>
    match s.caller with
    | .stopped b =>
      some { s with stopEvt := true, caller := .joining b, worker := wakeResting s.worker }
    | _ => none
  | .join =>
    match s.caller with
    | .joining b => if s.worker = .exited then some { s with caller := .finishing b false } else none
    | _ => none
  | .joinTimeout =>
    match s.caller with
    | .joining b => if s.worker = .exited then none else some { s with caller := .finishing b true }
    | _ => none
  | .finalPost =>
    match s.caller with
    | .finishing b late =>
      some { s with caller := .posting b late, attempts := s.attempts ++ [b] }
    | _ => none
  | .finalAnswer ok =>
    match s.caller with
    | .posting _ late =>
      -- `lobby.c` leaks the handle after a join that timed out, its count with it
      some { s with
        caller := .done late
        failures := if ok || (late && k = .c) then s.failures else s.failures + 1 }
    | _ => none

/-- The steps of a publisher, as a relation. -/
def Step (k : Impl) (e : Event) (s t : Publisher) : Prop := step k s e = some t

instance (k : Impl) (e : Event) (s t : Publisher) : Decidable (Step k e s t) :=
  inferInstanceAs (Decidable (_ = _))

/-- The state after a list of steps. -/
def replay (k : Impl) : Publisher → List Event → Option Publisher
  | s, [] => some s
  | s, e :: es =>
    match step k s e with
    | some t => replay k t es
    | none => none

theorem run_of_replay {k : Impl} {s t : Publisher} {es : List Event}
    (h : replay k s es = some t) : Run (Step k) s es t := by
  induction es generalizing s with
  | nil =>
      cases h
      exact .nil _
  | cons e es ih =>
      unfold replay at h
      cases hstep : step k s e with
      | none =>
          rw [hstep] at h
          exact absurd h (by simp)
      | some u =>
          rw [hstep] at h
          exact .cons hstep (ih h)

/-! ## What a step can do -/

/-- The steps, branch by branch. -/
inductive Moved (k : Impl) (s : Publisher) : Event → Publisher → Prop
  | refused (n : Int) (hstop : s.stopping = true) : Moved k s (.update n) s
  | update (n : Int) (hstop : s.stopping = false) :
    Moved k s (.update n) { s with count := n, dirty := true, worker := notify k s.worker }
  | enter (hw : s.worker = .top) : Moved k s .enter (check s)
  | keepalive {signalled : Bool} (hw : s.worker = .idle signalled) :
    Moved k s (.wake true) (check { s with dirty := true })
  | woken (hw : s.worker = .idle true) : Moved k s (.wake false) (check s)
  | post {b : Body} (hw : s.worker = .holding b) :
    Moved k s .post { s with worker := .posting b, attempts := s.attempts ++ [b] }
  | answer {b : Body} (ok : Bool) (hw : s.worker = .posting b) :
    Moved k s (.answer ok)
      { s with worker := .posted, failures := if ok then s.failures else s.failures + 1 }
  | skip (hw : s.worker = .posted) (hevt : s.stopEvt = true) :
    Moved k s .rest { s with worker := .top }
  | rest (hw : s.worker = .posted) (hevt : s.stopEvt = false) :
    Moved k s .rest { s with worker := .resting false }
  | rested {signalled : Bool} (timedOut : Bool) (hw : s.worker = .resting signalled)
    (hwoken : (timedOut || signalled) = true) :
    Moved k s (.rested timedOut) { s with worker := .top }
  | spurious (hk : k = .c) : Moved k s .spurious { s with worker := notify .c s.worker }
  | stop (hc : s.caller = .live) : Moved k s .stop (stop k s)
  | setStopEvt {b : Body} (hc : s.caller = .stopped b) :
    Moved k s .setStopEvt
      { s with stopEvt := true, caller := .joining b, worker := wakeResting s.worker }
  | join {b : Body} (hc : s.caller = .joining b) (hw : s.worker = .exited) :
    Moved k s .join { s with caller := .finishing b false }
  | joinTimeout {b : Body} (hc : s.caller = .joining b) (hw : s.worker ≠ .exited) :
    Moved k s .joinTimeout { s with caller := .finishing b true }
  | finalPost {b : Body} {late : Bool} (hc : s.caller = .finishing b late) :
    Moved k s .finalPost { s with caller := .posting b late, attempts := s.attempts ++ [b] }
  | finalAnswer {b : Body} {late : Bool} (ok : Bool) (hc : s.caller = .posting b late) :
    Moved k s (.finalAnswer ok) { s with
      caller := .done late
      failures := if ok || (late && k = .c) then s.failures else s.failures + 1 }

theorem Step.moved {k : Impl} {s t : Publisher} {e : Event} (h : Step k e s t) :
    Moved k s e t := by
  unfold Step step at h
  cases e with
  | update n =>
      dsimp only at h
      split_ifs at h with hstop
      · cases h
        exact .refused n hstop
      · cases h
        exact .update n (Bool.eq_false_iff.mpr hstop)
  | enter =>
      dsimp only at h
      split at h
      · next hw =>
          cases h
          exact .enter hw
      · cases h
  | wake timedOut =>
      dsimp only at h
      split at h
      · next signalled hw =>
          split_ifs at h with htimed hsignalled
          · cases h
            rw [htimed]
            exact .keepalive hw
          · cases h
            rw [Bool.eq_false_iff.mpr htimed]
            exact .woken (hsignalled ▸ hw)
      · cases h
  | post =>
      dsimp only at h
      split at h
      · next b hw =>
          cases h
          exact .post hw
      · cases h
  | answer ok =>
      dsimp only at h
      split at h
      · next b hw =>
          cases h
          exact .answer ok hw
      · cases h
  | rest =>
      dsimp only at h
      split at h
      · next hw =>
          cases h
          by_cases hevt : s.stopEvt = true
          · rw [if_pos hevt]
            exact .skip hw hevt
          · rw [if_neg hevt]
            exact .rest hw (Bool.eq_false_iff.mpr hevt)
      · cases h
  | rested timedOut =>
      dsimp only at h
      split at h
      · next signalled hw =>
          split_ifs at h with hwoken
          cases h
          exact .rested timedOut hw hwoken
      · cases h
  | spurious =>
      dsimp only at h
      split at h
      · cases h
      · cases h
        exact .spurious rfl
  | stop =>
      dsimp only at h
      split at h
      · next hc =>
          cases h
          exact .stop hc
      · cases h
  | setStopEvt =>
      dsimp only at h
      split at h
      · next b hc =>
          cases h
          exact .setStopEvt hc
      · cases h
  | join =>
      dsimp only at h
      split at h
      · next b hc =>
          split_ifs at h with hw
          cases h
          exact .join hc hw
      · cases h
  | joinTimeout =>
      dsimp only at h
      split at h
      · next b hc =>
          split_ifs at h with hw
          cases h
          exact .joinTimeout hc hw
      · cases h
  | finalPost =>
      dsimp only at h
      split at h
      · next b late hc =>
          cases h
          exact .finalPost hc
      · cases h
  | finalAnswer ok =>
      dsimp only at h
      split at h
      · next b late hc =>
          cases h
          exact .finalAnswer ok hc
      · cases h

/-! ## What holds in every state -/

namespace Caller

/-- The body the caller is to POST, or posts. -/
def body : Caller → Option Body
  | .live | .done _ => none
  | .stopped b | .joining b | .finishing b _ | .posting b _ => some b

/-- The join has returned before its timeout. -/
def joined : Caller → Bool
  | .finishing _ late | .posting _ late | .done late => !late
  | _ => false

/-- The join has run into its timeout. -/
def late : Caller → Bool
  | .finishing _ late | .posting _ late | .done late => late
  | _ => false

/-- The final POST has begun. -/
def posted : Caller → Bool
  | .posting _ _ | .done _ => true
  | _ => false

end Caller

/-- What holds in every state of a publisher. -/
structure Inv (s : Publisher) : Prop where
  offline : s.offline = s.stopping
  live : s.caller = .live ↔ s.stopping = false
  held : ∀ b, s.worker = .holding b → s.stopping = false →
    b.offline = false ∧ (s.dirty = true ∨ b.count = s.count)
  body : ∀ b, s.caller.body = some b → b = ⟨s.count, true⟩
  exited : s.caller.joined = true → s.worker = .exited
  last : s.caller.joined = true → s.caller.posted = true →
    s.attempts.getLast? = some ⟨s.count, true⟩

theorem start_inv : Inv start := by
  refine ⟨rfl, by decide, ?_, ?_, ?_, ?_⟩
  all_goals simp [start, Caller.body, Caller.joined]

variable {k : Impl} {s t : Publisher} {e : Event} {es : List Event}

/-- The worker's own moves: they change its position, the dirty flag and the failures. -/
structure Moves (s t : Publisher) : Prop where
  count : t.count = s.count
  offline : t.offline = s.offline
  stopping : t.stopping = s.stopping
  caller : t.caller = s.caller
  attempts : t.attempts = s.attempts
  exited : s.worker = .exited → t.worker = .exited

theorem Inv.moves (hi : Inv s) (h : Moves s t)
    (hheld : ∀ b, t.worker = .holding b → s.stopping = false →
      b.offline = false ∧ (t.dirty = true ∨ b.count = s.count)) : Inv t where
  offline := by rw [h.offline, h.stopping, hi.offline]
  live := by rw [h.caller, h.stopping, hi.live]
  held b hb hstop := by
    rw [h.count]
    exact hheld b hb (h.stopping ▸ hstop)
  body b hb := by
    rw [h.count]
    exact hi.body b (h.caller ▸ hb)
  exited hj := h.exited (hi.exited (h.caller ▸ hj))
  last hj hp := by
    rw [h.attempts, h.count]
    exact hi.last (h.caller ▸ hj) (h.caller ▸ hp)

theorem check_moves (hw : s.worker ≠ .exited) : Moves s (check s) := by
  unfold check
  dsimp only
  split_ifs
  all_goals exact ⟨rfl, rfl, rfl, rfl, rfl, fun h => absurd h hw⟩

/-- A snapshot is taken of the fields as they are. -/
theorem check_holding {b : Body} (h : (check s).worker = .holding b) :
    b = ⟨s.count, s.offline⟩ ∧ (check s).dirty = false := by
  unfold check at h ⊢
  dsimp only at h ⊢
  split_ifs at h ⊢
  cases h
  exact ⟨rfl, rfl⟩

theorem Inv.check (hi : Inv s) (hw : s.worker ≠ .exited) : Inv (check s) := by
  apply hi.moves (check_moves hw)
  intro b hb hstop
  rw [(check_holding hb).1]
  exact ⟨hi.offline.trans hstop, Or.inr rfl⟩

theorem notify_exited {w : Worker} (h : w = .exited) : notify k w = .exited := by
  rw [h]
  rfl

theorem notify_holding {w : Worker} {b : Body} (h : notify k w = .holding b) :
    w = .holding b := by
  cases w
  case holding => exact h
  all_goals exact absurd h (by simp [notify])

theorem Inv.update (hi : Inv s) (hstop : s.stopping = false) (n : Int) :
    Inv { s with count := n, dirty := true, worker := notify k s.worker } := by
  have hlive := hi.live.mpr hstop
  refine ⟨hi.offline, hi.live, fun b hb _ => ?_, fun b hb => ?_, fun hj => ?_, fun hj => ?_⟩
  · exact ⟨(hi.held b (notify_holding hb) hstop).1, Or.inl rfl⟩
  · exact absurd hb (by simp [hlive, Caller.body])
  · exact absurd hj (by simp [hlive, Caller.joined])
  · exact absurd hj (by simp [hlive, Caller.joined])

theorem stop_inv : Inv (stop k s) := by
  unfold stop
  cases k
  all_goals
    refine ⟨rfl, by simp, fun _ _ h => absurd h (by simp), fun b hb => ?_, ?_, ?_⟩
    · exact (Option.some.inj hb).symm
    · exact fun h => absurd h (by simp [Caller.joined])
    · exact fun h => absurd h (by simp [Caller.joined])

theorem Inv.post (hi : Inv s) {b : Body} (hw : s.worker = .holding b) :
    Inv { s with worker := .posting b, attempts := s.attempts ++ [b] } := by
  have hnot : s.caller.joined ≠ true := by
    intro hj
    rw [hi.exited hj] at hw
    exact absurd hw (by simp)
  exact ⟨hi.offline, hi.live, fun _ h => absurd h (by simp), hi.body, fun h => absurd h hnot,
    fun h => absurd h hnot⟩

/-- The caller moves on. -/
theorem Inv.caller (hi : Inv s) (hbefore : s.caller ≠ .live) (hafter : t.caller ≠ .live)
    (hcount : t.count = s.count) (hoffline : t.offline = s.offline)
    (hstopping : t.stopping = s.stopping)
    (hbody : ∀ b, t.caller.body = some b → s.caller.body = some b)
    (hjoined : t.caller.joined = true → t.worker = .exited)
    (hlast : t.caller.joined = true → t.caller.posted = true →
      t.attempts.getLast? = some ⟨s.count, true⟩) : Inv t := by
  have hstop : t.stopping ≠ false := fun h => hbefore (hi.live.mpr (hstopping ▸ h))
  refine ⟨?_, ⟨fun h => absurd h hafter, fun h => absurd h hstop⟩, fun b _ h => absurd h hstop,
    fun b hb => ?_, hjoined, fun hj hp => ?_⟩
  · rw [hoffline, hstopping, hi.offline]
  · rw [hcount]
    exact hi.body b (hbody b hb)
  · rw [hcount]
    exact hlast hj hp

theorem Inv.step (hi : Inv s) (h : Step k e s t) : Inv t := by
  cases h.moved with
  | refused => exact hi
  | update n hstop => exact hi.update hstop n
  | enter hw => exact hi.check (by rw [hw]; simp)
  | keepalive hw =>
      have hdirty : Inv { s with dirty := true } :=
        hi.moves ⟨rfl, rfl, rfl, rfl, rfl, id⟩ fun b hb hstop =>
          ⟨(hi.held b hb hstop).1, Or.inl rfl⟩
      exact hdirty.check (by rw [hw]; simp)
  | woken hw => exact hi.check (by rw [hw]; simp)
  | post hw => exact hi.post hw
  | answer ok hw =>
      exact hi.moves ⟨rfl, rfl, rfl, rfl, rfl, fun hx => absurd (hw.symm.trans hx) (by simp)⟩
        fun _ hb => absurd hb (by simp)
  | skip hw =>
      exact hi.moves ⟨rfl, rfl, rfl, rfl, rfl, fun hx => absurd (hw.symm.trans hx) (by simp)⟩
        fun _ hb => absurd hb (by simp)
  | rest hw =>
      exact hi.moves ⟨rfl, rfl, rfl, rfl, rfl, fun hx => absurd (hw.symm.trans hx) (by simp)⟩
        fun _ hb => absurd hb (by simp)
  | rested timedOut hw =>
      exact hi.moves ⟨rfl, rfl, rfl, rfl, rfl, fun hx => absurd (hw.symm.trans hx) (by simp)⟩
        fun _ hb => absurd hb (by simp)
  | spurious =>
      exact hi.moves ⟨rfl, rfl, rfl, rfl, rfl, notify_exited⟩
        fun b hb => hi.held b (notify_holding hb)
  | stop => exact stop_inv
  | setStopEvt hc =>
      exact hi.caller (by rw [hc]; simp) (by simp) rfl rfl rfl (by rw [hc]; exact fun _ hb => hb)
        (fun hj => absurd hj (by simp [Caller.joined]))
        fun hj => absurd hj (by simp [Caller.joined])
  | join hc hw =>
      exact hi.caller (by rw [hc]; simp) (by simp) rfl rfl rfl (by rw [hc]; exact fun _ hb => hb)
        (fun _ => hw) fun _ hp => absurd hp (by simp [Caller.posted])
  | joinTimeout hc =>
      exact hi.caller (by rw [hc]; simp) (by simp) rfl rfl rfl (by rw [hc]; exact fun _ hb => hb)
        (fun hj => absurd hj (by simp [Caller.joined]))
        fun hj => absurd hj (by simp [Caller.joined])
  | finalPost hc =>
      have hb := hi.body _ (by rw [hc]; rfl)
      refine hi.caller (by rw [hc]; simp) (by simp) rfl rfl rfl (by rw [hc]; exact fun _ hb => hb)
        (fun hj => hi.exited ?_) fun _ _ => ?_
      · rw [hc]
        exact hj
      · rw [hb]
        exact List.getLast?_concat
  | finalAnswer ok hc =>
      have hjoined := congrArg Caller.joined hc
      exact hi.caller (by rw [hc]; simp) (by simp) rfl rfl rfl
        (fun _ hb => absurd hb (by simp [Caller.body])) (fun hj => hi.exited (hjoined.trans hj))
        fun hj _ => hi.last (hjoined.trans hj) (by rw [hc]; rfl)

theorem run_inv (h : Run (Step k) start es s) : Inv s :=
  h.invariant (fun _ _ _ hst hi => hi.step hst) start_inv

/-! ## What a run has done -/

/-- The newest count accepted before shutdown, `n` before the first. -/
def newest (n : Int) : List Event → Int
  | [] => n
  | .update m :: es => newest m es
  | .stop :: _ => n
  | _ :: es => newest n es

/-- The POST attempts a run began. -/
def begun (es : List Event) : Nat := es.countP fun e => e matches .post | .finalPost

/-- The POST attempts a run saw the end of. -/
def ended (es : List Event) : Nat := es.countP fun e => e matches .answer _ | .finalAnswer _

/-- The POSTs in flight. -/
def inFlight (s : Publisher) : Nat :=
  (if s.worker matches .posting _ then 1 else 0) + (if s.caller matches .posting _ _ then 1 else 0)

/-- What one step does to the count and to the stop flag. -/
structure Flags (e : Event) (s t : Publisher) : Prop where
  stopping : t.stopping = (s.stopping || e = .stop)
  count : t.count = if s.stopping then s.count else newest s.count [e]

@[simp] theorem check_count (s : Publisher) : (check s).count = s.count := by
  unfold check
  dsimp only
  split_ifs <;> rfl

@[simp] theorem check_stopping (s : Publisher) : (check s).stopping = s.stopping := by
  unfold check
  dsimp only
  split_ifs <;> rfl

@[simp] theorem check_caller (s : Publisher) : (check s).caller = s.caller := by
  unfold check
  dsimp only
  split_ifs <;> rfl

theorem step_flags (h : Step k e s t) : Flags e s t := by
  cases h.moved with
  | refused n hstop => exact ⟨by simp, by simp [hstop]⟩
  | update n hstop => exact ⟨by simp, by simp [hstop, newest]⟩
  | stop => constructor <;> cases k <;> simp [stop, newest]
  | _ => constructor <;> simp [newest]

/-- What one step does to the marks of the caller. -/
structure Marks (e : Event) (s t : Publisher) : Prop where
  joined : t.caller.joined = (s.caller.joined || e = .join)
  late : t.caller.late = (s.caller.late || e = .joinTimeout)
  posted : t.caller.posted = (s.caller.posted || e = .finalPost)

theorem step_marks (h : Step k e s t) : Marks e s t := by
  cases h.moved with
  | stop hc => cases k <;> constructor <;> simp [stop, hc, Caller.joined, Caller.late, Caller.posted]
  | setStopEvt hc => constructor <;> simp [hc, Caller.joined, Caller.late, Caller.posted]
  | join hc => constructor <;> simp [hc, Caller.joined, Caller.late, Caller.posted]
  | joinTimeout hc => constructor <;> simp [hc, Caller.joined, Caller.late, Caller.posted]
  | finalPost hc => constructor <;> simp [hc, Caller.joined, Caller.late, Caller.posted]
  | finalAnswer ok hc => constructor <;> simp [hc, Caller.joined, Caller.late, Caller.posted]
  | _ => constructor <;> simp

theorem run_stopping (h : Run (Step k) s es t) :
    t.stopping = true ↔ s.stopping = true ∨ .stop ∈ es := by
  induction h with
  | nil => simp
  | cons hst _ ih =>
      rw [ih, (step_flags hst).stopping, Bool.or_eq_true, decide_eq_true_eq, or_assoc, @eq_comm _ _ (_ : Event),
        List.mem_cons]

/-- The count is the newest one accepted. -/
theorem run_count (h : Run (Step k) s es t) :
    t.count = if s.stopping then s.count else newest s.count es := by
  induction h with
  | nil => simp [newest]
  | @cons s u t e es hst _ ih =>
      obtain ⟨hstop, hcount⟩ := step_flags hst
      rw [ih, hcount, hstop]
      cases hs : s.stopping with
      | true => simp
      | false => cases e <;> simp [newest]

theorem run_joined (h : Run (Step k) s es t) :
    t.caller.joined = true ↔ s.caller.joined = true ∨ .join ∈ es := by
  induction h with
  | nil => simp
  | cons hst _ ih =>
      rw [ih, (step_marks hst).joined, Bool.or_eq_true, decide_eq_true_eq, or_assoc, @eq_comm _ _ (_ : Event),
        List.mem_cons]

theorem run_late (h : Run (Step k) s es t) :
    t.caller.late = true ↔ s.caller.late = true ∨ .joinTimeout ∈ es := by
  induction h with
  | nil => simp
  | cons hst _ ih =>
      rw [ih, (step_marks hst).late, Bool.or_eq_true, decide_eq_true_eq, or_assoc, @eq_comm _ _ (_ : Event),
        List.mem_cons]

theorem run_posted (h : Run (Step k) s es t) :
    t.caller.posted = true ↔ s.caller.posted = true ∨ .finalPost ∈ es := by
  induction h with
  | nil => simp
  | cons hst _ ih =>
      rw [ih, (step_marks hst).posted, Bool.or_eq_true, decide_eq_true_eq, or_assoc, @eq_comm _ _ (_ : Event),
        List.mem_cons]

/-! ## POSTs in flight -/

@[simp] theorem notify_posting (k : Impl) (w : Worker) :
    (notify k w matches .posting _) = (w matches .posting _) := by
  cases w <;> rfl

@[simp] theorem wakeResting_posting (w : Worker) :
    (wakeResting w matches .posting _) = (w matches .posting _) := by
  cases w <;> rfl

theorem check_posting (s : Publisher) : ((check s).worker matches .posting _) = false := by
  unfold check
  dsimp only
  split_ifs <;> rfl

theorem step_flight (h : Step k e s t) : begun [e] + inFlight s = ended [e] + inFlight t := by
  cases h.moved with
  | refused => simp [begun, ended]
  | stop hc => cases k <;> simp [begun, ended, inFlight, stop, hc]
  | enter hw => simp [begun, ended, inFlight, hw, check_posting]
  | keepalive hw => simp [begun, ended, inFlight, hw, check_posting]
  | woken hw => simp [begun, ended, inFlight, hw, check_posting]
  | update => simp [begun, ended, inFlight]
  | post hw => simp [begun, ended, inFlight, hw]
  | answer ok hw => simp [begun, ended, inFlight, hw]
  | skip hw => simp [begun, ended, inFlight, hw]
  | rest hw => simp [begun, ended, inFlight, hw]
  | rested timedOut hw => simp [begun, ended, inFlight, hw]
  | spurious => simp [begun, ended, inFlight]
  | setStopEvt hc => simp [begun, ended, inFlight, hc]
  | join hc => simp [begun, ended, inFlight, hc]
  | joinTimeout hc => simp [begun, ended, inFlight, hc]
  | finalPost hc => simp [begun, ended, inFlight, hc, Nat.add_comm]
  | finalAnswer ok hc => simp [begun, ended, inFlight, hc, Nat.add_comm]

/-- What began and has not ended is in flight. -/
theorem run_flight (h : Run (Step k) s es t) : begun es + inFlight s = ended es + inFlight t := by
  induction h with
  | nil => rfl
  | @cons s u t e es hst _ ih =>
      have hone := step_flight hst
      have hb : begun (e :: es) = begun [e] + begun es := by
        rw [← List.singleton_append, begun, List.countP_append]
        rfl
      have hd : ended (e :: es) = ended [e] + ended es := by
        rw [← List.singleton_append, ended, List.countP_append]
        rfl
      omega

/-- Two POSTs are in flight only after a join that timed out. -/
theorem Inv.flight (hi : Inv s) (hlate : s.caller.late = false) : inFlight s ≤ 1 := by
  unfold inFlight
  cases hc : s.caller with
  | posting b late =>
      rw [hc] at hlate
      have hexit : s.worker = .exited := hi.exited (by
        rw [hc]
        exact congrArg Bool.not hlate)
      rw [hexit]
      simp
  | _ => split <;> simp

/-! ## No update is lost -/

/-- The newest count is still to be taken, or held, or was in the latest POST attempt. -/
def Carried (s : Publisher) : Prop :=
  s.dirty = true ∨ s.worker = .holding ⟨s.count, false⟩ ∨
    s.attempts.getLast? = some ⟨s.count, false⟩

/-- A move that neither takes nor posts a snapshot. -/
theorem Carried.moves (h : Carried s) (hm : Moves s t) (hdirty : t.dirty = s.dirty)
    (hheld : ∀ b, s.worker = .holding b → t.worker = .holding b) : Carried t := by
  unfold Carried
  rw [hdirty, hm.count, hm.attempts]
  exact h.imp_right (Or.imp_left (hheld _))

/-- The critical section of the loop takes what is dirty. -/
theorem Carried.check (hstop : s.stopping = false) (hoffline : s.offline = false)
    (hw : ∀ b, s.worker ≠ .holding b) (h : Carried s) : Carried (check s) := by
  unfold Lobby.check
  dsimp only
  cases hd : s.dirty with
  | true =>
      rw [if_neg (by simp), if_neg (by simp [hstop])]
      exact Or.inr (Or.inl (by rw [hoffline]))
  | false =>
      rw [if_pos (by simp [hstop])]
      rcases h with h | h | h
      · exact absurd (hd.symm.trans h) (by simp)
      · exact absurd h (hw _)
      · exact Or.inr (Or.inr h)

theorem Carried.step (hi : Inv s) (h : Step k e s t) (hstop : t.stopping = false)
    (hc : Carried s) : Carried t := by
  have hlive : ∀ {c}, s.caller = c → c ≠ .live → s.stopping = false → False := by
    intro c hcaller hne hs
    exact hne (hcaller.symm.trans (hi.live.mpr hs))
  cases h.moved with
  | refused => exact hc
  | update => exact Or.inl rfl
  | enter hw =>
      rw [check_stopping] at hstop
      exact hc.check hstop (hi.offline.trans hstop) fun b hb => absurd (hw.symm.trans hb) (by simp)
  | keepalive hw =>
      rw [check_stopping] at hstop
      have hdirty : Carried { s with dirty := true } := Or.inl rfl
      exact hdirty.check hstop (hi.offline.trans hstop)
        fun b hb => absurd (hw.symm.trans hb) (by simp)
  | woken hw =>
      rw [check_stopping] at hstop
      exact hc.check hstop (hi.offline.trans hstop) fun b hb => absurd (hw.symm.trans hb) (by simp)
  | @post b hw =>
      obtain ⟨hoffline, hcount⟩ := hi.held b hw hstop
      rcases hcount with hd | hcount
      · exact Or.inl hd
      · refine Or.inr (Or.inr ?_)
        show (s.attempts ++ [b]).getLast? = some ⟨s.count, false⟩
        rw [List.getLast?_concat, ← hcount, ← hoffline]
  | answer ok hw =>
      exact hc.moves ⟨rfl, rfl, rfl, rfl, rfl, fun hx => absurd (hw.symm.trans hx) (by simp)⟩ rfl
        fun b hb => absurd (hw.symm.trans hb) (by simp)
  | skip hw =>
      exact hc.moves ⟨rfl, rfl, rfl, rfl, rfl, fun hx => absurd (hw.symm.trans hx) (by simp)⟩ rfl
        fun b hb => absurd (hw.symm.trans hb) (by simp)
  | rest hw =>
      exact hc.moves ⟨rfl, rfl, rfl, rfl, rfl, fun hx => absurd (hw.symm.trans hx) (by simp)⟩ rfl
        fun b hb => absurd (hw.symm.trans hb) (by simp)
  | rested timedOut hw =>
      exact hc.moves ⟨rfl, rfl, rfl, rfl, rfl, fun hx => absurd (hw.symm.trans hx) (by simp)⟩ rfl
        fun b hb => absurd (hw.symm.trans hb) (by simp)
  | spurious =>
      refine hc.moves ⟨rfl, rfl, rfl, rfl, rfl, notify_exited⟩ rfl fun b hb => ?_
      show notify _ s.worker = _
      rw [hb]
      rfl
  | stop => cases k <;> exact absurd hstop (by simp [Lobby.stop])
  | setStopEvt hcaller => exact (hlive hcaller (by simp) hstop).elim
  | join hcaller => exact (hlive hcaller (by simp) hstop).elim
  | joinTimeout hcaller => exact (hlive hcaller (by simp) hstop).elim
  | finalPost hcaller => exact (hlive hcaller (by simp) hstop).elim
  | finalAnswer ok hcaller => exact (hlive hcaller (by simp) hstop).elim

theorem Carried.run (hi : Inv s) (h : Run (Step k) s es t) (hstop : t.stopping = false)
    (hc : Carried s) : Carried t := by
  induction h with
  | nil => exact hc
  | @cons s u t e es hst hrest ih =>
      have hu : u.stopping = false := by
        rw [Bool.eq_false_iff] at hstop ⊢
        exact fun hs => hstop ((run_stopping hrest).mpr (Or.inl hs))
      exact ih (hi.step hst) hstop (hc.step hi hst hu)

/-- From the first update on the newest count is carried, until shutdown. -/
theorem carried (h : Run (Step k) start es s) {n : Int} (hn : .update n ∈ es)
    (hstop : s.stopping = false) : Carried s := by
  obtain ⟨before, after, rfl⟩ := List.append_of_mem hn
  obtain ⟨u, hbefore, hrest⟩ := h.split
  cases hrest with
  | @cons _ v _ _ _ hst hafter =>
      have hiu := run_inv hbefore
      have hv : Carried v := by
        cases hst.moved with
        | refused n hs =>
            have hend := (run_stopping hafter).mpr (Or.inl hs)
            exact absurd (hend.symm.trans hstop) (by simp)
        | update n hs => exact Or.inl rfl
      exact hv.run (hiu.step hst) hafter hstop

/-! ## The publisher's contract -/

/-- No update is lost, POSTs do not overlap unless the join times out, and a publisher
whose join returned ends with the newest count, offline. -/
theorem publisher_contract (k : Impl) (es : List Event) (s : Publisher)
    (h : Run (Step k) start es s) :
    ((∃ n, .update n ∈ es) → .stop ∉ es →
      s.dirty = true ∨ s.worker = .holding ⟨newest 0 es, false⟩ ∨
        s.attempts.getLast? = some ⟨newest 0 es, false⟩) ∧
    (.joinTimeout ∉ es → begun es ≤ ended es + 1) ∧
    (.join ∈ es →
      (.finalPost ∉ es → s.caller = .finishing ⟨newest 0 es, true⟩ false) ∧
      (.finalPost ∈ es → s.attempts.getLast? = some ⟨newest 0 es, true⟩)) := by
  have hi := run_inv h
  have hcount : s.count = newest 0 es := run_count h
  rw [← hcount]
  refine ⟨?_, ?_, ?_⟩
  · rintro ⟨n, hn⟩ hstop
    apply carried h hn
    rw [Bool.eq_false_iff]
    intro hs
    exact ((run_stopping h).mp hs).elim (by simp [start]) hstop
  · intro hlate
    have hflight := run_flight h
    have hstart : inFlight start = 0 := rfl
    have hone := hi.flight (by
      rw [Bool.eq_false_iff]
      intro hl
      exact ((run_late h).mp hl).elim (by simp [start, Caller.late]) hlate)
    omega
  · intro hjoin
    have hj : s.caller.joined = true := (run_joined h).mpr (Or.inr hjoin)
    constructor
    · intro hfinal
      have hp : s.caller.posted ≠ true := by
        intro hp
        exact ((run_posted h).mp hp).elim (by simp [start, Caller.posted]) hfinal
      cases hc : s.caller with
      | finishing b late =>
          have hb := hi.body b (by rw [hc]; rfl)
          rw [hc] at hj
          have hlate : late = false := by simpa [Caller.joined] using hj
          rw [hb, hlate]
      | posting b late => exact absurd (by rw [hc]; rfl) hp
      | done late => exact absurd (by rw [hc]; rfl) hp
      | _ => exact absurd (hc ▸ hj) (by simp [Caller.joined])
    · intro hfinal
      exact hi.last hj ((run_posted h).mpr (Or.inr hfinal))

/-- An update comes while a snapshot is held, and shutdown before it is posted. -/
def stoppedRun : List Event :=
  [.update 3, .enter, .update 2, .stop, .post, .answer true, .rest, .enter, .join, .finalPost]

theorem publisher_contract_stopped :
    ∃ s, Run (Step .c) start stoppedRun s ∧ s.attempts.getLast? = some ⟨2, true⟩ :=
  ⟨_, run_of_replay rfl,
    ((publisher_contract .c stoppedRun _ (run_of_replay rfl)).2.2 (by decide)).2 (by decide)⟩

end SharkNetplay.Lobby
