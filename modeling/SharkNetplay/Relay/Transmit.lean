import Mathlib.Data.List.Infix
import SharkNetplay.Relay.Wire

/-!
# Transmit queues

What both relays do with the bytes queued for one client: `send`, `flush`, and the
interest in room to write that they register with the kernel.

## Implementation notes

A call that a signal interrupts is made again and counts as no outcome. `modify` says
whether the kernel takes a change of the mask (`epoll_ctl`, `selectors.modify`); where
it does not, the exception Python raises is not followed any further.
-/

namespace SharkNetplay.Relay.Transmit

/-- The two relays. -/
inductive Impl
  | python
  | c

/-- A client as its transmit path sees it. -/
structure Link where
  tx : List Nat := []
  dead : Bool := false
  /-- Whether the kernel watches for room to write. -/
  watched : Bool := false
  /-- Whether `armed` has `EPOLLOUT`; in the C relay only. -/
  armed : Bool := false
  /-- What each call on the socket took, oldest first. -/
  taken : List (List Nat) := []
  /-- The frames put into the buffer, oldest first. -/
  accepted : List (List Nat) := []

namespace Link

/-- Whether bytes remain queued. -/
def wants (l : Link) : Bool := !l.tx.isEmpty

/-- The socket takes `n` bytes. -/
def write (n : Nat) (l : Link) : Link :=
  { l with tx := l.tx.drop n, taken := l.taken ++ [l.tx.take n] }

/-- `data` is put behind what is queued. -/
def append (data : List Nat) (l : Link) : Link :=
  { l with tx := l.tx ++ data, accepted := l.accepted ++ [data] }

/-- `drop`, as far as the client itself is concerned. -/
def drop (l : Link) : Link := if l.dead then l else { l with dead := true, watched := false }

end Link

section
variable (impl : Impl) (modify : Link → Bool)

/-- `_update_events` and `update_events`. -/
def updateEvents (l : Link) : Link :=
  match impl with
  | .python =>
    if l.dead then l else if modify l then { l with watched := l.wants } else l
  | .c =>
    if l.dead || l.wants == l.armed then l
    else if modify l then { l with watched := l.wants, armed := l.wants } else l

/-- `flush`. Calls beyond the listed outcomes take everything. -/
def flush : List SendResult → Link → Link
  | [], l => updateEvents impl modify (if l.wants then l.write l.tx.length else l)
  | outcome :: outcomes, l =>
    if l.wants then
      match outcome with
      | .wrote n => if n = 0 then l.drop else flush outcomes (l.write n)
      | .blocked => updateEvents impl modify l
      | .failed => l.drop
    else updateEvents impl modify l

/-- `send` and `send_raw`. -/
def send (data : List Nat) (outcomes : List SendResult) (l : Link) : Link :=
  if l.dead then l
  else if maxTxBacklog < l.tx.length + data.length then l.drop
  else flush impl modify outcomes (l.append data)

/-- What befalls the queue of a client. -/
inductive Op
  | send (data : List Nat) (outcomes : List SendResult)
  /-- The loop finds the socket writable. -/
  | flush (outcomes : List SendResult)
  /-- The client is given up for another reason. -/
  | drop

/-- One operation; the loop serves live clients only. -/
def apply (l : Link) : Op → Link
  | .send data outcomes => send impl modify data outcomes l
  | .flush outcomes => if l.dead then l else flush impl modify outcomes l
  | .drop => l.drop

/-- The queue of a client after some operations. -/
def run (ops : List Op) : Link := ops.foldl (apply impl modify) {}

end

/-! ## What every step keeps -/

variable {impl : Impl} {modify : Link → Bool} {l : Link}

/-- What the socket took and what is queued make up the frames accepted. -/
structure Whole (l : Link) : Prop where
  whole : l.taken.flatten ++ l.tx = l.accepted.flatten
  bound : l.tx.length ≤ maxTxBacklog

/-- The relay knows the mask the kernel has. -/
def Known (impl : Impl) (l : Link) : Prop :=
  match impl with
  | .python => True
  | .c => l.dead = false → l.armed = l.watched

/-- The kernel watches for room to write exactly if bytes remain queued. -/
def Watched (l : Link) : Prop := l.dead = false → l.watched = l.wants

/-- The kernel takes every change for a descriptor that is registered. -/
def Takes (modify : Link → Bool) : Prop := ∀ l, l.dead = false → modify l = true

theorem whole_write (h : Whole l) (n : Nat) : Whole (l.write n) where
  whole := by
    show (l.taken ++ [l.tx.take n]).flatten ++ l.tx.drop n = l.accepted.flatten
    rw [List.flatten_append, List.flatten_singleton, List.append_assoc, List.take_append_drop]
    exact h.whole
  bound := by
    have hle : (l.tx.drop n).length ≤ l.tx.length := by
      rw [List.length_drop]
      exact Nat.sub_le _ _
    exact le_trans hle h.bound

theorem whole_append (h : Whole l) {data : List Nat}
    (hfits : ¬maxTxBacklog < l.tx.length + data.length) : Whole (l.append data) where
  whole := by
    show l.taken.flatten ++ (l.tx ++ data) = (l.accepted ++ [data]).flatten
    rw [List.flatten_append, List.flatten_singleton, ← List.append_assoc, h.whole]
  bound := by
    show (l.tx ++ data).length ≤ maxTxBacklog
    rw [List.length_append]
    exact Nat.le_of_not_lt hfits

theorem drop_dead (l : Link) : l.drop.dead = true := by
  unfold Link.drop
  split
  · assumption
  · rfl

theorem drop_fields (l : Link) :
    l.drop.tx = l.tx ∧ l.drop.taken = l.taken ∧ l.drop.accepted = l.accepted := by
  unfold Link.drop
  split
  · exact ⟨rfl, rfl, rfl⟩
  · exact ⟨rfl, rfl, rfl⟩

theorem updateEvents_fields (impl : Impl) (modify : Link → Bool) (l : Link) :
    (updateEvents impl modify l).tx = l.tx ∧ (updateEvents impl modify l).dead = l.dead ∧
      (updateEvents impl modify l).taken = l.taken ∧
      (updateEvents impl modify l).accepted = l.accepted := by
  cases impl with
  | python =>
      unfold updateEvents
      dsimp only
      split
      · exact ⟨rfl, rfl, rfl, rfl⟩
      · split
        · exact ⟨rfl, rfl, rfl, rfl⟩
        · exact ⟨rfl, rfl, rfl, rfl⟩
  | c =>
      unfold updateEvents
      dsimp only
      split
      · exact ⟨rfl, rfl, rfl, rfl⟩
      · split
        · exact ⟨rfl, rfl, rfl, rfl⟩
        · exact ⟨rfl, rfl, rfl, rfl⟩

theorem Whole.of_fields {l' : Link} (h : Whole l) (htx : l'.tx = l.tx)
    (htaken : l'.taken = l.taken) (haccepted : l'.accepted = l.accepted) : Whole l' where
  whole := by
    rw [htx, htaken, haccepted]
    exact h.whole
  bound := by
    rw [htx]
    exact h.bound

theorem Whole.drop (h : Whole l) : Whole l.drop :=
  h.of_fields (drop_fields l).1 (drop_fields l).2.1 (drop_fields l).2.2

theorem Whole.updateEvents (h : Whole l) : Whole (updateEvents impl modify l) :=
  h.of_fields (updateEvents_fields impl modify l).1 (updateEvents_fields impl modify l).2.2.1
    (updateEvents_fields impl modify l).2.2.2

/-- A dead client is not watched for. -/
theorem watched_of_dead (h : l.dead = true) : Watched l := fun hlive =>
  absurd (h.symm.trans hlive) (by simp)

theorem known_of_dead (h : l.dead = true) : Known impl l := by
  cases impl with
  | python => exact trivial
  | c => exact fun hlive => absurd (h.symm.trans hlive) (by simp)

/-- An update leaves the kernel watching for what the queue needs, even where the C
relay skips it because its mask looks unchanged. -/
theorem updateEvents_watched (hmodify : Takes modify) (h : Known impl l) :
    Watched (updateEvents impl modify l) ∧ Known impl (updateEvents impl modify l) := by
  cases hdead : l.dead with
  | true =>
      have hd := (updateEvents_fields impl modify l).2.1.trans hdead
      exact ⟨watched_of_dead hd, known_of_dead hd⟩
  | false =>
      have hmod : modify l = true := hmodify l hdead
      cases impl with
      | python =>
          have heq : updateEvents .python modify l = { l with watched := l.wants } := by
            simp [updateEvents, hdead, hmod]
          rw [heq]
          exact ⟨fun _ => rfl, trivial⟩
      | c =>
          have hknown : l.armed = l.watched := h hdead
          by_cases hsame : l.wants = l.armed
          · have heq : updateEvents .c modify l = l := by
              simp [updateEvents, hsame]
            rw [heq]
            exact ⟨fun _ => (hsame.trans hknown).symm, h⟩
          · have heq : updateEvents .c modify l =
                { l with watched := l.wants, armed := l.wants } := by
              simp [updateEvents, hdead, hmod, hsame]
            rw [heq]
            exact ⟨fun _ => rfl, fun _ => rfl⟩

/-- A relay's record of the mask depends on the mask and on that record alone. -/
theorem Known.of_fields {l' : Link} (h : Known impl l) (hdead : l'.dead = l.dead)
    (harmed : l'.armed = l.armed) (hwatched : l'.watched = l.watched) : Known impl l' := by
  cases impl with
  | python => exact trivial
  | c =>
      intro hlive
      rw [harmed, hwatched]
      exact h (hdead ▸ hlive)

theorem flush_nil (l : Link) : flush impl modify [] l =
    updateEvents impl modify (if l.wants then l.write l.tx.length else l) := rfl

theorem flush_cons (outcome : SendResult) (outcomes : List SendResult) (l : Link) :
    flush impl modify (outcome :: outcomes) l =
      if l.wants then
        match outcome with
        | .wrote n => if n = 0 then l.drop else flush impl modify outcomes (l.write n)
        | .blocked => updateEvents impl modify l
        | .failed => l.drop
      else updateEvents impl modify l := rfl

/-- The rule of a flush: what its calls, an update and a drop keep, it leaves. -/
theorem flush_rule {P Q : Link → Prop} (hwrite : ∀ l n, P l → P (l.write n))
    (hupdate : ∀ l, P l → Q (updateEvents impl modify l)) (hdrop : ∀ l, P l → Q l.drop)
    (outcomes : List SendResult) (h : P l) : Q (flush impl modify outcomes l) := by
  induction outcomes generalizing l with
  | nil =>
      rw [flush_nil]
      split
      · exact hupdate _ (hwrite _ _ h)
      · exact hupdate _ h
  | cons outcome outcomes ih =>
      rw [flush_cons]
      split
      · cases outcome with
        | wrote n =>
            dsimp only
            split
            · exact hdrop _ h
            · exact ih (hwrite _ _ h)
        | blocked => exact hupdate _ h
        | failed => exact hdrop _ h
      · exact hupdate _ h

theorem flush_whole (h : Whole l) (outcomes : List SendResult) :
    Whole (flush impl modify outcomes l) :=
  flush_rule (P := Whole) (Q := Whole) (fun _ n h => whole_write h n)
    (fun _ h => h.updateEvents) (fun _ h => h.drop) outcomes h

theorem flush_accepted (outcomes : List SendResult) :
    (flush impl modify outcomes l).accepted = l.accepted :=
  flush_rule (P := fun l' => l'.accepted = l.accepted) (Q := fun l' => l'.accepted = l.accepted)
    (fun _ _ h => h) (fun l' h => (updateEvents_fields impl modify l').2.2.2.trans h)
    (fun l' h => (drop_fields l').2.2.trans h) outcomes rfl

theorem flush_watched (hmodify : Takes modify) (h : Known impl l) (outcomes : List SendResult) :
    Watched (flush impl modify outcomes l) ∧ Known impl (flush impl modify outcomes l) :=
  flush_rule (P := Known impl) (Q := fun l => Watched l ∧ Known impl l)
    (fun _ _ h => h.of_fields rfl rfl rfl) (fun _ h => updateEvents_watched hmodify h)
    (fun l _ => ⟨watched_of_dead (drop_dead l), known_of_dead (drop_dead l)⟩) outcomes h

/-- What holds of a queue between any two operations. -/
structure Inv (impl : Impl) (l : Link) : Prop extends Whole l where
  watched : Watched l
  known : Known impl l

theorem Inv.drop (h : Inv impl l) : Inv impl l.drop :=
  ⟨h.toWhole.drop, watched_of_dead (drop_dead l), known_of_dead (drop_dead l)⟩

theorem Inv.flush (hmodify : Takes modify) (hwhole : Whole l) (hknown : Known impl l)
    (outcomes : List SendResult) : Inv impl (flush impl modify outcomes l) :=
  ⟨flush_whole hwhole outcomes, (flush_watched hmodify hknown outcomes).1,
    (flush_watched hmodify hknown outcomes).2⟩

theorem Inv.send (hmodify : Takes modify) (h : Inv impl l) (data : List Nat)
    (outcomes : List SendResult) : Inv impl (send impl modify data outcomes l) := by
  unfold Transmit.send
  split
  · exact h
  · split
    · exact h.drop
    · next hfits =>
        apply Inv.flush hmodify (whole_append h.toWhole hfits)
        exact h.known.of_fields rfl rfl rfl

theorem Inv.apply (hmodify : Takes modify) (h : Inv impl l) (op : Op) :
    Inv impl (apply impl modify l op) := by
  cases op with
  | send data outcomes => exact h.send hmodify data outcomes
  | flush outcomes =>
      unfold Transmit.apply
      dsimp only
      split
      · exact h
      · exact Inv.flush hmodify h.toWhole h.known outcomes
  | drop => exact h.drop

theorem inv_init : Inv impl {} where
  whole := rfl
  bound := Nat.zero_le _
  watched _ := rfl
  known := by
    cases impl with
    | python => exact trivial
    | c => exact fun _ => rfl

theorem inv_run (hmodify : Takes modify) (ops : List Op) : Inv impl (run impl modify ops) := by
  have hfold : ∀ l, Inv impl l → Inv impl (ops.foldl (Transmit.apply impl modify) l) := by
    induction ops with
    | nil => exact fun _ h => h
    | cons op ops ih => exact fun _ h => ih _ (h.apply hmodify op)
  exact hfold _ inv_init

/-- A frame is put into the buffer whole, or the client is dropped. -/
theorem send_accepted (data : List Nat) (outcomes : List SendResult) (hlive : l.dead = false) :
    (send impl modify data outcomes l).accepted = l.accepted ++ [data] ∧
        l.tx.length + data.length ≤ maxTxBacklog ∨
      (send impl modify data outcomes l).accepted = l.accepted ∧
        (send impl modify data outcomes l).taken = l.taken ∧
        (send impl modify data outcomes l).dead = true := by
  unfold Transmit.send
  rw [if_neg (by simp [hlive])]
  split
  · exact Or.inr ⟨(drop_fields l).2.2, (drop_fields l).2.1, drop_dead l⟩
  · next hfits => exact Or.inl ⟨flush_accepted outcomes, Nat.le_of_not_lt hfits⟩

/-- What is handed to the socket is what was accepted, in order, and the buffer holds
exactly the rest; a live client is watched for exactly while bytes remain. -/
theorem transmit_integrity (impl : Impl) (modify : Link → Bool) (hmodify : Takes modify)
    (ops : List Op) :
    let l := run impl modify ops
    (∀ k, (l.taken.take k).flatten <+: l.accepted.flatten) ∧
      l.taken.flatten ++ l.tx = l.accepted.flatten ∧ l.tx.length ≤ maxTxBacklog ∧
      (l.dead = false → l.watched = !l.tx.isEmpty) ∧
      ∀ data outcomes, l.dead = false →
        (send impl modify data outcomes l).accepted = l.accepted ++ [data] ∧
            l.tx.length + data.length ≤ maxTxBacklog ∨
          (send impl modify data outcomes l).accepted = l.accepted ∧
            (send impl modify data outcomes l).taken = l.taken ∧
            (send impl modify data outcomes l).dead = true := by
  intro l
  have h : Inv impl l := inv_run hmodify ops
  refine ⟨fun k => ?_, h.whole, h.bound, h.watched,
    fun data outcomes => send_accepted data outcomes⟩
  rw [← h.whole]
  have htaken : (l.taken.take k).flatten ++ ((l.taken.drop k).flatten ++ l.tx) =
      l.taken.flatten ++ l.tx := by
    rw [← List.append_assoc, ← List.flatten_append, List.take_append_drop]
  exact ⟨_, htaken⟩

/-- Two frames for a socket that takes one byte and then blocks. -/
def stalled : List Op := [.send [2, 5, 0] [.wrote 1, .blocked], .send [1, 13] [.blocked]]

/-- What the socket did not take is queued, and the kernel watches for room. -/
theorem transmit_integrity_stalled :
    Takes (fun l => !l.dead) ∧
      (run .c (fun l => !l.dead) stalled).taken.flatten ++ (run .c (fun l => !l.dead) stalled).tx =
        [2, 5, 0, 1, 13] ∧
      (run .c (fun l => !l.dead) stalled).watched = true := by
  have htakes : Takes fun l => !l.dead := fun l hlive => by simp [hlive]
  obtain ⟨-, hwhole, -, hwatched, -⟩ := transmit_integrity .c (fun l => !l.dead) htakes stalled
  exact ⟨htakes, hwhole.trans (by decide), (hwatched (by decide)).trans (by decide)⟩

end SharkNetplay.Relay.Transmit
