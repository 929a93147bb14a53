import SharkNetplay.Relay.CRooms
import SharkNetplay.Relay.PyDrop
import SharkNetplay.Relay.Transmit

/-!
# The relays' transmit queues

A send or a flush of a relay acts on the buffer of its client as one of the transmit
path does, whatever the relay goes on to do with the rooms and the other clients.
-/

namespace SharkNetplay.Relay

/-- A link shows the buffer `tx` of a client that is dead or not. -/
def Transmit.Shows (l : Transmit.Link) (tx : List Nat) (dead : Bool) : Prop :=
  l.tx = tx ∧ l.dead = dead

namespace Transmit

variable {l : Link}

/-- A flush ends as the loop over its calls does. -/
theorem flush_flushLoop (impl : Impl) (modify : Link → Bool) (outcomes : List SendResult)
    (hlive : l.dead = false) :
    Shows (flush impl modify outcomes l) (flushLoop outcomes l.tx).tx
      (!(flushLoop outcomes l.tx).ok) := by
  have hupdate : ∀ l : Link, l.dead = false →
      Shows (updateEvents impl modify l) l.tx false := fun l hl =>
    ⟨(updateEvents_fields impl modify l).1, (updateEvents_fields impl modify l).2.1.trans hl⟩
  have hdrop : ∀ l : Link, Shows l.drop l.tx true := fun l => ⟨(drop_fields l).1, drop_dead l⟩
  induction outcomes generalizing l with
  | nil =>
      rw [flush_nil]
      cases htx : l.tx with
      | nil =>
          have hno : l.wants = false := by simp [Link.wants, htx]
          rw [hno, if_neg Bool.false_ne_true]
          simpa [htx, flushLoop] using hupdate l hlive
      | cons b tx =>
          have hyes : l.wants = true := by simp [Link.wants, htx]
          rw [hyes, if_pos rfl]
          simpa [htx, flushLoop, Link.write] using hupdate (l.write (b :: tx).length) hlive
  | cons outcome outcomes ih =>
      rw [flush_cons]
      cases htx : l.tx with
      | nil =>
          have hno : l.wants = false := by simp [Link.wants, htx]
          rw [hno, if_neg Bool.false_ne_true]
          simpa [htx, flushLoop] using hupdate l hlive
      | cons b tx =>
          have hyes : l.wants = true := by simp [Link.wants, htx]
          rw [hyes, if_pos rfl]
          cases outcome with
          | wrote n =>
              dsimp only
              unfold flushLoop
              split
              · simpa [htx] using hdrop l
              · have h := ih (l := l.write n) hlive
                rwa [show (l.write n).tx = (b :: tx).drop n by rw [← htx]; rfl] at h
          | blocked => simpa [htx, flushLoop] using hupdate l hlive
          | failed => simpa [htx, flushLoop] using hdrop l

end Transmit

open Transmit

namespace C

open Server

variable {s : Server} {modify : Link → Bool} {l : Link} {c : Nat}

/-- The buffer of a dead client does not change any more. -/
theorem steady_buried (c : Nat) (tx : List Nat) :
    Steady fun s => (s.client c).dead = true ∧ (s.client c).tx = tx where
  bury d s h := by
    rw [bury_client_dead]
    refine ⟨?_, (onClient_proj Client.tx rfl c).trans h.2⟩
    split
    · rfl
    · exact h.1
  staged d a f s hlive h := by
    have hne : c ≠ d := by
      rintro rfl
      exact absurd (h.1.symm.trans hlive) (by simp)
    rw [staged_client_dead]
    refine ⟨h.1, ?_⟩
    unfold staged
    rw [client_onClient, if_neg hne]
    exact h.2
  overran _ _ h := h
  tear _ _ h := h
  link d s h := by
    rw [link_client_dead]
    exact ⟨h.1, (onClient_proj Client.tx rfl c).trans h.2⟩
  seat _ _ _ h := h
  vacate _ _ h := h
  clientFree d s _ h := by
    rw [clientFree_client_dead]
    exact ⟨h.1, (onClient_proj Client.tx rfl c).trans h.2⟩
  expect p s h := by
    unfold expect
    split <;> exact h

/-- A drop ends a client and leaves its buffer. -/
theorem drop_shows (hlive : (s.client c).dead = false) :
    ((C.drop c s).client c).dead = true ∧ ((C.drop c s).client c).tx = (s.client c).tx := by
  have hst := steady_buried c (s.client c).tx
  have hbury : ((bury c s).client c).dead = true ∧ ((bury c s).client c).tx = (s.client c).tx :=
    ⟨by simp, onClient_proj Client.tx rfl c⟩
  have hfree : ∀ s', (s'.client c).dead = true ∧ (s'.client c).tx = (s.client c).tx →
      ((clientFree c s').client c).dead = true ∧
        ((clientFree c s').client c).tx = (s.client c).tx := fun s' h' =>
    hst.clientFree c s' h'.1 h'
  show ((dropN (63 + 1) c s).client c).dead = true ∧
    ((dropN (63 + 1) c s).client c).tx = (s.client c).tx
  unfold dropN
  rw [if_neg (by simp [hlive])]
  dsimp only
  split
  · exact hfree _ hbury
  · apply hfree
    split
    · exact hst.unpair (hst.dropN _) _ _
        (hst.seat _ _ _ (hst.link _ _ (hst.expect _ _ hbury)))
    · exact hst.leave (hst.dropN _) _ _ _ _
        (hst.seat _ _ _ (hst.link _ _ (hst.expect _ _ hbury)))

/-- `flush` of the relay is `flush` of the queue. -/
theorem flush_shows (hlive : (s.client c).dead = false)
    (h : Shows l (s.client c).tx (s.client c).dead) :
    Shows (Transmit.flush .c modify s.outcomes l) ((flush drop c s).client c).tx
      ((flush drop c s).client c).dead := by
  obtain ⟨htx, hdead⟩ := flush_flushLoop .c modify s.outcomes
    (h.2.trans hlive)
  rw [h.1] at htx hdead
  unfold flush
  dsimp only
  cases hok : (flushLoop s.outcomes (s.client c).tx).ok with
  | true =>
      rw [if_pos rfl]
      rw [hok] at hdead
      exact ⟨htx.trans (by simp), hdead.trans (by simp [hlive])⟩
  | false =>
      rw [if_neg Bool.false_ne_true]
      rw [hok] at hdead
      have hgone := drop_shows (c := c) (s := { s with
        outcomes := (flushLoop s.outcomes (s.client c).tx).rest }.onClient c fun v =>
          { v with tx := (flushLoop s.outcomes (s.client c).tx).tx }) (by simp [hlive])
      exact ⟨htx.trans (by rw [hgone.2]; simp), hdead.trans (by rw [hgone.1]; rfl)⟩

/-- `send_raw` of the relay is `send` of the queue. -/
theorem sendRaw_shows (alloc : Option Nat) (data : List Nat)
    (h : Shows l (s.client c).tx (s.client c).dead) :
    Shows (Transmit.send .c modify data s.outcomes l)
      ((C.sendRaw C.drop c alloc data s).client c).tx
      ((C.sendRaw C.drop c alloc data s).client c).dead := by
  unfold Transmit.send C.sendRaw
  rw [h.1, h.2]
  cases hdead : (s.client c).dead with
  | true => exact ⟨h.1, h.2⟩
  | false =>
      rw [if_neg Bool.false_ne_true, if_neg Bool.false_ne_true]
      split
      · have hgone := drop_shows (c := c) (s := { s with backlogDrops := s.backlogDrops + 1 }) hdead
        exact ⟨(drop_fields l).1.trans (h.1.trans hgone.2.symm), (Transmit.drop_dead l).trans hgone.1.symm⟩
      · apply flush_shows (s := enqueue c alloc data s)
        · simp [enqueue, hdead]
        · exact ⟨by simp [enqueue, Link.append, h.1], by simp [enqueue, Link.append, h.2]⟩

end C

namespace Py

open Server

variable {s : Server} {modify : Link → Bool} {l : Link} {c : Nat}

/-- What a change of one client leaves alone, it leaves alone for every client. -/
theorem setClient_tx {d : Nat} {v : Client} (hv : v.tx = (s.client d).tx) :
    ((s.setClient d v).client c).tx = (s.client c).tx := by
  rw [client_setClient]
  split
  · next hc => rw [hc, hv]
  · rfl

/-- The buffer of a dead client does not change any more. -/
theorem steady_buried (c : Nat) (tx : List Nat) :
    Steady fun s => (s.client c).dead = true ∧ (s.client c).tx = tx where
  bury d s h := by
    rw [bury_client_dead]
    refine ⟨?_, Eq.trans (setClient_tx rfl) h.2⟩
    split
    · rfl
    · exact h.1
  staged d data s hlive h := by
    have hne : c ≠ d := by
      rintro rfl
      exact absurd (h.1.symm.trans hlive) (by simp)
    rw [staged_client_dead]
    refine ⟨h.1, ?_⟩
    unfold staged
    rw [client_setClient, if_neg hne]
    exact h.2
  link d s h := by
    rw [link_client_dead]
    exact ⟨h.1, Eq.trans (setClient_tx rfl) h.2⟩
  seat _ _ _ h := h
  expect p s h := by
    unfold expect
    split <;> exact h

/-- A drop with a fuel left ends a client and leaves its buffer. -/
theorem drop_shows (hlive : (s.client c).dead = false) (hfuel : s.present ≠ []) :
    ((Py.drop c s).client c).dead = true ∧ ((Py.drop c s).client c).tx = (s.client c).tx := by
  have hst := steady_buried c (s.client c).tx
  have hbury : ((bury c s).client c).dead = true ∧ ((bury c s).client c).tx = (s.client c).tx :=
    ⟨by simp, Eq.trans (setClient_tx rfl) rfl⟩
  obtain ⟨n, hn⟩ := Nat.exists_eq_succ_of_ne_zero (fun h0 => hfuel (List.length_eq_zero_iff.mp h0))
  unfold Py.drop
  rw [hn]
  unfold dropN
  rw [if_neg (by simp [hlive])]
  dsimp only
  split
  · exact hbury
  · exact hst.leave (hst.dropN _) _ _ _ _
      (hst.seat _ _ _ (hst.link c _ (hst.expect _ _ hbury)))

/-- `flush` of the relay is `flush` of the queue. -/
theorem flush_shows (hlive : (s.client c).dead = false) (hfuel : s.present ≠ [])
    (h : Shows l (s.client c).tx (s.client c).dead) :
    Shows (Transmit.flush .python modify s.outcomes l) ((flush drop c s).client c).tx
      ((flush drop c s).client c).dead := by
  obtain ⟨htx, hdead⟩ := flush_flushLoop .python modify s.outcomes
    (h.2.trans hlive)
  rw [h.1] at htx hdead
  unfold flush
  dsimp only
  cases hok : (flushLoop s.outcomes (s.client c).tx).ok with
  | true =>
      rw [if_pos rfl]
      rw [hok] at hdead
      exact ⟨htx.trans (by simp), hdead.trans (by simp [hlive])⟩
  | false =>
      rw [if_neg Bool.false_ne_true]
      rw [hok] at hdead
      have hgone := drop_shows (c := c) (s := { s with
        outcomes := (flushLoop s.outcomes (s.client c).tx).rest }.setClient c
          { s.client c with tx := (flushLoop s.outcomes (s.client c).tx).tx }) (by simp [hlive])
        hfuel
      exact ⟨htx.trans (by rw [hgone.2]; simp), hdead.trans (by rw [hgone.1]; rfl)⟩

/-- `send` of the relay is `send` of the queue. -/
theorem send_shows (data : List Nat) (hfuel : s.present ≠ [])
    (h : Shows l (s.client c).tx (s.client c).dead) :
    Shows (Transmit.send .python modify data s.outcomes l)
      ((Py.send Py.drop c data s).client c).tx ((Py.send Py.drop c data s).client c).dead := by
  unfold Transmit.send Py.send
  rw [h.1, h.2]
  cases hdead : (s.client c).dead with
  | true => exact ⟨h.1, h.2⟩
  | false =>
      rw [if_neg Bool.false_ne_true, if_neg Bool.false_ne_true]
      split
      · have hgone := drop_shows (c := c) hdead hfuel
        exact ⟨(drop_fields l).1.trans (h.1.trans hgone.2.symm), (Transmit.drop_dead l).trans hgone.1.symm⟩
      · apply flush_shows (s := enqueue c data s)
        · simp [enqueue, hdead]
        · exact hfuel
        · exact ⟨by simp [enqueue, Link.append, h.1], by simp [enqueue, Link.append, h.2]⟩

end Py

end SharkNetplay.Relay
