import SharkNetplay.Console.Script

/-!
# Requests and pushes in flight

Which messages travel which way in a match of two, and what becomes of a request for a
resync: it is under way, or the host has it, or the push that answers it is under way.

## Implementation notes

A push is sent whole at the end of a pass, so the guest's inbox is a sequence of whole
pushes with other messages between them, the first push perhaps begun.
-/

namespace SharkNetplay.Console

open Lib Lib.Framing Cell Machine

variable {cart : Cart} {g : Start} {p q : Party} {s t : Pair} {x : Side} {xs : List Msg}

/-! ## The view of a tick -/

namespace View

theorem ran_eq (ck : Nat) (v : View) :
    v.ran ck = { v with own := (v.report ck).own, tick := (v.tick + 1) % 65536 } := by
  unfold ran advance report
  split <;> rfl

/-- `RS_PENDING` does nothing, pushes, or counts the pass. -/
theorem pending_cases (quiet : Bool) (v : View) :
    (v.due quiet = false ∧ (v.pend = 0 ∨ v.seat ≠ 0 ∨ v.hold ≠ 0) ∧ v.pending quiet = v) ∨
      (v.due quiet = true ∧ v.pend ≠ 0 ∧ v.seat = 0 ∧ v.hold = 0 ∧ v.pending quiet = v.push) ∨
      (v.due quiet = false ∧ v.pend ≠ 0 ∧ v.seat = 0 ∧ v.hold = 0 ∧
        (v.ptmo + 1) % 256 < rsPendMax ∧
        v.pending quiet = { v with ptmo := (v.ptmo + 1) % 256 }) := by
  unfold pending
  by_cases hidle : v.pend = 0 ∨ v.seat ≠ 0 ∨ v.hold ≠ 0
  · exact Or.inl ⟨not_due_of_idle hidle quiet, hidle, if_pos hidle⟩
  · have hgo := hidle
    rw [not_or, not_or, not_not, not_not] at hgo
    obtain ⟨hpend, hseat, hhold⟩ := hgo
    rw [if_neg hidle]
    by_cases hdue : v.due quiet = true
    · exact Or.inr (Or.inl ⟨hdue, hpend, hseat, hhold, if_pos hdue⟩)
    · refine Or.inr (Or.inr ⟨by simpa using hdue, hpend, hseat, hhold, ?_, if_neg hdue⟩)
      simp only [View.due, decide_eq_true_eq, not_and, not_or] at hdue
      have hlt := (hdue hpend hseat hhold).2
      omega

@[simp] theorem dropped_onMsg (x : Msg) (v : View) : (v.onMsg x).dropped = v.dropped := by
  cases x with
  | input s t c =>
      show (v.onInput s t c).dropped = _
      unfold onInput
      split <;> rfl
  | report s t ck =>
      show (v.onCrc t ck).dropped = _
      unfold onCrc
      split <;> rfl
  | request t =>
      show v.onReq.dropped = _
      unfold onReq
      split <;> rfl
  | opening r => rfl
  | piece q => rfl
  | closing =>
      show v.onEnd.dropped = _
      unfold onEnd
      split <;> rfl

theorem dropped_ran (ck : Nat) (quiet : Bool) (v : View) :
    ((v.ran ck).pending quiet).dropped = v.dropped := by
  rw [ran_eq]
  rcases pending_cases quiet _ with ⟨-, -, h⟩ | ⟨-, -, -, -, h⟩ | ⟨-, -, -, -, -, h⟩
  · rw [h]
  · rw [h]
    rfl
  · rw [h]

/-- Of a host's tick and a guest's. -/
theorem due_ran (ck : Nat) (quiet : Bool) (v : View) : (v.ran ck).due quiet = v.due quiet := by
  rw [ran_eq]
  rfl

theorem not_due_guest {v : View} (h : v.seat ≠ 0) (quiet : Bool) : v.due quiet = false :=
  not_due_of_idle (Or.inr (Or.inl h)) quiet

end View

/-! ## What travels which way -/

/-- A member that pumps has not given its match up. -/
def Party.Live (p : Party) : Prop := p.pc.Pumps ∨ p.pc = .sesHold → p.view.dropped = 0

theorem Party.live_of_still (h : p.pc = .top ∨ p.pc = .gate ∨ p.pc = .parked) : p.Live := by
  intro hpc
  rcases h with h | h | h <;> rw [h] at hpc <;> exact absurd hpc (by decide)

theorem Turn.live (h : Turn p q xs) (hp : p.Live) : q.Live := by
  cases h with
  | idle h =>
      intro hq
      cases h with
      | stay => exact hp hq
      | session h => exact hp (Or.inr h)
      | seated h => exact hp (Or.inl (Or.inl h))
      | begun h => exact Party.live_of_still (Or.inl rfl) hq
      | hold h hdrop hhold => exact hdrop
      | go h hdrop hhold => exact hdrop
      | stall h hdrop hshut => exact hdrop
      | held h => exact Party.live_of_still (Or.inl rfl) hq
      | waited h => exact Party.live_of_still (Or.inr (Or.inl rfl)) hq
  | left hpc hdrop => exact Party.live_of_still (Or.inr (Or.inr rfl))
  | took hpump hin =>
      intro _
      rw [View.dropped_onMsg]
      exact hp (Or.inl hpump)
  | captured hc hpc => exact Party.live_of_still (Or.inr (Or.inl rfl))
  | gaveUp hpc hh =>
      rcases hpc with ⟨-, rfl⟩ | ⟨-, rfl⟩
      · exact Party.live_of_still (Or.inl rfl)
      · exact Party.live_of_still (Or.inr (Or.inl rfl))
  | ran quiet sim hpc hopen hck himg hbytes => exact Party.live_of_still (Or.inl rfl)

/-- The messages a guest sends. -/
def Msg.FromGuest : Msg → Prop
  | .input _ _ _ => True
  | .report _ _ _ => True
  | .request _ => True
  | _ => False

/-- A sequence of messages that holds whole pushes, the first one perhaps begun. -/
def Nested : Bool → List Msg → Prop
  | held, [] => held = false
  | held, .opening _ :: l => held = false ∧ Nested true l
  | held, .piece _ :: l => held = true ∧ Nested true l
  | held, .closing :: l => held = true ∧ Nested false l
  | held, .input _ _ _ :: l => held = false ∧ Nested false l
  | held, .report _ _ _ :: l => held = false ∧ Nested false l
  | held, .request _ :: l => held = false ∧ Nested false l

theorem Nested.append {l l' : List Msg} {held : Bool} (h : Nested held l) (h' : Nested false l') :
    Nested held (l ++ l') := by
  induction l generalizing held with
  | nil =>
      cases h
      exact h'
  | cons y l ih =>
      cases y <;> exact ⟨h.1, ih h.2⟩

theorem nested_pieces (qs : List (Piece Nat)) : Nested true (qs.map .piece ++ [.closing]) := by
  induction qs with
  | nil => exact ⟨rfl, rfl⟩
  | cons q qs ih => exact ⟨rfl, ih⟩

theorem nested_push (r : Nat) (img : List Nat) : Nested false (pushMsgs r img) :=
  ⟨rfl, nested_pieces _⟩

theorem nested_tick (v : View) (ck : Nat) (due : Bool) (img : List Nat) :
    Nested false (tickMsgs v ck due img) := by
  have hpush : Nested false (if due then
      pushMsgs (((v.tick + 1) % 65536 + 16) % 65536) img else []) := by
    split
    · exact nested_push _ _
    · exact rfl
  unfold tickMsgs
  refine Nested.append ?_ hpush
  split
  · exact ⟨rfl, rfl⟩
  · exact rfl

/-- Messages to a member. -/
def Party.msgs (p : Party) : List Msg := p.inbox.map Prod.snd

theorem msgs_gets (st : Stamp) (xs : List Msg) (p : Party) : (p.gets st xs).msgs = p.msgs ++ xs := by
  simp [Party.msgs, Party.gets, Function.comp_def]

/-- What holds of a match at any time. -/
structure Orderly (g : Start) (s : Pair) : Prop where
  fixed : ∀ x, Fixed g x (s x).view
  live : ∀ x, (s x).Live
  /-- The host is never in a hold. -/
  calm : (s .host).view.hold = 0
  plain : ∀ y ∈ (s .host).msgs, y.FromGuest
  nested : (s .guest).view.dropped = 0 → Nested (decide ((s .guest).view.hold ≠ 0)) (s .guest).msgs

theorem Orderly.init (g : Start) : Orderly g (Pair.init g) where
  fixed x := startView_fixed g x
  live x := fun _ => rfl
  calm := rfl
  plain y hy := absurd hy (by simp [Pair.init, Party.msgs])
  nested _ := rfl

/-- The messages of a host. -/
theorem Turn.host_sends (h : Turn p q xs) (hseat : p.view.seat = 0) : Nested false xs := by
  cases h with
  | took hpump hin =>
      rename_i e rest
      have hnone : p.view.replies e.2 = [] := by
        cases e.2 with
        | report s t ck => exact if_neg fun h => h.2 hseat
        | _ => rfl
      rw [hnone]
      rfl
  | captured hc hpc => exact ⟨rfl, rfl⟩
  | ran quiet sim hpc hopen hck himg hbytes => exact nested_tick _ _ _ _
  | _ => exact rfl

/-- The messages of a guest. -/
theorem Turn.guest_sends (h : Turn p q xs) (hseat : p.view.seat ≠ 0) : ∀ y ∈ xs, y.FromGuest := by
  intro y hy
  cases h with
  | took hpump hin =>
      rename_i e rest
      cases hx : e.2 with
      | report s t ck =>
          rw [hx] at hy
          simp only [View.replies] at hy
          split at hy
          · rw [List.mem_singleton] at hy
            rw [hy]
            trivial
          · exact absurd hy (by simp)
      | _ =>
          rw [hx] at hy
          exact absurd hy (by simp [View.replies])
  | captured hc hpc =>
      rw [List.mem_singleton] at hy
      rw [hy]
      trivial
  | ran quiet sim hpc hopen hck himg hbytes =>
      unfold tickMsgs at hy
      rw [View.due_ran, View.not_due_guest hseat, if_neg Bool.false_ne_true, List.append_nil] at hy
      split at hy
      · rw [List.mem_singleton] at hy
        rw [hy]
        trivial
      · exact absurd hy (by simp)
  | _ => exact absurd hy (by simp)

/-- A guest's message leaves the hold alone. -/
theorem hold_fromGuest {y : Msg} (h : y.FromGuest) (v : View) : (v.onMsg y).hold = v.hold := by
  cases y with
  | input s t c =>
      show (v.onInput s t c).hold = _
      unfold View.onInput
      split <;> rfl
  | report s t ck =>
      show (v.onCrc t ck).hold = _
      unfold View.onCrc
      split <;> rfl
  | request t =>
      show v.onReq.hold = _
      unfold View.onReq
      split <;> rfl
  | opening r => exact h.elim
  | piece q => exact h.elim
  | closing => exact h.elim

theorem hold_pending (ck : Nat) (quiet : Bool) (v : View) (h : v.hold = 0) :
    ((v.ran ck).pending quiet).hold = 0 := by
  rw [View.ran_eq]
  rcases View.pending_cases quiet _ with ⟨-, -, he⟩ | ⟨-, -, -, -, he⟩ | ⟨-, -, -, -, -, he⟩
  · rw [he]
    exact h
  · rw [he]
    rfl
  · rw [he]
    exact h

/-- A guest's tick leaves the hold alone. -/
theorem hold_pending_guest (ck : Nat) (quiet : Bool) {v : View} (h : v.seat ≠ 0) :
    ((v.ran ck).pending quiet).hold = v.hold := by
  rw [View.ran_eq]
  unfold View.pending
  rw [if_pos (Or.inr (Or.inl h))]

/-- The hold of the host over a turn. -/
theorem Turn.calm (h : Turn p q xs) (hcalm : p.view.hold = 0) (hplain : ∀ y ∈ p.msgs, y.FromGuest) :
    q.view.hold = 0 := by
  cases h with
  | took hpump hin =>
      rename_i e rest
      have hfrom : e.2.FromGuest := hplain e.2 (by simp [Party.msgs, hin])
      show (p.view.onMsg e.2).hold = 0
      rw [hold_fromGuest hfrom, hcalm]
  | gaveUp hpc hh =>
      rcases hh with rfl | rfl
      · rfl
      · exact hcalm
  | ran quiet sim hpc hopen hck himg hbytes => exact hold_pending _ _ _ hcalm
  | _ => exact hcalm

/-- A turn takes messages off the inbox only from its head. -/
theorem Turn.msgs_subset (h : Turn p q xs) : ∀ y ∈ q.msgs, y ∈ p.msgs := by
  intro y hy
  cases h with
  | took hpump hin =>
      rename_i e rest
      show y ∈ p.inbox.map Prod.snd
      rw [hin]
      exact List.mem_cons_of_mem _ hy
  | _ => exact hy

theorem nested_onMsg {y : Msg} {l : List Msg} {v : View}
    (h : Nested (decide (v.hold ≠ 0)) (y :: l)) : Nested (decide ((v.onMsg y).hold ≠ 0)) l := by
  cases y with
  | opening r => exact h.2
  | piece q =>
      have hheld : decide (v.hold ≠ 0) = true := h.1
      show Nested (decide (v.hold ≠ 0)) l
      rw [hheld]
      exact h.2
  | closing =>
      have hheld : v.hold ≠ 0 := of_decide_eq_true h.1
      show Nested (decide (v.onEnd.hold ≠ 0)) l
      unfold View.onEnd
      rw [if_neg hheld]
      exact h.2
  | input s t c =>
      rw [hold_fromGuest (y := .input s t c) trivial, show decide (v.hold ≠ 0) = false from h.1]
      exact h.2
  | report s t ck =>
      rw [hold_fromGuest (y := .report s t ck) trivial, show decide (v.hold ≠ 0) = false from h.1]
      exact h.2
  | request t =>
      rw [hold_fromGuest (y := .request t) trivial, show decide (v.hold ≠ 0) = false from h.1]
      exact h.2

/-- The pushes on their way to the guest over its own turn. -/
theorem Turn.nested (h : Turn p q xs) (hseat : p.view.seat ≠ 0)
    (hn : p.view.dropped = 0 → Nested (decide (p.view.hold ≠ 0)) p.msgs)
    (hdrop : q.view.dropped = 0) : Nested (decide (q.view.hold ≠ 0)) q.msgs := by
  cases h with
  | took hpump hin =>
      rename_i e rest
      rw [View.dropped_onMsg] at hdrop
      have hn' := hn hdrop
      unfold Party.msgs at hn'
      rw [hin] at hn'
      exact nested_onMsg hn'
  | gaveUp hpc hh => exact absurd hdrop (by simp [View.giveUp])
  | ran quiet sim hpc hopen hck himg hbytes =>
      rw [View.dropped_ran] at hdrop
      show Nested (decide (((p.view.ran _).pending quiet).hold ≠ 0)) _
      rw [hold_pending_guest _ _ hseat]
      exact hn hdrop
  | _ => exact hn hdrop

theorem Orderly.step (h : Orderly g s) (hstep : Pair.Step x s t) : Orderly g t := by
  obtain ⟨xs, hturn, hpeer⟩ := hstep
  have hfixed : ∀ y, Fixed g y (t y).view := by
    intro y
    rcases Side.eq_or_peer x y with rfl | rfl
    · exact (h.fixed _).turn hturn
    · rw [hpeer]
      exact h.fixed x.peer
  have hlive : ∀ y, (t y).Live := by
    intro y
    rcases Side.eq_or_peer x y with rfl | rfl
    · exact hturn.live (h.live _)
    · rw [hpeer]
      exact h.live x.peer
  cases x with
  | host =>
      have hseat : (s .host).view.seat = 0 := (h.fixed .host).seat
      refine ⟨hfixed, hlive, hturn.calm h.calm h.plain, fun y hy => ?_, fun hdrop => ?_⟩
      · exact h.plain y (hturn.msgs_subset y hy)
      · have hpeer' : t .guest = (s .guest).gets (s .host).hist.stamp xs := hpeer
        rw [hpeer'] at hdrop ⊢
        rw [msgs_gets]
        exact (h.nested hdrop).append (hturn.host_sends hseat)
  | guest =>
      have hseat : (s .guest).view.seat ≠ 0 := by
        rw [(h.fixed .guest).seat]
        decide
      have hpeer' : t .host = (s .host).gets (s .guest).hist.stamp xs := hpeer
      refine ⟨hfixed, hlive, ?_, fun y hy => ?_, hturn.nested hseat h.nested⟩
      · rw [hpeer']
        exact h.calm
      · rw [hpeer', msgs_gets] at hy
        rcases List.mem_append.mp hy with hy | hy
        · exact h.plain y hy
        · exact hturn.guest_sends hseat y hy

theorem Orderly.run {ys : List Side} (h : Orderly g s) (hrun : Run Pair.Step s ys t) : Orderly g t :=
  hrun.invariant (fun _ _ _ hstep hs => hs.step hstep) h

/-! ## A request is never lost -/

/-- The guest's request is on its way, or the host has one, or the END of a push is on its way. -/
def Asked (s : Pair) : Prop :=
  (s .guest).view.pend ≠ 0 → (∃ t, .request t ∈ (s .host).msgs) ∨ (s .host).view.pend ≠ 0 ∨
    .closing ∈ (s .guest).msgs

theorem closing_push (r : Nat) (img : List Nat) : Msg.closing ∈ pushMsgs r img := by
  simp [pushMsgs]

/-- A request at the host stays there until it pushes. -/
theorem Turn.host_pend (h : Turn p q xs)
    (hplain : ∀ y ∈ p.msgs, y.FromGuest) (hpend : p.view.pend ≠ 0) :
    q.view.pend ≠ 0 ∨ .closing ∈ xs := by
  cases h with
  | took hpump hin =>
      rename_i e rest
      refine Or.inl ?_
      have hfrom : e.2.FromGuest := hplain e.2 (by simp [Party.msgs, hin])
      show (p.view.onMsg e.2).pend ≠ 0
      cases hx : e.2 with
      | input s t c =>
          show (p.view.onInput s t c).pend ≠ 0
          unfold View.onInput
          split <;> exact hpend
      | report s t ck =>
          show (p.view.onCrc t ck).pend ≠ 0
          unfold View.onCrc
          split
          · exact Nat.one_ne_zero
          · exact hpend
      | request t =>
          show p.view.onReq.pend ≠ 0
          unfold View.onReq
          split
          · exact Nat.one_ne_zero
          · exact hpend
      | _ =>
          rw [hx] at hfrom
          exact hfrom.elim
  | ran quiet sim hpc hopen hck himg hbytes =>
      rename_i ck img
      show ((p.view.ran ck).pending quiet).pend ≠ 0 ∨ _
      rcases View.pending_cases quiet (p.view.ran ck) with ⟨-, -, he⟩ | ⟨hdue, -⟩ |
        ⟨-, hne, -, -, -, he⟩
      · refine Or.inl ?_
        rw [he, View.ran_eq]
        exact hpend
      · refine Or.inr ?_
        unfold tickMsgs
        rw [hdue]
        exact List.mem_append_right _ (closing_push _ _)
      · refine Or.inl ?_
        rw [he]
        exact hne
  | _ => exact Or.inl hpend

/-- A request that reaches the host is taken, or finds one there. -/
theorem Turn.host_request (h : Turn p q xs) (hseat : p.view.seat = 0) (hcalm : p.view.hold = 0)
    {r : Nat} (hr : .request r ∈ p.msgs) : .request r ∈ q.msgs ∨ q.view.pend ≠ 0 := by
  cases h with
  | took hpump hin =>
      rename_i e rest
      unfold Party.msgs at hr
      rw [hin] at hr
      rcases List.mem_cons.mp hr with heq | hr
      · refine Or.inr ?_
        show (p.view.onMsg e.2).pend ≠ 0
        rw [← heq]
        show p.view.onReq.pend ≠ 0
        unfold View.onReq
        split
        · exact Nat.one_ne_zero
        · next hno => exact fun h0 => hno ⟨hseat, hcalm, h0⟩
      · exact Or.inl hr
  | _ => exact Or.inl hr

/-- A guest that wants a resync asks for it. -/
theorem Turn.guest_pend (h : Turn p q xs) (hseat : p.view.seat ≠ 0) (hpend : q.view.pend ≠ 0) :
    p.view.pend ≠ 0 ∨ ∃ r, .request r ∈ xs := by
  cases h with
  | took hpump hin =>
      rename_i e rest
      have hq : (p.view.onMsg e.2).pend ≠ 0 := hpend
      cases hx : e.2 with
      | input s t c =>
          rw [hx] at hq
          have hkeep : (p.view.onInput s t c).pend = p.view.pend := by
            unfold View.onInput
            split <;> rfl
          exact Or.inl (hkeep ▸ hq)
      | report s t ck =>
          by_cases hclash : p.view.clashes t ck = true
          · refine Or.inr ⟨t, ?_⟩
            simp only [View.replies]
            rw [if_pos ⟨hclash, hseat⟩]
            exact List.mem_singleton.mpr rfl
          · rw [hx] at hq
            have hkeep : (p.view.onCrc t ck).pend = p.view.pend := by
              unfold View.onCrc
              rw [if_neg hclash]
            exact Or.inl (hkeep ▸ hq)
      | request t =>
          rw [hx] at hq
          have hkeep : p.view.onReq.pend = p.view.pend := by
            unfold View.onReq
            rw [if_neg fun h => hseat h.1]
          exact Or.inl (hkeep ▸ hq)
      | opening r =>
          rw [hx] at hq
          exact Or.inl hq
      | piece q =>
          rw [hx] at hq
          exact Or.inl hq
      | closing =>
          rw [hx] at hq
          refine Or.inl ?_
          by_cases hhold : p.view.hold = 0
          · have hkeep : p.view.onEnd.pend = p.view.pend := by
              unfold View.onEnd
              rw [if_pos hhold]
            exact hkeep ▸ hq
          · have hzero : p.view.onEnd.pend = 0 := by
              unfold View.onEnd
              rw [if_neg hhold]
              rfl
            exact absurd hzero hq
  | ran quiet sim hpc hopen hck himg hbytes =>
      rename_i ck img
      refine Or.inl ?_
      have hq : ((p.view.ran ck).pending quiet).pend ≠ 0 := hpend
      have hkeep : (p.view.ran ck).pending quiet = p.view.ran ck := by
        rw [View.ran_eq]
        exact if_pos (Or.inr (Or.inl hseat))
      rw [hkeep, View.ran_eq] at hq
      exact hq
  | _ => exact Or.inl hpend

/-- The END of a push answers what the guest wants. -/
theorem Turn.guest_closing (h : Turn p q xs) (hlive : p.Live)
    (hn : p.view.dropped = 0 → Nested (decide (p.view.hold ≠ 0)) p.msgs)
    (hc : .closing ∈ p.msgs) : .closing ∈ q.msgs ∨ q.view.pend = 0 := by
  cases h with
  | took hpump hin =>
      rename_i e rest
      unfold Party.msgs at hc
      rw [hin] at hc
      rcases List.mem_cons.mp hc with heq | hc
      · refine Or.inr ?_
        have hn' := hn (hlive (Or.inl hpump))
        unfold Party.msgs at hn'
        rw [hin, List.map_cons, ← heq] at hn'
        have hheld : p.view.hold ≠ 0 := of_decide_eq_true hn'.1
        show (p.view.onMsg e.2).pend = 0
        rw [← heq]
        show p.view.onEnd.pend = 0
        unfold View.onEnd
        rw [if_neg hheld]
        rfl
      · exact Or.inl hc
  | _ => exact Or.inl hc

theorem Asked.step (h : Asked s) (ho : Orderly g s) (hstep : Pair.Step x s t) : Asked t := by
  obtain ⟨xs, hturn, hpeer⟩ := hstep
  intro hpend
  cases x with
  | host =>
      have hseat : (s .host).view.seat = 0 := (ho.fixed .host).seat
      have hpeer' : t .guest = (s .guest).gets (s .host).hist.stamp xs := hpeer
      rw [hpeer'] at hpend ⊢
      rw [msgs_gets]
      rcases h hpend with ⟨r, hr⟩ | hh | hc
      · rcases hturn.host_request hseat ho.calm hr with hr | hp
        · exact Or.inl ⟨r, hr⟩
        · exact Or.inr (Or.inl hp)
      · rcases hturn.host_pend ho.plain hh with hp | hc
        · exact Or.inr (Or.inl hp)
        · exact Or.inr (Or.inr (List.mem_append_right _ hc))
      · exact Or.inr (Or.inr (List.mem_append_left _ hc))
  | guest =>
      have hseat : (s .guest).view.seat ≠ 0 := by
        rw [(ho.fixed .guest).seat]
        decide
      have hpeer' : t .host = (s .host).gets (s .guest).hist.stamp xs := hpeer
      rw [hpeer', msgs_gets]
      rcases hturn.guest_pend hseat hpend with hold | ⟨r, hr⟩
      · rcases h hold with ⟨r, hr⟩ | hh | hc
        · exact Or.inl ⟨r, List.mem_append_left _ hr⟩
        · exact Or.inr (Or.inl hh)
        · rcases hturn.guest_closing (ho.live .guest) ho.nested hc with hc | h0
          · exact Or.inr (Or.inr hc)
          · exact absurd h0 hpend
      · exact Or.inl ⟨r, List.mem_append_right _ hr⟩

/-! ## A request is served in time -/

/-- A request has waited fewer passes than `RS_PEND_MAX`. -/
def View.Prompt (v : View) : Prop := v.seat = 0 → v.pend ≠ 0 → v.ptmo < rsPendMax

theorem prompt_onMsg (y : Msg) {v : View} (h : v.Prompt) : (v.onMsg y).Prompt := by
  cases y with
  | input s t c =>
      show (v.onInput s t c).Prompt
      unfold View.onInput
      split <;> exact h
  | report s t ck =>
      show (v.onCrc t ck).Prompt
      unfold View.onCrc
      split
      · exact fun _ _ => (by decide : 0 < rsPendMax)
      · exact h
  | request t =>
      show v.onReq.Prompt
      unfold View.onReq
      split
      · exact fun _ _ => (by decide : 0 < rsPendMax)
      · exact h
  | opening r => exact h
  | piece q => exact h
  | closing =>
      show v.onEnd.Prompt
      unfold View.onEnd
      split
      · exact h
      · exact fun _ hp => absurd rfl hp

theorem Turn.prompt (h : Turn p q xs) (hp : p.view.Prompt) : q.view.Prompt := by
  cases h with
  | took hpump hin => exact prompt_onMsg _ hp
  | ran quiet sim hpc hopen hck himg hbytes =>
      rename_i ck img
      show ((p.view.ran ck).pending quiet).Prompt
      rcases View.pending_cases quiet (p.view.ran ck) with ⟨-, -, he⟩ | ⟨-, -, -, -, he⟩ |
        ⟨-, -, -, -, hlt, he⟩
      · rw [he, View.ran_eq]
        exact hp
      · rw [he]
        exact fun _ hne => absurd rfl hne
      · rw [he]
        exact fun _ _ => hlt
  | _ => exact hp

/-- While the host has not pushed since `p`, the request it had waits and each pass is counted. -/
def Waits (p q : Party) : Prop :=
  p.hist.pushes ≤ q.hist.pushes ∧ (q.hist.pushes = p.hist.pushes → q.view.pend ≠ 0 ∧
    q.hist.ran.length + p.view.ptmo = p.hist.ran.length + q.view.ptmo)

theorem Waits.refl (h : p.view.pend ≠ 0) : Waits p p := ⟨Nat.le_refl _, fun _ => ⟨h, rfl⟩⟩

/-- A request that waits keeps its count while messages come in. -/
theorem onMsg_waits {y : Msg} {v : View} (hfrom : y.FromGuest) (hpend : v.pend ≠ 0) :
    (v.onMsg y).pend = v.pend ∧ (v.onMsg y).ptmo = v.ptmo := by
  cases y with
  | input s t c =>
      show (v.onInput s t c).pend = _ ∧ (v.onInput s t c).ptmo = _
      unfold View.onInput
      split <;> exact ⟨rfl, rfl⟩
  | report s t ck =>
      have hno : ¬ v.clashes t ck = true := by
        simp only [View.clashes, decide_eq_true_eq]
        exact fun h => hpend h.2.1
      show (v.onCrc t ck).pend = _ ∧ (v.onCrc t ck).ptmo = _
      unfold View.onCrc
      rw [if_neg hno]
      exact ⟨rfl, rfl⟩
  | request t =>
      show v.onReq.pend = _ ∧ v.onReq.ptmo = _
      unfold View.onReq
      rw [if_neg fun h => hpend h.2.2]
      exact ⟨rfl, rfl⟩
  | opening r => exact hfrom.elim
  | piece q => exact hfrom.elim
  | closing => exact hfrom.elim

theorem Turn.waits {r : Party} (h : Turn q r xs) (hseat : q.view.seat = 0)
    (hcalm : q.view.hold = 0) (hplain : ∀ y ∈ q.msgs, y.FromGuest) (hprompt : q.view.Prompt)
    (hw : Waits p q) : Waits p r := by
  obtain ⟨hle, hw⟩ := hw
  cases h with
  | took hpump hin =>
      rename_i e rest
      have hfrom : e.2.FromGuest := hplain e.2 (by simp [Party.msgs, hin])
      refine ⟨hle, fun heq => ?_⟩
      obtain ⟨hpend, hcount⟩ := hw heq
      obtain ⟨hpend', hptmo⟩ := onMsg_waits hfrom hpend
      refine ⟨?_, ?_⟩
      · show (q.view.onMsg e.2).pend ≠ 0
        rw [hpend']
        exact hpend
      · show _ = _ + (q.view.onMsg e.2).ptmo
        rw [hptmo]
        exact hcount
  | ran quiet sim hpc hopen hck himg hbytes =>
      rename_i ck img
      show p.hist.pushes ≤ (if _ then q.hist.pushes + 1 else q.hist.pushes) ∧
        ((if _ then q.hist.pushes + 1 else q.hist.pushes) = p.hist.pushes →
          ((q.view.ran ck).pending quiet).pend ≠ 0 ∧
          (q.hist.ran ++ [_]).length + p.view.ptmo =
            p.hist.ran.length + ((q.view.ran ck).pending quiet).ptmo)
      have hkeep : (q.view.ran ck).pend = q.view.pend ∧ (q.view.ran ck).ptmo = q.view.ptmo ∧
          (q.view.ran ck).seat = 0 ∧ (q.view.ran ck).hold = 0 := by
        rw [View.ran_eq]
        exact ⟨rfl, rfl, hseat, hcalm⟩
      rcases View.pending_cases quiet (q.view.ran ck) with ⟨hdue, hidle, he⟩ | ⟨hdue, -⟩ |
        ⟨hdue, hne, -, -, -, he⟩
      · rw [hdue, if_neg Bool.false_ne_true]
        refine ⟨hle, fun heq => ?_⟩
        rcases hidle with h0 | hs | hh
        · exact absurd (hkeep.1 ▸ h0) (hw heq).1
        · exact absurd hkeep.2.2.1 hs
        · exact absurd hkeep.2.2.2 hh
      · rw [hdue, if_pos rfl]
        exact ⟨Nat.le_succ_of_le hle, fun heq => by omega⟩
      · rw [hdue, if_neg Bool.false_ne_true, he]
        refine ⟨hle, fun heq => ⟨hne, ?_⟩⟩
        obtain ⟨hpend, hcount⟩ := hw heq
        have hlt : q.view.ptmo < 60 := hprompt hseat hpend
        have hptmo := hkeep.2.1
        show (q.hist.ran ++ [_]).length + p.view.ptmo =
          p.hist.ran.length + ((q.view.ran ck).ptmo + 1) % 256
        rw [List.length_append, List.length_singleton, hptmo]
        omega
  | _ => exact ⟨hle, hw⟩

/-- The state of requests in a match. -/
structure Attended (g : Start) (s : Pair) : Prop where
  orderly : Orderly g s
  asked : Asked s
  prompt : (s .host).view.Prompt

theorem Attended.init (g : Start) : Attended g (Pair.init g) :=
  ⟨.init g, fun h => absurd rfl h, fun _ h => absurd rfl h⟩

theorem Attended.step (h : Attended g s) (hstep : Pair.Step x s t) : Attended g t := by
  refine ⟨h.orderly.step hstep, h.asked.step h.orderly hstep, ?_⟩
  obtain ⟨xs, hturn, hpeer⟩ := hstep
  cases x with
  | host => exact hturn.prompt h.prompt
  | guest =>
      have hpeer' : t .host = (s .host).gets (s .guest).hist.stamp xs := hpeer
      rw [hpeer']
      exact h.prompt

theorem Attended.run {ys : List Side} (h : Attended g s) (hrun : Run Pair.Step s ys t) :
    Attended g t := hrun.invariant (fun _ _ _ hstep hs => hs.step hstep) h

/-- The host over a run in which a request waits. -/
theorem Attended.waits {ys : List Side} (h : Attended g s) (hpend : (s .host).view.pend ≠ 0)
    (hrun : Run Pair.Step s ys t) : Waits (s .host) (t .host) := by
  have hinv : ∀ y u v, Pair.Step y u v → Attended g u ∧ Waits (s .host) (u .host) →
      Attended g v ∧ Waits (s .host) (v .host) := by
    rintro y u v hstep ⟨hu, hw⟩
    refine ⟨hu.step hstep, ?_⟩
    obtain ⟨xs, hturn, hpeer⟩ := hstep
    cases y with
    | host =>
        exact hturn.waits (hu.orderly.fixed .host).seat hu.orderly.calm hu.orderly.plain hu.prompt hw
    | guest =>
        have hpeer' : v .host = (u .host).gets (u .guest).hist.stamp xs := hpeer
        rw [hpeer']
        exact hw
  exact (hrun.invariant hinv ⟨h, .refl hpend⟩).2

/-! ## The consoles -/

namespace Duo

/-- The bytes a member has not handled: in its accumulator and on their way. -/
def queue (s : Duo) (x : Side) : List Nat :=
  match s.proc x with
  | none => s.wire x
  | some c => buffered c.m ++ s.wire x

/-- A frame is on its way to a member, or waits there to be handled. -/
def InFlight (s : Duo) (x : Side) (f : List Nat) : Prop :=
  ∃ fs : List (List Nat), (∀ f ∈ fs, Framed f) ∧ s.queue x = fs.flatten ∧ f ∈ fs

end Duo

theorem Portrays.queue {d : Duo} (h : Portrays g d s) (x : Side) :
    d.queue x = (frames (s x).inbox).flatten ∧ ∀ e ∈ (s x).inbox, e.2.Sound := by
  unfold Duo.queue
  match hx : d.proc x with
  | none =>
      obtain ⟨-, hqueue, hsound, -⟩ := h.fresh x hx
      exact ⟨hqueue, hsound⟩
  | some c =>
      obtain ⟨hshown, -⟩ := h.shown x c hx
      exact ⟨hshown.queue, hshown.sound⟩

theorem Portrays.inFlight {d : Duo} {y : Msg} (h : Portrays g d s) (hy : y ∈ (s x).msgs) :
    d.InFlight x y.frame := by
  obtain ⟨hqueue, hsound⟩ := h.queue x
  refine ⟨_, fun f hf => ?_, hqueue, ?_⟩
  · obtain ⟨e, he, rfl⟩ := List.mem_map.mp hf
    exact (hsound e he).framed
  · obtain ⟨e, he, rfl⟩ := List.mem_map.mp hy
    exact List.mem_map.mpr ⟨e, he, rfl⟩

/-- A resync the guest wants is under way: its request is in flight, the host has one, or
the END of a push is in flight. A request the host has is served by a push within
`RS_PEND_MAX` completed passes. -/
theorem request_kept {es : List Event} {d : Duo} (hrun : Run (Duo.Step cart g) Duo.init es d) :
    (∀ p, d.proc .guest = some p → p.m.rd rsPend ≠ 0 →
      (∃ r, d.InFlight .host (reqFrame r)) ∨
      (∃ q, d.proc .host = some q ∧ q.m.rd rsPend ≠ 0) ∨ d.InFlight .guest endFrame) ∧
    ∀ q, d.proc .host = some q → q.m.rd rsPend ≠ 0 → q.m.rd rsPtmo ≤ rsPendMax ∧
      ∀ es' d' q', Run (Duo.Step cart g) d es' d' → d'.proc .host = some q' →
        q'.m.hist.pushes = q.m.hist.pushes →
        q'.m.hist.ran.length < q.m.hist.ran.length + rsPendMax := by
  obtain ⟨ys, s, hpair, hs⟩ := (Portrays.init g).run hrun
  have hatt := (Attended.init g).run hpair
  constructor
  · intro p hp hpend
    have hview : (s .guest).view.pend ≠ 0 := by
      rw [(hs.shown _ p hp).1.view]
      exact hpend
    rcases hatt.asked hview with ⟨r, hr⟩ | hh | hc
    · exact Or.inl ⟨r, hs.inFlight hr⟩
    · refine Or.inr (Or.inl ?_)
      match hq : d.proc .host with
      | none =>
          rw [(hs.fresh _ hq).1] at hh
          exact absurd rfl hh
      | some q =>
          refine ⟨q, rfl, ?_⟩
          rw [(hs.shown _ q hq).1.view] at hh
          exact hh
    · exact Or.inr (Or.inr (hs.inFlight hc))
  · intro q hq hpend
    have hshown := (hs.shown _ q hq).1
    have hview : (s .host).view.pend ≠ 0 := by
      rw [hshown.view]
      exact hpend
    have hseat := (hatt.orderly.fixed .host).seat
    have hprompt := hatt.prompt hseat hview
    have hptmo : (s .host).view.ptmo = q.m.rd rsPtmo := by
      rw [hshown.view]
      rfl
    refine ⟨hptmo ▸ Nat.le_of_lt hprompt, fun es' d' q' hrun' hq' hpush => ?_⟩
    obtain ⟨ys', s', hpair', hs'⟩ := hs.run hrun'
    obtain ⟨-, hwait⟩ := hatt.waits hview hpair'
    have hshown' := (hs'.shown _ q' hq').1
    rw [hshown.hist, hshown'.hist] at hwait
    obtain ⟨hpend', hcount⟩ := hwait hpush
    have hlt := (hatt.run hpair').prompt ((hatt.run hpair').orderly.fixed .host).seat hpend'
    have hcount' : q'.m.hist.ran.length + (s .host).view.ptmo =
      q.m.hist.ran.length + (s' .host).view.ptmo := hcount
    omega

/-- Both consoles noticed that they are apart: the guest's request is in flight, and the host has
one of its own. -/
theorem request_kept_apart : ∃ es d k l, Run (Duo.Step idleCart startOne) Duo.init es d ∧
    d.proc .host = some k ∧ k.m.rd rsPend = 1 ∧ d.proc .guest = some l ∧ l.m.rd rsPend = 1 ∧
    d.InFlight .host (reqFrame 0) ∧
    ((∃ r, d.InFlight .host (reqFrame r)) ∨ (∃ q, d.proc .host = some q ∧ q.m.rd rsPend ≠ 0) ∨
      d.InFlight .guest endFrame) ∧
    k.m.rd rsPtmo ≤ rsPendMax ∧
    ∀ es' d' q', Run (Duo.Step idleCart startOne) d es' d' → d'.proc .host = some q' →
      q'.m.hist.pushes = k.m.hist.pushes →
      q'.m.hist.ran.length < k.m.hist.ran.length + rsPendMax := by
  obtain ⟨es, d, S, hrun, hstaged, -, hhost, hguest, hsent⟩ := Staged.follow startOne rfl
    seat_byte apartCues (P := fun S => (S .host).view.pend = 1 ∧ (S .guest).view.pend = 1 ∧
      Msg.request 0 ∈ (S .host).msgs) (by decide +kernel)
  obtain ⟨k, hk, hview, -⟩ := hstaged.console .host
  obtain ⟨l, hl, hview', -⟩ := hstaged.console .guest
  have hpend : k.m.rd rsPend = 1 := by
    show k.m.view.pend = 1
    rw [hview, hhost]
  have hpend' : l.m.rd rsPend = 1 := by
    show l.m.view.pend = 1
    rw [hview', hguest]
  obtain ⟨hasked, hserved⟩ := request_kept hrun
  obtain ⟨hsoon, hpushed⟩ := hserved k hk (by rw [hpend]; decide)
  exact ⟨es, d, k, l, hrun, hk, hpend, hl, hpend', hstaged.portrays.inFlight hsent,
    hasked l hl (by rw [hpend']; decide), hsoon, hpushed⟩

end SharkNetplay.Console
