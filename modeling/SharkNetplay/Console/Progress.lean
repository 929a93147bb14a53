import SharkNetplay.Console.Budget
import SharkNetplay.Console.Requests

/-!
# No deadlock

The pair stays on its course in every run in which nobody gives up. With nothing under
way one of the two members has what its gate waits for, also after a resync that
skipped an INPUT.

## Implementation notes

Between two members the course is kept by one turn of the host or of the guest, and by
every run from START by induction on the turns. The length of a baseline is settled by the
turn in which the host leaves it.
-/

namespace SharkNetplay.Console

open Lib Cell Machine

variable {n n' : Nat → Nat} {d front got : Nat} {h h' g g' p p' : Party} {c : Start}
  {cart : Cart} {x : Side} {xs : List Msg}

/-- Host and guest on their course. -/
structure OnCourse (n : Nat → Nat) (d got front : Nat) (h g : Party) : Prop where
  down : Downstream n d got h g
  up : Upstream n d front h g
  hostRecords : Records n h
  guestRecords : Records n g
  budget : Budget h g

/-- At some place of some course. -/
def Course (d : Nat) (h g : Party) : Prop := ∃ n got front, OnCourse n d got front h g

theorem gets_nil (st : Stamp) (p : Party) : p.gets st [] = p := by
  unfold Party.gets
  rw [List.map_nil, List.append_nil]

theorem View.push_wm {s : Nat} (hs : s < 4) (v : View) :
    v.push.wm s = ((v.tick + 16) % 65536 + v.delay + 65535) % 65536 := if_pos hs

/-! ## Open gates -/

theorem OnCourse.host_ready (hc : OnCourse n d got front h g) (hlap : d ≤ 126)
    (hf : Fixed c .host h.view) :
    h.view.ready = true ↔ firstTick n h.epoch + h.age + 1 ≤ front := by
  have hahead := hc.up.ahead hc.down
  have hpace := hc.up.pace
  rw [hf.ready, decide_eq_true_eq]
  show (h.view.wm 1 + 65536 - h.view.tick) % 65536 < 32768 ↔ _
  rw [hc.up.mark, hc.down.hostTick]
  exact ready_iff hpace (by omega)

theorem OnCourse.guest_ready (hc : OnCourse n d got front h g) (hlap : d ≤ 126)
    (hf : Fixed c .guest g.view) : g.view.ready = true ↔ g.age + 1 ≤ d + got := by
  have hlead := hc.up.lead hc.down
  have hpace := hc.down.pace
  rw [hf.ready, decide_eq_true_eq]
  show (g.view.wm 0 + 65536 - g.view.tick) % 65536 < 32768 ↔ _
  rw [hc.down.mark, hc.down.guestTick, ready_iff (by omega) (by omega)]
  omega

/-! ## Turns of the host -/

/-- A message is handled. -/
theorem OnCourse.hostTook (hc : OnCourse n d got front h g) (hlap : d ≤ 126)
    (hf : Fixed c .host h.view) {e : Stamp × Msg} {rest : List (Stamp × Msg)}
    (hin : h.inbox = e :: rest) : Course d { h with
      view := h.view.onMsg e.2
      hist := h.hist.hear h.view e.2
      heard := h.heard ++ [e]
      inbox := rest } g ∧ h.view.replies e.2 = [] := by
  have hseat : h.view.seat = 0 := hf.seat
  obtain ⟨htold, -, hreach, -⟩ := hc.up.head hin
  have hmem : e.1 ∈ stamps h g := mem_stamps.mpr (.inl ⟨e, by rw [hin]; exact List.mem_cons_self, rfl⟩)
  have hgap := hc.budget.gap hmem
  have hstill := htold.still h.view
  have hstamp := hear_stamp hstill.2.2 h.hist
  have hdown := hc.down.hostTook rest htold
  have hrecords : Records n { h with
      view := h.view.onMsg e.2
      hist := h.hist.hear h.view e.2
      heard := h.heard ++ [e]
      inbox := rest } := hc.hostRecords.took
  have hepoch := congrArg Stamp.epoch hstamp
  have hcaptures : ({ h with
      view := h.view.onMsg e.2
      hist := h.hist.hear h.view e.2
      heard := h.heard ++ [e]
      inbox := rest } : Party).captures = h.captures := by
    show (h.hist.hear h.view e.2).stamp.age + _ = h.hist.stamp.age + _
    rw [hstamp]
  cases htold with
  | input st i =>
      refine ⟨⟨n, got, max front (firstTick n st.epoch + st.age + d + 1), hdown, ?_, hrecords, hc.guestRecords, ?_⟩, rfl⟩
      · exact hc.up.hostInput hlap hseat hf.count hin (Nat.le_succ_of_le hgap) rfl hstamp hcaptures rfl
      · refine hc.budget.hostTook hc.up.sorted hin hepoch rfl (.inl ?_)
        have hpend : (h.view.onInput 1 ((firstTick n st.epoch + st.age + d) % 65536) i).pend =
            h.view.pend := by
          unfold View.onInput
          split <;> rfl
        show (if (h.view.onInput 1 _ i).pend = 0 then 0 else 1) = _
        rw [hpend]
        rfl
  | report st ck hb =>
      refine ⟨⟨n, got, front, hdown, ?_, hrecords, hc.guestRecords, ?_⟩,
        if_neg fun hboth => hboth.2 hseat⟩
      · refine hc.up.hostSkips hin (fun t i => Msg.noConfusion) ?_ hstamp hcaptures rfl
        show (h.view.onCrc _ ck).wm 1 = h.view.wm 1
        unfold View.onCrc
        split <;> rfl
      · refine hc.budget.hostTook hc.up.sorted hin hepoch rfl ?_
        by_cases hclash : h.view.clashes ((firstTick n st.epoch + st.age) % 65536) ck = true
        · exact .inr (.inr (hc.up.clash_lag hc.hostRecords hlap hin (Nat.le_succ_of_le hgap) hclash))
        · refine .inl ?_
          show (if (h.view.onCrc _ ck).pend = 0 then 0 else 1) = _
          unfold View.onCrc
          rw [if_neg hclash]
          rfl
  | request st t =>
      refine ⟨⟨n, got, front, hdown, ?_, hrecords, hc.guestRecords, ?_⟩, rfl⟩
      · refine hc.up.hostSkips hin (fun t' i => Msg.noConfusion) ?_ hstamp hcaptures rfl
        show h.view.onReq.wm 1 = h.view.wm 1
        unfold View.onReq
        split <;> rfl
      · exact hc.budget.hostTook hc.up.sorted hin hepoch rfl (.inr (.inl rfl))

/-- An INPUT is captured and sent. -/
theorem OnCourse.hostCaptured (hc : OnCourse n d got front h g) (hf : Fixed c .host h.view)
    (hdelay : h.view.delay = d) (hpc : h.pc = .pumpGo) (i : Nat × Nat) : Course d { h with
      pc := .gate
      view := h.view.put h.view.seat (h.view.ahead % 256) i
      hist := { h.hist with captured := h.hist.captured ++ [i] } }
      (g.gets h.hist.stamp [.input h.view.seat h.view.ahead i]) := by
  have hcap := h.captures_le
  have hcap' := Party.captures_gate (p := { h with
    pc := .gate
    view := h.view.put h.view.seat (h.view.ahead % 256) i
    hist := { h.hist with captured := h.hist.captured ++ [i] } }) rfl
  refine ⟨n, got, front, hc.down.hostCaptured hdelay hf.seat hpc i, ?_, ?_, ?_, ?_⟩
  · refine hc.up.hostCaptures rfl rfl ?_ rfl rfl rfl
    rw [hcap']
    exact hcap.2
  · exact hc.hostRecords.congr rfl rfl rfl
  · exact hc.guestRecords.congr rfl rfl rfl
  · exact hc.budget.congr rfl rfl rfl rfl rfl

/-- A tick is run. -/
theorem OnCourse.hostRan (hc : OnCourse n d got front h g) (hlap : d ≤ 126)
    (hf : Fixed c .host h.view) (hdelay : h.view.delay = d) (hpc : h.pc = .gate)
    (hready : h.view.ready = true) {ck : Nat} {img : List Nat} (quiet : Bool) (sim : Nat → Nat) :
    Course d { h with
      pc := .top
      view := (h.view.ran ck).pending quiet
      hist := h.hist.ranTick h.view ck sim ((h.view.ran ck).due quiet) }
      (g.gets h.hist.stamp (tickMsgs h.view ck ((h.view.ran ck).due quiet) img)) := by
  have hopen := (hc.host_ready hlap hf).mp hready
  have hcap := Party.captures_gate hpc
  by_cases hdue : (h.view.ran ck).due quiet = true
  · -- the baseline ends here, so its length is known
    have hn : ∀ i < h.epoch, (fun i => if i = h.epoch then h.age + 1 else n i) i = n i :=
      fun i hi => if_neg (by omega)
    have hspan : (fun i => if i = h.epoch then h.age + 1 else n i) h.epoch = h.age + 1 := if_pos rfl
    generalize (fun i => if i = h.epoch then h.age + 1 else n i) = n' at hn hspan
    have hdown := hc.down.extend hn
    have hpush := hdown.hostPushed hpc hf.seat img sim hdue hspan
    have hview := View.pending_due hdue
    have hpend : h.view.pend ≠ 0 := by
      rw [View.due_ran] at hdue
      simp only [View.due, decide_eq_true_eq] at hdue
      exact hdue.1
    have hnext : firstTick n' (h.epoch + 1) = firstTick n' h.epoch + (h.age + 1) + 16 := by
      rw [← hspan]
      rfl
    have htick := hdown.hostTick
    refine ⟨n', got, firstTick n' (h.epoch + 1) + d, hpush, ?_, ?_, ?_, ?_⟩
    · rw [hdue, hview]
      refine hc.up.hostPushes hn hspan hcap hopen ?_ rfl rfl rfl rfl
      dsimp only
      rw [View.push_wm (by decide), View.ran_eq]
      dsimp only
      rw [hdelay, hnext, htick]
      omega
    · rw [hdue, hview]
      exact (hc.hostRecords.extend hn).ranPush htick (View.unrecorded_clear rfl) rfl rfl
    · refine Records.congr (hc.guestRecords.extend fun i hi => hn i ?_) rfl rfl rfl
      rcases hc.down.behind with ⟨heq, -⟩ | ⟨hlt, -⟩ <;> omega
    · rw [hdue, hview]
      exact hc.budget.hostPushes hpend rfl rfl rfl rfl rfl
  · have hno : (h.view.ran ck).due quiet = false := by simpa using hdue
    have hran := hc.down.hostRan hpc hf.seat img sim hno
    obtain ⟨q, hview⟩ := View.pending_still hno
    have hcap' : h.age + 1 = h.captures := hcap.symm
    refine ⟨n, got, front, hran, ?_, ?_, ?_, ?_⟩
    · rw [hno, hview, View.ran_eq]
      exact hc.up.hostRuns hopen rfl rfl rfl hcap' rfl rfl rfl
    · rw [hno, hview, View.ran_eq]
      exact hc.hostRecords.ranOn hc.down.hostTick rfl rfl rfl
    · exact hc.guestRecords.congr rfl rfl rfl
    · rw [hno, hview, View.ran_eq]
      exact hc.budget.congr rfl rfl rfl rfl rfl

/-! ## Turns of the guest -/

/-- Messages arrive at the host. -/
theorem Downstream.hostGets (hd : Downstream n d got h g) (st : Stamp) (xs : List Msg) :
    Downstream n d got (h.gets st xs) g := hd.congr rfl rfl rfl rfl rfl rfl rfl rfl rfl rfl

/-- How far a guest that is on its course can be. -/
theorem Downstream.bounds (hd : Downstream n d got h g) :
    g.epoch ≤ h.epoch ∧ g.age ≤ d + if g.epoch < h.epoch then n g.epoch else h.captures := by
  have hpace := hd.pace
  rcases hd.behind with ⟨heq, hle⟩ | ⟨hlt, hle⟩
  · rw [if_neg (by omega)]
    omega
  · rw [if_pos hlt]
    omega

theorem asked_gets (st : Stamp) (xs : List Msg) (h : Party) :
    asked (h.gets st xs) = asked h ++ (xs.map fun x => (st, x)).filterMap asks :=
  List.filterMap_append

/-- A message without a request leaves what is owed. -/
theorem owed_gets {st : Stamp} (hxs : ∀ x ∈ xs, ∀ t, x ≠ .request t) (hepoch : g'.epoch = g.epoch)
    (hpend : g'.view.pend = g.view.pend) : owed (h.gets st xs) g' = owed h g := by
  have hnone : (xs.map fun x => (st, x)).filterMap asks = [] := by
    refine List.filterMap_eq_nil_iff.mpr fun e he => ?_
    obtain ⟨x, hx, rfl⟩ := List.mem_map.mp he
    cases x with
    | request t => exact absurd rfl (hxs _ hx t)
    | _ => rfl
  unfold owed
  rw [asked_gets, hnone, List.append_nil, hepoch, hpend]

/-- The budget after the guest handled a message. -/
theorem OnCourse.guestBudget (hc : OnCourse n d got front h g) (hf : Fixed c .guest g.view)
    {e : Stamp × Msg} {rest : List (Stamp × Msg)} :
    Budget (h.gets g.hist.stamp (g.view.replies e.2)) { g with
      view := g.view.onMsg e.2
      hist := g.hist.hear g.view e.2
      heard := g.heard ++ [e]
      inbox := rest } := by
  have hseat : g.view.seat ≠ 0 := by
    rw [hf.seat]
    decide
  -- a message that is neither answered nor adopted
  have hplain : g.view.replies e.2 = [] → (g.view.onMsg e.2).pend = g.view.pend →
      g.view.adopts e.2 = false → Budget (h.gets g.hist.stamp (g.view.replies e.2)) { g with
        view := g.view.onMsg e.2
        hist := g.hist.hear g.view e.2
        heard := g.heard ++ [e]
        inbox := rest } := by
    intro hreplies hpend hadopt
    have hstamp := hear_stamp hadopt g.hist
    refine hc.budget.guestSends (owed_gets ?_ (congrArg Stamp.epoch hstamp) hpend)
      (congrArg Stamp.epoch hstamp)
    rw [hreplies]
    exact fun x hx => absurd hx List.not_mem_nil
  obtain ⟨st, x⟩ := e
  cases x with
  | input s t i =>
      refine hplain rfl ?_ rfl
      show (g.view.onInput s t i).pend = g.view.pend
      unfold View.onInput
      split <;> rfl
  | report s t ck =>
      by_cases hclash : g.view.clashes t ck = true
      · have hreplies : g.view.replies (.report s t ck) = [.request t] := if_pos ⟨hclash, hseat⟩
        have hview : g.view.onMsg (.report s t ck) = { g.view with pend := 1, ptmo := 0 } :=
          if_pos hclash
        have hpend : g.view.pend = 0 := by
          simp only [View.clashes, decide_eq_true_eq] at hclash
          exact hclash.2.1
        refine hc.budget.guestSends ?_ rfl
        dsimp only
        unfold owed
        rw [asked_gets, hreplies, hview, if_pos hpend]
        dsimp only
        rw [if_neg Nat.one_ne_zero, List.append_nil]
        rfl
      · refine hplain (if_neg fun hboth => hclash hboth.1) ?_ rfl
        show (g.view.onCrc t ck).pend = g.view.pend
        unfold View.onCrc
        rw [if_neg hclash]
  | request t =>
      refine hplain rfl ?_ rfl
      show g.view.onReq.pend = g.view.pend
      unfold View.onReq
      rw [if_neg fun hhost => hseat hhost.1]
  | opening r => exact hplain rfl rfl rfl
  | piece q => exact hplain rfl rfl rfl
  | closing =>
      by_cases hhold : g.view.hold = 0
      · refine hplain rfl ?_ (decide_eq_false (not_not.mpr hhold))
        show g.view.onEnd.pend = g.view.pend
        unfold View.onEnd
        rw [if_pos hhold]
      · have hadopt : g.view.adopts .closing = true := decide_eq_true hhold
        show Budget (h.gets g.hist.stamp []) _
        rw [gets_nil]
        refine hc.budget.guestAdopts hc.up.sorted ?_ ?_
        · show (g.hist.hear g.view .closing).stamp.epoch = _
          unfold Record.hear
          rw [hadopt]
          rfl
        · show g.view.onEnd.pend = 0
          unfold View.onEnd
          rw [if_neg hhold]
          rfl

/-- A message is handled. -/
theorem OnCourse.guestTook (hc : OnCourse n d got front h g) (hf : Fixed c .guest g.view)
    (hdelay : g.view.delay = d) {e : Stamp × Msg} {rest : List (Stamp × Msg)}
    (hin : g.inbox = e :: rest) : Course d (h.gets g.hist.stamp (g.view.replies e.2)) { g with
      view := g.view.onMsg e.2
      hist := g.hist.hear g.view e.2
      heard := g.heard ++ [e]
      inbox := rest } := by
  obtain ⟨got', hdown⟩ := hc.down.guestTook hdelay hf.seat hf.count hin
  have hbounds := hdown.bounds
  have hrecords : Records n { g with
      view := g.view.onMsg e.2
      hist := g.hist.hear g.view e.2
      heard := g.heard ++ [e]
      inbox := rest } := hc.guestRecords.took
  refine ⟨n, got', front, hdown.hostGets _ _, ?_, hc.hostRecords.congr rfl rfl rfl, hrecords, ?_⟩
  · have htells : ∀ y ∈ g.view.replies e.2, Tells n d (g.hist.stamp, y) := by
      intro y hy
      cases hx : e.2 with
      | report s t ck =>
          rw [hx] at hy
          simp only [View.replies] at hy
          split at hy
          · rw [List.mem_singleton.mp hy]
            exact .request _ t
          · exact absurd hy List.not_mem_nil
      | _ =>
          rw [hx] at hy
          exact absurd hy List.not_mem_nil
    by_cases hadopt : g.view.adopts e.2 = true
    · have hstamp : (g.hist.hear g.view e.2).stamp = ⟨g.epoch + 1, 0⟩ := by
        unfold Record.hear
        rw [hadopt]
        rfl
      refine hc.up.guestMoves htells ?_ hbounds.1 hbounds.2 (.inl ?_)
      · rw [hstamp]
        exact .inl (Nat.lt_succ_self _)
      · have hle := Party.captures_le { g with
          view := g.view.onMsg e.2
          hist := g.hist.hear g.view e.2
          heard := g.heard ++ [e]
          inbox := rest }
        have hage : (g.hist.hear g.view e.2).stamp.age = 0 := by rw [hstamp]
        exact Nat.le_trans hle.2 (Nat.le_of_eq (congrArg (· + 1) hage))
    · have hstamp := hear_stamp (Bool.eq_false_iff.mpr hadopt) g.hist
      refine hc.up.guestMoves htells ?_ hbounds.1 hbounds.2 (.inr ⟨?_, .inl ?_⟩)
      · rw [hstamp]
        exact .refl _
      · exact congrArg Stamp.epoch hstamp
      · show (g.hist.hear g.view e.2).stamp.age + _ ≤ _
        rw [hstamp]
        exact Nat.le_refl _
  · exact hc.guestBudget hf

/-- An INPUT is captured and sent. -/
theorem OnCourse.guestCaptured (hc : OnCourse n d got front h g) (hf : Fixed c .guest g.view)
    (hdelay : g.view.delay = d) (i : Nat × Nat) :
    Course d (h.gets g.hist.stamp [.input g.view.seat g.view.ahead i]) { g with
      pc := .gate
      view := g.view.put g.view.seat (g.view.ahead % 256) i
      hist := { g.hist with captured := g.hist.captured ++ [i] } } := by
  have hseat : g.view.seat = 1 := hf.seat
  have hbounds := hc.down.bounds
  have hahead : g.view.ahead = (firstTick n g.epoch + g.age + d) % 65536 := by
    unfold View.ahead
    rw [hc.down.guestTick, hdelay]
    omega
  have hdown : Downstream n d got h { g with
      pc := .gate
      view := g.view.put g.view.seat (g.view.ahead % 256) i
      hist := { g.hist with captured := g.hist.captured ++ [i] } } :=
    hc.down.congr rfl rfl rfl rfl rfl rfl rfl rfl rfl rfl
  refine ⟨n, got, front, hdown.hostGets _ _, ?_, hc.hostRecords.congr rfl rfl rfl,
    hc.guestRecords.congr rfl rfl rfl, ?_⟩
  · refine hc.up.guestMoves ?_ (.refl _) hbounds.1 hbounds.2 (.inr ⟨rfl, .inr ?_⟩)
    · intro y hy
      rw [List.mem_singleton.mp hy, hseat, hahead]
      exact .input g.hist.stamp i
    · rw [hseat]
      exact ⟨_, i, List.mem_singleton.mpr rfl, Nat.le_of_eq (Party.captures_gate rfl)⟩
  · refine hc.budget.guestSends (owed_gets ?_ rfl rfl) rfl
    intro y hy t
    rw [List.mem_singleton.mp hy]
    exact Msg.noConfusion

/-- A tick is run. -/
theorem OnCourse.guestRan (hc : OnCourse n d got front h g) (hlap : d ≤ 126)
    (hf : Fixed c .guest g.view) (hpc : g.pc = .gate) (hready : g.view.ready = true) {ck : Nat}
    {img : List Nat} (quiet : Bool) (sim : Nat → Nat) :
    Course d (h.gets g.hist.stamp (tickMsgs g.view ck ((g.view.ran ck).due quiet) img)) { g with
      pc := .top
      view := (g.view.ran ck).pending quiet
      hist := g.hist.ranTick g.view ck sim ((g.view.ran ck).due quiet) } := by
  have hseat : g.view.seat = 1 := hf.seat
  have hopen := (hc.guest_ready hlap hf).mp hready
  have hdown := hc.down.guestRan hseat hopen ck quiet sim
  have hbounds := hdown.bounds
  have hcap := Party.captures_gate hpc
  have hno : (g.view.ran ck).due quiet = false := by
    rw [View.due_ran]
    exact View.not_due_guest (by rw [hseat]; decide) quiet
  have hmsgs : tickMsgs g.view ck false img =
      if g.view.tick % 64 = 0 then [.report g.view.seat g.view.tick ck] else [] :=
    List.append_nil _
  have htick := hc.down.guestTick
  have hsent : ∀ y ∈ tickMsgs g.view ck false img, y = .report 1 g.view.tick ck ∧
      (firstTick n g.epoch + g.age) % 64 = 0 := by
    intro y hy
    rw [hmsgs] at hy
    split at hy
    · next hb =>
        rw [List.mem_singleton.mp hy, hseat]
        rw [htick] at hb
        exact ⟨rfl, by omega⟩
    · exact absurd hy List.not_mem_nil
  obtain ⟨q, hview⟩ := View.pending_still hno
  refine ⟨n, got, front, hdown.hostGets _ _, ?_, hc.hostRecords.congr rfl rfl rfl, ?_, ?_⟩
  · rw [hno] at hbounds ⊢
    refine hc.up.guestMoves ?_ (.inr ⟨rfl, Nat.le_succ _⟩) hbounds.1 hbounds.2
      (.inr ⟨rfl, .inl (Nat.le_of_eq ?_)⟩)
    · intro y hy
      obtain ⟨rfl, hb⟩ := hsent y hy
      rw [htick]
      exact .report g.hist.stamp ck hb
    · exact hcap.symm
  · rw [hno, hview, View.ran_eq]
    exact hc.guestRecords.ranOn htick rfl rfl rfl
  · rw [hno]
    refine hc.budget.guestSends (owed_gets ?_ rfl ?_) rfl
    · intro y hy t
      rw [(hsent y hy).1]
      exact Msg.noConfusion
    · show ((g.view.ran ck).pending quiet).pend = g.view.pend
      rw [hview, View.ran_eq]

/-! ## Runs -/

/-- A turn of the host. -/
theorem Course.hostTurn (hc : Course d h g) (hlap : d ≤ 126) (hf : Fixed c .host h.view)
    (hdelay : c.delay = d) (hturn : Turn h h' xs) (hdrop : h'.view.dropped = 0) :
    Course d h' (g.gets h.hist.stamp xs) := by
  obtain ⟨n, got, front, hc⟩ := hc
  have hd : h.view.delay = d := hf.delay.trans hdelay
  cases hturn with
  | idle hidle =>
      rw [gets_nil]
      have hcap := hidle.captures
      exact ⟨n, got, front, hc.down.congr rfl rfl hcap rfl rfl rfl rfl rfl rfl rfl,
        hc.up.congr rfl rfl hcap rfl rfl rfl, hc.hostRecords.congr rfl rfl rfl, hc.guestRecords,
        hc.budget.congr rfl rfl rfl rfl rfl⟩
  | left hpc hno => exact absurd hdrop hno
  | took hpump hin =>
      obtain ⟨hcourse, hnone⟩ := hc.hostTook hlap hf hin
      rw [hnone, gets_nil]
      exact hcourse
  | captured hi hpc => exact hc.hostCaptured hf hd hpc _
  | gaveUp hpc hh => exact absurd hdrop Nat.one_ne_zero
  | ran quiet sim hpc hopen hck himg hbytes =>
      rename_i ck img
      have hlive : h.view.dropped = 0 := (View.dropped_ran ck quiet h.view).symm.trans hdrop
      exact hc.hostRan hlap hf hd hpc (hopen.resolve_left (not_not.mpr hlive)) quiet sim

/-- A turn of the guest. -/
theorem Course.guestTurn (hc : Course d h g) (hlap : d ≤ 126) (hf : Fixed c .guest g.view)
    (hdelay : c.delay = d) (hturn : Turn g g' xs) (hdrop : g'.view.dropped = 0) :
    Course d (h.gets g.hist.stamp xs) g' := by
  obtain ⟨n, got, front, hc⟩ := hc
  have hd : g.view.delay = d := hf.delay.trans hdelay
  cases hturn with
  | idle hidle =>
      rw [gets_nil]
      have hcap := hidle.captures
      exact ⟨n, got, front, hc.down.congr rfl rfl rfl rfl rfl rfl rfl rfl rfl rfl,
        hc.up.congr rfl rfl rfl rfl rfl hcap, hc.hostRecords, hc.guestRecords.congr rfl rfl rfl,
        hc.budget.congr rfl rfl rfl rfl rfl⟩
  | left hpc hno => exact absurd hdrop hno
  | took hpump hin => exact hc.guestTook hf hd hin
  | captured hi hpc => exact hc.guestCaptured hf hd _
  | gaveUp hpc hh => exact absurd hdrop Nat.one_ne_zero
  | ran quiet sim hpc hopen hck himg hbytes =>
      rename_i ck img
      have hlive : g.view.dropped = 0 := (View.dropped_ran ck quiet g.view).symm.trans hdrop
      exact hc.guestRan hlap hf hpc (hopen.resolve_left (not_not.mpr hlive)) quiet sim

/-- At START. -/
theorem Course.init (hone : 1 ≤ c.delay) (hlap : c.delay ≤ 126) :
    Course c.delay (Pair.init c .host) (Pair.init c .guest) := by
  have hdelay : ∀ y : Side, (c.frame y).getD 6 0 = c.delay := fun _ => rfl
  have hmark : ∀ y : Side, ∀ i < 4, (Pair.init c y).view.wm i = (c.delay + 65535) % 65536 := by
    intro y i hi
    have hwm : (Pair.init c y).view.wm i = ((c.frame y).getD 6 0 + 65535) % 65536 % 256 := if_pos hi
    rw [hwm, hdelay]
    omega
  have hfirst : ∀ y : Side, firstTick (fun _ => 0) (Pair.init c y).epoch = 0 := fun _ => rfl
  have hage : ∀ y : Side, (Pair.init c y).age = 0 := fun _ => rfl
  have hstamps : stamps (Pair.init c .host) (Pair.init c .guest) = [⟨0, 0⟩] := rfl
  have howed : owed (Pair.init c .host) (Pair.init c .guest) = [0] := rfl
  refine ⟨fun _ => 0, 0, c.delay, ?_, ?_, ?_, ?_, ?_⟩
  · exact {
      hostTick := by
        rw [hfirst, hage, Nat.add_zero, Nat.zero_mod]
        rfl
      guestTick := by
        rw [hfirst, hage, Nat.add_zero, Nat.zero_mod]
        rfl
      mark := by
        have hwm := hmark .guest 0 (by decide)
        have hbase := hfirst .guest
        omega
      pace := Nat.zero_le _
      free := rfl
      flow := .nil _
      resume := fun hno => absurd rfl hno }
  · exact {
      mark := hmark .host 1 (by decide)
      floor := by
        rw [hfirst]
        exact Nat.le_of_eq (Nat.zero_add _)
      pace := Nat.zero_le _
      told := fun e he => absurd he List.not_mem_nil
      sorted := by
        rw [hstamps]
        exact List.pairwise_singleton _ _
      reach := by
        rw [hstamps]
        intro st hst
        rw [List.mem_singleton.mp hst]
        refine ⟨Nat.le_refl _, Nat.zero_le _, fun i hi hie => ?_, .inl ?_⟩
        · exact absurd hie (Nat.not_lt_zero _)
        · rw [hfirst]
          omega
      late := fun _ => .inl (Nat.zero_le _) }
  · exact ⟨fun r hr => absurd hr List.not_mem_nil,
      fun t ht hlo => absurd hlo (View.unrecorded_clear rfl t ht)⟩
  · exact ⟨fun r hr => absurd hr List.not_mem_nil,
      fun t ht hlo => absurd hlo (View.unrecorded_clear rfl t ht)⟩
  · refine ⟨?_, ?_⟩
    · rw [howed]
      exact List.pairwise_singleton _ _
    · rw [hstamps, howed]
      intro st hst
      rw [List.mem_singleton.mp hst]
      show 0 + 0 + (if 0 ∈ [0] then 1 else 0) ≤ 0 + 9
      decide

/-- A member that gave up stays so. -/
theorem Turn.given_up (hturn : Turn p p' xs) (hdrop : p'.view.dropped = 0) : p.view.dropped = 0 := by
  cases hturn with
  | idle h => exact hdrop
  | left hpc hno => exact absurd hdrop hno
  | took hpump hin => exact (View.dropped_onMsg _ _).symm.trans hdrop
  | captured hi hpc => exact hdrop
  | gaveUp hpc hh => exact absurd hdrop Nat.one_ne_zero
  | ran quiet sim hpc hopen hck himg hbytes =>
      exact (View.dropped_ran _ quiet p.view).symm.trans hdrop

/-- Nobody gave up. -/
def Pair.Steady (s : Pair) : Prop := ∀ x, (s x).view.dropped = 0

variable {s t : Pair}

theorem Pair.Steady.before (hstep : Pair.Step x s t) (ht : t.Steady) : s.Steady := by
  obtain ⟨xs, hturn, hpeer⟩ := hstep
  intro y
  rcases Side.eq_or_peer x y with rfl | rfl
  · exact hturn.given_up (ht _)
  · have hdrop := ht x.peer
    rw [hpeer] at hdrop
    exact hdrop

/-- A pair in order is on its course while nobody gives up. -/
structure Coursing (c : Start) (s : Pair) : Prop where
  orderly : Orderly c s
  course : s.Steady → Course c.delay (s .host) (s .guest)

theorem Coursing.step (hlap : c.delay ≤ 126) (hs : Coursing c s) (hstep : Pair.Step x s t) :
    Coursing c t := by
  refine ⟨hs.orderly.step hstep, fun ht => ?_⟩
  have hcourse := hs.course (Pair.Steady.before hstep ht)
  have hfixed := hs.orderly.fixed
  obtain ⟨xs, hturn, hpeer⟩ := hstep
  cases x with
  | host =>
      have hguest : t .guest = (s .guest).gets (s .host).hist.stamp xs := hpeer
      rw [hguest]
      exact hcourse.hostTurn hlap (hfixed .host) rfl hturn (ht .host)
  | guest =>
      have hhost : t .host = (s .host).gets (s .guest).hist.stamp xs := hpeer
      rw [hhost]
      exact hcourse.guestTurn hlap (hfixed .guest) rfl hturn (ht .guest)

theorem Coursing.init (hone : 1 ≤ c.delay) (hlap : c.delay ≤ 126) : Coursing c (Pair.init c) :=
  ⟨.init c, fun _ => .init hone hlap⟩

theorem Coursing.run (hone : 1 ≤ c.delay) (hlap : c.delay ≤ 126) {ys : List Side}
    (hrun : Run Pair.Step (Pair.init c) ys t) : Coursing c t :=
  hrun.invariant (fun _ _ _ hstep hs => hs.step hlap hstep) (.init hone hlap)

/-- What every turn keeps while nobody gives up holds of every such run. -/
theorem Coursing.keeps {Q : Pair → Prop} (hone : 1 ≤ c.delay) (hlap : c.delay ≤ 126)
    (hinit : Q (Pair.init c))
    (hkeeps : ∀ x s t, Coursing c s → s.Steady → t.Steady → Q s → Pair.Step x s t → Q t)
    {ys : List Side} (hrun : Run Pair.Step (Pair.init c) ys t) (ht : t.Steady) : Q t := by
  have hboth : Coursing c t ∧ (t.Steady → Q t) := by
    refine hrun.invariant (P := fun s => Coursing c s ∧ (s.Steady → Q s)) (fun x s t hstep hs => ?_)
      ⟨.init hone hlap, fun _ => hinit⟩
    refine ⟨hs.1.step hlap hstep, fun ht => ?_⟩
    have hsteady := Pair.Steady.before hstep ht
    exact hkeeps x s t hs.1 hsteady ht (hs.2 hsteady) hstep
  exact hboth.2 ht

/-- Nobody gives up at the consoles. -/
def Duo.Steady (duo : Duo) : Prop := ∀ x k, duo.proc x = some k → k.m.rd netDropped = 0

/-- Nobody gave up in the roles. -/
theorem Staged.steady {duo : Duo} {S : Scene} (h : Staged c duo S) (hhost : (S .host).view.dropped = 0)
    (hguest : (S .guest).view.dropped = 0) : duo.Steady := by
  intro x k hk
  have hview := (h.portrays.shown x k hk).1.view
  show k.m.view.dropped = 0
  rw [← hview]
  cases x with
  | host => exact hhost
  | guest => exact hguest

/-- Nobody gives up in the pair that stands for the consoles. -/
theorem Portrays.steady {duo : Duo} (hs : Portrays c duo s) (hsteady : duo.Steady) : s.Steady := by
  intro x
  match hx : duo.proc x with
  | none =>
      rw [(hs.fresh x hx).1]
      rfl
  | some k =>
      rw [(hs.shown x k hx).1.view]
      exact hsteady x k hx

/-- The pair that stands for two consoles that keep their match. -/
theorem steady_pair {Q : Pair → Prop} (hone : 1 ≤ c.delay) (hlap : c.delay ≤ 126)
    (hinit : Q (Pair.init c))
    (hkeeps : ∀ x s t, Coursing c s → s.Steady → t.Steady → Q s → Pair.Step x s t → Q t)
    {es : List Event} {duo : Duo} (hrun : Run (Duo.Step cart c) Duo.init es duo)
    (hsteady : duo.Steady) : ∃ s, Portrays c duo s ∧ Coursing c s ∧ s.Steady ∧ Q s := by
  obtain ⟨ys, s, hpair, hs⟩ := (Portrays.init c).run hrun
  have hsteady' := hs.steady hsteady
  exact ⟨s, hs, .run hone hlap hpair, hsteady', Coursing.keeps hone hlap hinit hkeeps hpair hsteady'⟩

/-! ## Nothing under way -/

/-- With nothing under way nobody is in a hold, and one of the two gates is open. -/
theorem OnCourse.quiet (hc : OnCourse n d got front h g) (hone : 1 ≤ d) (hlap : d ≤ 126)
    (hfh : Fixed c .host h.view) (hfg : Fixed c .guest g.view) (hh : h.inbox = [])
    (hg : g.inbox = []) :
    h.view.hold = 0 ∧ g.view.hold = 0 ∧ (h.view.ready = true ∨ g.view.ready = true) := by
  have hflow := hc.down.flow
  rw [hg] at hflow
  obtain ⟨hepoch, hgot, hhold⟩ := Place.mk.inj (hears_nil hflow)
  refine ⟨hc.down.free, by simpa using hhold, ?_⟩
  rw [hc.host_ready hlap hfh, hc.guest_ready hlap hfg]
  by_contra hno
  rw [not_or] at hno
  obtain ⟨hhost, hguest⟩ := hno
  have hhcap := h.captures_le
  have hgcap := g.captures_le
  have hfloor := hc.up.floor
  rcases hc.up.late hepoch with hfew | hfar | ⟨a, t, i, hmem, -⟩
  · omega
  · omega
  · rw [hh] at hmem
    exact absurd hmem List.not_mem_nil

/-- The queue of a member without a message is empty, and the other way round. -/
theorem Portrays.queue_nil {duo : Duo} (hs : Portrays c duo s) (hqueue : duo.queue x = []) :
    (s x).inbox = [] := by
  obtain ⟨hflat, hsound⟩ := hs.queue x
  rw [hqueue] at hflat
  refine List.eq_nil_iff_forall_not_mem.mpr fun e he => ?_
  have hnil := List.flatten_eq_nil_iff.mp hflat.symm e.2.frame (List.mem_map_of_mem he)
  have hlong := (hsound e he).framed.wellFormed.long
  rw [hnil] at hlong
  exact absurd hlong (by decide)

/-- In a match in which nobody gives up, with no byte on its way to either console: neither has a
resync on hold, and the gate of one of them is open. -/
theorem never_deadlocked (hone : 1 ≤ c.delay) (hlap : 2 * c.delay + 2 < 256) {es : List Event}
    {duo : Duo} (hrun : Run (Duo.Step cart c) Duo.init es duo)
    (hsteady : duo.Steady) (hquiet : ∀ x, duo.queue x = []) :
    (∀ x k, duo.proc x = some k → k.m.rd resyncHold = 0) ∧
      ∀ k l, duo.proc .host = some k → duo.proc .guest = some l →
        gateOpen k.m = true ∨ gateOpen l.m = true := by
  obtain ⟨s, hs, hcoursing, hsteady', -⟩ := steady_pair (Q := fun _ => True) hone (by omega) trivial
    (fun _ _ _ _ _ _ _ _ => trivial) hrun hsteady
  obtain ⟨n, got, front, hc⟩ := hcoursing.course hsteady'
  have hfixed := hcoursing.orderly.fixed
  obtain ⟨hhost, hguest, hready⟩ := hc.quiet hone (by omega) (hfixed .host) (hfixed .guest)
    (hs.queue_nil (hquiet .host)) (hs.queue_nil (hquiet .guest))
  have hgate : ∀ x k, duo.proc x = some k → (s x).view.ready = true → gateOpen k.m = true := by
    intro x k hx hopen
    have hview := (hs.shown x k hx).1.view
    have hcount : k.m.view.count ≤ 4 := by
      rw [← hview, (hfixed x).count]
      decide
    rw [gateOpen_view hcount, ← hview]
    exact hopen
  constructor
  · intro x k hx
    have hview : (s x).view.hold = k.m.rd resyncHold := by
      rw [(hs.shown x k hx).1.view]
      rfl
    rw [← hview]
    cases x with
    | host => exact hhost
    | guest => exact hguest
  · intro k l hk hl
    exact hready.imp (hgate _ k hk) (hgate _ l hl)

/-- Both consoles ran ticks 0 and 1, and nothing is on its way. -/
theorem never_deadlocked_calm : ∃ es duo k l, Run (Duo.Step idleCart startOne) Duo.init es duo ∧
    duo.proc .host = some k ∧ k.m.hist.ran.map Ran.tick = [0, 1] ∧ duo.proc .guest = some l ∧
    l.m.hist.ran.map Ran.tick = [0, 1] ∧ (∀ x, duo.queue x = []) ∧ k.m.rd resyncHold = 0 ∧
    l.m.rd resyncHold = 0 ∧ (gateOpen k.m = true ∨ gateOpen l.m = true) := by
  obtain ⟨es, duo, S, hrun, hstaged, -, hran, hran', hdrop, hdrop', hin, hin'⟩ :=
    Staged.follow startOne rfl (j := fun _ => 0) (fun _ => by decide) calmCues
      (P := fun S => (S .host).hist.ran.map Ran.tick = [0, 1] ∧
        (S .guest).hist.ran.map Ran.tick = [0, 1] ∧ (S .host).view.dropped = 0 ∧
        (S .guest).view.dropped = 0 ∧ (frames (S .host).inbox).flatten = [] ∧
        (frames (S .guest).inbox).flatten = []) (by decide +kernel)
  obtain ⟨k, hk, -, hhist, -⟩ := hstaged.console .host
  obtain ⟨l, hl, -, hhist', -⟩ := hstaged.console .guest
  have hquiet : ∀ x, duo.queue x = [] := by
    intro x
    rw [(hstaged.portrays.queue x).1]
    cases x with
    | host => exact hin
    | guest => exact hin'
  rw [← hhist] at hran
  rw [← hhist'] at hran'
  obtain ⟨hhold, hopen⟩ := never_deadlocked (by decide) (by decide) hrun
    (hstaged.steady hdrop hdrop') hquiet
  exact ⟨es, duo, k, l, hrun, hk, hran, hl, hran', hquiet, hhold .host k hk, hhold .guest l hl,
    hopen k l hk hl⟩

end SharkNetplay.Console
