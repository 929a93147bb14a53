import SharkNetplay.Console.Repair

/-!
# How often a match is resynced

Only under the baseline of START do checksums differ. So the guest asks once at most, and the host
pushes once for what it finds itself and once more for a request that reaches it late.
-/

namespace SharkNetplay.Console

open Lib

variable {cart : Cart} {c : Start} {x : Side} {n : Nat → Nat} {d got : Nat} {h g p p' : Party}
  {s t : Pair} {duo duo' : Duo} {k : Proc} {st : Stamp} {xs : List Msg} {y : Stamp × Msg}
  {l l' rest : List (Stamp × Msg)}

/-! ## Requests -/

/-- How many of the messages are requests. -/
def requests (l : List (Stamp × Msg)) : Nat := (l.filterMap asks).length

theorem requests_append (l l' : List (Stamp × Msg)) :
    requests (l ++ l') = requests l + requests l' := by
  unfold requests
  rw [List.filterMap_append, List.length_append]

theorem requests_none (h : ∀ y ∈ l, asks y = none) : requests l = 0 := by
  unfold requests
  rw [List.filterMap_eq_nil_iff.mpr h]
  rfl

/-- A request is told from the type of its frame. -/
theorem requests_frames (l : List (Stamp × Msg)) :
    ((l.map fun y => (y.1.epoch, y.2.frame)).filter fun f => f.2.getD 1 0 = ftResync).length =
      requests l := by
  induction l with
  | nil => rfl
  | cons y l ih =>
      have hsplit := requests_append [y] l
      have hone : ([(y.1.epoch, y.2.frame)].filter fun f => f.2.getD 1 0 = ftResync).length =
          requests [y] := by
        obtain ⟨st, x⟩ := y
        cases x with
        | _ => rfl
      calc _ = ([(y.1.epoch, y.2.frame)].filter fun f => f.2.getD 1 0 = ftResync).length +
            ((l.map fun y => (y.1.epoch, y.2.frame)).filter fun f =>
              f.2.getD 1 0 = ftResync).length := by
            rw [← List.length_append, ← List.filter_append]
            rfl
        _ = requests [y] + requests l := by rw [hone, ih]
        _ = requests (y :: l) := hsplit.symm

theorem requests_map (h : ∀ y ∈ xs, ∀ u, y ≠ .request u) :
    requests (xs.map fun y => (st, y)) = 0 := by
  refine requests_none fun z hz => ?_
  obtain ⟨y, hy, rfl⟩ := List.mem_map.mp hz
  cases y with
  | request u => exact absurd rfl (h _ hy u)
  | _ => rfl

/-- What a guest may still ask for: it is in the baseline of START and has asked for nothing. -/
def Party.mayAsk (g : Party) : Nat := if g.epoch = 0 ∧ g.view.pend = 0 then 1 else 0

theorem Party.mayAsk_open (hepoch : p.epoch = 0) (hpend : p.view.pend = 0) : p.mayAsk = 1 :=
  if_pos ⟨hepoch, hpend⟩

theorem Party.mayAsk_done (hpend : p.view.pend ≠ 0) : p.mayAsk = 0 :=
  if_neg fun hboth => hpend hboth.2

theorem Party.mayAsk_le (h : p'.epoch = 0 → p'.view.pend = 0 → p.epoch = 0 ∧ p.view.pend = 0) :
    p'.mayAsk ≤ p.mayAsk := by
  by_cases hopen : p'.epoch = 0 ∧ p'.view.pend = 0
  · obtain ⟨hepoch, hpend⟩ := h hopen.1 hopen.2
    have hone : p'.mayAsk = 1 := Party.mayAsk_open hopen.1 hopen.2
    have hold : p.mayAsk = 1 := Party.mayAsk_open hepoch hpend
    exact Nat.le_of_eq (hone.trans hold.symm)
  · have hnone : p'.mayAsk = 0 := if_neg hopen
    rw [hnone]
    exact Nat.zero_le _

/-- The pushes made, the one to come, and the requests so far. -/
structure Spent (h g : Party) : Prop where
  counts : h.hist.pushes = h.epoch
  pushed : h.hist.pushes + waiting h ≤ requests h.heard + 1
  asked : requests (h.heard ++ h.inbox) + g.mayAsk ≤ 1

namespace Spent

/-- Baseline, pushes, wish and messages of the host are what they were. -/
theorem congr (hs : Spent p g) (hepoch : p'.epoch = p.epoch)
    (hpushes : p'.hist.pushes = p.hist.pushes) (hpend : p'.view.pend = p.view.pend)
    (hheard : p'.heard = p.heard) (hin : p'.inbox = p.inbox) : Spent p' g := by
  refine ⟨?_, ?_, ?_⟩
  · rw [hepoch, hpushes]
    exact hs.counts
  · unfold waiting
    rw [hpushes, hpend, hheard]
    exact hs.pushed
  · rw [hheard, hin]
    exact hs.asked

/-- The host handles a message. -/
theorem hostTook (hs : Spent p g) (hin : p.inbox = y :: rest) (hfrom : y.2.FromGuest)
    (hclash : ∀ sd u ck, y.2 = .report sd u ck → p.view.clashes u ck = true → p.epoch = 0) :
    Spent { p with
      view := p.view.onMsg y.2
      hist := p.hist.hear p.view y.2
      heard := p.heard ++ [y]
      inbox := rest } g := by
  have hadopt : p.view.adopts y.2 = false := by
    cases hx : y.2 with
    | closing =>
        rw [hx] at hfrom
        exact hfrom.elim
    | _ => rfl
  have hstamp := hear_stamp hadopt p.hist
  have hone := requests_append p.heard [y]
  refine ⟨?_, ?_, ?_⟩
  · show p.hist.pushes = (p.hist.hear p.view y.2).stamp.epoch
    rw [hstamp]
    exact hs.counts
  · show p.hist.pushes + waiting _ ≤ requests (p.heard ++ [y]) + 1
    have hbefore := hs.pushed
    -- a wish is new on a clash or a request only
    have hwish : waiting { p with view := p.view.onMsg y.2 } ≤ waiting p ∨
        p.hist.pushes = 0 ∨ requests [y] = 1 := by
      obtain ⟨st, x⟩ := y
      cases x with
      | input sd u i =>
          refine .inl (Nat.le_of_eq ?_)
          have hkeep : (p.view.onInput sd u i).pend = p.view.pend := by
            unfold View.onInput
            split
            · rfl
            · rfl
          show (if (p.view.onInput sd u i).pend = 0 then 0 else 1) = _
          rw [hkeep]
          rfl
      | report sd u ck =>
          cases hdiffers : p.view.clashes u ck with
          | true => exact .inr (.inl (hs.counts.trans (hclash sd u ck rfl hdiffers)))
          | false =>
              have hkeep : p.view.onCrc u ck = p.view := by
                unfold View.onCrc
                rw [hdiffers, if_neg Bool.false_ne_true]
              refine .inl (Nat.le_of_eq ?_)
              show (if (p.view.onCrc u ck).pend = 0 then 0 else 1) = _
              rw [hkeep]
              rfl
      | request u => exact .inr (.inr rfl)
      | _ => exact hfrom.elim
    have hmost := waiting_le { p with view := p.view.onMsg y.2 }
    have hat : waiting { p with
        view := p.view.onMsg y.2
        hist := p.hist.hear p.view y.2
        heard := p.heard ++ [y]
        inbox := rest } = waiting { p with view := p.view.onMsg y.2 } := rfl
    rw [hat, hone]
    omega
  · have hmail : p.heard ++ p.inbox = p.heard ++ [y] ++ rest := by
      rw [hin, List.append_assoc]
      rfl
    have hasked := hs.asked
    rw [hmail] at hasked
    exact hasked

/-- The host runs a tick. -/
theorem hostRan (hs : Spent p g) {ck : Nat} (quiet : Bool) (sim : Nat → Nat) : Spent { p with
    pc := .top
    view := (p.view.ran ck).pending quiet
    hist := p.hist.ranTick p.view ck sim ((p.view.ran ck).due quiet) } g := by
  have hkeep : (p.view.ran ck).pend = p.view.pend := by rw [View.ran_eq]
  cases hdue : (p.view.ran ck).due quiet with
  | false =>
      obtain ⟨w, hpend⟩ := View.pending_still hdue
      refine hs.congr rfl rfl ?_ rfl rfl
      show ((p.view.ran ck).pending quiet).pend = p.view.pend
      rw [hpend]
      exact hkeep
  | true =>
      have hwish : p.view.pend ≠ 0 := by
        rw [← hkeep]
        simp only [View.due, decide_eq_true_eq] at hdue
        exact hdue.1
      have hfree : ((p.view.ran ck).pending quiet).pend = 0 := by
        rw [View.pending_due hdue]
        rfl
      have hbefore := hs.pushed
      unfold waiting at hbefore
      rw [if_neg hwish] at hbefore
      refine ⟨congrArg (· + 1) hs.counts, ?_, hs.asked⟩
      show p.hist.pushes + 1 + (if ((p.view.ran ck).pending quiet).pend = 0 then 0 else 1) ≤
        requests p.heard + 1
      rw [if_pos hfree]
      exact hbefore

/-- A turn of the host. -/
theorem hostTurn (hs : Spent p g) (hplain : ∀ y ∈ p.msgs, y.FromGuest) (hturn : Turn p p' xs)
    (hclash : ∀ y rest, p.inbox = y :: rest → ∀ sd u ck, y.2 = .report sd u ck →
      p.view.clashes u ck = true → p.epoch = 0) : Spent p' g := by
  cases hturn with
  | took hpump hin =>
      refine hs.hostTook hin (hplain _ ?_) (hclash _ _ hin)
      unfold Party.msgs
      rw [hin]
      exact List.mem_cons_self
  | ran quiet sim hgate hopen hck himg hbytes => exact hs.hostRan quiet sim
  | _ => exact hs.congr rfl rfl rfl rfl rfl

/-- The guest sends no request. -/
theorem guestSilent (hs : Spent h p) (hxs : ∀ y ∈ xs, ∀ u, y ≠ .request u)
    (hmay : p'.epoch = 0 → p'.view.pend = 0 → p.epoch = 0 ∧ p.view.pend = 0) :
    Spent (h.gets st xs) p' := by
  refine ⟨hs.counts, hs.pushed, ?_⟩
  have hnone : requests (xs.map fun y => (st, y)) = 0 := requests_map hxs
  have hle := Party.mayAsk_le hmay
  have hasked := hs.asked
  show requests (h.heard ++ (h.inbox ++ xs.map fun y => (st, y))) + p'.mayAsk ≤ 1
  rw [← List.append_assoc, requests_append, hnone]
  omega

/-- The guest handles a message. -/
theorem guestTook (hs : Spent h p) (hd : Downstream n d got h p) (hseat : p.view.seat ≠ 0)
    (hin : p.inbox = y :: rest)
    (hclash : ∀ sd u ck, y.2 = .report sd u ck → p.view.clashes u ck = true → p.epoch = 0) :
    Spent (h.gets st (p.view.replies y.2)) { p with
      view := p.view.onMsg y.2
      hist := p.hist.hear p.view y.2
      heard := p.heard ++ [y]
      inbox := rest } := by
  have hno : ∀ z ∈ ([] : List Msg), ∀ u, z ≠ .request u := fun z hz => absurd hz List.not_mem_nil
  have hflow := hd.flow
  rw [hin] at hflow
  obtain ⟨q, hhears, -⟩ := hears_cons hflow
  generalize hplace : (⟨p.epoch, got, decide (p.view.hold ≠ 0)⟩ : Place) = a at hhears
  cases hhears with
  | input e k i =>
      refine hs.guestSilent hno fun hepoch hpend => ⟨hepoch, ?_⟩
      have hkeep : ∀ sd u, (p.view.onInput sd u i).pend = p.view.pend := by
        intro sd u
        unfold View.onInput
        split
        · rfl
        · rfl
      exact (hkeep _ _).symm.trans hpend
  | opening e k hspan => exact hs.guestSilent hno fun hepoch hpend => ⟨hepoch, hpend⟩
  | piece e k q => exact hs.guestSilent hno fun hepoch hpend => ⟨hepoch, hpend⟩
  | closing e k hspan =>
      obtain ⟨rfl, rfl, hheld⟩ := Place.mk.inj hplace
      have hadopt : p.view.adopts .closing = true := decide_eq_true (by simpa using hheld)
      refine hs.guestSilent hno fun hepoch => absurd hepoch ?_
      show (p.hist.hear p.view .closing).stamp.epoch ≠ 0
      unfold Record.hear
      rw [hadopt]
      exact Nat.succ_ne_zero _
  | report e k ck hb =>
      generalize (firstTick n e + k) % 65536 = u at *
      cases hdiffers : p.view.clashes u ck with
      | false =>
          have hkeep : p.view.onCrc u ck = p.view := by
            unfold View.onCrc
            rw [hdiffers, if_neg Bool.false_ne_true]
          have hnone : p.view.replies (.report 0 u ck) = [] :=
            if_neg fun hboth => absurd (hdiffers.symm.trans hboth.1) Bool.false_ne_true
          rw [hnone]
          refine hs.guestSilent hno fun hepoch hpend => ⟨hepoch, ?_⟩
          have hsame : (p.view.onCrc u ck).pend = 0 := hpend
          rwa [hkeep] at hsame
      | true =>
          have hasks : p.view.replies (.report 0 u ck) = [.request u] := if_pos ⟨hdiffers, hseat⟩
          have hwish : (p.view.onCrc u ck).pend ≠ 0 := by
            unfold View.onCrc
            rw [hdiffers, if_pos rfl]
            exact Nat.one_ne_zero
          have hfree : p.view.pend = 0 := (of_decide_eq_true hdiffers).2.1
          have hmay := Party.mayAsk_open (hclash 0 u ck rfl hdiffers) hfree
          have hasked := hs.asked
          rw [hmay] at hasked
          rw [hasks]
          refine ⟨hs.counts, hs.pushed, ?_⟩
          have hone : requests [(st, Msg.request u)] = 1 := rfl
          rw [Party.mayAsk_done]
          · show requests (h.heard ++ (h.inbox ++ [(st, Msg.request u)])) + 0 ≤ 1
            rw [← List.append_assoc, requests_append, hone]
            exact hasked
          · exact hwish

/-- A turn of the guest. -/
theorem guestTurn (hs : Spent h p) (hd : Downstream n d got h p) (hseat : p.view.seat ≠ 0)
    (hturn : Turn p p' xs)
    (hclash : ∀ y rest, p.inbox = y :: rest → ∀ sd u ck, y.2 = .report sd u ck →
      p.view.clashes u ck = true → p.epoch = 0) : Spent (h.gets st xs) p' := by
  have hno : ∀ z ∈ ([] : List Msg), ∀ u, z ≠ .request u := fun z hz => absurd hz List.not_mem_nil
  cases hturn with
  | took hpump hin => exact hs.guestTook hd hseat hin (hclash _ _ hin)
  | captured hi hpc =>
      refine hs.guestSilent (fun z hz u => ?_) fun hepoch hpend => ⟨hepoch, hpend⟩
      rw [List.mem_singleton.mp hz]
      exact Msg.noConfusion
  | ran quiet sim hgate hopen hck himg hbytes =>
      rename_i ck img
      have hseat' : (p.view.ran ck).seat ≠ 0 := by
        rw [View.ran_eq]
        exact hseat
      have hdue := View.not_due_guest hseat' quiet
      obtain ⟨w, hpend⟩ := View.pending_still hdue
      refine hs.guestSilent (fun z hz u => ?_) fun hepoch hfree => ⟨?_, ?_⟩
      · unfold tickMsgs at hz
        rw [hdue, if_neg Bool.false_ne_true, List.append_nil] at hz
        split at hz
        · rw [List.mem_singleton.mp hz]
          exact Msg.noConfusion
        · exact absurd hz List.not_mem_nil
      · have hnext : (p.hist.ranTick p.view ck sim ((p.view.ran ck).due quiet)).stamp.epoch = 0 := hepoch
        rw [hdue] at hnext
        exact hnext
      · have hkeep : ((p.view.ran ck).pending quiet).pend = p.view.pend := by
          rw [hpend, View.ran_eq]
        exact hkeep.symm.trans hfree
  | _ => exact hs.guestSilent hno fun hepoch hpend => ⟨hepoch, hpend⟩

end Spent

theorem Spent.init : Spent (Pair.init c .host) (Pair.init c .guest) :=
  ⟨rfl, Nat.zero_le _, Nat.le_of_eq rfl⟩

/-! ## Both consoles -/

/-- Checksums differ under the baseline of START only. -/
theorem Mended.clash_first (hk : Mended cart c duo s) (hs : Portrays c duo s) (hcourse : Coursing c s)
    (hagreed : Agreed c.delay s) (hrep : Reported s) (hhead : c.delay ≤ 15) (hsteady : s.Steady) (hin : (s x).inbox = y :: rest)
    {sd u ck : Nat} (hmsg : y.2 = .report sd u ck) (hclash : (s x).view.clashes u ck = true) :
    (s x).epoch = 0 := by
  have htakes : (s x).view.takes y.2 = true := by
    rw [hmsg]
    exact hclash
  have hfair := hcourse.takes (by omega) (.inl hhead) hsteady hin htakes
  obtain ⟨r, hr, hstamp, -, hne⟩ := hfair.differs sd u ck hmsg
  have hmem : y ∈ (s x).heard ++ (s x).inbox := by
    rw [hin]
    exact List.mem_append_right _ List.mem_cons_self
  obtain ⟨r', hr', hstamp', -, hck⟩ := hrep x y hmem sd u ck hmsg
  obtain ⟨k, hx, hran⟩ := hs.ran hr
  obtain ⟨k', hx', hran'⟩ := hs.ran hr'
  by_contra hepoch
  rw [← hfair.epoch, ← hstamp] at hepoch
  have hsummed := (hk.rooted x k hx).summed r hran
  have hsummed' := (hk.rooted x.peer k' hx').summed r' hran'
  -- the two ticks leave one state, so one checksum
  have hsim : r.sim = r'.sim := by
    cases x with
    | host =>
        exact hk.sim_eq hagreed hs hx hx' hepoch r.stamp.age r hran r' hran' rfl (hstamp'.trans hstamp.symm)
    | guest =>
        exact (hk.sim_eq hagreed hs hx' hx hepoch r.stamp.age r' hran' r hran (hstamp'.trans hstamp.symm)
          rfl).symm
  exact hne ((hsummed.cksum_eq hsummed' hsim).trans hck)

theorem Spent.step (hspent : Spent (s .host) (s .guest)) (hk : Mended cart c duo s)
    (hs : Portrays c duo s) (hcourse : Coursing c s) (hagreed : Agreed c.delay s) (hrep : Reported s)
    (hhead : c.delay ≤ 15) (hsteady : s.Steady) (hstep : Pair.Step x s t) : Spent (t .host) (t .guest) := by
  have hclash : ∀ y rest, (s x).inbox = y :: rest → ∀ sd u ck, y.2 = .report sd u ck →
      (s x).view.clashes u ck = true → (s x).epoch = 0 := fun y rest hin sd u ck hmsg hdiffers =>
    hk.clash_first hs hcourse hagreed hrep hhead hsteady hin hmsg hdiffers
  obtain ⟨n, got, front, hc⟩ := hcourse.course hsteady
  obtain ⟨xs, hturn, hpeer⟩ := hstep
  cases x with
  | host =>
      have hguest : t .guest = (s .guest).gets (s .host).hist.stamp xs := hpeer
      have hhost := hspent.hostTurn hcourse.orderly.plain hturn hclash
      rw [hguest]
      exact ⟨hhost.counts, hhost.pushed, hhost.asked⟩
  | guest =>
      have hhost : t .host = (s .host).gets (s .guest).hist.stamp xs := hpeer
      have hseat : (s .guest).view.seat ≠ 0 := by
        rw [(hcourse.orderly.fixed .guest).seat]
        decide
      rw [hhost]
      exact hspent.guestTurn hc.down hseat hturn hclash

/-- The guest has asked for one push at most, the host has made two at most, and no console is past
the second baseline after that of START. -/
structure Duo.Settles (duo : Duo) : Prop where
  asked : ∀ k, duo.proc .guest = some k →
    ((sentFrames k.m).filter fun f => f.2.getD 1 0 = ftResync).length ≤ 1
  pushed : ∀ k, duo.proc .host = some k → k.m.hist.pushes ≤ 2
  baselines : ∀ x k, duo.proc x = some k → k.m.hist.stamp.epoch ≤ 2

/-- A match is resynced twice at most. -/
theorem resyncs_end (hone : 1 ≤ c.delay) (hhead : c.delay ≤ 15) {es : List Event}
    (hrun : Run (Duo.Step cart c) Duo.init es duo) (hsteady : duo.Steady) : duo.Settles := by
  have hlap : c.delay ≤ 126 := by omega
  obtain ⟨s, hf, hkept⟩ := (Tracked.init hone hlap).run hlap
    (P := fun s => Agreed c.delay s ∧ Reported s ∧ Spent (s .host) (s .guest))
    ⟨.init hone hlap, fun _ _ he => absurd he List.not_mem_nil, .init⟩
    (fun _ _ _ _ hf hsteady hsteady' ⟨hagreed, hrep, hspent⟩ hturn =>
      ⟨hagreed.step hf.coursing hone (by omega) (.inl hhead) hsteady hsteady' hturn, hrep.step hturn,
        hspent.step (hf.mended hsteady) hf.portrays hf.coursing hagreed hrep hhead hsteady hturn⟩)
    hrun
  have hs := hf.portrays
  have hsteady' := hs.steady hsteady
  have hspent := (hkept hsteady').2.2.2
  have hmail := requests_append (s .host).heard (s .host).inbox
  have hasked := hspent.asked
  have hpushed := hspent.pushed
  have hcounts := hspent.counts
  have hpushes : (s .host).hist.pushes ≤ 2 := by omega
  refine ⟨fun k hk => ?_, fun k hk => ?_, fun x k hk => ?_⟩
  · have hsent : sentFrames k.m = mailFrames (s .host) := (hs.shown .guest k hk).2
    rw [hsent]
    unfold mailFrames
    rw [requests_frames]
    omega
  · have hhist := (hs.shown .host k hk).1.hist
    rw [hhist] at hpushes
    exact hpushes
  · have hepoch : k.m.hist.stamp.epoch = (s x).epoch := by rw [Party.epoch, (hs.shown x k hk).1.hist]
    have hle := (hf.coursing.ran_epoch hsteady').2 x
    omega

/-- The guest asked, and its one push was made and taken in. -/
theorem resyncs_end_pushed : ∃ es duo k l, Run (Duo.Step idleCart startOne) Duo.init es duo ∧
    duo.proc .host = some k ∧ k.m.hist.pushes = 1 ∧ duo.proc .guest = some l ∧
    ((sentFrames l.m).filter fun f => f.2.getD 1 0 = ftResync).length = 1 ∧
    l.m.hist.stamp.epoch = 1 ∧ duo.Settles := by
  obtain ⟨es, duo, S, hrun, hstaged, -, hpushes, hasked, hepoch, hdrop, hdrop'⟩ :=
    Staged.follow startOne rfl seat_byte (wantedCues ++ [(.host, .tick)] ++ takenCues ++ mendedCues)
      (P := fun S => (S .host).hist.pushes = 1 ∧
        ((mailFrames (S .host).toParty).filter fun f => f.2.getD 1 0 = ftResync).length = 1 ∧
        (S .guest).hist.stamp.epoch = 1 ∧ (S .host).view.dropped = 0 ∧
        (S .guest).view.dropped = 0) (by decide +kernel)
  obtain ⟨k, hk, -, hhist, -⟩ := hstaged.console .host
  obtain ⟨l, hl, -, hhist', hmail, -⟩ := hstaged.console .guest
  rw [← hhist] at hpushes
  rw [← hhist'] at hepoch
  have hsent : sentFrames l.m = mailFrames (S .host).toParty := hmail
  rw [← hsent] at hasked
  exact ⟨es, duo, k, l, hrun, hk, hpushes, hl, hasked, hepoch,
    resyncs_end (by decide) (by decide) hrun (hstaged.steady hdrop hdrop')⟩

end SharkNetplay.Console
