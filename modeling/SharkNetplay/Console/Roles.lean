import SharkNetplay.Console.Doze

/-!
# Members of which everything is known

A role is a party with what its console has buffered, the value on which its simulation rests,
and the rounds of its hold. Whoever knows the roles of both members knows what a turn does.

## Implementation notes

Roles are for a cart that does nothing.
-/

namespace SharkNetplay.Console

open Lib Lib.Framing Cell Machine

variable {cart : Cart} {c : Start} {x : Side} {m m' : Machine} {k k' : Proc} {duo duo' : Duo}
  {wire bytes : List Nat} {v : Move} {xs : List Msg}

/-! ## Roles -/

/-- A member and what is known of its console. -/
structure Role extends Party where
  buffer : List Nat
  inj : Option Nat
  rounds : Option Nat

/-- Both members. -/
abbrev Scene := Side → Role

/-- The rounds of a hold as the console counts them. -/
def Counts (n : Nat) (m : Machine) : Prop := m.rd rsToLo = n ∧ m.rd rsToHi = 0

/-- The console `k` is in the role. -/
structure Role.Stands (r : Role) (k : Proc) : Prop where
  buffer : buffered k.m = r.buffer
  inj : ∀ j, r.inj = some j → j < 256 ∧ Dozes j k.m
  rounds : ∀ n, r.rounds = some n → Counts n k.m

/-- A console rests on what it rested on while its simulation is left alone. -/
theorem Role.Stands.dozes {r : Role} (h : r.Stands k) (hsim : m'.sim = k.m.sim) :
    ∀ j, r.inj = some j → j < 256 ∧ Dozes j m' := by
  intro j hj
  obtain ⟨hlt, tbl, htbl, hrest⟩ := h.inj j hj
  exact ⟨hlt, tbl, htbl, hsim.trans hrest⟩

/-- Of a console nothing but its queue is known. -/
theorem Role.Stands.of_queue {p : Party} (h : buffered k.m = bytes) :
    Role.Stands ⟨p, bytes, none, none⟩ k :=
  ⟨h, fun _ hj => absurd hj (by simp), fun _ hn => absurd hn (by simp)⟩

/-- Both consoles are in the match, in their roles. -/
structure Staged (c : Start) (duo : Duo) (S : Scene) : Prop where
  portrays : Portrays c duo fun x => (S x).toParty
  stands : ∀ x, ∃ k, duo.proc x = some k ∧ (S x).Stands k

/-- Member `x` comes into role `r` and sends `xs`. -/
def Scene.after (S : Scene) (x : Side) (r : Role) (xs : List Msg) : Scene := fun y =>
  if y = x then r else { S y with toParty := (S y).gets (S x).hist.stamp xs }

variable {S : Scene} {r r' : Role}

theorem Scene.after_self (S : Scene) (x : Side) (r : Role) (xs : List Msg) :
    S.after x r xs x = r := if_pos rfl

theorem Scene.after_peer (S : Scene) (x : Side) (r : Role) (xs : List Msg) :
    S.after x r xs x.peer = { S x.peer with toParty := (S x.peer).gets (S x).hist.stamp xs } :=
  if_neg x.peer_ne

theorem Scene.after_pair (S : Scene) (x : Side) (r : Role) (xs : List Msg) :
    (fun y => (S.after x r xs y).toParty) =
      Pair.after (fun y => (S y).toParty) x r.toParty xs := by
  funext y
  unfold Scene.after Pair.after
  split <;> rfl

/-- A silent change of role takes the place of the one before it. -/
theorem Scene.after_again (hstamp : r.hist.stamp = (S x).hist.stamp) :
    (S.after x r []).after x r' xs = S.after x r' xs := by
  funext y
  rcases Side.eq_or_peer x y with rfl | rfl
  · rw [after_self, after_self]
  · rw [after_peer, after_peer, after_peer, after_self, hstamp]
    simp [Party.gets]

/-! ## Turns -/

/-- The turn of a member, taken. -/
theorem Staged.turns (h : Staged c duo S) (hproc : duo.proc x = some k)
    (hplays : Plays (S x).toParty r.toParty xs k (k.step cart v) wire)
    (hwire : duo.wire x = bytes ++ wire) (hread : Reads v k (k.step cart v) bytes)
    (hstands : r.Stands (k.step cart v)) : ∃ duo', Duo.Step cart c (.turn x v) duo duo' ∧
      duo'.proc x = some (k.step cart v) ∧ Staged c duo' (S.after x r xs) := by
  let duo' : Duo := ⟨fun y => if y = x then some (k.step cart v) else duo.proc y,
    fun y => if y = x then wire else duo.wire y ++ (newFrames k.m (k.step cart v).m).flatten⟩
  have hthis : duo'.proc x = some (k.step cart v) := if_pos rfl
  have hpeer : duo'.proc x.peer = duo.proc x.peer := if_neg x.peer_ne
  have hleft : duo'.wire x = wire := if_pos rfl
  have hsent : duo'.wire x.peer = duo.wire x.peer ++ (newFrames k.m (k.step cart v).m).flatten :=
    if_neg x.peer_ne
  refine ⟨duo', .turn hproc hread (by rw [hleft, hwire]) hthis hpeer hsent, hthis, ?_, fun y => ?_⟩
  · rw [Scene.after_pair]
    rw [← hleft] at hplays
    exact h.portrays.plays hproc hplays hthis hpeer hsent
  · rcases Side.eq_or_peer x y with rfl | rfl
    · rw [Scene.after_self]
      exact ⟨_, hthis, hstands⟩
    · obtain ⟨l, hl, hl'⟩ := h.stands x.peer
      rw [Scene.after_peer]
      exact ⟨l, hpeer.trans hl, hl'.buffer, hl'.inj, hl'.rounds⟩

/-- A turn that is no pump's beginning. -/
theorem reads_nothing (h : ¬ (¬ k.pc.Pumps ∧ k'.pc.Pumps)) : Reads v k k' [] := by
  unfold Reads
  rw [if_neg h]

/-- A turn that reads nothing, taken. -/
theorem Staged.moves (h : Staged c duo S) (hproc : duo.proc x = some k)
    (hplays : Plays (S x).toParty r.toParty xs k (k.step cart v) (duo.wire x))
    (hstill : ¬ (¬ k.pc.Pumps ∧ (k.step cart v).pc.Pumps)) (hstands : r.Stands (k.step cart v)) :
    ∃ duo', Duo.Step cart c (.turn x v) duo duo' ∧ duo'.proc x = some (k.step cart v) ∧
      Staged c duo' (S.after x r xs) :=
  h.turns hproc hplays (List.nil_append _).symm (reads_nothing hstill) hstands

theorem reads_pump (h : ¬ k.pc.Pumps ∧ k'.pc.Pumps) (hlen : bytes.length ≤ 64) (i : Nat × Nat) :
    Reads ⟨Arrival.of bytes, i⟩ k k' bytes := by
  unfold Reads
  rw [if_pos h]
  exact Arrival.of_delivers hlen

/-- What is still on the wire. -/
def Role.rest (r : Role) : List Nat := (frames r.inbox).flatten.drop r.buffer.length

theorem Staged.cast (h : Staged c duo S) (hproc : duo.proc x = some k) :
    (S x).Stands k ∧ Shown (S x).toParty k (duo.wire x) ∧ duo.wire x = (S x).rest := by
  obtain ⟨k', hk', hstands⟩ := h.stands x
  obtain rfl : k = k' := Option.some.inj (hproc.symm.trans hk')
  have hshown := (h.portrays.shown x k hproc).1
  refine ⟨hstands, hshown, ?_⟩
  have hqueue : buffered k.m ++ duo.wire x = (frames (S x).inbox).flatten := hshown.queue
  unfold Role.rest
  rw [← hqueue, ← hstands.buffer, List.drop_left]

/-! ### Rounds of a hold -/

theorem Counts.writes {T : Nat → Nat → Prop} {n : Nat} (h : Counts n m) (hw : Writes T m m')
    (hT : ∀ v, ¬ T rsToLo v ∧ ¬ T rsToHi v) : Counts n m' :=
  ⟨(hw.frame fun v => (hT v).1).trans h.1, (hw.frame fun v => (hT v).2).trans h.2⟩

theorem Counts.wr {n a : Nat} (h : Counts n m) (ha : a ≠ rsToLo ∧ a ≠ rsToHi) (w : Nat) :
    Counts n (m.wr a w) := by
  refine h.writes (T := fun b _ => b = a) (.wr .refl rfl) fun _ => ?_
  exact ⟨ha.1.symm, ha.2.symm⟩

theorem Counts.pumpRecv {n : Nat} (h : Counts n m) (a : Arrival) : Counts n (pumpRecv a m) :=
  h.writes (pumpRecv_writes a m) fun v => by simp [RecvCell, Mail]

theorem Counts.lsFreeze {n : Nat} (h : Counts n m) : Counts n (lsFreeze m) := by
  unfold Console.lsFreeze
  split
  · exact h
  · exact ((h.wr (by decide) _).wr (by decide) _).wr (by decide) _

theorem Counts.ppLoad {n : Nat} {f rest : List Nat} (h : Counts n m)
    (hload : Loaded f rest m (ppLoad m)) : Counts n (ppLoad m) :=
  ⟨(hload.frame _ (by decide) (by decide)).trans h.1, (hload.frame _ (by decide) (by decide)).trans h.2⟩

/-- BEGIN starts the count. -/
theorem counts_opening {t : Nat} (h : InBuf (Msg.opening t).frame m) : Counts 0 (sesOnframe m) := by
  have hty : m.rd (frmBuf + 1) = ftState := h.cell 1 (by simp [Msg.frame, beginFrame])
  have hlen : (logHandled m).rd frmBuf = 5 := h.cell 0 (by simp [Msg.frame, beginFrame])
  have h₂ : (logHandled m).rd (frmBuf + 2) = 0 := h.cell 2 (by simp [Msg.frame, beginFrame])
  have h₃ : (logHandled m).rd (frmBuf + 3) = 0xFF := h.cell 3 (by simp [Msg.frame, beginFrame])
  rw [sesOnframe_state hty]
  unfold rsOnState
  rw [hlen, if_neg (by decide), if_pos h₃]
  unfold rsOnCtl
  rw [if_pos h₂, hlen, if_neg (by decide)]
  unfold Counts rsEnterHold rsClrCrc
  simp [rd_fill]

theorem counts_piece {n : Nat} {q : Piece Nat} (h : InBuf (Msg.piece q).frame m)
    (hq : (Msg.piece q).Sound) (hn : Counts n m) : Counts n (sesOnframe m) := by
  obtain ⟨len, ty, tail, hframe, hlen, hok⟩ := hq.framed.wellFormed.cases_eq
  have hbound := headOk_bounds hok
  simp only [Msg.frame, List.cons.injEq] at hframe
  have hty : m.rd (frmBuf + 1) = ftState := h.cell 1 (by simp [Msg.frame])
  rw [sesOnframe_state hty]
  have hn' : Counts n (logHandled m) := hn
  refine hn'.writes (rsOnState_piece h.logHandled (hq.piece q rfl) (by omega)).1 fun v => ?_
  simp only [PieceCell, ApplyCell]
  simp [simCell]

theorem counts_rsRebase (m : Machine) : Counts 0 (rsRebase m) := by
  unfold rsRebase
  extract_lets m₁ m₂ m₃ m₄ r1 m₅ m₆ m₇ m₈
  have h₇ : Counts 0 m₇ := by
    refine ⟨?_, ?_⟩
    · rw [rd_wr, if_neg (by decide), rd_wr, if_pos rfl, Nat.zero_mod]
    · rw [rd_wr, if_pos rfl, Nat.zero_mod]
  have h₈ : Counts 0 m₈ := (h₇.wr (by decide) _).wr (by decide) _
  unfold Counts
  rw [rd_note, rd_note]
  exact h₈

/-- END leaves no count behind. -/
theorem counts_closing (h : InBuf Msg.closing.frame m) (hhold : m.view.hold ≠ 0) :
    Counts 0 (sesOnframe m) := by
  have hty : m.rd (frmBuf + 1) = ftState := h.cell 1 (by decide)
  have hheld : (logHandled m).view.hold ≠ 0 := hhold
  rw [sesOnframe_state hty, rsOnState_closing h.logHandled, if_neg hheld]
  exact counts_rsRebase _

theorem Counts.lsCapture {n : Nat} (h : Counts n m) (input : Nat × Nat) (hseat : m.rd netSeat ≤ 3) :
    Counts n (lsCapture input m) := by
  obtain ⟨m₁, heq, -, hw, -⟩ := lsCapture_spec input m hseat
  have htick : captureTick m < 65536 := Nat.mod_lt _ (by decide)
  rw [heq]
  refine h.writes hw fun v => ?_
  simp only [CaptureCell, Mail, rsToLo, rsToHi, lsTmpb, lsTmpb2, seatRing, seatKp]
  omega

/-- A tick without a report, and without a request that is counted. -/
theorem Counts.lsRun {n : Nat} (h : Counts n m) (htick : m.view.tick % 64 ≠ 0)
    (hidle : m.view.pend = 0 ∨ m.view.seat ≠ 0 ∨ m.view.hold ≠ 0) : Counts n (lsRun cart m) := by
  have hticked : Counts n (lsTicked cart m) := by
    have hthaw : Counts n (lsUnfreeze m) := by
      unfold Console.lsUnfreeze
      split
      · exact h
      · exact (((h.wr (by decide) _).wr (by decide) _).wr (by decide) _).wr (by decide) _
    have hcart := lsTick_ticks cart (lsUnfreeze m)
    exact ⟨(hcart.frame _ (by decide) (by simp [TickCell])).trans hthaw.1,
      (hcart.frame _ (by decide) (by simp [TickCell])).trans hthaw.2⟩
  have hview := view_lsTicked cart m
  rw [lsRun_eq]
  generalize lsTicked cart m = k at hticked hview
  have hset : (lsSettle (m.view.cells 0, m.view.cells 1) k).view = (k.view.ran (lsCksum k)) :=
    view_lsSettle _ _
  have hstill : ∀ u : View, u.pend = 0 ∨ u.seat ≠ 0 ∨ u.hold ≠ 0 → ∀ ck,
      (u.ran ck).pend = 0 ∨ (u.ran ck).seat ≠ 0 ∨ (u.ran ck).hold ≠ 0 := by
    intro u hu ck
    unfold View.ran View.report View.advance
    split <;> exact hu
  rw [rsPending_idle (by rw [hset, hview]; exact hstill _ hidle _)]
  have hno : lsReport (logRan (m.view.cells 0, m.view.cells 1) k) =
      logRan (m.view.cells 0, m.view.cells 1) k := by
    unfold lsReport
    refine if_pos ?_
    have hboundary : (logRan (m.view.cells 0, m.view.cells 1) k).rd tickLo % 64 =
        (logRan (m.view.cells 0, m.view.cells 1) k).view.tick % 64 := boundary_iff _
    rw [hboundary, view_logRan, hview]
    exact htick
  have hinc : Counts n (lsTickInc (logRan (m.view.cells 0, m.view.cells 1) k)) := by
    have hlog : Counts n (logRan (m.view.cells 0, m.view.cells 1) k) := hticked
    unfold lsTickInc
    dsimp only
    split
    · exact (hlog.wr (by decide) _).wr (by decide) _
    · exact hlog.wr (by decide) _
  unfold lsSettle
  rw [hno]
  exact hinc

/-- A round is counted. -/
theorem Counts.lsHeld {n : Nat} (h : Counts n m) (hn : n < 255) : Counts (n + 1) (lsHeld m) ∧
    (lsHeld m).view = m.view := by
  have hlo : m.rd rsToLo + 1 ≠ 0x100 := by
    have hcount := h.1
    omega
  have hheld : Console.lsHeld m = m.wr rsToLo (m.rd rsToLo + 1) := by
    unfold Console.lsHeld
    exact if_pos hlo
  rw [hheld]
  refine ⟨⟨?_, ?_⟩, view_wr (by simp [ViewCell])⟩
  · rw [rd_wr, if_pos rfl, h.1, show cellWidth rsToLo = 256 by decide]
    omega
  · rw [rd_wr, if_neg (by decide)]
    exact h.2

/-! ## The session wait -/

/-- `SES_HOLD` ends. -/
def Role.sit (r : Role) : Role := { r with pc := .top, rounds := none }

/-- A round of `SES_HOLD` is counted. -/
theorem Staged.sat (cart : Cart) (h : Staged c duo S) (hproc : duo.proc x = some k)
    (hpc : (S x).pc = .pumpSes) (hbuf : (S x).buffer = []) {r0 : Nat}
    (hr0 : r0 = (k.m.rd sesTmrLo + 65535) % 65536) {pc : Pc}
    (hend : pc = if r0 = 0 then .top else .sesHold) :
    ∃ duo', Duo.Step cart c (.turn x still) duo duo' ∧
      duo'.proc x = some ⟨k.m.wr sesTmrLo r0, pc⟩ ∧
      Staged c duo' (S.after x { S x with pc := pc, rounds := none } []) := by
  obtain ⟨hstands, hshown, -⟩ := h.cast hproc
  have hseat := hshown.pc.symm.trans hpc
  obtain ⟨m, pc₀⟩ := k
  obtain rfl : pc₀ = .pumpSes := hseat
  have hempty : buffered m = [] := hstands.buffer.trans hbuf
  have hstep : Proc.step cart still ⟨m, .pumpSes⟩ = ⟨m.wr sesTmrLo r0, pc⟩ := by
    rw [step_pumpSes, parse_empty hempty, hend, hr0]
    rfl
  have hquiet : Writes Quiet m (m.wr sesTmrLo r0) := .wr .refl (quiet_of_cell (by decide) (by decide))
  have hqueue : buffered (m.wr sesTmrLo r0) = buffered m := hquiet.quiet_apart.buffered_eq
  have hidle : Idles (S x).toParty pc := by
    rw [hend]
    split
    · exact .begun hpc
    · exact .seated hpc
  have hplays : Plays (S x).toParty { S x with pc := pc : Role }.toParty [] ⟨m, .pumpSes⟩
      (Proc.step cart still ⟨m, .pumpSes⟩) (duo.wire x) := by
    rw [hstep]
    refine ⟨.idle hidle, hshown.moves (view_wr (by simp [ViewCell])) (hist_wr _ _ _) (answers_wr _ _ _)
      hqueue fun _ => ?_, .silent (hist_wr _ _ _), fun y hy => absurd hy List.not_mem_nil⟩
    rw [hqueue, hempty]
    decide
  have hturns := h.moves (r := { S x with pc := pc, rounds := none }) hproc hplays
    (fun hno => hno.1 (.inl rfl)) (by
      rw [hstep]
      exact ⟨hqueue.trans hstands.buffer, hstands.dozes hquiet.sim_eq, fun n hn => absurd hn (by simp)⟩)
  rwa [hstep] at hturns

/-- The next round of `SES_HOLD` begins. -/
theorem Staged.sits (cart : Cart) (h : Staged c duo S) (hproc : duo.proc x = some k)
    (hpc : (S x).pc = .sesHold) :
    ∃ duo', Duo.Step cart c (.turn x still) duo duo' ∧
      duo'.proc x = some ⟨pumpRecv (Arrival.of []) k.m, .pumpSes⟩ ∧
      Staged c duo' (S.after x { S x with pc := .pumpSes, rounds := none } []) := by
  obtain ⟨hstands, hshown, -⟩ := h.cast hproc
  have hseat := hshown.pc.symm.trans hpc
  obtain ⟨m, pc₀⟩ := k
  obtain rfl : pc₀ = .sesHold := hseat
  have hstep : Proc.step cart still ⟨m, .sesHold⟩ = ⟨pumpRecv (Arrival.of []) m, .pumpSes⟩ := rfl
  have hpumped : Pumped m .sesHold .pumpSes := .session
  have hread : Reads still (⟨m, .sesHold⟩ : Proc) ⟨pumpRecv (Arrival.of []) m, .pumpSes⟩ [] :=
    reads_pump hpumped.pumps (by decide) idleCells
  have hcount : (S x).view.count ≤ 4 := by
    rw [(h.portrays.fixed x).count]
    decide
  have hshown' : Shown (S x).toParty ⟨m, .sesHold⟩ ([] ++ duo.wire x) := hshown
  have hplays := hshown'.recv (v := still) hcount .session (.inl rfl) (Arrival.of_delivers (by decide))
  have hqueue : buffered (pumpRecv (Arrival.of []) m) = buffered m := by
    rw [buffered_pumpRecv (Arrival.of_delivers (by decide)) ?_]
    · simp
    · have hroom := hshown.room hpumped.pumps.1
      show (buffered m).length + 64 < 256
      have hlt : (buffered m).length < 100 := hroom
      omega
  exact h.turns (r := { S x with pc := .pumpSes, rounds := none }) hproc hplays rfl hread
    ⟨hqueue.trans hstands.buffer, hstands.dozes (sim_pumpRecv _ _), fun n hn => absurd hn (by simp)⟩

/-- `SES_HOLD` counts down to the cart's first pass. -/
theorem Staged.count (cart : Cart) {t : Nat} (h : Staged c duo S) (hproc : duo.proc x = some k)
    (hpc : (S x).pc = .pumpSes) (hbuf : (S x).buffer = []) (ht : t < 256)
    (htmr : k.m.rd sesTmrLo = t + 1) :
    ∃ es duo', Run (Duo.Step cart c) duo es duo' ∧ Staged c duo' (S.after x (S x).sit []) := by
  induction t generalizing duo S k with
  | zero =>
      have hr0 : 0 = (k.m.rd sesTmrLo + 65535) % 65536 := by omega
      obtain ⟨duo', hstep, -, hstaged⟩ := h.sat cart hproc hpc hbuf hr0 rfl
      exact ⟨_, duo', .one hstep, hstaged⟩
  | succ t ih =>
      have hr0 : t + 1 = (k.m.rd sesTmrLo + 65535) % 65536 := by omega
      obtain ⟨duo₁, hstep₁, hproc₁, hstaged₁⟩ := h.sat cart hproc hpc hbuf hr0
        (if_neg (Nat.succ_ne_zero t)).symm
      obtain ⟨duo₂, hstep₂, hproc₂, hstaged₂⟩ := hstaged₁.sits cart hproc₁ (by rw [Scene.after_self])
      rw [Scene.after_again (by rfl), Scene.after_self] at hstaged₂
      have htmr₂ : (pumpRecv (Arrival.of []) (k.m.wr sesTmrLo (t + 1))).rd sesTmrLo = t + 1 := by
        rw [(pumpRecv_writes _ _).frame fun _ => by simp [RecvCell, Mail], rd_wr, if_pos rfl,
          show cellWidth sesTmrLo = 256 by decide]
        omega
      obtain ⟨es, duo', hrun, hstaged⟩ := ih hstaged₂ hproc₂ (by rw [Scene.after_self])
        (by rw [Scene.after_self]; exact hbuf) (by omega) htmr₂
      rw [Scene.after_again (by rfl), Scene.after_self] at hstaged
      exact ⟨_, duo', .cons hstep₁ (.cons hstep₂ hrun), hstaged⟩

theorem Staged.sit (cart : Cart) (h : Staged c duo S) (hpc : (S x).pc = .pumpSes)
    (hbuf : (S x).buffer = []) :
    ∃ es duo', Run (Duo.Step cart c) duo es duo' ∧ Staged c duo' (S.after x (S x).sit []) := by
  obtain ⟨k, hproc, -⟩ := h.stands x
  have hbyte : k.m.rd sesTmrLo < 256 := k.m.rd_byte (by decide)
  by_cases hz : k.m.rd sesTmrLo = 0
  · -- the counter wraps to 255
    have hr0 : 65535 = (k.m.rd sesTmrLo + 65535) % 65536 := by omega
    obtain ⟨duo₁, hstep₁, hproc₁, hstaged₁⟩ := h.sat cart hproc hpc hbuf hr0 (if_neg (by decide)).symm
    obtain ⟨duo₂, hstep₂, hproc₂, hstaged₂⟩ := hstaged₁.sits cart hproc₁ (by rw [Scene.after_self])
    rw [Scene.after_again (by rfl), Scene.after_self] at hstaged₂
    have htmr₂ : (pumpRecv (Arrival.of []) (k.m.wr sesTmrLo 65535)).rd sesTmrLo = 254 + 1 := by
      rw [(pumpRecv_writes _ _).frame fun _ => by simp [RecvCell, Mail], rd_wr, if_pos rfl]
      rfl
    obtain ⟨es, duo', hrun, hstaged⟩ := hstaged₂.count cart hproc₂ (by rw [Scene.after_self])
      (by rw [Scene.after_self]; exact hbuf) (by decide) htmr₂
    rw [Scene.after_again (by rfl), Scene.after_self] at hstaged
    exact ⟨_, duo', .cons hstep₁ (.cons hstep₂ hrun), hstaged⟩
  · exact h.count cart (t := k.m.rd sesTmrLo - 1) hproc hpc hbuf (by omega) (by omega)

end SharkNetplay.Console
