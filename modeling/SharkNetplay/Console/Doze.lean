import SharkNetplay.Console.Acts

/-!
# A cart that does nothing

With a cart without handler tables the simulation rests: a tick moves nothing but the live
table pointer. Two consoles that rest on different values of `SS_INJ` are apart for good, and
the checksums say so.
-/

namespace SharkNetplay.Console

open Lib Cell Machine

variable {m m' : Machine} {σ : Nat → Nat} {a j tbl : Nat}

/-- A simulation that rests: as `NET_START` leaves it but for `SS_INJ` and the table pointer. -/
def restSim (j tbl a : Nat) : Nat :=
  if a = ssInj then j else if a = execHtbl then tbl else (seedCounts blank).sim a

/-- A console whose simulation rests, and none but the parked table is installed. -/
def Dozes (j : Nat) (m : Machine) : Prop :=
  ∃ tbl, (tbl = 0 ∨ tbl = netNullTbl4) ∧ m.sim = restSim j tbl

/-- A console at rest. -/
def resting (j : Nat) : Machine := ((seedCounts blank).wr ssInj j).wr execHtbl netNullTbl4

theorem rd_of_sim (h : m.sim = σ) (ha : simCell a = true) : m.rd a = σ a := by
  rw [← h]
  exact (if_pos ha).symm

/-- A write that is out of the simulation, or changes nothing in it. -/
theorem sim_wr_keeps (h : m.sim = σ) {v : Nat} (ha : simCell a = true → v % cellWidth a = σ a) :
    (m.wr a v).sim = σ := by
  rw [← h]
  refine sim_congr fun b hb => ?_
  rw [rd_wr]
  split
  · next heq =>
      subst heq
      rw [ha hb, rd_of_sim h hb]
  · rfl

theorem sim_wr_scratch (h : m.sim = σ) {v : Nat} (ha : simCell a = false) : (m.wr a v).sim = σ :=
  sim_wr_keeps h fun hsim => absurd (ha.symm.trans hsim) Bool.false_ne_true

theorem sim_ite {p : Prop} [Decidable p] {k k' : Machine} (h : k.sim = σ) (h' : k'.sim = σ) :
    (if p then k else k').sim = σ := by
  split
  · exact h
  · exact h'

/-- A simulation that rests is known by its cells. -/
theorem sim_rests (h : ∀ b, simCell b = true → m.rd b = restSim j tbl b) : m.sim = restSim j tbl := by
  funext b
  by_cases hb : simCell b = true
  · exact (if_pos hb).trans (h b hb)
  · have hinj : b ≠ ssInj := by
      rintro rfl
      exact hb (by decide)
    have hptr : b ≠ execHtbl := by
      rintro rfl
      exact hb (by decide)
    unfold restSim
    rw [if_neg hinj, if_neg hptr]
    exact (if_neg hb).trans (if_neg hb).symm

/-- There is no handler to call. -/
theorem lsVcall_idle (r0 : Nat) (m : Machine) : lsVcall idleCart r0 m = m := by
  unfold lsVcall
  dsimp only
  split
  · rfl
  · simp [idleCart]

theorem sim_lsVdispatch_idle (h : m.sim = σ) : (lsVdispatch idleCart m).sim = σ := by
  have htmp : ∀ {k : Machine} (v : Nat), k.sim = σ → (k.wr vdTmp v).sim = σ := fun v hk =>
    sim_wr_scratch hk (by decide)
  unfold lsVdispatch
  extract_lets c m₁ m₂ m₃
  have hcall : ∀ {k : Machine} (r0 v : Nat), k.sim = σ →
      (lsVcall idleCart r0 (k.wr vdTmp v)).sim = σ := by
    intro k r0 v hk
    rw [lsVcall_idle]
    exact htmp v hk
  have h₁ : m₁.sim = σ := by
    refine sim_wr_scratch (sim_wr_scratch (sim_wr_scratch (sim_wr_scratch h ?_) ?_) ?_) ?_
    all_goals decide
  have h₂ : m₂.sim = σ := sim_ite h₁ (hcall _ _ h₁)
  have h₃ : m₃.sim = σ := sim_ite h₂ (hcall _ _ h₂)
  exact sim_ite h₃ (sim_ite (hcall _ _ h₃) (sim_ite (hcall _ _ h₃) h₃))

/-- No timer entry is armed, and the phase is quiet. -/
theorem ssGameTick_rest (h : m.sim = restSim j tbl) : ssGameTick idleCart m = m.wr ssQuiescent 1 := by
  have hcell : ∀ b, simCell b = true → b ≠ ssInj → b ≠ execHtbl →
      m.rd b = (seedCounts blank).sim b := by
    intro b hb hinj htbl
    rw [rd_of_sim h hb, restSim, if_neg hinj, if_neg htbl]
  have hoff : ∀ {entry arm cnt int : Nat}, m.rd arm = 0 →
      gameEntry idleCart entry arm cnt int m = m := fun harm => if_pos harm
  have hquiet : m.rd 0x31D / 2048 % 2 = 0 ∧ m.rd 0x325 / 2048 % 2 = 0 ∧
      m.rd 0x323 = 0 ∧ m.rd 0x32B = 0 := by
    rw [hcell 0x31D, hcell 0x325, hcell 0x323, hcell 0x32B]
    all_goals decide
  unfold ssGameTick
  rw [hoff (hcell _ (by decide) (by decide) (by decide))]
  dsimp only
  rw [hoff (hcell _ (by decide) (by decide) (by decide)),
    hoff (hcell _ (by decide) (by decide) (by decide)),
    hoff (hcell _ (by decide) (by decide) (by decide)),
    hoff (hcell _ (by decide) (by decide) (by decide)), if_pos hquiet]

theorem sim_lsTblAdopt_rest (h : m.sim = restSim j tbl) (htbl : tbl = 0 ∨ tbl = netNullTbl4) :
    (lsTblAdopt m).sim = restSim j tbl := by
  have hptr : m.rd execHtbl = tbl := rd_of_sim h (by decide)
  unfold lsTblAdopt
  rw [hptr]
  dsimp only
  rcases htbl with rfl | rfl
  · exact sim_wr_keeps (sim_wr_keeps h fun _ => rfl) fun _ => rfl
  · rw [if_pos rfl]
    exact h

/-- A tick at rest: the table is parked, the phase quiet. -/
theorem lsTicked_rest (h : Dozes j m) : (lsTicked idleCart m).sim = restSim j netNullTbl4 ∧
    (lsTicked idleCart m).rd ssQuiescent = 1 := by
  obtain ⟨tbl, htbl, hsim⟩ := h
  have hthaw : (lsUnfreeze m).sim = restSim j tbl := (lsUnfreeze_quiet m).sim_eq.trans hsim
  unfold lsTicked lsTick
  generalize lsUnfreeze m = k at hthaw
  extract_lets m₁ r1 m₂ m₃ m₄ m₅
  have h₁ : m₁.sim = restSim j tbl := sim_lsTblAdopt_rest hthaw htbl
  have hlo : m₁.rd gameTblLo = 0 := rd_of_sim h₁ (by decide)
  have hhi : m₁.rd gameTblHi = 0 := rd_of_sim h₁ (by decide)
  have hr1 : r1 = 0 := by
    show m₁.rd gameTblHi * 256 + m₁.rd gameTblLo = 0
    rw [hlo, hhi]
  have hm₂ : m₂ = m₁ := if_pos hr1
  have h₄ : m₄.sim = restSim j tbl := by
    have hplay : ¬ (m₂.rd gameTblLo = ssHtblPrompt % 256 ∧ m₂.rd gameTblHi = ssHtblPrompt / 256) := by
      rw [hm₂, hlo]
      rintro ⟨hprompt, -⟩
      exact absurd hprompt (by decide)
    have hside : ∀ {k : Machine} (v w : Nat), k.sim = restSim j tbl →
        ((k.wr vdSide v).wr vdCtrl w).sim = restSim j tbl := fun v w hk =>
      sim_wr_scratch (sim_wr_scratch hk (by decide)) (by decide)
    have h₂ : m₂.sim = restSim j tbl := by
      rw [hm₂]
      exact h₁
    show (ite _ _ _ : Machine).sim = _
    rw [if_neg hplay]
    exact sim_lsVdispatch_idle (hside _ _ (sim_lsVdispatch_idle (hside _ _ h₂)))
  have hgame : ssGameTick idleCart m₄ = m₄.wr ssQuiescent 1 := ssGameTick_rest h₄
  have h₅ : m₅.sim = restSim j tbl := by
    show (lsTblAdopt (ssGameTick idleCart m₄)).sim = _
    rw [hgame]
    exact sim_lsTblAdopt_rest (sim_wr_scratch h₄ (by decide)) htbl
  constructor
  · refine sim_rests fun b hb => ?_
    rw [rd_wr]
    by_cases heq : b = execHtbl
    · rw [if_pos heq, heq]
      rfl
    · rw [if_neg heq, rd_of_sim h₅ hb]
      unfold restSim
      rw [if_neg heq, if_neg heq]
  · have hadopt : m₅.rd ssQuiescent = (m₄.wr ssQuiescent 1).rd ssQuiescent := by
      show (lsTblAdopt (ssGameTick idleCart m₄)).rd ssQuiescent = _
      rw [hgame]
      unfold lsTblAdopt
      dsimp only
      split
      · rfl
      · rw [rd_wr, if_neg (by decide), rd_wr, if_neg (by decide)]
    rw [rd_wr, if_neg (by decide), hadopt, rd_wr, if_pos rfl]
    rfl

theorem sim_resting (hj : j < 256) : (resting j).sim = restSim j netNullTbl4 := by
  refine sim_rests fun b hb => ?_
  unfold resting restSim
  rw [rd_wr, rd_wr]
  by_cases hptr : b = execHtbl
  · rw [if_pos hptr, hptr]
    rfl
  · rw [if_neg hptr, if_neg hptr]
    split
    · exact Nat.mod_eq_of_lt hj
    · exact (if_pos hb).symm

/-- Checksum and image of a tick at rest. -/
theorem ticked_rest (h : Dozes j m) (hj : j < 256) : nextCksum idleCart m = lsCksum (resting j) ∧
    image (lsTicked idleCart m) = image (resting j) := by
  have hsim : (lsTicked idleCart m).sim = (resting j).sim :=
    (lsTicked_rest h).1.trans (sim_resting hj).symm
  exact ⟨lsCksum_alike hsim, image_of_sim hsim⟩

/-- The end of a pass finds the phase as the tick left it. -/
theorem lsSettle_quiescent (cells : VdCells × VdCells) (m : Machine) :
    (lsSettle cells m).rd ssQuiescent = m.rd ssQuiescent := by
  have hreport : (lsReport (logRan cells m)).rd ssQuiescent = m.rd ssQuiescent := by
    unfold lsReport
    extract_lets m₁ r0 m₂ m₃
    split
    · rfl
    · have h₂ : Writes ReportCell (logRan cells m) m₂ := by
        refine ((rsDisplayReset_report _).wr ?_).wr ?_ <;> simp [ReportCell]
      have h₃ := h₂.trans (rsRecordCrc_report m₂)
      rw [(sendFrame_writes (by simp) m₃).frame fun v hv => absurd hv (by simp [Mail]),
        h₃.frame fun v hv => absurd hv (by simp [ReportCell, Mail])]
      rfl
  unfold lsSettle logTick lsTickInc
  rw [rd_note]
  dsimp only
  split
  · rw [rd_wr, if_neg (by decide), rd_wr, if_neg (by decide), hreport]
  · rw [rd_wr, if_neg (by decide), hreport]

/-- A tick at rest is followed by a push as soon as one is wanted. -/
theorem lsRun_rest (h : Dozes j m) : RunOf idleCart true m (lsRun idleCart m) := by
  have hphase : quietPhase (lsSettle (m.view.cells 0, m.view.cells 1) (lsTicked idleCart m)) = true := by
    unfold quietPhase
    rw [lsSettle_quiescent, (lsTicked_rest h).2]
    rfl
  have hrun := lsRun_phase idleCart m
  rw [hphase] at hrun
  exact hrun

end SharkNetplay.Console
