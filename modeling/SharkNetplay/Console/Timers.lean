import SharkNetplay.Lib.Cadence
import SharkNetplay.Lib.Run
import SharkNetplay.Console.Dispatch
import SharkNetplay.Console.Lobby

/-!
# The virtualised timers

The five timer entries of the cart, run by `SS_GAME_TICK` on arm flags and countdowns in
RAM. The cart arms and stops them through `SS_ARM_SHIM` and `SS_STOP_SHIM`, between ticks or
from inside the handler of an entry.

## Implementation notes

Entries are counted from 0. The cart's code is not in the repository: of a handler only this
is asked, that it leaves the arm flags and the countdowns as the shims it called left them.
The code calls the handler of an entry where its countdown ran out and reloads the countdown
afterwards; a reload made before the handler would leave the same timers behind, since a shim
that writes the countdown writes the full interval.
-/

namespace SharkNetplay.Console

open Lib Lib.Cadence Cell Machine

/-- An entry of the timer table. -/
abbrev Entry := Fin 5

/-- `SS_ARM1` to `SS_ARM5`. -/
def ssArm : Entry → Nat
  | 0 => ssArm1
  | 1 => ssArm2
  | 2 => ssArm3
  | 3 => ssArm4
  | 4 => ssArm5

/-- `SS_CNT1` to `SS_CNT5`. -/
def ssCnt : Entry → Nat
  | 0 => ssCnt1
  | 1 => ssCnt2
  | 2 => ssCnt3
  | 3 => ssCnt4
  | 4 => ssCnt5

/-- `SS_INT1` to `SS_INT5`. -/
def ssInt : Entry → Nat
  | 0 => 0x10
  | 1 => 0x2D
  | 2 => 0x0A
  | 3 => 0x02
  | 4 => 0x50

/-- `SS_SLOT1` to `SS_SLOT5`. -/
def ssSlot : Entry → Nat
  | 0 => 0x5020
  | 1 => 0x5024
  | 2 => 0x5028
  | 3 => 0x502C
  | 4 => 0x5030

/-- `SS_STOP_SHIM`. -/
def ssStopShim (r1 : Nat) (m : Machine) : Machine :=
  if r1 = 0x5020 then m.wr ssArm1 0
  else if r1 = 0x5024 then m.wr ssArm2 0
  else if r1 = 0x5028 then m.wr ssArm3 0
  else if r1 = 0x502C then m.wr ssArm4 0
  else m.wr ssArm5 0

/-- `SS_ARM_SHIM`. -/
def ssArmShim (r1 : Nat) (m : Machine) : Machine :=
  if r1 = 0x5020 then (m.wr ssArm1 1).wr ssCnt1 0x10
  else if r1 = 0x5024 then (m.wr ssArm2 1).wr ssCnt2 0x2D
  else if r1 = 0x5028 then (m.wr ssArm3 1).wr ssCnt3 0x0A
  else if r1 = 0x502C then (m.wr ssArm4 1).wr ssCnt4 0x02
  else (m.wr ssArm5 1).wr ssCnt5 0x50

/-- `NET_START` up to the seeding of the countdowns. -/
def netSeed (m : Machine) : Machine := seedCounts (netClear m)

/-- One entry of `SS_GAME_TICK`. -/
def entryTick (cart : Cart) (e : Entry) : Machine → Machine :=
  gameEntry cart (e + 1) (ssArm e) (ssCnt e) (ssInt e)

/-- The arm flag of an entry is set. -/
def armed (m : Machine) (e : Entry) : Bool := m.rd (ssArm e) != 0

/-- The evaluation of an entry calls its handler. -/
def Fires (e : Entry) (m : Machine) : Prop :=
  m.rd (ssArm e) ≠ 0 ∧ (m.rd (ssCnt e) + 65535) % 65536 = 0

/-- A call the cart makes, with one of the five slot addresses. -/
inductive Shim
  | arm (e : Entry)
  | stop (e : Entry)

def Shim.run : Shim → Machine → Machine
  | .arm e => ssArmShim (ssSlot e)
  | .stop e => ssStopShim (ssSlot e)

def Shim.mark : Shim → Mark Entry
  | .arm e => .arm e
  | .stop e => .stop e

/-- The calls a handler makes, in order. -/
def shims (cs : List Shim) (m : Machine) : Machine := cs.foldl (fun m c => c.run m) m

/-- The same arm flags and countdowns. -/
def SameTimers (m m' : Machine) : Prop :=
  ∀ i, m'.rd (ssArm i) = m.rd (ssArm i) ∧ m'.rd (ssCnt i) = m.rd (ssCnt i)

/-- The handler of an entry touches the timers through these calls only. -/
def Calls (cart : Cart) (e : Entry) (m : Machine) (cs : List Shim) : Prop :=
  SameTimers (shims cs m) (m.runCart (cart.ssTick (e + 1)))

/-- The evaluation of an entry in a tick, and what it leaves behind. -/
inductive Evaluated (cart : Cart) : Entry × List (Mark Entry) → Machine → Machine → Prop
  | held {e : Entry} {m : Machine} (h : ¬ Fires e m) :
    Evaluated cart (e, [.eval e false]) m (entryTick cart e m)
  | fired {e : Entry} {m : Machine} {cs : List Shim} (h : Fires e m) (hcs : Calls cart e m cs) :
    Evaluated cart (e, .eval e true :: cs.map Shim.mark) m (entryTick cart e m)

/-- The entries in table order. -/
def entryTable : List Entry := List.finRange 5

/-- What happens to the timers. -/
inductive TimerEvent
  | shim (c : Shim)
  | tick (ps : List (Entry × List (Mark Entry)))
  /-- Code that touches none of them. -/
  | other

def TimerEvent.marks : TimerEvent → List (Mark Entry)
  | .shim c => [c.mark]
  | .tick ps => ps.flatMap Prod.snd
  | .other => []

/-- A shim called between ticks, a whole `SS_GAME_TICK`, or anything else. -/
def TimerEvent.Step (cart : Cart) : TimerEvent → Machine → Machine → Prop
  | .shim c, m, m' => m' = c.run m
  | .tick ps, m, m' => m' = ssGameTick cart m ∧ ps.map Prod.fst = entryTable ∧
      ∃ m₁, Run (Evaluated cart) m ps m₁
  | .other, m, m' => SameTimers m m'

/-- Every countdown is in its interval. -/
def Within (m : Machine) : Prop := ∀ i, 1 ≤ m.rd (ssCnt i) ∧ m.rd (ssCnt i) ≤ ssInt i

/-- The timers after some marks: every evaluation was on time, and each countdown is what is
left of its interval. -/
structure Paced (marks : List (Mark Entry)) (m : Machine) : Prop where
  onTime : OnTime ssInt marks
  counts : ∀ i, Counts (ssInt i) (History.of i marks) (armed m i) (m.rd (ssCnt i))

variable {cart : Cart} {m m' : Machine} {marks : List (Mark Entry)} {e i : Entry}

/-! ### The cells of the timers -/

theorem arm_ne_cnt : ∀ i j, ssArm i ≠ ssCnt j := by decide

theorem arm_inj : ∀ {i j}, ssArm i = ssArm j ↔ i = j := by decide

theorem cnt_inj : ∀ {i j}, ssCnt i = ssCnt j ↔ i = j := by decide

theorem int_pos : ∀ i, 1 ≤ ssInt i := by decide

theorem int_lt : ∀ i, ssInt i < 256 := by decide

theorem rd_arm_wr_arm (e i : Entry) (v : Nat) (m : Machine) :
    (m.wr (ssArm e) v).rd (ssArm i) = if i = e then v % 256 else m.rd (ssArm i) := by
  have hwidth : cellWidth (ssArm e) = 256 := by
    revert e
    decide
  rw [rd_wr, hwidth]
  exact if_congr arm_inj rfl rfl

theorem rd_cnt_wr_cnt (e i : Entry) (v : Nat) (m : Machine) :
    (m.wr (ssCnt e) v).rd (ssCnt i) = if i = e then v % 256 else m.rd (ssCnt i) := by
  have hwidth : cellWidth (ssCnt e) = 256 := by
    revert e
    decide
  rw [rd_wr, hwidth]
  exact if_congr cnt_inj rfl rfl

theorem rd_arm_wr_cnt (e i : Entry) (v : Nat) (m : Machine) :
    (m.wr (ssCnt e) v).rd (ssArm i) = m.rd (ssArm i) := by
  rw [rd_wr, if_neg (arm_ne_cnt i e)]

theorem rd_cnt_wr_arm (e i : Entry) (v : Nat) (m : Machine) :
    (m.wr (ssArm e) v).rd (ssCnt i) = m.rd (ssCnt i) := by
  rw [rd_wr, if_neg (arm_ne_cnt e i).symm]

/-! ### The shims -/

theorem ssStopShim_slot (e : Entry) (m : Machine) :
    ssStopShim (ssSlot e) m = m.wr (ssArm e) 0 := by
  match e with
  | 0 | 1 | 2 | 3 | 4 => rfl

theorem ssArmShim_slot (e : Entry) (m : Machine) :
    ssArmShim (ssSlot e) m = (m.wr (ssArm e) 1).wr (ssCnt e) (ssInt e) := by
  match e with
  | 0 | 1 | 2 | 3 | 4 => rfl

/-- The arm flag of `i` after a call. -/
theorem Shim.run_arm (c : Shim) (m : Machine) (i : Entry) :
    (c.run m).rd (ssArm i) =
      match c with
      | .arm e => if i = e then 1 else m.rd (ssArm i)
      | .stop e => if i = e then 0 else m.rd (ssArm i) := by
  cases c with
  | arm e => rw [Shim.run, ssArmShim_slot, rd_arm_wr_cnt, rd_arm_wr_arm]
  | stop e => rw [Shim.run, ssStopShim_slot, rd_arm_wr_arm]

/-- The countdown of `i` after a call. -/
theorem Shim.run_cnt (c : Shim) (m : Machine) (i : Entry) :
    (c.run m).rd (ssCnt i) =
      match c with
      | .arm e => if i = e then ssInt e else m.rd (ssCnt i)
      | .stop _ => m.rd (ssCnt i) := by
  cases c with
  | arm e => rw [Shim.run, ssArmShim_slot, rd_cnt_wr_cnt, rd_cnt_wr_arm, Nat.mod_eq_of_lt (int_lt e)]
  | stop e => rw [Shim.run, ssStopShim_slot, rd_cnt_wr_arm]

theorem armed_reload (e i : Entry) (v : Nat) (m : Machine) :
    armed (m.wr (ssCnt e) v) i = armed m i := by
  rw [armed, armed, rd_arm_wr_cnt]

/-- Whether `i` is armed after a call. -/
theorem Shim.run_armed (c : Shim) (m : Machine) (i : Entry) :
    armed (c.run m) i =
      match c with
      | .arm e => if i = e then true else armed m i
      | .stop e => if i = e then false else armed m i := by
  rw [armed, Shim.run_arm]
  cases c with
  | arm e =>
    by_cases hi : i = e
    · simp [hi]
    · simp [hi, armed]
  | stop e =>
    by_cases hi : i = e
    · simp [hi]
    · simp [hi, armed]

namespace SameTimers

theorem refl (m : Machine) : SameTimers m m := fun _ => ⟨rfl, rfl⟩

theorem trans {m'' : Machine} (h : SameTimers m m') (h' : SameTimers m' m'') :
    SameTimers m m'' :=
  fun i => ⟨(h' i).1.trans (h i).1, (h' i).2.trans (h i).2⟩

/-- A call does the same to the same timers. -/
theorem run (h : SameTimers m m') (c : Shim) : SameTimers (c.run m) (c.run m') := by
  intro i
  rw [Shim.run_arm, Shim.run_arm, Shim.run_cnt, Shim.run_cnt, (h i).1, (h i).2]
  exact ⟨rfl, rfl⟩

/-- A reload does the same to the same timers. -/
theorem reload (h : SameTimers m m') (e : Entry) (v : Nat) :
    SameTimers (m.wr (ssCnt e) v) (m'.wr (ssCnt e) v) := by
  intro i
  rw [rd_arm_wr_cnt, rd_arm_wr_cnt, rd_cnt_wr_cnt, rd_cnt_wr_cnt, (h i).1, (h i).2]
  exact ⟨rfl, rfl⟩

end SameTimers

/-- A full countdown stays full whatever a shim writes. -/
theorem reload_run (e : Entry) (c : Shim) (m : Machine) :
    SameTimers (c.run (m.wr (ssCnt e) (ssInt e))) ((c.run m).wr (ssCnt e) (ssInt e)) := by
  intro i
  rw [rd_arm_wr_cnt, rd_cnt_wr_cnt, Shim.run_arm, Shim.run_arm, Shim.run_cnt, Shim.run_cnt,
    rd_arm_wr_cnt, rd_cnt_wr_cnt, Nat.mod_eq_of_lt (int_lt e)]
  refine ⟨rfl, ?_⟩
  cases c with
  | stop j => rfl
  | arm j =>
    by_cases hj : i = j
    · subst hj
      by_cases hi : i = e
      · subst hi
        simp
      · simp [hi]
    · simp [hj]

/-- The reload after a handler could as well be made before it. -/
theorem reload_shims (e : Entry) (cs : List Shim) : ∀ m : Machine,
    SameTimers (shims cs (m.wr (ssCnt e) (ssInt e))) ((shims cs m).wr (ssCnt e) (ssInt e)) := by
  have hsame : ∀ (cs : List Shim) {m m' : Machine}, SameTimers m m' →
      SameTimers (shims cs m) (shims cs m') := by
    intro cs
    induction cs with
    | nil => exact id
    | cons c cs ih => exact fun h => ih (h.run c)
  induction cs with
  | nil => exact fun m => SameTimers.refl _
  | cons c cs ih => exact fun m => SameTimers.trans (hsame cs (reload_run e c m)) (ih (c.run m))

/-! ### One evaluation -/

/-- An evaluation that does not fire calls no code of the cart. -/
theorem entryTick_held (h : ¬ Fires e m) :
    entryTick cart e m =
      if m.rd (ssArm e) = 0 then m else m.wr (ssCnt e) ((m.rd (ssCnt e) + 65535) % 65536) := by
  unfold entryTick gameEntry
  dsimp only
  by_cases harm : m.rd (ssArm e) = 0
  · rw [if_pos harm, if_pos harm]
  · rw [if_neg harm, if_neg harm, if_neg fun hcnt => h ⟨harm, hcnt⟩]

/-- An evaluation that fires calls the handler and reloads. -/
theorem entryTick_fires (h : Fires e m) :
    entryTick cart e m = (m.runCart (cart.ssTick (e + 1))).wr (ssCnt e) (ssInt e) := by
  unfold entryTick gameEntry
  dsimp only
  rw [if_neg h.1, if_pos h.2]

namespace Paced

theorem within (h : Paced marks m) : Within m := fun i => ⟨(h.counts i).pos, (h.counts i).le⟩

/-- Whether an entry fires is read off its flag and its countdown. -/
theorem fires_iff (h : Paced marks m) (e : Entry) :
    Fires e m ↔ armed m e = true ∧ m.rd (ssCnt e) = 1 := by
  have hpos := (h.counts e).pos
  have hle := (h.counts e).le
  have hlt := int_lt e
  rw [armed, bne_iff_ne, Fires]
  refine and_congr_right fun _ => ?_
  omega

theorem same (h : Paced marks m) (hsame : SameTimers m m') : Paced marks m' := by
  refine ⟨h.onTime, fun i => ?_⟩
  rw [armed, (hsame i).1, (hsame i).2]
  exact h.counts i

/-- A shim: it fires nothing, and what it writes is where the history starts anew. -/
theorem shim (h : Paced marks m) (c : Shim) : Paced (marks ++ [c.mark]) (c.run m) := by
  constructor
  · apply h.onTime.note
    intro i fired hk
    cases c <;> exact nomatch hk
  · intro i
    rw [History.of_append, List.foldl_cons, List.foldl_nil, Shim.run_armed, Shim.run_cnt]
    cases c with
    | arm e =>
      by_cases hi : i = e
      · subst hi
        dsimp only [Shim.mark]
        rw [if_pos rfl, if_pos rfl]
        exact Counts.arm (int_pos i)
      · dsimp only [Shim.mark]
        rw [if_neg hi, if_neg hi, History.note_ne _ (Ne.symm hi)]
        exact h.counts i
    | stop e =>
      by_cases hi : i = e
      · subst hi
        dsimp only [Shim.mark]
        rw [if_pos rfl]
        exact (h.counts i).stop
      · dsimp only [Shim.mark]
        rw [if_neg hi, History.note_ne _ (Ne.symm hi)]
        exact h.counts i

theorem shims (h : Paced marks m) (cs : List Shim) :
    Paced (marks ++ cs.map Shim.mark) (shims cs m) := by
  induction cs generalizing marks m with
  | nil => simpa [Console.shims] using h
  | cons c cs ih =>
    rw [List.map_cons, List.append_cons]
    exact ih (h.shim c)

/-- An evaluation that fires, up to the handler: the history and the countdown start anew. -/
theorem fire (h : Paced marks m) (hfires : Fires e m) :
    Paced (marks ++ [.eval e true]) (m.wr (ssCnt e) (ssInt e)) := by
  have hone := (h.fires_iff e).mp hfires
  have hnow := (h.counts e).fires_iff.mp hone
  constructor
  · apply h.onTime.note
    intro i fired hk
    obtain ⟨rfl, rfl⟩ := Mark.eval.inj hk
    exact iff_of_true rfl hnow
  · intro i
    rw [History.of_append, List.foldl_cons, List.foldl_nil, armed_reload, rd_cnt_wr_cnt,
      Nat.mod_eq_of_lt (int_lt e)]
    by_cases hi : i = e
    · subst hi
      rw [if_pos rfl, History.note_eval hnow.1]
      exact ⟨(h.counts i).armed_eq, int_pos i, Nat.le_refl _, fun _ => rfl⟩
    · rw [if_neg hi, History.note_ne _ (Ne.symm hi)]
      exact h.counts i

/-- An evaluation that does not fire. -/
theorem hold (h : Paced marks m) (hno : ¬ Fires e m) :
    Paced (marks ++ [.eval e false]) (entryTick cart e m) := by
  have hcount : ¬ (armed m e = true ∧ m.rd (ssCnt e) = 1) :=
    fun hone => hno ((h.fires_iff e).mpr hone)
  constructor
  · apply h.onTime.note
    intro i fired hk
    obtain ⟨rfl, rfl⟩ := Mark.eval.inj hk
    exact iff_of_false Bool.false_ne_true fun hnow => hcount ((h.counts e).fires_iff.mpr hnow)
  · intro i
    rw [History.of_append, List.foldl_cons, List.foldl_nil, entryTick_held hno]
    by_cases hi : i = e
    · subst hi
      have hheld := (h.counts i).hold (i := i) hcount
      have hpos := (h.counts i).pos
      have hle := (h.counts i).le
      have hlt := int_lt i
      by_cases harm : m.rd (ssArm i) = 0
      · rw [if_pos harm]
        rwa [if_neg (by simpa [armed] using harm)] at hheld
      · have hpred : (m.rd (ssCnt i) + 65535) % 65536 % 256 = m.rd (ssCnt i) - 1 := by omega
        rw [if_neg harm, armed_reload, rd_cnt_wr_cnt, if_pos rfl, hpred]
        rwa [if_pos (by simpa [armed] using harm)] at hheld
    · rw [History.note_ne _ (Ne.symm hi)]
      by_cases harm : m.rd (ssArm e) = 0
      · rw [if_pos harm]
        exact h.counts i
      · rw [if_neg harm, armed_reload, rd_cnt_wr_cnt, if_neg hi]
        exact h.counts i

/-- One evaluation, its handler with all the shims it calls included. -/
theorem evaluated (h : Paced marks m) {p : Entry × List (Mark Entry)}
    (hp : Evaluated cart p m m') : Paced (marks ++ p.2) m' := by
  cases hp with
  | held hno => exact h.hold hno
  | @fired e _ cs hfires hcs =>
    rw [entryTick_fires hfires, List.append_cons]
    have hshims := (h.fire hfires).shims cs
    exact hshims.same ((reload_shims e cs m).trans (hcs.reload e (ssInt e)))

/-- The entries of a tick so far. -/
theorem entries (h : Paced marks m) {ps : List (Entry × List (Mark Entry))}
    (hps : Run (Evaluated cart) m ps m') : Paced (marks ++ ps.flatMap Prod.snd) m' := by
  induction hps generalizing marks with
  | nil => simpa using h
  | cons hp _ ih =>
    rw [List.flatMap_cons, ← List.append_assoc]
    exact ih (h.evaluated hp)

end Paced

/-! ### The tick -/

/-- `SS_GAME_TICK` evaluates the entries in table order and then writes `SS_QUIESCENT`. -/
theorem ssGameTick_entries (cart : Cart) (m : Machine) : ∃ v, ssGameTick cart m =
    (entryTable.foldl (fun m e => entryTick cart e m) m).wr ssQuiescent v :=
  ⟨_, rfl⟩

theorem run_entries {ps : List (Entry × List (Mark Entry))} (h : Run (Evaluated cart) m ps m') :
    m' = (ps.map Prod.fst).foldl (fun m e => entryTick cart e m) m := by
  induction h with
  | nil => rfl
  | cons hp _ ih =>
    rw [ih]
    cases hp <;> rfl

theorem Paced.step {v : TimerEvent} (h : Paced marks m) (hstep : v.Step cart m m') :
    Paced (marks ++ v.marks) m' := by
  cases v with
  | shim c =>
    rw [show m' = c.run m from hstep]
    exact h.shim c
  | tick ps =>
    obtain ⟨rfl, hall, m₁, hps⟩ := hstep
    obtain ⟨w, hw⟩ := ssGameTick_entries cart m
    rw [hw, ← hall, ← run_entries hps]
    apply (h.entries hps).same
    intro i
    have hcell : ssArm i ≠ ssQuiescent ∧ ssCnt i ≠ ssQuiescent := by
      revert i
      decide
    rw [rd_wr, rd_wr, if_neg hcell.1, if_neg hcell.2]
    exact ⟨rfl, rfl⟩
  | other => simpa [TimerEvent.marks] using h.same hstep

theorem Paced.run {vs : List TimerEvent} (h : Paced marks m)
    (hrun : Run (TimerEvent.Step cart) m vs m') :
    Paced (marks ++ vs.flatMap TimerEvent.marks) m' := by
  induction hrun generalizing marks with
  | nil => simpa using h
  | cons hstep _ ih =>
    rw [List.flatMap_cons, ← List.append_assoc]
    exact ih (h.step hstep)

/-- What the entries of a tick evaluate. -/
theorem run_evaluates {ps : List (Entry × List (Mark Entry))}
    (h : Run (Evaluated cart) m ps m') :
    (ps.flatMap Prod.snd).filterMap Mark.evaluated = ps.map Prod.fst := by
  induction h with
  | nil => rfl
  | cons hp _ ih =>
    rw [List.flatMap_cons, List.filterMap_append, List.map_cons, ih]
    cases hp with
    | held _ => rfl
    | @fired _ _ cs _ _ =>
      have hshims : (cs.map Shim.mark).filterMap Mark.evaluated = [] := by
        rw [List.filterMap_map, List.filterMap_eq_nil_iff]
        intro c _
        cases c <;> rfl
      dsimp only
      rw [@List.filterMap_cons_some _ _ Mark.evaluated _ _ _ rfl, hshims]
      rfl

theorem run_tick {vs : List TimerEvent} (hrun : Run (TimerEvent.Step cart) m vs m')
    {ps : List (Entry × List (Mark Entry))} (hps : TimerEvent.tick ps ∈ vs) :
    (ps.flatMap Prod.snd).filterMap Mark.evaluated = entryTable := by
  induction hrun with
  | nil => exact absurd hps List.not_mem_nil
  | cons hstep _ ih =>
    rcases List.mem_cons.mp hps with rfl | hps
    · obtain ⟨-, hall, m₁, hentries⟩ := hstep
      rw [run_evaluates hentries, hall]
    · exact ih hps

/-- The arm flags are left alone, and each countdown is full. -/
theorem seedCounts_timers (m : Machine) (i : Entry) :
    (seedCounts m).rd (ssArm i) = m.rd (ssArm i) ∧ (seedCounts m).rd (ssCnt i) = ssInt i := by
  simp only [seedCounts, rd_wr]
  match i with
  | 0 | 1 | 2 | 3 | 4 => exact ⟨rfl, rfl⟩

theorem netSeed_paced (k : Machine) : Paced [] (netSeed k) := by
  refine ⟨.nil, fun i => ?_⟩
  have hclear : (netClear k).rd (ssArm i) = 0 := by
    have hin : 0x8080 ≤ ssArm i ∧ ssArm i < 0x8200 := by
      revert i
      decide
    simp only [netClear, rd_fill]
    rw [if_pos ⟨hin.1, by omega⟩, Nat.zero_mod]
  obtain ⟨harm, hcnt⟩ := seedCounts_timers (netClear k) i
  rw [armed, netSeed, harm, hclear, hcnt]
  exact Counts.start (int_pos i)

/-! ### The cadence -/

/-- From the seeding on, whatever the order of ticks and shims, the shims called from inside
handlers included: an entry's handler runs at an evaluation exactly when the entry is armed and
this is the last evaluation of its interval, the entries are evaluated in table order, and
every countdown is in its interval, also within a tick and within a handler. -/
theorem timers_keep_cadence (cart : Cart) (k m m' : Machine) (vs : List TimerEvent)
    (ps : List (Entry × List (Mark Entry)))
    (hrun : Run (TimerEvent.Step cart) (netSeed k) vs m)
    (hpart : ps.map Prod.fst <+: entryTable) (hps : Run (Evaluated cart) m ps m') :
    OnTime ssInt (vs.flatMap TimerEvent.marks ++ ps.flatMap Prod.snd) ∧
      (∀ qs, TimerEvent.tick qs ∈ vs →
        (qs.flatMap Prod.snd).filterMap Mark.evaluated = entryTable) ∧
      (ps.flatMap Prod.snd).filterMap Mark.evaluated <+: entryTable ∧
      ∀ cs, Within (shims cs m') := by
  have hstart := (netSeed_paced k).run hrun
  rw [List.nil_append] at hstart
  have hnow := hstart.entries hps
  refine ⟨hnow.onTime, fun qs => run_tick hrun, ?_, fun cs => (hnow.shims cs).within⟩
  rwa [run_evaluates hps]

section

variable {calls : Entry → List Shim} {es : List Entry}

/-- What the evaluation of an entry adds to the marks, when its handler makes these calls. -/
def evalMarks (calls : Entry → List Shim) (marks : List (Mark Entry)) (e : Entry) :
    List (Mark Entry) :=
  if (History.of e marks).armed = true ∧ (History.of e marks).waited + 1 = ssInt e then
    .eval e true :: (calls e).map Shim.mark
  else [.eval e false]

/-- The evaluations of some entries, one after the other. -/
def evals (calls : Entry → List Shim) :
    List (Mark Entry) → List Entry → List (Entry × List (Mark Entry))
  | _, [] => []
  | marks, e :: es =>
    (e, evalMarks calls marks e) :: evals calls (marks ++ evalMarks calls marks e) es

theorem evals_fst : ∀ (marks : List (Mark Entry)) (es : List Entry),
    (evals calls marks es).map Prod.fst = es
  | _, [] => rfl
  | marks, e :: es => congrArg (e :: ·) (evals_fst (marks ++ evalMarks calls marks e) es)

/-- Whether an entry fires is read off the marks. -/
theorem Paced.evaluates (h : Paced marks m) (hcalls : ∀ e m, Calls cart e m (calls e)) (e : Entry) :
    Evaluated cart (e, evalMarks calls marks e) m (entryTick cart e m) := by
  have hiff := (h.fires_iff e).trans (h.counts e).fires_iff
  unfold evalMarks
  split
  · next hdue => exact .fired (hiff.mpr hdue) (hcalls e m)
  · next hno => exact .held fun hfires => hno (hiff.mp hfires)

theorem Paced.evals_run (h : Paced marks m) (hcalls : ∀ e m, Calls cart e m (calls e)) :
    ∃ m', Run (Evaluated cart) m (evals calls marks es) m' := by
  induction es generalizing marks m with
  | nil => exact ⟨m, .nil m⟩
  | cons e es ih =>
    have hone := h.evaluates hcalls e
    obtain ⟨m', hrun⟩ := ih (h.evaluated hone)
    exact ⟨m', .cons hone hrun⟩

/-- A cart whose handlers touch the timers through the shims alone can always tick. -/
theorem Paced.tick (h : Paced marks m) (hcalls : ∀ e m, Calls cart e m (calls e)) :
    (TimerEvent.tick (evals calls marks entryTable)).Step cart m (ssGameTick cart m) := by
  obtain ⟨m', hrun⟩ : ∃ m', Run (Evaluated cart) m (evals calls marks entryTable) m' :=
    h.evals_run hcalls
  exact ⟨rfl, evals_fst marks entryTable, m', hrun⟩

end

/-- A cart whose handler of entry 4 stops it, and whose other handlers do nothing. -/
def onceCart : Cart where
  rom _ := 0
  handler _ _ _ c := c
  ssTick n c a := if n = 4 ∧ a = ssArm4 then 0 else c a

def onceCalls (e : Entry) : List Shim := if e = 3 then [.stop 3] else []

theorem onceCart_calls (e : Entry) (m : Machine) : Calls onceCart e m (onceCalls e) := by
  have hcell : ∀ a, simCell a = true → (m.runCart (onceCart.ssTick (e + 1))).rd a =
      if e = 3 ∧ a = ssArm4 then 0 else m.rd a := by
    intro a ha
    have hentry : (e : Nat) + 1 = 4 ↔ e = 3 := by
      revert e
      decide
    show (if simCell a = true then (if (e : Nat) + 1 = 4 ∧ a = ssArm4 then 0 else m.sim a)
      else m.store.cells a) % cellWidth a = _
    simp only [hentry]
    rw [if_pos ha]
    split
    · exact Nat.zero_mod _
    · rw [sim, if_pos ha]
      exact Nat.mod_mod _ _
  intro i
  have hsim : simCell (ssArm i) = true ∧ simCell (ssCnt i) = true := by
    revert i
    decide
  have harm := hcell _ hsim.1
  have hcnt := (hcell _ hsim.2).trans (if_neg fun h => arm_ne_cnt 3 i h.2.symm)
  rw [harm, hcnt]
  by_cases he : e = 3
  · have hshims : shims (onceCalls e) m = m.wr (ssArm 3) 0 := by
      rw [he]
      exact ssStopShim_slot 3 m
    rw [hshims, rd_arm_wr_arm, rd_cnt_wr_arm]
    refine ⟨if_congr ?_ rfl rfl, rfl⟩
    rw [and_iff_right he]
    exact arm_inj (j := 3)
  · have hshims : shims (onceCalls e) m = m := by
      unfold onceCalls
      rw [if_neg he]
      rfl
    rw [hshims, if_neg fun h => he h.1]
    exact ⟨rfl, rfl⟩

/-- A tick in which nothing fires. -/
def waitTick : List (Entry × List (Mark Entry)) := entryTable.map fun e => (e, [.eval e false])

/-- A tick in which entry 4 fires and its handler stops it. -/
def fireTick : List (Entry × List (Mark Entry)) :=
  entryTable.map fun e => (e, if e = 3 then [.eval 3 true, .stop 3] else [.eval e false])

/-- Entry 4 is armed, ticks once, is armed again, and fires two ticks later. -/
def onceEvents : List TimerEvent :=
  [.shim (.arm 3), .tick waitTick, .shim (.arm 3), .tick waitTick, .tick fireTick, .tick waitTick]

theorem rearmed_fires_once : ∃ m, Run (TimerEvent.Step onceCart) (netSeed blank) onceEvents m ∧
    OnTime ssInt (onceEvents.flatMap TimerEvent.marks) ∧ Within m := by
  have htick : ∀ (ps : List (Entry × List (Mark Entry))) {marks : List (Mark Entry)} {m : Machine},
      Paced marks m → evals onceCalls marks entryTable = ps →
      ∃ m', (TimerEvent.tick ps).Step onceCart m m' ∧ Paced (marks ++ ps.flatMap Prod.snd) m' := by
    rintro _ marks m h rfl
    exact ⟨_, h.tick onceCart_calls, h.step (h.tick onceCart_calls)⟩
  have h₀ := (netSeed_paced blank).shim (.arm 3)
  obtain ⟨m₁, hstep₁, h₁⟩ := htick waitTick h₀ (by decide)
  obtain ⟨m₂, hstep₂, h₂⟩ := htick waitTick (h₁.shim (.arm 3)) (by decide)
  obtain ⟨m₃, hstep₃, h₃⟩ := htick fireTick h₂ (by decide)
  obtain ⟨m₄, hstep₄, h₄⟩ := htick waitTick h₃ (by decide)
  have hrun : Run (TimerEvent.Step onceCart) (netSeed blank) onceEvents m₄ :=
    .cons rfl (.cons hstep₁ (.cons rfl (.cons hstep₂ (.cons hstep₃ (.one hstep₄)))))
  obtain ⟨hon, -, -, hin⟩ := timers_keep_cadence onceCart blank _ _ _ [] hrun List.nil_prefix
    (.nil _)
  rw [List.flatMap_nil, List.append_nil] at hon
  exact ⟨m₄, hrun, hon, hin []⟩

end SharkNetplay.Console
