import SharkNetplay.Lib.Run
import SharkNetplay.Console.Machine

/-!
# The mailbox, instruction by instruction

`MB_TRANSACT` against a peripheral that works at its own pace. The console writes the
request registers one by one, reads `FN_ACKSEQ`, writes `FN_SEQ` and polls; the
peripheral takes the registers when `FN_SEQ` and `FN_ACKSEQ` differ, and at some later
time replies and acknowledges.

## Implementation notes

`Machine.mbTransact` is the same routine with its peripheral run to completion; the
register writes of the two are compared at the end of the module. `call`, `writer`,
`asked`, `clean` and `origin` are records, read by neither side: which transaction is
under way, which one wrote `FN_SEQ` last and with which registers, whether the
peripheral was at rest then, and which request the bytes in `FN_RX` answer.
-/

namespace SharkNetplay.Console

open Lib Cell

/-- A transaction as its caller stages it: parameters and payload poked into the
registers, and the `MB_*` cells `MB_TRANSACT` copies. -/
structure Call where
  pokes : List (Nat × Nat)
  dev : Nat
  cmd : Nat
  nparam : Nat
  txlenLo : Nat
  txlenHi : Nat

/-- The register writes of a transaction up to `FN_SEQ`, in order. -/
def Call.writes (c : Call) : List (Nat × Nat) :=
  c.pokes ++ [(fnDevice, c.dev), (fnCmd, c.cmd), (fnNparam, c.nparam), (fnTxlenLo, c.txlenLo),
    (fnTxlenHi, c.txlenHi)]

/-- The number after `a`; 0 is skipped. -/
def nextSeq (a : Nat) : Nat :=
  let r0 := (a % 256 + 1) % 256
  if r0 = 0 then 1 else r0

/-- A request as the peripheral took it. -/
structure Taken where
  /-- The transaction that had written `FN_SEQ`. -/
  call : Nat
  regs : Nat → Nat
  seq : Nat

/-- What the peripheral is at. -/
inductive Periph
  | idle
  | busy (t : Taken)
  | replied (t : Taken)

/-- Where `MB_TRANSACT` is, with its registers. -/
inductive Cpu
  | ready
  | writes (ws : List (Nat × Nat))
  | readAck
  | writeSeq (r0 : Nat)
  | poll (r2 r1 : Nat)
  | acked
  | done (ok : Bool)
  deriving DecidableEq

/-- The shared window with both sides. -/
structure Bus where
  /-- Request registers, by address. -/
  regs : Nat → Nat
  seq : Nat
  ackSeq : Nat
  replyCmd : Nat
  /-- `FN_RX`. -/
  rx : List Nat
  periph : Periph
  cpu : Cpu
  call : Nat
  writer : Nat
  asked : Nat → Nat
  clean : Bool
  origin : Option Taken

namespace Bus

/-- What happens on the bus. -/
inductive Event
  /-- The console starts a transaction. -/
  | issue (c : Call)
  /-- The console's next instruction. -/
  | cpu
  | take
  | reply (cmd : Nat) (rx : List Nat)
  | ack

/-- The peripheral has no request in work. -/
def atRest (s : Bus) : Bool :=
  match s.periph with
  | .idle => true
  | _ => false

/-- The next instruction of `MB_TRANSACT`. -/
def instr (s : Bus) : Option Bus :=
  match s.cpu with
  | .writes ((a, v) :: ws) => some { s with regs := Function.update s.regs a v, cpu := .writes ws }
  | .writes [] => some { s with cpu := .readAck }
  | .readAck => some { s with cpu := .writeSeq s.ackSeq }
  | .writeSeq r0 =>
    some { s with
      seq := nextSeq r0
      cpu := .poll (nextSeq r0) 0
      writer := s.call
      asked := s.regs
      clean := s.atRest && s.ackSeq == r0 }
  | .poll r2 r1 =>
    if s.ackSeq = r2 then some { s with cpu := .acked }
    else
      let r1 := (r1 + 1) % 65536
      some { s with cpu := if r1 = 0 then .done false else .poll r2 r1 }
  | .acked => some { s with cpu := .done (decide (s.replyCmd = 0x06)) }
  | .ready => none
  | .done _ => none

/-- The console may start a transaction. -/
def free (s : Bus) : Bool :=
  match s.cpu with
  | .ready => true
  | .done _ => true
  | _ => false

/-- One event. -/
def step : Event → Bus → Option Bus
  | .issue c, s => if s.free then some { s with cpu := .writes c.writes, call := s.call + 1 } else none
  | .cpu, s => s.instr
  | .take, s =>
    match s.periph with
    | .idle => if s.seq = s.ackSeq then none
        else some { s with periph := .busy ⟨s.writer, s.regs, s.seq⟩ }
    | _ => none
  | .reply cmd rx, s =>
    match s.periph with
    | .busy t => some { s with periph := .replied t, replyCmd := cmd, rx := rx, origin := some t }
    | _ => none
  | .ack, s =>
    match s.periph with
    | .replied t => some { s with periph := .idle, ackSeq := t.seq }
    | _ => none

/-- The bus at power-on: nothing asked, nothing in work. -/
def start (a : Nat) (regs : Nat → Nat) : Bus where
  regs := regs
  seq := a
  ackSeq := a
  replyCmd := 0
  rx := []
  periph := .idle
  cpu := .ready
  call := 0
  writer := 0
  asked _ := 0
  clean := false
  origin := none

/-- `FN_RX` answers the request of the transaction under way. It is not enough that the
registers answered are those asked: an earlier transaction may have staged the same. -/
def Own (s : Bus) : Prop := ∃ t, s.origin = some t ∧ t.call = s.call ∧ t.regs = s.asked

/-- A run of the bus. -/
abbrev Runs (s : Bus) (es : List Event) (s' : Bus) : Prop :=
  Run (fun e s s' => step e s = some s') s es s'

/-! ## Sequence numbers -/

theorem nextSeq_lt (a : Nat) : nextSeq a < 256 := by
  unfold nextSeq
  dsimp only
  split <;> omega

theorem nextSeq_ne {a : Nat} (ha : a < 256) : nextSeq a ≠ a := by
  unfold nextSeq
  dsimp only
  split <;> omega

/-! ## The invariant -/

/-- The request in work. -/
def work (s : Bus) : Option Taken :=
  match s.periph with
  | .idle => none
  | .busy t => some t
  | .replied t => some t

/-- What holds at each instruction, of the transaction under way. -/
def Phase (s : Bus) : Prop :=
  match s.cpu with
  | .ready => True
  | .writes _ => s.writer < s.call
  | .readAck => s.writer < s.call
  | .writeSeq r0 => s.writer < s.call ∧ r0 < 256 ∧
      (s.ackSeq = r0 ∨ s.ackSeq = nextSeq r0 ∧ s.seq = s.ackSeq)
  | .poll r2 _ => s.writer = s.call ∧ s.seq = r2 ∧
      (s.clean = true → s.regs = s.asked ∧
        (∀ t, s.work = some t → t.call = s.call ∧ t.regs = s.asked) ∧ (s.ackSeq = r2 → s.Own)) ∧
      (s.clean = false → (∀ t, s.work = some t → t.call < s.call) ∧
        (s.ackSeq = r2 → ∀ t, s.origin = some t → t.call < s.call) ∧
        (s.ackSeq ≠ r2 → ∃ t, s.work = some t))
  | .acked => s.seq = s.ackSeq ∧ (s.Own ↔ s.clean = true)
  | .done ok => ok = true → s.seq = s.ackSeq ∧ (s.Own ↔ s.clean = true)

structure Inv (s : Bus) : Prop where
  ack : s.ackSeq < 256
  seq : s.seq = s.ackSeq ∨ s.seq = nextSeq s.ackSeq
  work : ∀ t, s.work = some t → t.seq = s.seq ∧ s.seq = nextSeq s.ackSeq ∧ t.call ≤ s.writer
  replied : ∀ t, s.periph = .replied t → s.origin = some t
  origin : ∀ t, s.origin = some t → t.call ≤ s.writer
  writer : s.writer ≤ s.call
  phase : s.Phase

theorem inv_start {a : Nat} (ha : a < 256) (regs : Nat → Nat) : Inv (start a regs) where
  ack := ha
  seq := Or.inl rfl
  work t h := by simp [Bus.work, start] at h
  replied t h := by simp [start] at h
  origin t h := by simp [start] at h
  writer := Nat.le_refl _
  phase := trivial

variable {s s' : Bus} {e : Event} {es : List Event}

theorem not_own_of_earlier (h : ∀ t, s.origin = some t → t.call < s.call) : ¬ s.Own := by
  rintro ⟨t, ht, hcall, -⟩
  have := h t ht
  omega

/-- No request is in work once `FN_SEQ` is acknowledged. -/
theorem Inv.rest (h : Inv s) (heq : s.seq = s.ackSeq) : s.work = none := by
  cases hw : s.work with
  | none => rfl
  | some t =>
      have hne := (h.work t hw).2.1
      exact absurd (heq ▸ hne).symm (nextSeq_ne h.ack)

theorem inv_issue (h : Inv s) (c : Call) :
    Inv { s with cpu := .writes c.writes, call := s.call + 1 } where
  ack := h.ack
  seq := h.seq
  work := h.work
  replied := h.replied
  origin := h.origin
  writer := Nat.le_succ_of_le h.writer
  phase := Nat.lt_succ_of_le h.writer

/-- A poll that ends the transaction. -/
theorem inv_poll {r2 r1 : Nat} (h : Inv s) (hcpu : s.cpu = .poll r2 r1) (heq : s.ackSeq = r2) :
    s.seq = s.ackSeq ∧ (s.Own ↔ s.clean = true) := by
  have hphase := h.phase
  unfold Phase at hphase
  rw [hcpu] at hphase
  obtain ⟨-, hseq, hclean, hdirty⟩ := hphase
  refine ⟨hseq.trans heq.symm, ?_⟩
  constructor
  · intro hown
    cases hc : s.clean with
    | true => rfl
    | false => exact absurd hown (not_own_of_earlier ((hdirty hc).2.1 heq))
  · exact fun hc => (hclean hc).2.2 heq

/-- The write of `FN_SEQ`. -/
theorem inv_writeSeq {r0 : Nat} (h : Inv s) (hcpu : s.cpu = .writeSeq r0) :
    Inv { s with
      seq := nextSeq r0
      cpu := .poll (nextSeq r0) 0
      writer := s.call
      asked := s.regs
      clean := s.atRest && s.ackSeq == r0 } := by
  have hphase := h.phase
  unfold Phase at hphase
  rw [hcpu] at hphase
  obtain ⟨hwriter, hr0, hcase⟩ := hphase
  have hlt : ∀ t, s.work = some t → t.call < s.call := fun t ht =>
    Nat.lt_of_le_of_lt (h.work t ht).2.2 hwriter
  -- a request in work was asked for under the number about to be written
  have hwork : ∀ t, s.work = some t → s.ackSeq = r0 ∧ t.seq = nextSeq r0 := by
    intro t ht
    rcases hcase with heq | ⟨-, hseq⟩
    · have hw := h.work t ht
      exact ⟨heq, heq ▸ hw.1.trans hw.2.1⟩
    · exact absurd ((h.rest hseq).symm.trans ht) (by simp)
  refine ⟨h.ack, ?_, fun t ht => ?_, h.replied, fun t ht => ?_, Nat.le_refl _, rfl, rfl,
    fun hc => ?_, fun hc => ?_⟩
  · rcases hcase with heq | ⟨heq, -⟩
    · exact Or.inr (congrArg nextSeq heq.symm)
    · exact Or.inl heq.symm
  · obtain ⟨heq, hseq⟩ := hwork t ht
    exact ⟨hseq, congrArg nextSeq heq.symm, Nat.le_of_lt (hlt t ht)⟩
  · exact Nat.le_trans (h.origin t ht) h.writer
  · -- the peripheral is at rest and the number is new
    have hc' : s.atRest = true ∧ s.ackSeq = r0 := by
      have h := hc
      simp only [Bool.and_eq_true, beq_iff_eq] at h
      exact h
    refine ⟨rfl, fun t ht => ?_, fun heq => ?_⟩
    · have hnone : s.work = none := by
        have hrest := hc'.1
        unfold atRest at hrest
        unfold work
        cases hp : s.periph with
        | idle => rfl
        | busy t => simp [hp] at hrest
        | replied t => simp [hp] at hrest
      exact absurd (hnone.symm.trans ht) (by simp)
    · have heq' : s.ackSeq = nextSeq r0 := heq
      exact absurd (heq'.symm.trans hc'.2) (nextSeq_ne hr0)
  · refine ⟨fun t ht => hlt t ht, fun _ t ht => ?_, fun hne => ?_⟩
    · exact Nat.lt_of_le_of_lt (h.origin t ht) hwriter
    · have hack : s.ackSeq = r0 := by
        rcases hcase with heq | ⟨heq, -⟩
        · exact heq
        · exact absurd heq hne
      have hbusy : s.atRest = false := by
        cases hr : s.atRest with
        | false => rfl
        | true =>
            have hc' : (s.atRest && s.ackSeq == r0) = false := hc
            rw [hr, hack] at hc'
            simp at hc'
      show ∃ t, s.work = some t
      unfold atRest at hbusy
      unfold work
      cases hp : s.periph with
      | idle => simp [hp] at hbusy
      | busy t => exact ⟨t, rfl⟩
      | replied t => exact ⟨t, rfl⟩

/-- An instruction of the console. -/
theorem inv_instr (h : Inv s) (hstep : s.instr = some s') : Inv s' := by
  have hphase := h.phase
  unfold Phase at hphase
  unfold instr at hstep
  cases hcpu : s.cpu with
  | ready =>
      rw [hcpu] at hstep
      simp at hstep
  | writes ws =>
      rw [hcpu] at hstep hphase
      cases ws with
      | nil =>
          obtain rfl := Option.some.inj hstep
          exact ⟨h.ack, h.seq, h.work, h.replied, h.origin, h.writer, hphase⟩
      | cons w ws =>
          obtain rfl := Option.some.inj hstep
          exact ⟨h.ack, h.seq, h.work, h.replied, h.origin, h.writer, hphase⟩
  | readAck =>
      rw [hcpu] at hstep hphase
      obtain rfl := Option.some.inj hstep
      exact ⟨h.ack, h.seq, h.work, h.replied, h.origin, h.writer, hphase, h.ack, Or.inl rfl⟩
  | writeSeq r0 =>
      rw [hcpu] at hstep
      obtain rfl := Option.some.inj hstep
      exact inv_writeSeq h hcpu
  | poll r2 r1 =>
      rw [hcpu] at hstep hphase
      dsimp only at hstep
      by_cases heq : s.ackSeq = r2
      · rw [if_pos heq] at hstep
        obtain rfl := Option.some.inj hstep
        have hend := inv_poll h hcpu heq
        exact ⟨h.ack, h.seq, h.work, h.replied, h.origin, h.writer, hend⟩
      · rw [if_neg heq] at hstep
        obtain rfl := Option.some.inj hstep
        refine ⟨h.ack, h.seq, h.work, h.replied, h.origin, h.writer, ?_⟩
        by_cases hlast : (r1 + 1) % 65536 = 0
        · simp only [Phase, hlast, if_true]
          exact fun h => Bool.noConfusion h
        · simp only [Phase, hlast, if_false]
          exact hphase
  | acked =>
      rw [hcpu] at hstep hphase
      obtain rfl := Option.some.inj hstep
      exact ⟨h.ack, h.seq, h.work, h.replied, h.origin, h.writer, fun _ => hphase⟩
  | done ok =>
      rw [hcpu] at hstep
      simp at hstep

/-- The peripheral takes a request. -/
theorem inv_take (h : Inv s) (hidle : s.periph = .idle) (hne : s.seq ≠ s.ackSeq) :
    Inv { s with periph := .busy ⟨s.writer, s.regs, s.seq⟩ } := by
  have hnone : s.work = none := by simp [work, hidle]
  have hnext : s.seq = nextSeq s.ackSeq := h.seq.resolve_left hne
  have hphase := h.phase
  refine ⟨h.ack, h.seq, ?_, ?_, h.origin, h.writer, ?_⟩
  · intro t ht
    obtain rfl := Option.some.inj ht
    exact ⟨rfl, hnext, Nat.le_refl _⟩
  · intro t ht
    exact absurd ht (by simp)
  · unfold Phase at hphase ⊢
    cases hcpu : s.cpu with
    | ready => simp
    | writes ws => rwa [hcpu] at hphase
    | readAck => rwa [hcpu] at hphase
    | writeSeq r0 => rwa [hcpu] at hphase
    | poll r2 r1 =>
        rw [hcpu] at hphase
        obtain ⟨hwriter, hseq, hclean, hdirty⟩ := hphase
        refine ⟨hwriter, hseq, fun hc => ?_, fun hc => ?_⟩
        · obtain ⟨hregs, -, hown⟩ := hclean hc
          refine ⟨hregs, fun t ht => ?_, hown⟩
          obtain rfl := Option.some.inj ht
          exact ⟨hwriter, hregs⟩
        · -- the call's number is not acknowledged, so an older request is in work
          have hpend : s.ackSeq ≠ r2 := fun heq => hne (hseq.trans heq.symm)
          obtain ⟨t, ht⟩ := (hdirty hc).2.2 hpend
          exact absurd (hnone.symm.trans ht) (by simp)
    | acked =>
        rw [hcpu] at hphase
        exact absurd hphase.1 hne
    | done ok =>
        rw [hcpu] at hphase
        exact fun hok => absurd (hphase hok).1 hne

/-- While a request is in work its number is not acknowledged. -/
theorem Inv.unacked (h : Inv s) {t : Taken} (ht : s.work = some t) : s.seq ≠ s.ackSeq :=
  fun heq => absurd ((h.rest heq).symm.trans ht) (by simp)

/-- The peripheral writes its reply. -/
theorem inv_reply {t : Taken} (h : Inv s) (hbusy : s.periph = .busy t) (cmd : Nat)
    (rx : List Nat) :
    Inv { s with periph := .replied t, replyCmd := cmd, rx := rx, origin := some t } := by
  have ht : s.work = some t := by simp [work, hbusy]
  have hne := h.unacked ht
  have hphase := h.phase
  refine ⟨h.ack, h.seq, ?_, ?_, ?_, h.writer, ?_⟩
  · intro t' ht'
    obtain rfl := Option.some.inj ht'
    exact h.work t ht
  · intro t' ht'
    exact congrArg some (Periph.replied.inj ht')
  · intro t' ht'
    obtain rfl := Option.some.inj ht'
    exact (h.work t ht).2.2
  · unfold Phase at hphase ⊢
    cases hcpu : s.cpu with
    | ready => simp
    | writes ws => rwa [hcpu] at hphase
    | readAck => rwa [hcpu] at hphase
    | writeSeq r0 => rwa [hcpu] at hphase
    | poll r2 r1 =>
        rw [hcpu] at hphase
        obtain ⟨hwriter, hseq, hclean, hdirty⟩ := hphase
        have hpend : s.ackSeq ≠ r2 := fun heq => hne (hseq.trans heq.symm)
        refine ⟨hwriter, hseq, fun hc => ?_, fun hc => ?_⟩
        · refine ⟨(hclean hc).1, fun t' ht' => ?_, fun heq => absurd heq hpend⟩
          obtain rfl := Option.some.inj ht'
          exact (hclean hc).2.1 t ht
        · refine ⟨fun t' ht' => ?_, fun heq => absurd heq hpend, fun _ => ⟨t, rfl⟩⟩
          obtain rfl := Option.some.inj ht'
          exact (hdirty hc).1 t ht
    | acked =>
        rw [hcpu] at hphase
        exact absurd hphase.1 hne
    | done ok =>
        rw [hcpu] at hphase
        exact fun hok => absurd (hphase hok).1 hne

/-- The peripheral acknowledges. -/
theorem inv_ack {t : Taken} (h : Inv s) (hreplied : s.periph = .replied t) :
    Inv { s with periph := .idle, ackSeq := t.seq } := by
  have ht : s.work = some t := by simp [work, hreplied]
  have hne := h.unacked ht
  obtain ⟨hseq, hnext, hcall⟩ := h.work t ht
  have horigin := h.replied t hreplied
  have hphase := h.phase
  refine ⟨?_, Or.inl hseq.symm, ?_, ?_, h.origin, h.writer, ?_⟩
  · show t.seq < 256
    rw [hseq, hnext]
    exact nextSeq_lt _
  · intro t' ht'
    exact absurd ht' (by simp [work])
  · intro t' ht'
    exact absurd ht' (by simp)
  · unfold Phase at hphase ⊢
    cases hcpu : s.cpu with
    | ready => simp
    | writes ws => rwa [hcpu] at hphase
    | readAck => rwa [hcpu] at hphase
    | writeSeq r0 =>
        rw [hcpu] at hphase
        obtain ⟨hwriter, hr0, heq | ⟨-, heq⟩⟩ := hphase
        · exact ⟨hwriter, hr0, Or.inr ⟨by rw [hseq, hnext, heq], hseq.symm⟩⟩
        · exact absurd heq hne
    | poll r2 r1 =>
        rw [hcpu] at hphase
        obtain ⟨hwriter, hr2, hclean, hdirty⟩ := hphase
        refine ⟨hwriter, hr2, fun hc => ?_, fun hc => ?_⟩
        · obtain ⟨hregs, hwork, -⟩ := hclean hc
          refine ⟨hregs, fun t' ht' => absurd ht' (by simp [work]), fun _ => ?_⟩
          exact ⟨t, horigin, hwork t ht⟩
        · refine ⟨fun t' ht' => absurd ht' (by simp [work]), fun _ t' ht' => ?_, fun hpend => ?_⟩
          · obtain rfl := Option.some.inj (horigin.symm.trans ht')
            exact (hdirty hc).1 t ht
          · exact absurd (hseq.trans hr2) hpend
    | acked =>
        rw [hcpu] at hphase
        exact absurd hphase.1 hne
    | done ok =>
        rw [hcpu] at hphase
        exact fun hok => absurd (hphase hok).1 hne

theorem Inv.step (h : Inv s) (hstep : step e s = some s') : Inv s' := by
  unfold Bus.step at hstep
  cases e with
  | issue c =>
      dsimp only at hstep
      by_cases hfree : s.free = true
      · rw [if_pos hfree] at hstep
        obtain rfl := Option.some.inj hstep
        exact inv_issue h c
      · rw [if_neg hfree] at hstep
        simp at hstep
  | cpu => exact inv_instr h hstep
  | take =>
      dsimp only at hstep
      cases hp : s.periph with
      | idle =>
          rw [hp] at hstep
          dsimp only at hstep
          by_cases heq : s.seq = s.ackSeq
          · rw [if_pos heq] at hstep
            simp at hstep
          · rw [if_neg heq] at hstep
            obtain rfl := Option.some.inj hstep
            exact inv_take h hp heq
      | busy t => simp [hp] at hstep
      | replied t => simp [hp] at hstep
  | reply cmd rx =>
      dsimp only at hstep
      cases hp : s.periph with
      | idle => simp [hp] at hstep
      | busy t =>
          rw [hp] at hstep
          obtain rfl := Option.some.inj hstep
          exact inv_reply h hp cmd rx
      | replied t => simp [hp] at hstep
  | ack =>
      dsimp only at hstep
      cases hp : s.periph with
      | idle => simp [hp] at hstep
      | busy t => simp [hp] at hstep
      | replied t =>
          rw [hp] at hstep
          obtain rfl := Option.some.inj hstep
          exact inv_ack h hp

theorem inv_run (hrun : Runs s es s') (h : Inv s) : Inv s' :=
  hrun.invariant (P := Inv) (fun _ _ _ hstep hi => hi.step hstep) h

/-! ## Runs of one call -/

/-- The request registers once `ws` are written. -/
def poke (ws : List (Nat × Nat)) (regs : Nat → Nat) : Nat → Nat :=
  ws.foldl (fun r w => Function.update r w.1 w.2) regs

/-- The bus at the first poll of a call. -/
def asks (c : Call) (s : Bus) : Bus :=
  { s with
    regs := poke c.writes s.regs
    seq := nextSeq s.ackSeq
    cpu := .poll (nextSeq s.ackSeq) 0
    call := s.call + 1
    writer := s.call + 1
    asked := poke c.writes s.regs
    clean := s.atRest }

theorem runs_writes (ws : List (Nat × Nat)) : ∀ s : Bus, s.cpu = .writes ws →
    ∃ es, Runs s es { s with regs := poke ws s.regs, cpu := .readAck } := by
  induction ws with
  | nil =>
      intro s hcpu
      have hstep : step .cpu s = some { s with regs := poke [] s.regs, cpu := .readAck } := by
        simp [step, instr, hcpu, poke]
      exact ⟨_, Run.one hstep⟩
  | cons w ws ih =>
      intro s hcpu
      obtain ⟨es, hes⟩ := ih { s with regs := Function.update s.regs w.1 w.2, cpu := .writes ws } rfl
      have hstep : step .cpu s =
          some { s with regs := Function.update s.regs w.1 w.2, cpu := .writes ws } := by
        simp [step, instr, hcpu]
      exact ⟨_, Run.cons hstep hes⟩

/-- A call reaches its first poll while the peripheral does nothing. -/
theorem runs_asks (c : Call) (s : Bus) (hfree : s.free = true) :
    ∃ es, Runs s es (asks c s) := by
  have hissue : step (.issue c) s = some { s with cpu := .writes c.writes, call := s.call + 1 } := by
    simp [step, hfree]
  obtain ⟨es, hes⟩ := runs_writes c.writes
    { s with cpu := .writes c.writes, call := s.call + 1 } rfl
  have hread : step .cpu
        { s with regs := poke c.writes s.regs, cpu := .readAck, call := s.call + 1 } =
      some { s with
        regs := poke c.writes s.regs, cpu := .writeSeq s.ackSeq, call := s.call + 1 } := rfl
  have hseq : step .cpu
        { s with regs := poke c.writes s.regs, cpu := .writeSeq s.ackSeq, call := s.call + 1 } =
      some (asks c s) := by
    simp [step, instr, asks, atRest]
  exact ⟨_, Run.cons hissue (hes.append (.cons hread (.one hseq)))⟩

theorem runs_polls {r2 : Nat} (n : Nat) : ∀ (s : Bus) (r1 : Nat), s.cpu = .poll r2 r1 →
    s.ackSeq ≠ r2 → r1 + n < 65536 → ∃ es, Runs s es { s with cpu := .poll r2 (r1 + n) } := by
  induction n with
  | zero =>
      intro s r1 hcpu _ _
      rw [Nat.add_zero, ← hcpu]
      exact ⟨[], .nil s⟩
  | succ n ih =>
      intro s r1 hcpu hne hlt
      have hstep : step .cpu s = some { s with cpu := .poll r2 (r1 + 1) } := by
        have hmod : (r1 + 1) % 65536 = r1 + 1 := Nat.mod_eq_of_lt (by omega)
        simp [step, instr, hcpu, hne, hmod]
      obtain ⟨es, hes⟩ := ih { s with cpu := .poll r2 (r1 + 1) } (r1 + 1) rfl hne (by omega)
      rw [Nat.add_right_comm, Nat.add_assoc] at hes
      exact ⟨_, Run.cons hstep hes⟩

/-- A call that is not acknowledged within 65536 polls times out. -/
theorem runs_timeout (r2 : Nat) (s : Bus) (hcpu : s.cpu = .poll r2 0) (hne : s.ackSeq ≠ r2) :
    ∃ es, Runs s es { s with cpu := .done false } := by
  obtain ⟨es, hes⟩ := runs_polls 65535 s 0 hcpu hne (by omega)
  have hlast : step .cpu { s with cpu := .poll r2 (0 + 65535) } =
      some { s with cpu := .done false } := by
    simp [step, instr, hne]
  exact ⟨_, hes.append (.one hlast)⟩

/-- An acknowledged call returns `MB_OK`. -/
theorem runs_acked (r2 r1 : Nat) (s : Bus) (hcpu : s.cpu = .poll r2 r1) (heq : s.ackSeq = r2)
    (hcmd : s.replyCmd = 0x06) : ∃ es, Runs s es { s with cpu := .done true } := by
  have hpoll : step .cpu s = some { s with cpu := .acked } := by
    simp [step, instr, hcpu, heq]
  have hdone : step .cpu { s with cpu := .acked } = some { s with cpu := .done true } := by
    simp [step, instr, hcmd]
  exact ⟨_, Run.cons hpoll (.one hdone)⟩

end Bus

/-! ## The calls of the network driver -/

/-- The transaction of `NET_STATUS`. -/
def statusCall : Call where
  pokes := [(fnParamSize, 1), (fnParamSize + 1, 1), (fnParamVal, 0), (fnParamVal + 4, 0)]
  dev := 0x71
  cmd := 0x53
  nparam := 2
  txlenLo := 0
  txlenHi := 0

/-- The transaction of `NET_READ` for `NREQ` bytes. -/
def readCall (lo hi : Nat) : Call where
  pokes := [(fnParamSize, 2), (fnParamVal, lo), (fnParamVal + 1, hi)]
  dev := 0x71
  cmd := 0x52
  nparam := 1
  txlenLo := 0
  txlenHi := 0

namespace Machine

/-- What was written to the mailbox window, oldest first. -/
def pokes (m : Machine) : List (Nat × Nat) :=
  (m.store.log.filter fun w => 0x9C00 ≤ w.1).reverse

theorem pokes_wr (m : Machine) (a v : Nat) :
    (m.wr a v).pokes = if 0x9C00 ≤ a then m.pokes ++ [(a, v)] else m.pokes := by
  by_cases ha : 0x9C00 ≤ a
  · simp [pokes, Store.wr, ha]
  · simp [pokes, Store.wr, ha]

end Machine

theorem pokes_diagBump {cell : Nat} (hcell : cell < 0x9C00) (m : Machine) :
    (diagBump cell m).pokes = m.pokes := by
  unfold diagBump
  split
  · rfl
  · rw [Machine.pokes_wr, if_neg (by omega)]

/-- `MB_TRANSACT` writes the registers of its cells and then `FN_SEQ`, and nothing else in
the window. -/
theorem pokes_mbTransact (a : Answer) (m : Machine) :
    (mbTransact a m).pokes = m.pokes ++ (Call.writes ⟨[], m.rd mbDev, m.rd mbCmd, m.rd mbNparam,
      m.rd mbTxlenLo, m.rd mbTxlenHi⟩ ++ [(fnSeq, nextSeq a.ackSeq)]) := by
  unfold mbTransact
  cases a.polls with
  | none =>
      dsimp only
      rw [pokes_diagBump (by decide)]
      simp [Machine.pokes_wr, Call.writes, nextSeq]
  | some r1 =>
      dsimp only
      -- the poll maximum is below the window, whether it is raised or not
      split <;>
        simp [Machine.pokes_wr, pokes_diagBump, Call.writes, nextSeq, apply_ite Machine.pokes]

/-- `NET_STATUS` writes the window as its transaction does. -/
theorem pokes_netStatus (a : Answer) (avail code : Nat) (m : Machine) :
    (netStatus a avail code m).pokes =
      m.pokes ++ (statusCall.writes ++ [(fnSeq, nextSeq a.ackSeq)]) := by
  unfold netStatus
  dsimp only
  split
  · simp [Machine.pokes_wr, pokes_mbTransact, Call.writes, statusCall, cellWidth]
  · split <;> simp [Machine.pokes_wr, pokes_mbTransact, Call.writes, statusCall, cellWidth]

/-- `NET_READ` writes the window as its transaction does. -/
theorem pokes_netRead (a : Answer) (got : Nat) (m : Machine) :
    (netRead a got m).pokes = m.pokes ++
      ((readCall (m.rd nreqLo) (m.rd nreqHi)).writes ++ [(fnSeq, nextSeq a.ackSeq)]) := by
  unfold netRead
  dsimp only
  split <;> simp [Machine.pokes_wr, pokes_mbTransact, Call.writes, readCall, cellWidth]

namespace Bus

/-! ## Whose reply -/

/-- A call that returns `MB_OK` has its own reply in `FN_RX` exactly when the peripheral was
at rest, and `FN_ACKSEQ` still what the call had read, as the call wrote `FN_SEQ`. -/
theorem reply_own_iff {a : Nat} {regs : Nat → Nat} (ha : a < 256)
    (hrun : Runs (start a regs) es s) (hok : s.cpu = .done true) :
    s.Own ↔ s.clean = true := by
  have hphase := (inv_run hrun (inv_start ha regs)).phase
  unfold Phase at hphase
  rw [hok] at hphase
  exact (hphase rfl).2

/-- A read that times out while the peripheral works on it. -/
theorem runs_late : ∃ es s, Runs (start 0 fun _ => 0) es s ∧ s.periph = .busy ⟨1, s.regs, 1⟩ ∧
    s.cpu = .done false ∧ s.ackSeq = 0 ∧ s.call = 1 := by
  obtain ⟨es₁, hread⟩ := runs_asks (readCall 64 0) (start 0 fun _ => 0) rfl
  generalize hask : asks (readCall 64 0) (start 0 fun _ => 0) = s at hread
  have hs : s.periph = .idle ∧ s.seq = 1 ∧ s.ackSeq = 0 ∧ s.cpu = .poll 1 0 ∧
      s.writer = 1 ∧ s.call = 1 := by
    rw [← hask]
    exact ⟨rfl, rfl, rfl, rfl, rfl, rfl⟩
  obtain ⟨hidle, hseq, hack, hcpu, hwriter, hcall⟩ := hs
  have htake : step .take s = some { s with periph := .busy ⟨1, s.regs, 1⟩ } := by
    simp [step, hidle, hseq, hack, hwriter]
  obtain ⟨es₂, htimeout⟩ := runs_timeout 1 { s with periph := .busy ⟨1, s.regs, 1⟩ } hcpu
    (by simp [hack])
  exact ⟨_, _, hread.append (.cons htake htimeout), rfl, rfl, hack, hcall⟩

/-- A call to a peripheral at rest, which answers it at once. -/
theorem runs_prompt (c : Call) (hfree : s.free = true) (hidle : s.periph = .idle)
    (hack : s.ackSeq < 256) : ∃ es s', Runs s es s' ∧ s'.cpu = .done true ∧ s'.clean = true ∧
      s'.call = s.call + 1 := by
  obtain ⟨es, hes⟩ := runs_asks c s hfree
  generalize hask : asks c s = t at hes
  have ht : t.periph = .idle ∧ t.seq ≠ t.ackSeq ∧ t.cpu = .poll t.seq 0 ∧ t.clean = true ∧
      t.call = s.call + 1 := by
    rw [← hask]
    refine ⟨hidle, nextSeq_ne hack, rfl, ?_, rfl⟩
    show s.atRest = true
    unfold atRest
    rw [hidle]
  obtain ⟨hidle', hne, hcpu, hclean, hcall⟩ := ht
  have htake : step .take t = some { t with periph := .busy ⟨t.writer, t.regs, t.seq⟩ } := by
    simp [step, hidle', hne]
  obtain ⟨es', hes'⟩ := runs_acked t.seq 0
    { t with
      periph := .idle, replyCmd := 0x06, rx := [0, 0, 0, 1],
      origin := some ⟨t.writer, t.regs, t.seq⟩, ackSeq := t.seq } hcpu rfl rfl
  exact ⟨_, _, hes.append (.cons htake (.cons (e := .reply 0x06 [0, 0, 0, 1]) rfl
    (.cons (e := .ack) rfl hes'))), rfl, hclean, hcall⟩

/-- The read times out, is answered after all, and the status call that follows has its own
reply. -/
theorem reply_own_iff_after : ∃ es s, Runs (start 0 fun _ => 0) es s ∧ s.cpu = .done true ∧
    s.call = 2 ∧ s.clean = true ∧ (s.Own ↔ s.clean = true) := by
  obtain ⟨es₁, s, hlate, hbusy, hcpu, -, hcall⟩ := runs_late
  have hreply : step (.reply 0x06 [1, 2, 3]) s = some { s with
      periph := .replied ⟨1, s.regs, 1⟩, replyCmd := 0x06, rx := [1, 2, 3],
      origin := some ⟨1, s.regs, 1⟩ } := by
    simp [step, hbusy]
  have hlast : step .ack { s with
      periph := .replied ⟨1, s.regs, 1⟩, replyCmd := 0x06, rx := [1, 2, 3],
      origin := some ⟨1, s.regs, 1⟩ } = some { s with
      periph := .idle, replyCmd := 0x06, rx := [1, 2, 3], origin := some ⟨1, s.regs, 1⟩,
      ackSeq := 1 } := rfl
  have hended := hlate.append (.cons hreply (.one hlast))
  obtain ⟨es₂, s', hstatus, hdone, hclean, hcall'⟩ := runs_prompt
    (s := { s with
      periph := .idle, replyCmd := 0x06, rx := [1, 2, 3], origin := some ⟨1, s.regs, 1⟩,
      ackSeq := 1 })
    statusCall (by simp [free, hcpu]) rfl (show 1 < 256 by decide)
  have hrun := hended.append hstatus
  exact ⟨_, s', hrun, hdone, hcall'.trans (congrArg (· + 1) hcall), hclean,
    reply_own_iff (by decide) hrun hdone⟩

/-- A read times out while the peripheral works on it; the status call that follows writes
the same number, and the late acknowledgement of the read ends it. -/
theorem reply_not_own : ¬ ∀ (a : Nat) (regs : Nat → Nat) (es : List Event) (s : Bus),
    a < 256 → Runs (start a regs) es s → s.cpu = .done true → s.Own := by
  intro hall
  obtain ⟨es₁, s, hlate, hbusy, hcpu, hack, hcall⟩ := runs_late
  obtain ⟨es₂, hstatus⟩ := runs_asks statusCall s (by simp [free, hcpu])
  generalize hask : asks statusCall s = t at hstatus
  have ht : t.periph = .busy ⟨1, s.regs, 1⟩ ∧ t.cpu = .poll 1 0 ∧ t.call = 2 := by
    rw [← hask]
    refine ⟨hbusy, ?_, congrArg (· + 1) hcall⟩
    show Cpu.poll (nextSeq s.ackSeq) 0 = .poll 1 0
    rw [hack]
    rfl
  obtain ⟨hbusy', hcpu', hcall'⟩ := ht
  -- the read completes: its bytes, its acknowledgement
  have hreply : step (.reply 0x06 [1, 2, 3]) t = some { t with
      periph := .replied ⟨1, s.regs, 1⟩, replyCmd := 0x06, rx := [1, 2, 3],
      origin := some ⟨1, s.regs, 1⟩ } := by
    simp [step, hbusy']
  obtain ⟨es₃, hacked⟩ := runs_acked 1 0
    { t with
      periph := .idle, replyCmd := 0x06, rx := [1, 2, 3], origin := some ⟨1, s.regs, 1⟩,
      ackSeq := 1 } hcpu' rfl rfl
  have hrun := hlate.append (hstatus.append (.cons hreply (.cons (e := .ack) rfl hacked)))
  obtain ⟨r, hr, hown, -⟩ := hall 0 _ _ _ (by decide) hrun rfl
  obtain rfl := Option.some.inj hr
  have htwo : 1 = 2 := hown.trans hcall'
  omega

end Bus

end SharkNetplay.Console
