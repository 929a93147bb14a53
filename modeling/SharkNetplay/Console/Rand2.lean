import SharkNetplay.Console.Machine
import SharkNetplay.Lib.Run

/-!
# The canonical random numbers

`SS_RAND2` of `hook.asm`, an instruction at a time. What the game draws is the stream of
the canonical cells alone, whatever the sound engine leaves in the LFSR cell of the EXEC
between two draws.

## Implementation notes

`X_RAND2` is EXEC code and not in the repository: it is a parameter, one step of the
processor. An interrupt may run before every instruction at which interrupts are enabled.
It returns to that instruction with the registers and the stack as they were. Branches to
game code are not modelled: the game calls with the registers and the stack it has, and
its own writes between two calls are events.
-/

namespace SharkNetplay.Console

open Lib Cell Machine

namespace Rand2

/-- The registers `SS_RAND2` names. `r7` is the program counter. -/
inductive Reg
  | r0 | r1 | r2 | r5 | r7
  deriving Repr, DecidableEq

/-- The processor, its stack with the top first, and the address space. -/
structure Cpu where
  r0 : Nat
  r1 : Nat
  r2 : Nat
  r5 : Nat
  r7 : Nat
  stack : List Nat
  /-- Interrupts are enabled. -/
  ie : Bool
  m : Machine

/-- The instructions of the routine. -/
inductive Instr
  | pshr (s : Reg)
  | pulr (d : Reg)
  | mvi (a : Nat) (d : Reg)
  | mvo (s : Reg) (a : Nat)
  | swap (d : Reg)
  | addr (s d : Reg)
  | movr (s d : Reg)
  | jsr (a : Nat)
  | dis
  | eis
  deriving Repr, DecidableEq

namespace Cpu

def get (c : Cpu) : Reg → Nat
  | .r0 => c.r0
  | .r1 => c.r1
  | .r2 => c.r2
  | .r5 => c.r5
  | .r7 => c.r7

def set (v : Nat) (c : Cpu) : Reg → Cpu
  | .r0 => { c with r0 := v }
  | .r1 => { c with r1 := v }
  | .r2 => { c with r2 := v }
  | .r5 => { c with r5 := v }
  | .r7 => { c with r7 := v }

end Cpu

namespace Instr

/-- Words of program memory. -/
def size : Instr → Nat
  | jsr _ => 3
  | mvi _ _ => 2
  | mvo _ _ => 2
  | _ => 1

/-- The effect, the program counter already past the instruction. A pull from an empty
stack reads 0. -/
def exec (c : Cpu) : Instr → Cpu
  | pshr s => { c with stack := c.get s :: c.stack }
  | pulr d => { c with stack := c.stack.tail }.set (c.stack.headD 0) d
  | mvi a d => c.set (c.m.rd a) d
  | mvo s a => { c with m := c.m.wr a (c.get s) }
  | swap d => c.set (c.get d % 256 * 256 + c.get d / 256 % 256) d
  | addr s d => c.set ((c.get d + c.get s) % 65536) d
  | movr s d => c.set (c.get s) d
  | jsr a => { c with r5 := c.r7, r7 := a }
  | dis => { c with ie := false }
  | eis => { c with ie := true }

end Instr

/-- `X_RAND2` in the EXEC ROM. -/
def xRand2 : Nat := 0x169E

/-- `SS_RAND2`. In the hook segment it follows `SS_INJECT`. -/
def ssRand2 : Nat := 0x6907

/-- `@@swap_in`. -/
def swapIn : Nat := 0x691A

/-- The program text from `SS_RAND2` on. -/
def rand2Code : List Instr :=
  [ .pshr .r5, .dis, .jsr swapIn, .jsr xRand2, .pshr .r1, .mvi execRng .r1, .mvo .r1 rngLo,
    .swap .r1, .mvo .r1 rngHi, .pulr .r1, .eis, .pulr .r7,
    -- @@swap_in
    .pshr .r1, .pshr .r2, .mvi rngHi .r1, .swap .r1, .mvi rngLo .r2, .addr .r2 .r1,
    .mvo .r1 execRng, .pulr .r2, .pulr .r1, .movr .r5 .r7 ]

/-- The instruction that starts at an address, in text that starts at `base`. -/
def fetchFrom (a : Nat) : Nat → List Instr → Option Instr
  | _, [] => none
  | base, i :: is => if a = base then some i else fetchFrom a (base + i.size) is

def fetch (a : Nat) : Option Instr := fetchFrom a ssRand2 rand2Code

/-- Game code: neither `SS_RAND2` nor `X_RAND2`. -/
def Outside (a : Nat) : Prop := fetch a = none ∧ a ≠ xRand2

instance (a : Nat) : Decidable (Outside a) := inferInstanceAs (Decidable (_ ∧ _))

/-- One instruction of the routine. `X_RAND2` is one step, which returns through `R5`. -/
def Cpu.step (x : Cpu → Cpu) (c : Cpu) : Cpu :=
  if c.r7 = xRand2 then { x c with r7 := c.r5 }
  else
    match fetch c.r7 with
    | none => c
    | some i => i.exec { c with r7 := c.r7 + i.size }

/-- One call of `SS_RAND2`: the registers at entry and at the return. -/
structure Draw where
  inp : Cpu
  out : Cpu

/-- The processor, the call it is in, and the calls so far. -/
structure Drawing where
  cpu : Cpu
  call : Option Cpu
  draws : List Draw

/-- A cell of neither byte of the canonical value. -/
def Spare (a : Nat) : Prop := a ≠ rngLo ∧ a ≠ rngHi

/-- What happens in an execution. -/
inductive RandEvent
  /-- The game calls `SS_RAND2`. -/
  | call (r0 r1 r2 ret : Nat) (stack : List Nat)
  /-- An interrupt or the game writes a cell. -/
  | store (a v : Nat)
  /-- The next instruction of the routine. -/
  | instr

/-- One step of an execution. -/
inductive Drawing.Step (x : Cpu → Cpu) : RandEvent → Drawing → Drawing → Prop
  | call {s : Drawing} {r0 r1 r2 ret : Nat} {stack : List Nat} (hcall : s.call = none)
      (hret : Outside ret) :
      Step x (.call r0 r1 r2 ret stack) s
        { s with
          cpu := ⟨r0, r1, r2, ret, ssRand2, stack, s.cpu.ie, s.cpu.m⟩
          call := some ⟨r0, r1, r2, ret, ssRand2, stack, s.cpu.ie, s.cpu.m⟩ }
  | store {s : Drawing} {a v : Nat} (ha : Spare a) (hie : s.cpu.ie = true) :
      Step x (.store a v) s { s with cpu := { s.cpu with m := s.cpu.m.wr a v } }
  | instr {s : Drawing} {inp : Cpu} (hcall : s.call = some inp)
      (hin : ¬ Outside (s.cpu.step x).r7) :
      Step x .instr s { s with cpu := s.cpu.step x }
  | back {s : Drawing} {inp : Cpu} (hcall : s.call = some inp)
      (hout : Outside (s.cpu.step x).r7) :
      Step x .instr s ⟨s.cpu.step x, none, s.draws ++ [⟨inp, s.cpu.step x⟩]⟩

/-- What the repository relies on in `X_RAND2`: a function of the LFSR cell and `R0` gives
the new LFSR value and the result, `R1` and `R2` survive, and so do the caller's stack, the
interrupt mask and the canonical cells, which the EXEC does not know. -/
structure IsXRand2 (next : Nat → Nat → Nat × Nat) (x : Cpu → Cpu) : Prop where
  lfsr (c : Cpu) : (x c).m.rd execRng = (next (c.m.rd execRng) c.r0).1
  r0 (c : Cpu) : (x c).r0 = (next (c.m.rd execRng) c.r0).2
  r1 (c : Cpu) : (x c).r1 = c.r1
  r2 (c : Cpu) : (x c).r2 = c.r2
  stack (c : Cpu) : (x c).stack = c.stack
  ie (c : Cpu) : (x c).ie = c.ie
  lo (c : Cpu) : (x c).m.rd rngLo = c.m.rd rngLo
  hi (c : Cpu) : (x c).m.rd rngHi = c.m.rd rngHi

/-! ## The generator -/

/-- The results of a list of draws, from the value `v`. -/
def drawn (next : Nat → Nat → Nat × Nat) : Nat → List Nat → List Nat
  | _, [] => []
  | v, r :: rs => (next v r).2 :: drawn next (next v r).1 rs

/-- The value after a list of draws. -/
def seedAfter (next : Nat → Nat → Nat × Nat) (v : Nat) (rs : List Nat) : Nat :=
  rs.foldl (fun v r => (next v r).1) v

variable {next : Nat → Nat → Nat × Nat} {x : Cpu → Cpu}

theorem drawn_append (v r : Nat) (rs : List Nat) :
    drawn next v (rs ++ [r]) = drawn next v rs ++ [(next (seedAfter next v rs) r).2] := by
  induction rs generalizing v with
  | nil => rfl
  | cons q rs ih => exact congrArg _ (ih _)

theorem seedAfter_append (v r : Nat) (rs : List Nat) :
    seedAfter next v (rs ++ [r]) = (next (seedAfter next v rs) r).1 := by
  simp [seedAfter]

/-! ## One call -/

/-- The canonical value. -/
def canonical (m : Machine) : Nat := m.pair rngLo rngHi

theorem canonical_store {m : Machine} {a v : Nat} (ha : Spare a) :
    canonical (m.wr a v) = canonical m := by
  have hlo : rngLo ≠ a := fun h => ha.1 h.symm
  have hhi : rngHi ≠ a := fun h => ha.2 h.symm
  simp only [canonical, Machine.pair, rd_wr, if_neg hlo, if_neg hhi]

theorem spare_execRng : Spare execRng := ⟨by decide, by decide⟩

/-- One instruction of the text. -/
theorem Cpu.step_fetch {c : Cpu} {i : Instr} (hi : fetch c.r7 = some i) (hx : c.r7 ≠ xRand2) :
    c.step x = i.exec { c with r7 := c.r7 + i.size } := by
  rw [Cpu.step, if_neg hx, hi]

theorem Cpu.step_xRand2 {c : Cpu} (hx : c.r7 = xRand2) :
    c.step x = { x c with r7 := c.r5 } := if_pos hx

/-- Steps with interrupts off, inside the routine, up to a state with `Q`. -/
inductive Masked (x : Cpu → Cpu) (Q : Cpu → Prop) : Cpu → Prop
  | done {c : Cpu} (h : Q c) : Masked x Q c
  | more {c : Cpu} (hie : c.ie = false) (hin : ¬ Outside (c.step x).r7)
      (h : Masked x Q (c.step x)) : Masked x Q c

theorem Masked.trans {Q R : Cpu → Prop} {c : Cpu} (h : Masked x Q c)
    (hQ : ∀ c, Q c → Masked x R c) : Masked x R c := by
  induction h with
  | done h => exact hQ _ h
  | more hie hin _ ih => exact .more hie hin ih

/-- The instruction at `p`, which goes on at `q`. -/
theorem Masked.instr {Q : Cpu → Prop} {c : Cpu} (p q : Nat) (i : Instr) (hie : c.ie = false)
    (hp : c.r7 = p) (hi : fetch p = some i) (hx : p ≠ xRand2)
    (hq : (i.exec { c with r7 := c.r7 + i.size }).r7 = q) (hin : ¬ Outside q)
    (h : Masked x Q (i.exec { c with r7 := c.r7 + i.size })) : Masked x Q c := by
  subst hp hq
  rw [← Cpu.step_fetch hi hx (x := x)] at hin h
  exact .more hie hin h

/-- The canonical value is in the LFSR cell and the routine is at `X_RAND2`. -/
structure SwappedIn (inp : Cpu) (v : Nat) (c : Cpu) : Prop where
  r0 : c.r0 = inp.r0
  r1 : c.r1 = inp.r1
  r2 : c.r2 = inp.r2
  r5 : c.r5 = ssRand2 + 8
  r7 : c.r7 = xRand2
  stack : c.stack = inp.r5 :: inp.stack
  ie : c.ie = false
  lfsr : c.m.rd execRng = v

theorem swapIn_masked {inp c : Cpu} (hr0 : c.r0 = inp.r0) (hr1 : c.r1 = inp.r1)
    (hr2 : c.r2 = inp.r2) (hr7 : c.r7 = ssRand2 + 2) (hstack : c.stack = inp.r5 :: inp.stack)
    (hie : c.ie = false) : Masked x (SwappedIn inp (canonical c.m)) c := by
  obtain ⟨r0, r1, r2, r5, r7, stack, ie, m⟩ := c
  obtain rfl : r7 = ssRand2 + 2 := hr7
  obtain rfl : ie = false := hie
  have hlo : m.rd rngLo < 256 := m.rd_lt rngLo
  have hhi : m.rd rngHi < 256 := m.rd_lt rngHi
  apply Masked.instr 0x6909 0x691A (.jsr swapIn) rfl rfl rfl (by decide) rfl (by decide)
  apply Masked.instr 0x691A 0x691B (.pshr .r1) rfl rfl rfl (by decide) rfl (by decide)
  apply Masked.instr 0x691B 0x691C (.pshr .r2) rfl rfl rfl (by decide) rfl (by decide)
  apply Masked.instr 0x691C 0x691E (.mvi rngHi .r1) rfl rfl rfl (by decide) rfl (by decide)
  apply Masked.instr 0x691E 0x691F (.swap .r1) rfl rfl rfl (by decide) rfl (by decide)
  apply Masked.instr 0x691F 0x6921 (.mvi rngLo .r2) rfl rfl rfl (by decide) rfl (by decide)
  apply Masked.instr 0x6921 0x6922 (.addr .r2 .r1) rfl rfl rfl (by decide) rfl (by decide)
  apply Masked.instr 0x6922 0x6924 (.mvo .r1 execRng) rfl rfl rfl (by decide) rfl (by decide)
  apply Masked.instr 0x6924 0x6925 (.pulr .r2) rfl rfl rfl (by decide) rfl (by decide)
  apply Masked.instr 0x6925 0x6926 (.pulr .r1) rfl rfl rfl (by decide) rfl (by decide)
  apply Masked.instr 0x6926 0x690C (.movr .r5 .r7) rfl rfl rfl (by decide) rfl (by decide)
  apply Masked.instr 0x690C 0x169E (.jsr xRand2) rfl rfl rfl (by decide) rfl (by decide)
  refine .done ⟨hr0, hr1, hr2, rfl, rfl, hstack, rfl, ?_⟩
  change (m.wr execRng ((m.rd rngHi % 256 * 256 + m.rd rngHi / 256 % 256 + m.rd rngLo) %
    65536)).rd execRng = m.rd rngHi * 256 + m.rd rngLo
  rw [rd_wr, if_pos rfl, show cellWidth execRng = 65536 by decide, Nat.mod_eq_of_lt hhi,
    Nat.div_eq_of_lt hhi]
  omega

/-- The routine is back from `X_RAND2`, at its last instruction. -/
structure SwappedOut (next : Nat → Nat → Nat × Nat) (inp : Cpu) (v : Nat) (c : Cpu) : Prop where
  r0 : c.r0 = (next v inp.r0).2
  r1 : c.r1 = inp.r1
  r2 : c.r2 = inp.r2
  r7 : c.r7 = ssRand2 + 18
  stack : c.stack = inp.r5 :: inp.stack
  value : canonical c.m = (next v inp.r0).1

theorem SwappedIn.masked (hx : IsXRand2 next x) {inp c : Cpu} {v : Nat} (h : SwappedIn inp v c) :
    Masked x (SwappedOut next inp v) c := by
  have hstep : c.step x = { x c with r7 := ssRand2 + 8 } := by
    rw [Cpu.step_xRand2 h.r7, h.r5]
  have hie : (c.step x).ie = false := by
    rw [hstep]
    exact (hx.ie c).trans h.ie
  have hin : ¬ Outside (c.step x).r7 := by
    rw [hstep]
    show ¬ Outside (ssRand2 + 8)
    decide
  have hr0 : (c.step x).r0 = (next v inp.r0).2 := by
    rw [hstep, ← h.lfsr, ← h.r0]
    exact hx.r0 c
  have hr1 : (c.step x).r1 = inp.r1 := by
    rw [hstep]
    exact (hx.r1 c).trans h.r1
  have hr2 : (c.step x).r2 = inp.r2 := by
    rw [hstep]
    exact (hx.r2 c).trans h.r2
  have hstack : (c.step x).stack = inp.r5 :: inp.stack := by
    rw [hstep]
    exact (hx.stack c).trans h.stack
  have hlfsr : (c.step x).m.rd execRng = (next v inp.r0).1 := by
    rw [hstep, ← h.lfsr, ← h.r0]
    exact hx.lfsr c
  have hr7 : (c.step x).r7 = ssRand2 + 8 := by rw [hstep]
  refine .more h.ie hin ?_
  generalize c.step x = k at hie hr0 hr1 hr2 hstack hlfsr hr7
  obtain ⟨r0, r1, r2, r5, r7, stack, ie, m⟩ := k
  obtain rfl : r7 = ssRand2 + 8 := hr7
  obtain rfl : ie = false := hie
  apply Masked.instr 0x690F 0x6910 (.pshr .r1) rfl rfl rfl (by decide) rfl (by decide)
  apply Masked.instr 0x6910 0x6912 (.mvi execRng .r1) rfl rfl rfl (by decide) rfl (by decide)
  apply Masked.instr 0x6912 0x6914 (.mvo .r1 rngLo) rfl rfl rfl (by decide) rfl (by decide)
  apply Masked.instr 0x6914 0x6915 (.swap .r1) rfl rfl rfl (by decide) rfl (by decide)
  apply Masked.instr 0x6915 0x6917 (.mvo .r1 rngHi) rfl rfl rfl (by decide) rfl (by decide)
  apply Masked.instr 0x6917 0x6918 (.pulr .r1) rfl rfl rfl (by decide) rfl (by decide)
  apply Masked.instr 0x6918 0x6919 .eis rfl rfl rfl (by decide) rfl (by decide)
  refine .done ⟨hr0, hr1, hr2, rfl, hstack, ?_⟩
  have hword : m.rd execRng < 65536 := m.rd_lt execRng
  change ((m.wr rngLo (m.rd execRng)).wr rngHi
    (m.rd execRng % 256 * 256 + m.rd execRng / 256 % 256)).rd rngHi * 256 +
    ((m.wr rngLo (m.rd execRng)).wr rngHi
    (m.rd execRng % 256 * 256 + m.rd execRng / 256 % 256)).rd rngLo = _
  rw [rd_wr, if_pos rfl, rd_wr, if_neg (by decide), rd_wr, if_pos rfl, ← hlfsr,
    show cellWidth rngLo = 256 by decide, show cellWidth rngHi = 256 by decide]
  change _ = m.rd execRng
  omega

/-- The call has just been made. -/
structure Entered (inp : Cpu) (v : Nat) (c : Cpu) : Prop where
  r0 : c.r0 = inp.r0
  r1 : c.r1 = inp.r1
  r2 : c.r2 = inp.r2
  r5 : c.r5 = inp.r5
  r7 : c.r7 = ssRand2
  stack : c.stack = inp.stack
  value : canonical c.m = v

/-- The return address is saved, interrupts are still on. -/
structure Pushed (inp : Cpu) (v : Nat) (c : Cpu) : Prop where
  r0 : c.r0 = inp.r0
  r1 : c.r1 = inp.r1
  r2 : c.r2 = inp.r2
  r7 : c.r7 = ssRand2 + 1
  stack : c.stack = inp.r5 :: inp.stack
  value : canonical c.m = v

theorem Entered.step {inp c : Cpu} {v : Nat} (h : Entered inp v c) :
    Pushed inp v (c.step x) := by
  have hstep := Cpu.step_fetch (x := x) (c := c) (i := .pshr .r5) (by rw [h.r7]; rfl)
    (by rw [h.r7]; decide)
  rw [hstep]
  refine ⟨h.r0, h.r1, h.r2, congrArg (· + 1) h.r7, ?_, h.value⟩
  show c.r5 :: c.stack = _
  rw [h.r5, h.stack]

theorem Pushed.step (hx : IsXRand2 next x) {inp c : Cpu} {v : Nat} (h : Pushed inp v c) :
    Masked x (SwappedOut next inp v) (c.step x) ∧ ¬ Outside (c.step x).r7 := by
  have hstep := Cpu.step_fetch (x := x) (c := c) (i := .dis) (by rw [h.r7]; rfl)
    (by rw [h.r7]; decide)
  have hswap := swapIn_masked (x := x) (c := { c with r7 := c.r7 + 1, ie := false })
    h.r0 h.r1 h.r2 (congrArg (· + 1) h.r7) h.stack rfl
  rw [hstep]
  constructor
  · rw [← h.value]
    exact hswap.trans fun _ hin => hin.masked hx
  · show ¬ Outside (c.r7 + 1)
    rw [h.r7]
    decide

/-- Where a call stands, with the canonical value `v` at its entry. -/
inductive Inside (next : Nat → Nat → Nat × Nat) (x : Cpu → Cpu) (inp : Cpu) (v : Nat) (c : Cpu) :
    Prop
  | entered (h : Entered inp v c)
  | pushed (h : Pushed inp v c)
  | masked (h : Masked x (SwappedOut next inp v) c)

/-- What a finished call did. -/
structure Draw.Kept (d : Draw) : Prop where
  r1 : d.out.r1 = d.inp.r1
  r2 : d.out.r2 = d.inp.r2
  r7 : d.out.r7 = d.inp.r5
  stack : d.out.stack = d.inp.stack

/-- The arguments and the results of the finished calls. -/
def Drawing.args (s : Drawing) : List Nat := s.draws.map fun d => d.inp.r0

def Drawing.results (s : Drawing) : List Nat := s.draws.map fun d => d.out.r0

/-- The finished calls drew the stream of `v`. -/
structure Quarantined (next : Nat → Nat → Nat × Nat) (x : Cpu → Cpu) (v : Nat) (s : Drawing) :
    Prop where
  results : s.results = drawn next v s.args
  kept : ∀ d ∈ s.draws, d.Kept
  idle : s.call = none → canonical s.cpu.m = seedAfter next v s.args
  busy : ∀ inp, s.call = some inp →
    Inside next x inp (seedAfter next v s.args) s.cpu ∧ Outside inp.r5

/-- The last instruction returns to the caller. -/
theorem SwappedOut.returns {inp : Cpu} {v : Nat} {c : Cpu} (h : SwappedOut next inp v c) :
    (c.step x).r7 = inp.r5 ∧ (c.step x).stack = inp.stack ∧ (c.step x).r0 = c.r0 ∧
      (c.step x).r1 = c.r1 ∧ (c.step x).r2 = c.r2 ∧ (c.step x).m = c.m := by
  have hstep := Cpu.step_fetch (x := x) (c := c) (i := .pulr .r7) (by rw [h.r7]; rfl)
    (by rw [h.r7]; decide)
  rw [hstep]
  refine ⟨?_, ?_, rfl, rfl, rfl, rfl⟩
  · show c.stack.headD 0 = _
    rw [h.stack]
    rfl
  · show c.stack.tail = _
    rw [h.stack]
    rfl

/-! ## One step of an execution -/

theorem Inside.store {inp : Cpu} {v a w : Nat} {c : Cpu} (h : Inside next x inp v c)
    (ha : Spare a) (hie : c.ie = true) : Inside next x inp v { c with m := c.m.wr a w } := by
  have hkeep := canonical_store (m := c.m) (v := w) ha
  cases h with
  | entered h => exact .entered ⟨h.r0, h.r1, h.r2, h.r5, h.r7, h.stack, hkeep.trans h.value⟩
  | pushed h => exact .pushed ⟨h.r0, h.r1, h.r2, h.r7, h.stack, hkeep.trans h.value⟩
  | masked h =>
      cases h with
      | done h => exact .masked (.done ⟨h.r0, h.r1, h.r2, h.r7, h.stack, hkeep.trans h.value⟩)
      | more hoff _ _ => exact absurd (hie.symm.trans hoff) (by decide)

theorem Inside.instr (hx : IsXRand2 next x) {inp : Cpu} {v : Nat} {c : Cpu}
    (h : Inside next x inp v c) (hin : ¬ Outside (c.step x).r7) (hret : Outside inp.r5) :
    Inside next x inp v (c.step x) := by
  cases h with
  | entered h => exact .pushed h.step
  | pushed h => exact .masked (h.step hx).1
  | masked h =>
      cases h with
      | more _ _ h => exact .masked h
      | done h =>
          refine absurd ?_ hin
          rw [h.returns.1]
          exact hret

theorem Inside.back (hx : IsXRand2 next x) {inp : Cpu} {v : Nat} {c : Cpu}
    (h : Inside next x inp v c) (hout : Outside (c.step x).r7) : SwappedOut next inp v c := by
  cases h with
  | entered h =>
      refine absurd hout ?_
      rw [h.step.r7]
      decide
  | pushed h => exact absurd hout (h.step hx).2
  | masked h =>
      cases h with
      | done h => exact h
      | more _ hin _ => exact absurd hout hin

namespace Quarantined

variable {v : Nat} {s t : Drawing}

theorem call {inp : Cpu} (h : Quarantined next x v s) (hcall : s.call = none)
    (hr7 : inp.r7 = ssRand2) (hm : inp.m = s.cpu.m) (hret : Outside inp.r5) :
    Quarantined next x v { s with cpu := inp, call := some inp } where
  results := h.results
  kept := h.kept
  idle hnone := nomatch hnone
  busy c hc := by
    obtain rfl : inp = c := Option.some.inj hc
    exact ⟨.entered ⟨rfl, rfl, rfl, rfl, hr7, rfl, by rw [hm]; exact h.idle hcall⟩, hret⟩

theorem store {a w : Nat} (h : Quarantined next x v s) (ha : Spare a) (hie : s.cpu.ie = true) :
    Quarantined next x v { s with cpu := { s.cpu with m := s.cpu.m.wr a w } } where
  results := h.results
  kept := h.kept
  idle hnone := (canonical_store ha).trans (h.idle hnone)
  busy inp hc := ⟨(h.busy inp hc).1.store ha hie, (h.busy inp hc).2⟩

theorem instr {inp : Cpu} (hx : IsXRand2 next x) (h : Quarantined next x v s)
    (hcall : s.call = some inp) (hin : ¬ Outside (s.cpu.step x).r7) :
    Quarantined next x v { s with cpu := s.cpu.step x } where
  results := h.results
  kept := h.kept
  idle hnone := nomatch hcall.symm.trans hnone
  busy c hc := ⟨(h.busy c hc).1.instr hx hin (h.busy c hc).2, (h.busy c hc).2⟩

/-- The last instruction of a call puts the draw on record. -/
theorem back {inp : Cpu} (hx : IsXRand2 next x) (h : Quarantined next x v s) (hcall : s.call = some inp)
    (hout : Outside (s.cpu.step x).r7) :
    Quarantined next x v ⟨s.cpu.step x, none, s.draws ++ [⟨inp, s.cpu.step x⟩]⟩ := by
  have hlast := (h.busy inp hcall).1.back hx hout
  obtain ⟨hr7, hstack, hr0, hr1, hr2, hm⟩ := hlast.returns (x := x)
  have hargs : Drawing.args ⟨s.cpu.step x, none, s.draws ++ [⟨inp, s.cpu.step x⟩]⟩ =
      s.args ++ [inp.r0] := by
    simp [Drawing.args]
  have hresults : Drawing.results ⟨s.cpu.step x, none, s.draws ++ [⟨inp, s.cpu.step x⟩]⟩ =
      s.results ++ [(s.cpu.step x).r0] := by
    simp [Drawing.results]
  constructor
  · rw [hargs, hresults, drawn_append, h.results, hr0, hlast.r0]
  · intro d hd
    rcases List.mem_append.mp hd with hd | hd
    · exact h.kept d hd
    · obtain rfl := List.mem_singleton.mp hd
      exact ⟨hr1.trans hlast.r1, hr2.trans hlast.r2, hr7, hstack⟩
  · intro _
    rw [hargs, seedAfter_append, ← hlast.value]
    exact congrArg canonical hm
  · exact fun _ hc => nomatch hc

theorem step {e : RandEvent} (hx : IsXRand2 next x) (hst : Drawing.Step x e s t)
    (h : Quarantined next x v s) : Quarantined next x v t := by
  cases hst with
  | call hcall hret => exact h.call hcall rfl rfl hret
  | store ha hie => exact h.store ha hie
  | instr hcall hin => exact h.instr hx hcall hin
  | back hcall hout => exact h.back hx hcall hout

end Quarantined

/-! ## Executions -/

/-- An execution about to begin. -/
def Drawing.start (c : Cpu) : Drawing := ⟨c, none, []⟩

theorem Quarantined.start (c : Cpu) : Quarantined next x (canonical c.m) (.start c) where
  results := rfl
  kept _ hd := nomatch hd
  idle _ := rfl
  busy _ hc := nomatch hc

/-- A finished execution drew the stream of the canonical value it began with. -/
theorem draws_stream (hx : IsXRand2 next x) {c : Cpu} {es : List RandEvent} {s : Drawing}
    (hrun : Run (Drawing.Step x) (.start c) es s) : Quarantined next x (canonical c.m) s :=
  hrun.invariant (fun _ _ _ hst h => h.step hx hst) (.start c)

/-- A stretch with interrupts off is a stretch of instructions. -/
theorem Masked.run {Q : Cpu → Prop} {c : Cpu} (inp : Cpu) (ds : List Draw) (h : Masked x Q c) :
    ∃ n k, Run (Drawing.Step x) ⟨c, some inp, ds⟩ (.replicate n .instr) ⟨k, some inp, ds⟩ ∧
      Q k := by
  induction h with
  | done h => exact ⟨0, _, .nil _, h⟩
  | more _ hin _ ih =>
      obtain ⟨n, k, hrun, hk⟩ := ih
      exact ⟨n + 1, k, .cons (.instr rfl hin) hrun, hk⟩

/-- A call returns after finitely many instructions. -/
theorem Inside.run (hx : IsXRand2 next x) {inp c : Cpu} {v : Nat} (ds : List Draw)
    (h : Inside next x inp v c) (hret : Outside inp.r5) :
    ∃ n k, Run (Drawing.Step x) ⟨c, some inp, ds⟩ (.replicate n .instr)
      ⟨k, none, ds ++ [⟨inp, k⟩]⟩ := by
  have hmasked : ∀ c, Masked x (SwappedOut next inp v) c →
      ∃ n k, Run (Drawing.Step x) ⟨c, some inp, ds⟩ (.replicate n .instr)
        ⟨k, none, ds ++ [⟨inp, k⟩]⟩ := by
    intro c hc
    obtain ⟨n, k, hrun, hk⟩ := hc.run inp ds
    refine ⟨n + 1, k.step x, ?_⟩
    rw [List.replicate_succ']
    exact hrun.append (.one (.back rfl (by rw [hk.returns.1]; exact hret)))
  have hpushed : ∀ c, Pushed inp v c →
      ∃ n k, Run (Drawing.Step x) ⟨c, some inp, ds⟩ (.replicate n .instr)
        ⟨k, none, ds ++ [⟨inp, k⟩]⟩ := by
    intro c hc
    obtain ⟨hm, hin⟩ := hc.step hx
    obtain ⟨n, k, hrun⟩ := hmasked _ hm
    exact ⟨n + 1, k, .cons (.instr rfl hin) hrun⟩
  cases h with
  | entered h =>
      obtain ⟨n, k, hrun⟩ := hpushed _ h.step
      refine ⟨n + 1, k, .cons (.instr rfl ?_) hrun⟩
      show ¬ Outside (c.step x).r7
      rw [h.step.r7]
      decide
  | pushed h => exact hpushed c h
  | masked h => exact hmasked c h

/-- A call can be made and returns. -/
theorem call_returns (hx : IsXRand2 next x) {s : Drawing} (hcall : s.call = none)
    (r0 r1 r2 ret : Nat) (stack : List Nat) (hret : Outside ret) :
    ∃ n t, Run (Drawing.Step x) s (.call r0 r1 r2 ret stack :: .replicate n .instr) t ∧
      t.call = none ∧ t.args = s.args ++ [r0] := by
  obtain ⟨c, call, ds⟩ := s
  obtain rfl : call = none := hcall
  have hin : Inside next x ⟨r0, r1, r2, ret, ssRand2, stack, c.ie, c.m⟩ (canonical c.m)
      ⟨r0, r1, r2, ret, ssRand2, stack, c.ie, c.m⟩ :=
    .entered ⟨rfl, rfl, rfl, rfl, rfl, rfl, rfl⟩
  obtain ⟨n, k, hrun⟩ := hin.run hx ds hret
  refine ⟨n, _, .cons (.call rfl hret) hrun, rfl, ?_⟩
  simp [Drawing.args]

/-- Two executions from the same canonical value that make the same calls draw the same
numbers and end with the same canonical value, whatever else is written; and every call
preserves `R1` and `R2`. -/
theorem rand2_quarantined (hx : IsXRand2 next x) {c d : Cpu} {es fs : List RandEvent}
    {s t : Drawing} (hlo : c.m.rd rngLo = d.m.rd rngLo) (hhi : c.m.rd rngHi = d.m.rd rngHi)
    (hs : Run (Drawing.Step x) (.start c) es s) (ht : Run (Drawing.Step x) (.start d) fs t)
    (hcalls : s.args = t.args) (hsdone : s.call = none) (htdone : t.call = none) :
    s.results = t.results ∧
      s.cpu.m.rd rngLo = t.cpu.m.rd rngLo ∧ s.cpu.m.rd rngHi = t.cpu.m.rd rngHi ∧
      ∀ e ∈ s.draws ++ t.draws, e.out.r1 = e.inp.r1 ∧ e.out.r2 = e.inp.r2 := by
  have hseed : canonical c.m = canonical d.m := by
    unfold canonical Machine.pair
    rw [hlo, hhi]
  have hqs := draws_stream hx hs
  have hqt := draws_stream hx ht
  have hend : canonical s.cpu.m = canonical t.cpu.m := by
    rw [hqs.idle hsdone, hqt.idle htdone, hseed, hcalls]
  have hslo : s.cpu.m.rd rngLo < 256 := s.cpu.m.rd_lt rngLo
  have htlo : t.cpu.m.rd rngLo < 256 := t.cpu.m.rd_lt rngLo
  unfold canonical Machine.pair at hend
  refine ⟨?_, by omega, by omega, fun e he => ?_⟩
  · rw [hqs.results, hqt.results, hseed, hcalls]
  · rcases List.mem_append.mp he with he | he
    · exact ⟨(hqs.kept e he).r1, (hqs.kept e he).r2⟩
    · exact ⟨(hqt.kept e he).r1, (hqt.kept e he).r2⟩

/-- A 16-bit shift register with one feedback tap; the result is its low bits below `R0`. -/
def lfsrNext (v r0 : Nat) : Nat × Nat :=
  let w := (v * 2 + v / 32768 % 2 + v / 8 % 2) % 65536
  (w, w % (r0 + 1))

/-- An EXEC that steps this register. -/
def lfsrCall (c : Cpu) : Cpu :=
  let w := lfsrNext (c.m.rd execRng) c.r0
  { c with r0 := w.2, m := c.m.wr execRng w.1 }

theorem lfsrCall_isXRand2 : IsXRand2 lfsrNext lfsrCall where
  lfsr c := by
    have hlt : (lfsrNext (c.m.rd execRng) c.r0).1 < 65536 := Nat.mod_lt _ (by decide)
    show (c.m.wr execRng _).rd execRng = _
    rw [rd_wr, if_pos rfl, show cellWidth execRng = 65536 by decide, Nat.mod_eq_of_lt hlt]
  r0 _ := rfl
  r1 _ := rfl
  r2 _ := rfl
  stack _ := rfl
  ie _ := rfl
  lo c := by
    show (c.m.wr execRng _).rd rngLo = _
    rw [rd_wr, if_neg (by decide)]
  hi c := by
    show (c.m.wr execRng _).rd rngHi = _
    rw [rd_wr, if_neg (by decide)]

/-- A processor in game code with a seed of 1. -/
def seeded : Cpu :=
  ⟨0, 0, 0, 0, 0x5000, [], true, ⟨⟨fun a => if a = rngLo then 1 else 0, []⟩, [], {}⟩⟩

theorem rand2_quarantined_noisy : ∃ (n k : Nat) (s t : Drawing),
    Run (Drawing.Step lfsrCall) (.start seeded)
      (.call 5 1 2 0x5B25 [] :: .replicate n .instr) s ∧
    Run (Drawing.Step lfsrCall) (.start seeded)
      (.store execRng 0xBEEF :: .call 5 3 4 0x5E64 [] :: .replicate k .instr) t ∧
    s.results = t.results ∧ s.cpu.m.rd rngLo = t.cpu.m.rd rngLo ∧
      s.cpu.m.rd rngHi = t.cpu.m.rd rngHi ∧
      ∀ e ∈ s.draws ++ t.draws, e.out.r1 = e.inp.r1 ∧ e.out.r2 = e.inp.r2 := by
  have hx := lfsrCall_isXRand2
  obtain ⟨n, s, hs, hsdone, hsargs⟩ := call_returns hx (s := .start seeded) rfl 5 1 2
    0x5B25 [] (by decide)
  obtain ⟨k, t, ht, htdone, htargs⟩ := call_returns hx
    (s := .start { seeded with m := seeded.m.wr execRng 0xBEEF }) rfl 5 3 4
    0x5E64 [] (by decide)
  have ht' := Run.cons (.store (x := lfsrCall) (s := .start seeded) (v := 0xBEEF)
    spare_execRng rfl) ht
  have hargs : s.args = t.args := hsargs.trans htargs.symm
  exact ⟨n, k, s, t, hs, ht', rand2_quarantined hx rfl rfl hs ht' hargs hsdone htdone⟩

end Rand2

end SharkNetplay.Console
