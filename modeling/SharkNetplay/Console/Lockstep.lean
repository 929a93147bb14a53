import SharkNetplay.Console.Session

/-!
# The lockstep engine

`LS_PASS` and what only it calls. A pass is cut where it pumps, so that a run of
the console is a sequence of steps: the control point says which pump is under
way, or which part of the pass comes next.
-/

namespace SharkNetplay.Console

open Cell Machine

/-- 16-bit rotate-left-and-add (`SLLC R0,1; ADCR R0; ADD`). -/
def rotAdd (acc v : Nat) : Nat := (acc * 2 % 65536 + acc / 32768 + v) % 65536

/-- A summing loop of `LS_CKSUM`: rotate, add the cell at `R4`, until `R4` reaches
`stop` in the signed compare; `fuel` bounds the rounds. -/
def ckLoop (stop : Nat) : Nat → Nat → Nat → Machine → Nat
  | 0, _, r0, _ => r0
  | fuel + 1, r4, r0, m =>
    let r0 := rotAdd r0 (m.rd r4)
    if slt (r4 + 1) stop then ckLoop stop fuel (r4 + 1) r0 m else r0

/-- `LS_CKSUM`. -/
def lsCksum (m : Machine) : Nat :=
  let r0 := ckLoop 0x1F0 256 0x15D 0 m
  let r0 := rotAdd r0 (m.rd rngLo)
  let r0 := rotAdd r0 (m.rd rngHi)
  let r0 := rotAdd r0 (m.rd ssArm1)
  let r0 := rotAdd r0 (m.rd ssArm2)
  let r0 := rotAdd r0 (m.rd ssArm3)
  let r0 := rotAdd r0 (m.rd ssArm4)
  let r0 := ckLoop (ssCnt5 + 1) 256 ssArm5 r0 m
  rotAdd r0 (m.rd ssInj)

/-- Freeze the ISR phase counter, once. -/
def lsFreeze (m : Machine) : Machine :=
  if m.rd lsFroze ≠ 0 then m
  else
    let m := m.wr lsFroze 1
    (m.wr lsSave102 (m.rd phase102)).wr phase102 0

/-- `DANCE_SETTLE`, with no ISR running during its bounded wait. -/
def danceSettle (m : Machine) : Machine :=
  if m.rd isrHi = 0x5E then (m.wr isrLo (execIsrDef % 256)).wr isrHi (execIsrDef / 256) else m

/-- `LS_PEER_LEFT`. -/
def lsPeerLeft (m : Machine) : Machine :=
  let m := uiCls (rsDisplayReset (danceSettle m))
  let m := if m.rd peerWhy = 0 then uiPrint (20 * 4 + 2) strLost m
    else uiPrint (20 * 4 + 3) strGone m
  let m := uiPrintN (20 * 6 + 6) leftName 8 m
  let m := uiPrint (20 * 10 + 2) strDiag (uiPrint (20 * 9 + 4) strReset m)
  let m := uiHex2 (m.rd diagSlip) (20 * 11 + 2) m
  let m := uiHex2 (m.rd diagRej) (20 * 11 + 7) m
  let m := uiHex2 (m.rd diagTmo) (20 * 11 + 11) m
  uiHex2 (m.rd diagErr) (20 * 11 + 15) m

/-- Mark the match dropped by a timeout. -/
def lsTimeout (m : Machine) : Machine := (m.wr peerWhy 0).wr netDropped 1

/-- `LS_PASS` after the pump of a resync hold: count the round. -/
def lsHeld (m : Machine) : Machine :=
  let r0 := m.rd rsToLo + 1
  let m := m.wr rsToLo r0
  if r0 ≠ 0x100 then m
  else
    let r0 := m.rd rsToHi + 1
    let m := m.wr rsToHi r0
    if slt r0 6 then m else lsIdleRmt ((lsTimeout m).wr resyncHold 0)

/-- `LS_PASS` after its first pump: capture local input for tick `T + d`, store it
in our own pages and send it. -/
def lsCapture (input : Nat × Nat) (m : Machine) : Machine :=
  let m := (m.wr lsTmpb input.1).wr lsTmpb2 input.2
  let r2 := (m.pair tickLo tickHi + m.rd netDelay) % 65536
  let r3 := (r2 % 256 + m.rd netSeat * 256 + seatRing) % 65536
  let m := m.wr r3 (m.rd lsTmpb)
  let m := m.wr ((r3 + (seatKp - seatRing)) % 65536) (m.rd lsTmpb2)
  let m := sendFrame [6, ftInput, m.rd netSeat, r2 % 256, r2 / 256, m.rd lsTmpb, m.rd lsTmpb2] m
  m.note fun r => { r with captured := r.captured ++ [(m.rd lsTmpb, m.rd lsTmpb2)] }

/-- One seat of the gate loop: `WM - T` is not negative. -/
def seatReady (m : Machine) (r2 : Nat) : Bool :=
  let r1 := seatWm + r2 * 2
  decide ((m.pair r1 (r1 + 1) + 65536 - m.pair tickLo tickHi) % 65536 < 32768)

/-- `@@ls_gs`: every seat of the match other than our own is ready. The seat is
tested after the body, so seat 0 is always looked at. -/
def gateOpen (m : Machine) : Bool :=
  (List.range (max (m.rd netCount) 1)).all fun r2 => r2 == m.rd netSeat || seatReady m r2

/-- `@@ls_wf` after its pump: count the round, give up after `LS_TIMEOUT`. -/
def lsWaited (m : Machine) : Machine :=
  let r0 := m.rd lsWaitcLo + 1
  let m := m.wr lsWaitcLo r0
  if r0 ≠ 0x100 then m
  else
    let r0 := m.rd lsWaitcHi + 1
    let m := m.wr lsWaitcHi r0
    if slt r0 3 then m else lsIdleRmt (lsTimeout m)

/-- `@@ls_run` up to `@@ls_nf`: unfreeze. -/
def lsUnfreeze (m : Machine) : Machine :=
  if m.rd lsFroze = 0 then m
  else
    let m := ((m.wr lsFroze 0).wr lsWaitcLo 0).wr lsWaitcHi 0
    m.wr phase102 (m.rd lsSave102)

/-- The game tick proper: table install, dispatch of both seats or the prompt
injector, timer entries, table parked again. -/
def lsTick (cart : Cart) (m : Machine) : Machine :=
  let m := lsTblAdopt m
  let r1 := m.pair gameTblLo gameTblHi
  let m := if r1 = 0 then m else m.wr execHtbl r1
  let m :=
    if m.rd gameTblLo = ssHtblPrompt % 256 ∧ m.rd gameTblHi = ssHtblPrompt / 256 then
      ssInject cart m
    else
      let m := lsVdispatch cart ((m.wr vdSide 0).wr vdCtrl 0)
      lsVdispatch cart ((m.wr vdSide 1).wr vdCtrl 1)
  let m := lsTblAdopt (ssGameTick cart m)
  m.wr execHtbl netNullTbl4

/-- The CRC report of every 64th tick. -/
def lsReport (m : Machine) : Machine :=
  if m.rd tickLo % 64 ≠ 0 then m
  else
    let m := rsDisplayReset m
    let r0 := lsCksum m
    let m := (m.wr lsTmpb r0).wr lsTmpb2 (r0 / 256)
    let m := rsRecordCrc m
    sendFrame [6, ftCrc, m.rd netSeat, m.rd tickLo, m.rd tickHi, m.rd lsTmpb, m.rd lsTmpb2] m

/-- `tick++`. -/
def lsTickInc (m : Machine) : Machine :=
  let r0 := m.rd tickLo + 1
  let m := m.wr tickLo r0
  if r0 = 0x100 then m.wr tickHi (m.rd tickHi + 1) else m

/-- The cells `LS_VDISPATCH` finds for each seat at this tick. -/
def dispatchCells (m : Machine) : VdCells × VdCells :=
  (vdRead (m.wr vdSide 0), vdRead (m.wr vdSide 1))

/-- Put the tick just run on the record. -/
def logRan (cells : VdCells × VdCells) (m : Machine) : Machine :=
  m.note fun r => { r with
    ran := r.ran ++ [⟨r.stamp, m.pair tickLo tickHi, cells.1, cells.2, m.sim, lsCksum m⟩] }

/-- The next tick of the same baseline. -/
def logTick (m : Machine) : Machine :=
  m.note fun r => { r with stamp := ⟨r.stamp.epoch, r.stamp.age + 1⟩ }

/-- `@@ls_run`: one game tick, to the end of the pass. -/
def lsRun (cart : Cart) (m : Machine) : Machine :=
  let m := lsUnfreeze m
  let cells := dispatchCells m
  let m := logRan cells (lsTick cart m)
  rsPending (logTick (lsTickInc (lsReport m)))

/-! ## Control points -/

/-- Where the console is: in `SES_HOLD` after START, at the top of `LS_PASS`, at
its gate, in one of their pumps, or parked on the peer-left screen. -/
inductive Pc
  | sesHold
  | pumpSes
  | top
  | pumpHold
  | pumpGo
  | gate
  | pumpStall
  | parked
  deriving Repr, DecidableEq

/-- What the outside supplies to a step: an arrival for a pump, controller cells
for a capture. -/
structure Move where
  arrival : Arrival
  input : Nat × Nat

/-- The console with its control point. -/
structure Proc where
  m : Machine
  pc : Pc

/-- The top of `LS_PASS`. -/
def stepTop (v : Arrival) (m : Machine) : Proc :=
  if m.rd peerScr ≠ 0 then ⟨m, .top⟩
  else if m.rd netDropped ≠ 0 then ⟨(lsPeerLeft (lsFreeze m)).wr peerScr 1, .parked⟩
  else if m.rd resyncHold ≠ 0 then ⟨pumpRecv v (lsFreeze m), .pumpHold⟩
  else ⟨pumpRecv v m, .pumpGo⟩

/-- The gate of `LS_PASS`. -/
def stepGate (cart : Cart) (v : Arrival) (m : Machine) : Proc :=
  if m.rd netDropped ≠ 0 ∨ gateOpen m then ⟨lsRun cart m, .top⟩
  else ⟨pumpRecv v (lsFreeze m), .pumpStall⟩

/-- `SES_HOLD` after one pump: 150 rounds, then the cart starts. -/
def sesHeld (m : Machine) : Proc :=
  let r0 := (m.rd sesTmrLo + 65535) % 65536
  ⟨m.wr sesTmrLo r0, if r0 = 0 then .top else .sesHold⟩

/-- What follows the pump at each control point. -/
def afterPump (input : Nat × Nat) (m : Machine) : Pc → Proc
  | .pumpSes => sesHeld m
  | .pumpHold => ⟨lsHeld m, .top⟩
  | .pumpGo => ⟨lsCapture input m, .gate⟩
  | .pumpStall => ⟨lsWaited m, .gate⟩
  | pc => ⟨m, pc⟩

/-- One step of the console. -/
def Proc.step (cart : Cart) (v : Move) (p : Proc) : Proc :=
  match p.pc with
  | .sesHold => ⟨pumpRecv v.arrival p.m, .pumpSes⟩
  | .top => stepTop v.arrival p.m
  | .gate => stepGate cart v.arrival p.m
  | .parked => p
  | pc =>
    match ppParse p.m with
    | some m => ⟨m, pc⟩
    | none => afterPump v.input p.m pc

end SharkNetplay.Console
