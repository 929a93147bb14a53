import SharkNetplay.Console.Cells

/-!
# The console as a machine

A machine is the console's address space, the outcomes its coming `NET_WRITE`
transactions will have, and a record of what it did. The record is read by no
routine of the console; statements about runs are made on it.

## Implementation notes

Registers and flags are the local values of each routine. The return stack is
not modelled: every routine is a function and its `PSHR`/`PULR` frame is
balanced. Cells the peripheral fills in (`FN_ACKSEQ`, the reply registers,
`FN_RX`) and the EXEC's controller cells are inputs of the routine that reads
them. The build is `main_net.asm`: `NET_HUD`, `NET_FUZZ` and `AUTO_JOIN` are 0.
-/

namespace SharkNetplay.Console

open Lib

/-- How the FujiNet answers one mailbox transaction. -/
structure Answer where
  /-- `FN_ACKSEQ` as the console reads it before the transaction. -/
  ackSeq : Nat
  /-- Poll iterations until the acknowledgement; `none` when it never comes. -/
  polls : Option Nat
  /-- `FN_REPLY_CMD`. -/
  replyCmd : Nat
  /-- `FN_ERR`. -/
  err : Nat
  /-- Whether the peripheral carries the command out. -/
  performed : Bool
  deriving Repr, DecidableEq

/-- A prompt acknowledgement. -/
def Answer.ack : Answer := ⟨0, some 0, 0x06, 0, true⟩

/-- Position in a match: baselines adopted by `RS_REBASE`, then ticks run under
the current one. -/
structure Stamp where
  epoch : Nat
  age : Nat
  deriving Repr, DecidableEq

/-- The four cells `LS_VDISPATCH` reads for one seat. -/
structure VdCells where
  cur : Nat
  prev : Nat
  kp : Nat
  kppre : Nat
  deriving Repr, DecidableEq

/-- A frame the session dispatched. `took` says whether an INPUT was stored, or
whether a CRC set `RS_PEND`. -/
structure Handled where
  stamp : Stamp
  frame : List Nat
  took : Bool
  deriving Repr, DecidableEq

/-- One completed game tick: what it dispatched, and the simulation state and its
checksum after it. -/
structure Ran where
  stamp : Stamp
  tick : Nat
  seat0 : VdCells
  seat1 : VdCells
  sim : Nat → Nat
  cksum : Nat

/-- What the console did so far, oldest first. -/
structure Record where
  stamp : Stamp := ⟨0, 0⟩
  /-- Local input captured by `LS_PASS`: decoded cell, keypad cell. -/
  captured : List (Nat × Nat) := []
  ran : List Ran := []
  /-- Frames handed to the peripheral by `NET_WRITE`, and carried out. -/
  sent : List (Stamp × List Nat) := []
  handled : List Handled := []
  /-- Completed `RS_PUSH` calls. -/
  pushes : Nat := 0

/-- The console. -/
structure Machine where
  store : Store
  /-- Outcomes of the next `NET_WRITE` transactions; acknowledged when exhausted. -/
  answers : List Answer
  hist : Record

namespace Machine

def rd (m : Machine) (a : Nat) : Nat := m.store.rd cellWidth a

def wr (m : Machine) (a v : Nat) : Machine := { m with store := m.store.wr a v }

@[simp] theorem rd_wr (m : Machine) (a v b : Nat) :
    (m.wr a v).rd b = if b = a then v % cellWidth a else m.rd b :=
  Store.rd_wr cellWidth m.store a v b

@[simp] theorem answers_wr (m : Machine) (a v : Nat) : (m.wr a v).answers = m.answers := rfl
@[simp] theorem hist_wr (m : Machine) (a v : Nat) : (m.wr a v).hist = m.hist := rfl
@[simp] theorem store_wr (m : Machine) (a v : Nat) : (m.wr a v).store = m.store.wr a v := rfl

theorem rd_lt (m : Machine) (a : Nat) : m.rd a < cellWidth a :=
  Store.rd_lt cellWidth_pos m.store a

/-- A byte cell holds a byte. -/
theorem rd_byte (m : Machine) {a : Nat} (ha : cellWidth a = 256) : m.rd a < 256 :=
  ha ▸ m.rd_lt a

/-- Write a list to consecutive cells (`MVO@` through an auto-increment register). -/
def putList : Nat → List Nat → Machine → Machine
  | _, [], m => m
  | a, v :: vs, m => putList (a + 1) vs (m.wr a v)

/-- Write one value to `n` consecutive cells. -/
def fill : Nat → Nat → Nat → Machine → Machine
  | _, 0, _, m => m
  | a, n + 1, v, m => fill (a + 1) n v (m.wr a v)

/-- Copy `n` cells (`MVI@` then `MVO@`, both registers auto-incrementing). -/
def copy : Nat → Nat → Nat → Machine → Machine
  | _, _, 0, m => m
  | src, dst, n + 1, m => copy (src + 1) (dst + 1) n (m.wr dst (m.rd src))

/-- The `n` cells from `a` on. -/
def range (m : Machine) (a n : Nat) : List Nat := (List.range n).map fun i => m.rd (a + i)

/-- Update the record only. -/
def note (m : Machine) (f : Record → Record) : Machine := { m with hist := f m.hist }

@[simp] theorem rd_note (m : Machine) (f : Record → Record) (a : Nat) :
    (m.note f).rd a = m.rd a := rfl
@[simp] theorem store_note (m : Machine) (f : Record → Record) :
    (m.note f).store = m.store := rfl
@[simp] theorem hist_note (m : Machine) (f : Record → Record) : (m.note f).hist = f m.hist := rfl
@[simp] theorem answers_note (m : Machine) (f : Record → Record) :
    (m.note f).answers = m.answers := rfl

/-- 16-bit value of a lo/hi cell pair. -/
def pair (m : Machine) (lo hi : Nat) : Nat := m.rd hi * 256 + m.rd lo

end Machine

/-! ## Mailbox driver -/

open Cell

/-- `DIAG_BUMP`: saturating increment. -/
def diagBump (cell : Nat) (m : Machine) : Machine :=
  if m.rd cell = 0xFF then m else m.wr cell (m.rd cell + 1)

/-- `MB_TRANSACT`. -/
def mbTransact (a : Answer) (m : Machine) : Machine :=
  let m := m.wr fnDevice (m.rd mbDev)
  let m := m.wr fnCmd (m.rd mbCmd)
  let m := m.wr fnNparam (m.rd mbNparam)
  let m := m.wr fnTxlenLo (m.rd mbTxlenLo)
  let m := m.wr fnTxlenHi (m.rd mbTxlenHi)
  let r0 := (a.ackSeq % 256 + 1) % 256
  let r2 := if r0 = 0 then 1 else r0          -- seq skips 0
  let m := m.wr fnSeq r2
  match a.polls with
  | none => diagBump diagTmo ((m.wr mbOk 0).wr mbErr 0)
  | some r1 =>
    let m := if slt r1 (m.pair mbPmaxLo mbPmaxHi) then m
      else (m.wr mbPmaxLo r1).wr mbPmaxHi (r1 / 256)
    if a.replyCmd % 256 = 0x06 then m.wr mbOk 1
    else diagBump diagErr ((m.wr mbErr (a.err % 256)).wr mbOk 0)

/-- `NET_STATUS`; `avail` and `code` are the reply bytes in `FN_RX`. -/
def netStatus (a : Answer) (avail code : Nat) (m : Machine) : Machine :=
  let m := (m.wr mbDev 0x71).wr mbCmd 0x53
  let m := m.wr mbNparam 2
  let m := (m.wr fnParamSize 1).wr (fnParamSize + 1) 1
  let m := (m.wr fnParamVal 0).wr (fnParamVal + 4) 0
  let m := (m.wr mbTxlenLo 0).wr mbTxlenHi 0
  let m := mbTransact a m
  if m.rd mbOk = 0 then (m.wr navailLo 0).wr navailHi 0
  else
    let m := (m.wr navailLo (avail % 256)).wr navailHi (avail / 256 % 256)
    if code % 256 = 1 then m else (m.wr mbErr (code % 256)).wr mbOk 0

/-- `NET_READ`; `got` is the reply length `FN_RXLEN`. -/
def netRead (a : Answer) (got : Nat) (m : Machine) : Machine :=
  let m := (m.wr mbDev 0x71).wr mbCmd 0x52
  let m := (m.wr mbNparam 1).wr fnParamSize 2
  let m := m.wr fnParamVal (m.rd nreqLo)
  let m := m.wr (fnParamVal + 1) (m.rd nreqHi)
  let m := (m.wr mbTxlenLo 0).wr mbTxlenHi 0
  let m := mbTransact a m
  if m.rd mbOk = 0 then (m.wr ngotLo 0).wr ngotHi 0
  else (m.wr ngotLo (got % 256)).wr ngotHi (got / 256 % 256)

/-- The next `NET_WRITE` outcome. -/
def nextAnswer (m : Machine) : Answer := m.answers.headD .ack

/-- The transaction arguments of `NET_WRITE`. -/
def netWriteArgs (m : Machine) : Machine :=
  let m := (m.wr mbDev 0x71).wr mbCmd 0x57
  let m := (m.wr mbNparam 1).wr fnParamSize 2
  let m := (m.wr fnParamVal (m.rd nreqLo)).wr mbTxlenLo (m.rd nreqLo)
  (m.wr (fnParamVal + 1) (m.rd nreqHi)).wr mbTxlenHi (m.rd nreqHi)

/-- `NET_WRITE`: the `NREQ` bytes staged at `FN_TX` go out when the peripheral
carries the command out. -/
def netWrite (m : Machine) : Machine :=
  let bytes := m.range fnTx (m.pair nreqLo nreqHi)
  let a := nextAnswer m
  let m := mbTransact a { netWriteArgs m with answers := m.answers.tail }
  if a.performed then m.note fun r => { r with sent := r.sent ++ [(r.stamp, bytes)] } else m

/-- Stage `frame` at `FN_TX`, set `NREQ` to its length and call `NET_WRITE`, the
sequence every sender of the source spells out. -/
def sendFrame (frame : List Nat) (m : Machine) : Machine :=
  netWrite (((m.putList fnTx frame).wr nreqLo frame.length).wr nreqHi 0)

end SharkNetplay.Console
