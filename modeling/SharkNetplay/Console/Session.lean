import SharkNetplay.Console.Screen
import SharkNetplay.Console.Resync

/-!
# The session: stream parser and frame handlers

`SES_PUMP`, `SES_ONFRAME` and what they call.

## Implementation notes

`SES_PUMP` is its read half (`pumpRecv`) followed by rounds of `ppParse`, one for
each pass through `@@pp_parse`; a round that returns `none` is `@@pp_done`. The
split lets a run be observed between two frames of one pump.
-/

namespace SharkNetplay.Console

open Cell Machine

/-- `SES_FLEN`: least and largest body length of an inbound type; `(0, 0)` marks
an outbound one. -/
def sesFlen (ty : Nat) : Nat × Nat :=
  match ty with
  | 0x03 => (0x02, 0x4A)
  | 0x05 => (0x26, 0x26)
  | 0x06 => (0x06, 0x06)
  | 0x07 => (0x06, 0x06)
  | 0x08 => (0x03, 0x63)
  | 0x09 => (0x03, 0x03)
  | 0x0B => (0x0A, 0x0A)
  | 0x0D => (0x01, 0x01)
  | 0x0E => (0x22, 0x22)
  | _ => (0, 0)

/-! ## Frame handlers -/

/-- The loop of `SES_CPROSTER`: `n` slots of 8 cells, a NUL after each. -/
def cprSlots : Nat → Nat → Nat → Machine → Machine
  | _, _, 0, m => m
  | src, dst, n + 1, m => cprSlots (src + 8) (dst + 9) n ((m.copy src dst 8).wr (dst + 8) 0)

/-- `SES_CPROSTER` (`src = FRMBUF+7`) and `SES_CPROSTER2` (`src = FRMBUF+3`). -/
def sesCproster (src : Nat) (m : Machine) : Machine := cprSlots src nameTbl 4 m

/-- `frame tick - WM`, 16 bits, of the INPUT in `FRMBUF`. -/
def inputDelta (m : Machine) : Nat :=
  let r3 := seatWm + m.rd (frmBuf + 2) * 2
  (m.pair (frmBuf + 3) (frmBuf + 4) + 65536 - m.pair r3 (r3 + 1)) % 65536

/-- The tests of `@@of_input`: whole frame, a remote seat of the match, and a tick
ahead of the seat's watermark. -/
def inputFresh (m : Machine) : Bool :=
  decide (6 ≤ m.rd frmBuf ∧ m.rd (frmBuf + 2) ≠ m.rd netSeat ∧
    m.rd (frmBuf + 2) < m.rd netCount ∧ inputDelta m ≠ 0 ∧ inputDelta m < 32768)

/-- `@@of_input`. -/
def ofInput (m : Machine) : Machine :=
  if inputFresh m then
    let r3 := seatWm + m.rd (frmBuf + 2) * 2
    let r4 := (m.rd (frmBuf + 2) * 256 + m.rd (frmBuf + 3) + seatRing) % 65536
    let m := m.wr r4 (m.rd (frmBuf + 5))
    let m := m.wr ((r4 + (seatKp - seatRing)) % 65536) (m.rd (frmBuf + 6))
    (m.wr r3 (m.rd (frmBuf + 3))).wr (r3 + 1) (m.rd (frmBuf + 4))
  else m

/-- `@@of_lobby`. -/
def ofLobby (m : Machine) : Machine :=
  if m.rd netActive ≠ 0 ∨ m.rd frmBuf < 2 then m
  else
    let r2 := min (m.rd (frmBuf + 2)) 8
    if m.rd frmBuf < 9 * r2 + 2 then m
    else
      let m := m.wr lobbyCnt r2
      let m := if m.rd menuSel < r2 then m else m.wr menuSel 0
      let m := m.copy (frmBuf + 2) lobbyCache (9 * r2 + 1)
      if 2 ≤ m.rd roomCnt then m else sesRender m

/-- `@@of_start`. -/
def ofStart (m : Machine) : Machine :=
  if m.rd frmBuf < 38 then m
  else
    let m := m.wr netSeat (m.rd (frmBuf + 2))
    let m := m.wr netCount (m.rd (frmBuf + 3))
    let m := m.wr rngLo (m.rd (frmBuf + 4))
    let m := m.wr rngHi (m.rd (frmBuf + 5))
    let m := m.wr netDelay (m.rd (frmBuf + 6))
    let m := sesCproster (frmBuf + 7) m
    let m := rsClrCrc (lsRingInit m)
    let m := putWm seatWm 4 ((m.rd netDelay + 65535) % 65536) 0 m
    let m := (m.wr tickLo 0).wr tickHi 0
    m.wr netActive 1

/-- `@@of_hc`: the NUL-terminated strings at `p` and `q` agree. The roster slot at
`p` ends in a NUL after 8 cells, so `fuel = 9` rounds reach a verdict. -/
def sameName : Nat → Nat → Nat → Machine → Bool
  | 0, _, _, _ => false
  | fuel + 1, p, q, m =>
    if m.rd p ≠ m.rd q then false
    else if m.rd p = 0 then true
    else sameName fuel (p + 1) (q + 1) m

/-- `@@of_room`. -/
def ofRoom (m : Machine) : Machine :=
  if m.rd netActive ≠ 0 ∨ m.rd frmBuf < 34 then m
  else
    let m := m.wr roomCnt (m.rd (frmBuf + 2))
    if 2 ≤ m.rd roomCnt then
      let m := sesCproster (frmBuf + 3) m
      let m := m.wr roomHost (if sameName 9 nameTbl nameBuf m then 1 else 0)
      sesRoomscr m
    else
      let m := (m.wr roomCnt 0).wr roomHost 0
      sesRender (uiPrint 0 strTitle (uiCls m))

/-- `LS_IDLE_RMT`. -/
def lsIdleRmt (m : Machine) : Machine :=
  let m := lsRingInit m
  putWm seatWm 4 (m.rd tickLo) (m.rd tickHi + 0x40) m

/-- `@@of_pl`. -/
def ofPl (m : Machine) : Machine :=
  let m := if m.rd frmBuf < 10 then m
    else
      let m := m.wr leftSeat (m.rd (frmBuf + 2))
      (m.copy (frmBuf + 3) leftName 8).wr (leftName + 8) 0
  lsIdleRmt ((m.wr peerWhy 1).wr netDropped 1)

/-- Whether the frame in `FRMBUF` will be taken, for the record. -/
def frameTaken (m : Machine) : Bool :=
  if m.rd (frmBuf + 1) = ftInput then inputFresh m
  else if m.rd (frmBuf + 1) = ftCrc then crcBad m
  else false

/-- Put the frame in `FRMBUF` on the record. -/
def logHandled (m : Machine) : Machine :=
  m.note fun r => { r with
    handled := r.handled ++ [⟨r.stamp, m.range frmBuf (m.rd frmBuf + 1), frameTaken m⟩] }

/-- `SES_ONFRAME`. -/
def sesOnframe (m : Machine) : Machine :=
  let m := logHandled m
  let ty := m.rd (frmBuf + 1)
  if ty = ftInput then ofInput m
  else if ty = ftLobby then ofLobby m
  else if ty = ftStart then ofStart m
  else if ty = ftPeerLeft then ofPl m
  else if ty = ftRoom then ofRoom m
  else if ty = ftCrc then rsOnCrc m
  else if ty = ftState then rsOnState m
  else if ty = ftResync then rsOnReq m
  else m

/-! ## The pump -/

/-- One `SES_PUMP`'s worth of peripheral input: the STATUS answer with the count
it reports, the READ answer with the bytes it delivers. -/
structure Arrival where
  status : Answer
  avail : Nat
  code : Nat
  read : Answer
  bytes : List Nat

/-- `@@pp_cp`. -/
def ppCopy : List Nat → Machine → Machine
  | [], m => m
  | b :: bs, m =>
    let r1 := m.rd rxWr
    ppCopy bs ((m.wr (r1 + rxAcc) b).wr rxWr ((r1 + 1) % 256))

/-- `SES_PUMP` up to `@@pp_parse`: one STATUS, one READ of at most 64 bytes. -/
def pumpRecv (v : Arrival) (m : Machine) : Machine :=
  let m := netStatus v.status v.avail v.code m
  if m.rd mbOk = 0 ∨ (m.rd navailHi = 0 ∧ m.rd navailLo = 0) then m
  else
    let r0 := if m.rd navailHi ≠ 0 then 64 else min (m.rd navailLo) 64
    let m := (m.wr nreqLo r0).wr nreqHi 0
    let m := netRead v.read v.bytes.length m
    ppCopy (v.bytes.take (m.rd ngotLo)) m

/-- `@@pp_x`: move `n` bytes from the accumulator to the cells from `r5` on. -/
def ppExtract : Nat → Nat → Machine → Machine
  | _, 0, m => m
  | r5, n + 1, m =>
    let r1 := m.rd rxRd
    ppExtract (r5 + 1) n ((m.wr r5 (m.rd (r1 + rxAcc))).wr rxRd ((r1 + 1) % 256))

/-- `@@pp_slip`. -/
def ppSlip (m : Machine) : Machine :=
  diagBump diagSlip (m.wr rxRd ((m.rd rxRd + 1) % 256))

/-- One pass through `@@pp_parse`. -/
def ppParse (m : Machine) : Option Machine :=
  let r0 := (m.rd rxWr + 256 - m.rd rxRd) % 256
  if r0 < 2 then none
  else
    let r2 := m.rd (m.rd rxRd + rxAcc)
    let ty := m.rd ((m.rd rxRd + 1) % 256 + rxAcc)
    let bounds := sesFlen ty
    if bounds = (0, 0) ∨ r2 < bounds.1 ∨ bounds.2 < r2 then some (ppSlip m)
    else if r0 < r2 + 1 then none
    else some (sesOnframe (ppExtract frmBuf (r2 + 1) m))

/-- Rounds of `@@pp_parse` until `@@pp_done`, `fuel` at most. -/
def ppRounds : Nat → Machine → Machine
  | 0, m => m
  | fuel + 1, m =>
    match ppParse m with
    | none => m
    | some m => ppRounds fuel m

/-- `SES_PUMP`. Each round consumes a byte of the 256-cell accumulator. -/
def sesPump (v : Arrival) (m : Machine) : Machine := ppRounds 256 (pumpRecv v m)

end SharkNetplay.Console
