import SharkNetplay.Console.Image
import SharkNetplay.Console.Dispatch

/-!
# Desync detection and recovery

`resync.asm`: the ring of own checksums, the comparison with the peer's, the
host's push of the state image and the guest's application of it.
-/

namespace SharkNetplay.Console

open Cell Machine

/-- `RS_CLR_CRC`. The marker is `$FF`: no 64-tick boundary has that low byte. -/
def rsClrCrc (m : Machine) : Machine := m.fill ownCrc 32 0xFF

/-- Record address for a tick's low byte. -/
def crcSlot (lo : Nat) : Nat := ownCrc + lo / 64 % 8 * 4

/-- `RS_RECORD_CRC`. -/
def rsRecordCrc (m : Machine) : Machine :=
  let r4 := crcSlot (m.rd tickLo)
  let m := m.wr r4 (m.rd tickLo)
  let m := m.wr (r4 + 1) (m.rd tickHi)
  let m := m.wr (r4 + 2) (m.rd lsTmpb)
  m.wr (r4 + 3) (m.rd lsTmpb2)

/-- The tests of `RS_ON_CRC` before `@@rc_bad`: no recovery under way, a record of
our own for the frame's tick, and another checksum in it. -/
def crcBad (m : Machine) : Bool :=
  let r4 := crcSlot (m.rd (frmBuf + 3))
  decide (6 ≤ m.rd frmBuf ∧ m.rd resyncHold = 0 ∧ m.rd rsPend = 0 ∧
    m.rd r4 = m.rd (frmBuf + 3) ∧ m.rd (r4 + 1) = m.rd (frmBuf + 4) ∧
    ¬ (m.rd (r4 + 2) = m.rd (frmBuf + 5) ∧ m.rd (r4 + 3) = m.rd (frmBuf + 6)))

/-- `RS_ON_CRC`. -/
def rsOnCrc (m : Machine) : Machine :=
  if crcBad m then
    let m := (m.wr rsPend 1).wr rsPtmo 0
    if m.rd netSeat = 0 then m
    else sendFrame [3, ftResync, m.rd (frmBuf + 3), m.rd (frmBuf + 4)] m
  else m

/-- `RS_ON_REQ`. -/
def rsOnReq (m : Machine) : Machine :=
  if m.rd netSeat = 0 ∧ m.rd resyncHold = 0 ∧ m.rd rsPend = 0 then
    (m.wr rsPend 1).wr rsPtmo 0
  else m

/-- `RS_ENTER_HOLD`. -/
def rsEnterHold (m : Machine) : Machine :=
  rsClrCrc (((m.wr resyncHold 1).wr rsToLo 0).wr rsToHi 0)

/-- `RS_DISPLAY_RESET`: border extension and colour block from the cart header. -/
def rsDisplayReset (m : Machine) : Machine := (m.wr 0x32 (m.rd 0x500D)).copy 0x500F 0x28 5

/-- `RS_CLAMP_ISR`. -/
def rsClampIsr (m : Machine) : Machine :=
  let m := (m.wr scIsrSave (execIsrDef % 256)).wr isrLo (execIsrDef % 256)
  (m.wr (scIsrSave + 1) (execIsrDef / 256)).wr isrHi (execIsrDef / 256)

/-- `SS_REBASE_HOOK`. -/
def ssRebaseHook (m : Machine) : Machine :=
  let r0 := min (m.rd ssPcount) 2
  m.wr ssPcount (if 0 < r0 then r0 else 1)

/-- The watermark loops of START, `RS_REBASE` and `LS_IDLE_RMT`: all four seats. -/
def putWm : Nat → Nat → Nat → Nat → Machine → Machine
  | _, 0, _, _, m => m
  | a, n + 1, lo, hi, m => putWm (a + 2) n lo hi ((m.wr a lo).wr (a + 1) hi)

/-- `RS_REBASE`. -/
def rsRebase (m : Machine) : Machine :=
  let m := (m.wr rsPend 0).wr rsPtmo 0
  let m := ssRebaseHook (rsClampIsr (rsDisplayReset m))
  let m := (m.wr tickLo (m.rd rsRLo)).wr tickHi (m.rd rsRHi)
  let m := lsRingInit m
  let r1 := (m.pair rsRLo rsRHi + m.rd netDelay + 65535) % 65536
  let m := putWm seatWm 4 (r1 % 256) (r1 / 256) m
  let m := rsClrCrc m
  let m := ((m.wr resyncHold 0).wr rsToLo 0).wr rsToHi 0
  let m := (m.wr lsWaitcLo 0).wr lsWaitcHi 0
  m.note fun r => { r with stamp := ⟨r.stamp.epoch + 1, 0⟩ }

/-- `@@ps_pl`: `n` image bytes from position `r2` to the TX cells at `r3`. -/
def pushBytes : Nat → Nat → Nat → Machine → Machine
  | 0, _, _, m => m
  | n + 1, r2, r3, m =>
    pushBytes n (r2 + 1) (r3 + 1) ((m.wr r3 (imgGet r2 m)).wr rsTmp2 n)

/-- One chunk of `RS_PUSH`, `n` bytes from position `r2`. -/
def pushChunk (n r2 : Nat) (m : Machine) : Machine :=
  let m := (m.wr rsTmp2 n).wr lsTmpb n
  let m := m.putList fnTx [n + 3, ftState, r2, r2 / 256]
  let m := pushBytes n r2 (fnTx + 4) m
  let m := (m.wr rsPosLo (r2 + n)).wr rsPosHi ((r2 + n) / 256)
  netWrite ((m.wr nreqLo (m.rd lsTmpb + 4)).wr nreqHi 0)

/-- `@@ps_chunk`: chunks from the position in `RS_POS` to the end of the image,
in at most `fuel` rounds. -/
def pushChunks : Nat → Machine → Machine
  | 0, m => m
  | fuel + 1, m =>
    let r2 := m.pair rsPosLo rsPosHi
    let r1 := imgTotal - r2
    if r1 = 0 then m else pushChunks fuel (pushChunk (min r1 rsChunk) r2 m)

/-- `RS_PUSH`. -/
def rsPush (m : Machine) : Machine :=
  let m := rsEnterHold m
  let r1 := (m.pair tickLo tickHi + 16) % 65536
  let m := (m.wr rsRLo r1).wr rsRHi (r1 / 256)
  let m := sendFrame [5, ftState, 0, 0xFF, m.rd rsRLo, m.rd rsRHi] m
  let m := (m.wr rsPosLo 0).wr rsPosHi 0
  let m := pushChunks imgTotal m
  let m := sendFrame [3, ftState, 1, 0xFF] m
  (rsRebase m).note fun r => { r with pushes := r.pushes + 1 }

/-- `RS_PEND_MAX`. -/
@[simp] def rsPendMax : Nat := 60

/-- `RS_PENDING`. -/
def rsPending (m : Machine) : Machine :=
  if m.rd rsPend = 0 ∨ m.rd netSeat ≠ 0 ∨ m.rd resyncHold ≠ 0 then m
  else
    let m := m.wr rsPtmo (m.rd rsPtmo + 1)
    let quiet := m.rd ssQuiescent % 2 ≠ 0
    if ¬ quiet ∧ m.rd rsPtmo < rsPendMax then m
    else
      let m := m.wr rsGate (if quiet then 1 else 2)
      rsPush (m.wr rsWaited (m.rd rsPtmo))

/-- `@@rs_dl`: apply the `n` bytes at `r3` from the position in `RS_POS` on. -/
def rsApply : Nat → Nat → Machine → Machine
  | 0, _, m => m
  | n + 1, r3, m =>
    let m := imgPut (m.rd r3) (m.pair rsPosLo rsPosHi) m
    let r0 := m.rd rsPosLo + 1
    let m := m.wr rsPosLo r0
    let m := if r0 = 0x100 then m.wr rsPosHi (m.rd rsPosHi + 1) else m
    rsApply n (r3 + 1) (m.wr rsTmp2 n)

/-- `RS_ON_STATE`, data: bounds first, then the bytes. -/
def rsOnData (m : Machine) : Machine :=
  let r0 := m.rd frmBuf - 3
  if m.rd resyncHold = 0 ∨ r0 = 0 then diagBump diagRej m
  else
    let m := m.wr rsTmp2 r0
    if 4 ≤ m.rd (frmBuf + 3) ∨ imgTotal + 1 ≤ m.pair (frmBuf + 2) (frmBuf + 3) + r0 then
      diagBump diagRej m
    else
      let m := (m.wr rsPosLo (m.rd (frmBuf + 2))).wr rsPosHi (m.rd (frmBuf + 3))
      rsApply r0 (frmBuf + 4) m

/-- `RS_ON_STATE`, control: BEGIN or END. -/
def rsOnCtl (m : Machine) : Machine :=
  if m.rd (frmBuf + 2) = 0 then
    if m.rd frmBuf < 5 then diagBump diagRej m
    else
      let m := rsEnterHold m
      (m.wr rsRLo (m.rd (frmBuf + 4))).wr rsRHi (m.rd (frmBuf + 5))
  else if m.rd (frmBuf + 2) = 1 ∧ m.rd resyncHold ≠ 0 then rsRebase m
  else m

/-- `RS_ON_STATE`. -/
def rsOnState (m : Machine) : Machine :=
  if m.rd frmBuf < 3 then diagBump diagRej m
  else if m.rd (frmBuf + 3) = 0xFF then rsOnCtl m
  else rsOnData m

end SharkNetplay.Console
