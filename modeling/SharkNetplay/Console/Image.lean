import SharkNetplay.Console.Machine

/-!
# The resync state image

Positions `0..769` of the image and the cells they stand for: the game
scratch, BACKTAB, the object table and the tail of netcode cells.
-/

namespace SharkNetplay.Console

open Cell Machine

@[simp] def imgS1 : Nat := 147
@[simp] def imgS2 : Nat := 627
@[simp] def imgS3 : Nat := 755
@[simp] def imgTotal : Nat := 770
@[simp] def rsChunk : Nat := 96

/-- `RS_TAILTBL`. -/
def rsTailtbl : List Nat :=
  [rngLo, rngHi, ssArm1, ssArm2, ssArm3, ssArm4, ssArm5, ssCnt1, ssCnt2, ssCnt3,
    ssCnt4, ssCnt5, ssInj, gameTblLo, gameTblHi]

/-- The cell image position `p` stands for, whole or half. -/
def imgCell (p : Nat) : Nat :=
  if p < imgS1 then p + 0x15D
  else if p < imgS2 then (p - imgS1) / 2 + 0x200
  else if p < imgS3 then (p - imgS2) / 2 + 0x31D
  else rsTailtbl.getD (p - imgS3) 0

/-- `IMG_GET`: the image byte at position `r1`. -/
def imgGet (r1 : Nat) (m : Machine) : Nat :=
  if r1 < imgS1 then m.rd (r1 + 0x15D)
  else if r1 < imgS2 then
    let r1 := r1 - imgS1
    let r0 := m.rd (r1 / 2 + 0x200)
    (if r1 % 2 = 0 then r0 else r0 / 256) % 256
  else if r1 < imgS3 then
    let r1 := r1 - imgS2
    let r0 := m.rd (r1 / 2 + 0x31D)
    (if r1 % 2 = 0 then r0 else r0 / 256) % 256
  else m.rd (rsTailtbl.getD (r1 - imgS3) 0)

/-- `@@ip_w`: replace one half of a 16-bit word. -/
def putHalf (a hi : Nat) (m : Machine) : Machine :=
  let r0 := m.rd a
  if hi = 0 then m.wr a (r0 / 256 * 256 + m.rd rsTmp)
  else m.wr a (r0 % 256 + m.rd rsTmp * 256)

/-- `IMG_PUT`: write byte `r0` at position `r1`. -/
def imgPut (r0 r1 : Nat) (m : Machine) : Machine :=
  let m := m.wr rsTmp r0
  if r1 < imgS1 then m.wr (r1 + 0x15D) (m.rd rsTmp)
  else if r1 < imgS2 then putHalf ((r1 - imgS1) / 2 + 0x200) ((r1 - imgS1) % 2) m
  else if r1 < imgS3 then putHalf ((r1 - imgS2) / 2 + 0x31D) ((r1 - imgS2) % 2) m
  else m.wr (rsTailtbl.getD (r1 - imgS3) 0) (m.rd rsTmp)

end SharkNetplay.Console
