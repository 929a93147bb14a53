import SharkNetplay.Lib.Store

/-!
# The console's address map

Cell addresses of `ram.asm`, `exec_equ.asm` and `mailbox.asm`, under the
source's names. Cart RAM and the scratchpad hold bytes; system RAM holds
16-bit words.
-/

namespace SharkNetplay.Console

/-- Number of values a cell can hold: `$0100-$01FF` and `$8080-$9FFF` are
byte-wide, everything else is 16 bits. -/
def cellWidth (a : Nat) : Nat :=
  if (0x100 ≤ a ∧ a ≤ 0x1FF) ∨ (0x8080 ≤ a ∧ a ≤ 0x9FFF) then 256 else 65536

theorem cellWidth_pos (a : Nat) : 0 < cellWidth a := by
  unfold cellWidth
  split <;> decide

/-- Cart RAM and the mailbox hold bytes. -/
theorem cellWidth_cart {a : Nat} (h : 0x8080 ≤ a) (h' : a ≤ 0x9FFF) : cellWidth a = 256 :=
  if_pos (Or.inr ⟨h, h'⟩)

namespace Cell

/-! System RAM and EXEC cells. -/

@[simp] def isrLo : Nat := 0x100
@[simp] def isrHi : Nat := 0x101
@[simp] def phase102 : Nat := 0x102
@[simp] def scIsrSave : Nat := 0x15F
@[simp] def ssPcount : Nat := 0x172
@[simp] def backtab : Nat := 0x200
@[simp] def execHtbl : Nat := 0x35D
@[simp] def execRng : Nat := 0x35E

/-! Netcode RAM, `$8080` upwards. -/

@[simp] def resyncHold : Nat := 0x8090
@[simp] def rsRLo : Nat := 0x8091
@[simp] def rsRHi : Nat := 0x8092
@[simp] def rsToLo : Nat := 0x8093
@[simp] def rsToHi : Nat := 0x8094
@[simp] def rsTmp : Nat := 0x8095
@[simp] def rsPosLo : Nat := 0x8096
@[simp] def rsPosHi : Nat := 0x8097
@[simp] def rsTmp2 : Nat := 0x8098
@[simp] def gameTblLo : Nat := 0x80C0
@[simp] def gameTblHi : Nat := 0x80C1
@[simp] def vdTmp : Nat := 0x80C2
@[simp] def vdSide : Nat := 0x80C3
@[simp] def vdCur : Nat := 0x80C4
@[simp] def vdPrev : Nat := 0x80C5
@[simp] def vdKp : Nat := 0x80C6
@[simp] def vdKppre : Nat := 0x80C7
@[simp] def ssArm1 : Nat := 0x8102
@[simp] def ssArm2 : Nat := 0x8103
@[simp] def ssArm3 : Nat := 0x8104
@[simp] def rngLo : Nat := 0x8106
@[simp] def rngHi : Nat := 0x8107
@[simp] def tickLo : Nat := 0x8108
@[simp] def tickHi : Nat := 0x8109
@[simp] def ssArm4 : Nat := 0x810F
@[simp] def mbDev : Nat := 0x8114
@[simp] def mbCmd : Nat := 0x8115
@[simp] def mbNparam : Nat := 0x8116
@[simp] def mbTxlenLo : Nat := 0x8117
@[simp] def mbTxlenHi : Nat := 0x8118
@[simp] def mbOk : Nat := 0x8119
@[simp] def mbErr : Nat := 0x811A
@[simp] def mbPmaxLo : Nat := 0x811B
@[simp] def mbPmaxHi : Nat := 0x811C
@[simp] def navailLo : Nat := 0x811D
@[simp] def navailHi : Nat := 0x811E
@[simp] def nreqLo : Nat := 0x8130
@[simp] def nreqHi : Nat := 0x8131
@[simp] def ngotLo : Nat := 0x8132
@[simp] def ngotHi : Nat := 0x8133
@[simp] def rxWr : Nat := 0x8134
@[simp] def rxRd : Nat := 0x8135
@[simp] def nameBuf : Nat := 0x8150
@[simp] def menuSel : Nat := 0x815A
@[simp] def lobbyCnt : Nat := 0x815C
@[simp] def sesTmrLo : Nat := 0x815D
@[simp] def netSeat : Nat := 0x8160
@[simp] def netDelay : Nat := 0x8161
@[simp] def netActive : Nat := 0x8162
@[simp] def netDropped : Nat := 0x8163
@[simp] def lsTmpb : Nat := 0x8168
@[simp] def lsTmpb2 : Nat := 0x8169
@[simp] def lsFroze : Nat := 0x816A
@[simp] def lsSave102 : Nat := 0x816B
@[simp] def lsWaitcLo : Nat := 0x816C
@[simp] def lsWaitcHi : Nat := 0x816D
@[simp] def ppTmp : Nat := 0x816E
@[simp] def diagSlip : Nat := 0x8180
@[simp] def diagRej : Nat := 0x8181
@[simp] def diagTmo : Nat := 0x8182
@[simp] def diagErr : Nat := 0x8183
@[simp] def peerScr : Nat := 0x8185
@[simp] def peerWhy : Nat := 0x8186
@[simp] def rsPend : Nat := 0x8187
@[simp] def rsPtmo : Nat := 0x8188
@[simp] def rsWaited : Nat := 0x8189
@[simp] def rsGate : Nat := 0x818A
@[simp] def uiColor : Nat := 0x818B
@[simp] def ssArm5 : Nat := 0x8196
@[simp] def ssCnt1 : Nat := 0x8197
@[simp] def ssCnt2 : Nat := 0x8198
@[simp] def ssCnt3 : Nat := 0x8199
@[simp] def ssCnt4 : Nat := 0x819A
@[simp] def ssCnt5 : Nat := 0x819B
@[simp] def netCount : Nat := 0x819D
@[simp] def ssInj : Nat := 0x819F
@[simp] def seatWm : Nat := 0x81A0
@[simp] def vdCtrl : Nat := 0x81A8
@[simp] def roomCnt : Nat := 0x81AA
@[simp] def roomHost : Nat := 0x81AB
@[simp] def leftSeat : Nat := 0x81AC
@[simp] def ssQuiescent : Nat := 0x81AF
@[simp] def leftName : Nat := 0x81B0
@[simp] def nameTbl : Nat := 0x81C0
@[simp] def rxAcc : Nat := 0x8200
@[simp] def frmBuf : Nat := 0x8300
@[simp] def lobbyCache : Nat := 0x8380
@[simp] def seatRing : Nat := 0x8400
@[simp] def seatKp : Nat := 0x8800
@[simp] def ownCrc : Nat := 0x8C00

/-! FujiNet mailbox, `$9C00-$9FFF`. -/

@[simp] def fnSeq : Nat := 0x9C03
@[simp] def fnDevice : Nat := 0x9C05
@[simp] def fnCmd : Nat := 0x9C06
@[simp] def fnNparam : Nat := 0x9C07
@[simp] def fnTxlenLo : Nat := 0x9C08
@[simp] def fnTxlenHi : Nat := 0x9C09
@[simp] def fnParamSize : Nat := 0x9C10
@[simp] def fnParamVal : Nat := 0x9C20
@[simp] def fnTx : Nat := 0x9C40

end Cell

/-! Constants of the source. -/

@[simp] def ftInput : Nat := 0x06
@[simp] def ftCrc : Nat := 0x07
@[simp] def ftState : Nat := 0x08
@[simp] def ftResync : Nat := 0x09
@[simp] def ftLobby : Nat := 0x03
@[simp] def ftStart : Nat := 0x05
@[simp] def ftPeerLeft : Nat := 0x0B
@[simp] def ftPong : Nat := 0x0D
@[simp] def ftRoom : Nat := 0x0E

@[simp] def ssHtblPrompt : Nat := 0x5185

/-- `NET_NULL_TBL+4`, the table handed to the EXEC scan between ticks. In the
hook segment at `$6800` it follows the 10 words of `NEW_TIMER_TBL` and the 45
of `NET_START`. -/
@[simp] def netNullTbl4 : Nat := 0x683B

/-- `EXEC_ISR_DEF`. -/
@[simp] def execIsrDef : Nat := 0x1126

/-- Signed 16-bit `<`, the condition of `BLT` after a compare. -/
def slt (a b : Nat) : Bool :=
  if a < 32768 then (if b < 32768 then decide (a < b) else false)
  else if b < 32768 then true else decide (a < b)

theorem slt_iff {a b : Nat} (ha : a < 32768) (hb : b < 32768) : slt a b = true ↔ a < b := by
  simp [slt, ha, hb]

end SharkNetplay.Console
