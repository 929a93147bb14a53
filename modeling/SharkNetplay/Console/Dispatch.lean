import SharkNetplay.Console.Machine

/-!
# Input dispatch and the game tick

`vdispatch.asm` (ring pages, virtual dispatch of one seat's events) and the
parts of `hook.asm` that run the cart's own code once per tick.

## Implementation notes

The cart's code is not in the repository. Its handlers and timer entries are
functions on the simulation cells alone: they see those cells and nothing else,
and write nothing else.
-/

namespace SharkNetplay.Console

open Cell Machine

/-- The cells the cart's simulation lives in: every cell of the resync image,
and the live handler-table pointer. -/
def simCell (a : Nat) : Bool :=
  (0x15D ≤ a && a ≤ 0x1EF) || (0x200 ≤ a && a ≤ 0x2EF) || (0x31D ≤ a && a ≤ 0x35D) ||
    a == rngLo || a == rngHi || a == ssArm1 || a == ssArm2 || a == ssArm3 || a == ssArm4 ||
    a == ssArm5 || a == ssCnt1 || a == ssCnt2 || a == ssCnt3 || a == ssCnt4 || a == ssCnt5 ||
    a == ssInj || a == gameTblLo || a == gameTblHi

/-- The cart, as the netcode sees it. -/
structure Cart where
  /-- Handler tables. -/
  rom : Nat → Nat
  /-- Handler at an address, with `R0` (event value) and `R1` (controller). -/
  handler : Nat → Nat → Nat → (Nat → Nat) → Nat → Nat
  /-- Timer entries `SS_TICK1` to `SS_TICK5`. -/
  ssTick : Nat → (Nat → Nat) → Nat → Nat

namespace Machine

/-- The simulation state: the simulation cells, with every other cell blank. -/
def sim (m : Machine) (a : Nat) : Nat := if simCell a then m.rd a else 0

/-- Run cart code on the simulation cells. -/
def runCart (f : (Nat → Nat) → Nat → Nat) (m : Machine) : Machine :=
  let out := f m.sim
  { m with store :=
      { m.store with cells := fun a => if simCell a then out a else m.store.cells a } }

end Machine

/-- `LS_RING_INIT`: both groups of four pages, `R4` running through. -/
def lsRingInit (m : Machine) : Machine :=
  (m.fill seatRing 1024 0x40).fill seatKp 1024 0

/-- `LS_TBL_ADOPT`. -/
def lsTblAdopt (m : Machine) : Machine :=
  let r0 := m.rd execHtbl
  if r0 = netNullTbl4 then m else (m.wr gameTblLo r0).wr gameTblHi (r0 / 256)

/-- `LS_VCALL` with event value `r0`. -/
def lsVcall (cart : Cart) (r0 : Nat) (m : Machine) : Machine :=
  let r1 := m.rd execHtbl
  if r1 = 0 then m
  else
    let r4 := (r1 + m.rd vdTmp) % 65536
    let r2 := cart.rom r4 % 256 + cart.rom (r4 + 1) % 256 * 256
    if r2 = 0 then m else m.runCart (cart.handler r2 r0 (m.rd vdCtrl))

/-- The cells `LS_VDISPATCH` reads for the seat in `VD_SIDE`: the current slot of
its two pages and the slot before, which wraps at slot 0. -/
def vdRead (m : Machine) : VdCells :=
  let r2 := m.rd vdSide * 256 + seatRing
  let slot := m.rd tickLo
  let prev := if slot = 0 then 255 else slot - 1
  ⟨m.rd (r2 + slot), m.rd (r2 + prev),
    m.rd (r2 + (seatKp - seatRing) + slot), m.rd (r2 + (seatKp - seatRing) + prev)⟩

/-- `LS_VDISPATCH`. -/
def lsVdispatch (cart : Cart) (m : Machine) : Machine :=
  let c := vdRead m
  let m := (((m.wr vdCur c.cur).wr vdPrev c.prev).wr vdKp c.kp).wr vdKppre c.kppre
  -- action-button release
  let m := if c.kppre = 0 ∨ 3 < c.kppre ∨ c.kppre = c.kp then m
    else lsVcall cart 0xFFFF (m.wr vdTmp (c.kppre * 2 + 2))
  -- press, or held re-fire
  let m := if c.kp = 0 ∨ 3 < c.kp then m
    else lsVcall cart (if c.kp = c.kppre then 0 else 1) (m.wr vdTmp (c.kp * 2 + 2))
  -- fresh `$011F` event, or disc settle
  if c.cur = c.prev then m
  else if c.cur / 64 % 2 = 0 then
    lsVcall cart (c.cur % 128) (m.wr vdTmp (if c.cur / 128 % 2 = 0 then 0 else 2))
  else if c.cur / 128 % 2 = 0 then lsVcall cart 0xFFFF (m.wr vdTmp 0)
  else m

/-- `SS_INJECT`. -/
def ssInject (cart : Cart) (m : Machine) : Machine :=
  let m := m.wr vdCtrl 0
  let r0 := m.rd ssInj + 1
  let m := m.wr ssInj r0
  if r0 = 2 then lsVcall cart (m.rd netCount) (m.wr vdTmp 2)
  else if r0 = 6 then lsVcall cart 0x0B (m.wr vdTmp 2)
  else m

/-- One entry of `SS_GAME_TICK`: entry number, arm flag, countdown, interval. -/
def gameEntry (cart : Cart) (entry arm cnt int : Nat) (m : Machine) : Machine :=
  if m.rd arm = 0 then m
  else
    let r0 := (m.rd cnt + 65535) % 65536
    if r0 = 0 then (m.runCart (cart.ssTick entry)).wr cnt int else m.wr cnt r0

/-- `SS_GAME_TICK`: the five entries in table order, then `SS_QUIESCENT`. -/
def ssGameTick (cart : Cart) (m : Machine) : Machine :=
  let m := gameEntry cart 1 ssArm1 ssCnt1 0x10 m
  let m := gameEntry cart 2 ssArm2 ssCnt2 0x2D m
  let m := gameEntry cart 3 ssArm3 ssCnt3 0x0A m
  let m := gameEntry cart 4 ssArm4 ssCnt4 0x02 m
  let m := gameEntry cart 5 ssArm5 ssCnt5 0x50 m
  let quiet := m.rd 0x31D / 2048 % 2 = 0 ∧ m.rd 0x325 / 2048 % 2 = 0 ∧
    m.rd 0x323 = 0 ∧ m.rd 0x32B = 0
  m.wr ssQuiescent (if quiet then 1 else 0)

end SharkNetplay.Console
