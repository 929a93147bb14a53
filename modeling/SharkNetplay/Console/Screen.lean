import SharkNetplay.Console.Machine

/-!
# Screens

BACKTAB output of `ui/text.asm` and the lobby, roster and waiting-room screens
of `session.asm`.
-/

namespace SharkNetplay.Console

open Cell Machine

/-- A ROM string, as the characters before its NUL. -/
def romStr (s : String) : List Nat := s.toList.map Char.toNat

def strTitle : List Nat := romStr "SHARK SHARK NETPLAY"
def strPick : List Nat := romStr "DISC/2/8  ENTER=PLAY"
def strRoom : List Nat := romStr "WAITING ROOM   OF 2"
def strGohint : List Nat := romStr "ENTER = START GAME  "
def strWaithost : List Nat := romStr "WAITING FOR HOST    "
def strYouare : List Nat := romStr "YOU ARE PLAYER"
def strPicks : List Nat := romStr "DIVE IN"
def strGone : List Nat := romStr "PLAYER LEFT"
def strLost : List Nat := romStr "CONNECTION LOST"
def strReset : List Nat := romStr "PRESS RESET"
def strDiag : List Nat := romStr "SLIP REJ TMO ERR"

@[simp] def cBlack : Nat := 0
@[simp] def cYellow : Nat := 6
@[simp] def cWhite : Nat := 7

/-- The BACKTAB word of a character in a colour (bits 3-8 card, bits 0-2 colour). -/
def card (ch colour : Nat) : Nat := ((ch + 65536 - 32) % 64 * 8) ^^^ colour

/-- `UI_CLS`. -/
def uiCls (m : Machine) : Machine := (m.wr uiColor cWhite).fill backtab 240 0

/-- The loop of `UI_PRINT` over a ROM string. -/
def printFrom (colour : Nat) : Nat → List Nat → Machine → Machine
  | _, [], m => m
  | a, ch :: rest, m => printFrom colour (a + 1) rest (m.wr a (card ch colour))

/-- `UI_PRINT` of a ROM string at BACKTAB offset `off`. -/
def uiPrint (off : Nat) (str : List Nat) (m : Machine) : Machine :=
  printFrom (m.rd uiColor % 8) (off + 0x200) str m

/-- The loop of `UI_PRINTN`: at most `n` characters from `p`, up to a NUL. -/
def printCells (colour : Nat) : Nat → Nat → Nat → Machine → Machine
  | _, _, 0, m => m
  | a, p, n + 1, m =>
    if m.rd p = 0 then m
    else printCells colour (a + 1) (p + 1) n (m.wr a (card (m.rd p) colour))

/-- `UI_PRINTN`. Also `UI_PRINT` of a RAM string whose NUL comes within `n + 1` cells. -/
def uiPrintN (off p n : Nat) (m : Machine) : Machine :=
  printCells (m.rd uiColor % 8) (off + 0x200) p n m

/-- One digit of `UI_HEX2`. -/
def hexCard (v : Nat) : Nat := ((if v < 10 then v else v + 7) + 16) * 8 ^^^ cYellow

/-- `UI_HEX2`. -/
def uiHex2 (v off : Nat) (m : Machine) : Machine :=
  (m.wr (off + 0x200) (hexCard (v % 256 / 16))).wr (off + 0x201) (hexCard (v % 16))

/-- ROM address of `SES_ROOMSCR`, somewhere in the `$D000` segment. -/
def sesRoomscrRom : Nat := 0xD600

/-- `SEAT_CLR_TBL`. The table has two entries; for a higher seat the read lands
in the code of `SES_ROOMSCR`, which follows it. -/
def seatClrTbl (seat : Nat) (m : Machine) : Nat :=
  if seat = 0 then cYellow
  else if seat = 1 then cWhite
  else m.rd (sesRoomscrRom + (seat - 2))

/-- One row of `SES_ROSTER`, for seat `r3`. `R1` keeps the 16-bit offset for the
digit; the name and the marker use its copy in the byte cell `PP_TMP`. -/
def rosterRow (r3 : Nat) (m : Machine) : Machine :=
  let m := m.wr uiColor (seatClrTbl r3 m)
  let r1 := 20 * (r3 + 3) + 4
  let m := m.wr ppTmp r1
  let m := m.wr (r1 + 0x200 - 2) ((r3 + 49 - 32) * 8 ^^^ m.rd uiColor)
  let m := uiPrintN (m.rd ppTmp) (nameTbl + 9 * r3) 8 m
  if m.rd netActive ≠ 0 ∧ m.rd netSeat = r3 then
    m.wr (m.rd ppTmp + 0x200 - 4) ((62 - 32) * 8 ||| cYellow)
  else m

/-- The rows `r3 .. r3 + n - 1`. -/
def rosterRows : Nat → Nat → Machine → Machine
  | _, 0, m => m
  | r3, n + 1, m => rosterRows (r3 + 1) n (rosterRow r3 m)

/-- `SES_ROSTER`. The count is loaded once into `R2`; the loop tests it after
each row, so at least one row is drawn. -/
def sesRoster (m : Machine) : Machine :=
  let r2 := if m.rd netActive = 0 then m.rd roomCnt else m.rd netCount
  (rosterRows 0 (max r2 1) m).wr uiColor cWhite

/-- `SES_ROOMSCR`. -/
def sesRoomscr (m : Machine) : Machine :=
  let m := uiCls m
  let m := uiPrint 0 strTitle m
  let m := uiPrint 20 strRoom m
  let m := m.wr (0x200 + 20 + 13) ((m.rd roomCnt + 48 - 32) * 8 ^^^ cWhite)
  let m := sesRoster m
  if m.rd roomHost = 0 then uiPrint (20 * 9) strWaithost m else uiPrint (20 * 9) strGohint m

/-- The matched screen of `@@ses_go`. -/
def sesGo (m : Machine) : Machine :=
  let m := uiPrint 0 strTitle (uiCls m)
  let m := sesRoster m
  let m := uiPrint (20 * 9) strYouare (m.wr uiColor cWhite)
  let m := m.wr (0x200 + 20 * 9 + 15) ((m.rd netSeat + 49 - 32) * 8 ^^^ cWhite)
  uiPrint (20 * 11) strPicks m

/-- One entry row of `SES_RENDER`. -/
def renderRow (r3 : Nat) (m : Machine) : Machine :=
  let m := m.wr ppTmp (20 * (r3 + 4) + 2)
  let r2 := lobbyCache + 1 + 9 * r3
  let status := m.rd (r2 + 8)
  let m := m.wr uiColor (if status / 128 % 2 = 0 then cWhite else cBlack)
  let m := uiPrintN (m.rd ppTmp) r2 8 m
  let m := if status % 8 < 2 then m
    else m.wr (m.rd ppTmp + 0x200 + 9) ((status % 8 + 48 - 32) * 8 ^^^ m.rd uiColor)
  if m.rd menuSel = r3 then m.wr (m.rd ppTmp - 2 + 0x200) ((62 - 32) * 8 ||| cYellow) else m

/-- The rows `r3 .. r3 + n - 1`. -/
def renderRows : Nat → Nat → Machine → Machine
  | _, 0, m => m
  | r3, n + 1, m => renderRows (r3 + 1) n (renderRow r3 m)

/-- `SES_RENDER`. -/
def sesRender (m : Machine) : Machine :=
  let m := m.wr uiColor cWhite
  let m := uiPrint (20 * 3) strPick m
  let m := m.fill (0x200 + 20 * 4) 160 0
  let r2 := m.rd lobbyCnt
  let m := renderRows 0 r2 m
  m.wr uiColor cWhite

end SharkNetplay.Console
