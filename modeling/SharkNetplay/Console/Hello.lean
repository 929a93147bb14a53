import Mathlib.Data.List.GetD
import SharkNetplay.Console.Lobby
import SharkNetplay.Relay.Names

/-!
# The console's name

`SES_GETNAME` reads the player's name from the FujiNet's key store or makes one up, and
`SES_MAIN` says HELLO under it. Whatever the store answers, the name is one the relay
takes, and the frame says exactly it.

## Implementation notes

What `FN_RX` holds after the READ transaction is an input of the try. `PP_TMP` allows
two tries, so a third is never made.
-/

namespace SharkNetplay.Console

open Cell Machine

@[simp] def nameLen : Nat := 0x8159

/-- `FUJI_DEVICEID`. -/
def fujiDeviceid : Nat := 0x70

/-! ## `SES_GETNAME` -/

/-- How the peripheral answers one round of `@@gn_try`. -/
structure AppkeyTry where
  opened : Answer
  read : Answer
  closed : Answer
  /-- `FN_RX` after READ. -/
  reply : Nat → Nat

/-- OPEN of the username key. -/
def akOpen (a : Answer) (m : Machine) : Machine :=
  let m := m.putList fnTx [1, 0, 1, 0, 0, 0]
  let m := (m.wr mbDev fujiDeviceid).wr mbCmd 0xDC
  let m := (m.wr mbNparam 0).wr mbTxlenHi 0
  mbTransact a (m.wr mbTxlenLo 6)

/-- READ of the key. -/
def akRead (a : Answer) (m : Machine) : Machine :=
  mbTransact a ((m.wr mbCmd 0xDD).wr mbTxlenLo 0)

/-- `SES_AK_CLOSE`. -/
def sesAkClose (a : Answer) (m : Machine) : Machine :=
  let m := (m.wr mbDev fujiDeviceid).wr mbCmd 0xDB
  mbTransact a (((m.wr mbNparam 0).wr mbTxlenLo 0).wr mbTxlenHi 0)

/-- `@@gn_c`: copy `r1` characters from the `i`-th on; `false` at one that no name has. -/
def gnCopy (reply : Nat → Nat) : Nat → Nat → Machine → Machine × Bool
  | 0, _, m => (m, true)
  | r1 + 1, i, m =>
    let r0 := reply (2 + i) % 256
    if r0 < 48 then (m, false)
    else if r0 ≤ 57 then gnCopy reply r1 (i + 1) (m.wr (nameBuf + i) r0)
    else if r0 < 65 then (m, false)
    else if 90 < r0 then (m, false)
    else gnCopy reply r1 (i + 1) (m.wr (nameBuf + i) r0)

/-- `STR_GUEST`. -/
def strGuest : List Nat := [71, 85, 69, 83, 84]

/-- `@@gn_d1` and `@@gn_d2`: four random bits as a digit. -/
def gnDigit (r0 : Nat) : Nat := (if r0 < 10 then r0 else r0 - 10) + 48

/-- `@@gn_fallback`. -/
def gnFallback (m : Machine) : Machine :=
  let m := m.putList nameBuf strGuest
  let m := m.wr (nameBuf + 5) (gnDigit (m.rd execRng % 16))
  let m := m.wr (nameBuf + 6) (gnDigit (m.rd execRng / 256 % 16))
  (m.wr (nameBuf + 7) 0).wr nameLen 7

/-- `@@gn_try`, as long as it lasts. -/
def gnTries : List AppkeyTry → Machine → Machine
  | [], m => gnFallback m
  | t :: ts, m =>
    let retry (m : Machine) : Machine :=
      let m := sesAkClose t.closed m
      let m := m.wr ppTmp (m.rd ppTmp + 65535)
      if m.rd ppTmp = 0 then gnFallback m else gnTries ts m
    let m := akOpen t.opened m
    if m.rd mbOk = 0 then retry m
    else
      let m := akRead t.read m
      if m.rd mbOk = 0 then retry m
      else
        let r2 := min (t.reply 0 % 256) 8
        if r2 < 2 then gnFallback (sesAkClose t.closed m)
        else
          let p := gnCopy t.reply r2 0 (m.wr nameLen r2)
          if p.2 then sesAkClose t.closed (p.1.wr (nameBuf + r2) 0)
          else gnFallback (sesAkClose t.closed p.1)

/-- `SES_GETNAME`. -/
def sesGetname (t₁ t₂ : AppkeyTry) (m : Machine) : Machine := gnTries [t₁, t₂] (m.wr ppTmp 2)

/-! ## From `@@ses_mb` to the HELLO -/

/-- `STR_HELLO`. -/
def strHello : List Nat := romStr "NAME: "

/-- `NET_OPEN`. -/
def netOpen (a : Answer) (m : Machine) : Machine :=
  let m := ((m.wr mbDev 0x71).wr mbCmd 0x4F).wr mbNparam 2
  let m := (m.wr fnParamSize 1).wr (fnParamSize + 1) 1
  let m := (m.wr fnParamVal 12).wr (fnParamVal + 4) 0
  mbTransact a ((m.wr mbTxlenLo (m.rd nreqLo)).wr mbTxlenHi 0)

/-- The HELLO of `@@ses_conn`. -/
def sesHello (m : Machine) : Machine :=
  sendFrame ((m.rd nameLen + 2) :: Relay.tHello :: 2 :: m.range nameBuf (m.rd nameLen)) m

/-- `SES_MAIN` from `@@ses_mb` to the connection. -/
def sesConnect (t₁ t₂ : AppkeyTry) (srvSpec : List Nat) (opened : Answer) (m : Machine) : Machine :=
  let m := sesGetname t₁ t₂ m
  let m := uiPrintN 46 nameBuf 8 (uiPrint 40 strHello m)
  netOpen opened (((m.putList fnTx srvSpec).wr nreqLo srvSpec.length).wr nreqHi 0)

/-- `SES_MAIN` up to the HELLO of `@@ses_conn`, if it gets there. -/
def sesMain (t₁ t₂ : AppkeyTry) (srvSpec : List Nat) (opened : Answer) (m : Machine) :
    Option Machine :=
  let m := sesConnect t₁ t₂ srvSpec opened m
  if m.rd mbOk = 0 then none else some (sesHello m)

/-! ## The name in `NAME_BUF` -/

/-- `NAME_BUF` holds a name the relay takes, NUL-terminated, and `NAME_LEN` its length. -/
structure Named (name : List Nat) (m : Machine) : Prop extends Relay.ValidName name where
  buf : m.range nameBuf name.length = name
  nul : m.rd (nameBuf + name.length) = 0
  len : m.rd nameLen = name.length

variable {m m' : Machine} {name : List Nat}

theorem nameBuf_width {i : Nat} (hi : i ≤ 9) : cellWidth (nameBuf + i) = 256 := by
  simp only [nameBuf]
  exact cellWidth_cart (by omega) (by omega)

theorem name_bytes (h : Relay.ValidName name) : ∀ b ∈ name, b < 256 ∧ b ≠ 0 := by
  intro b hb
  have hchar := List.all_eq_true.mp h.chars b hb
  simp only [Relay.nameChar, Bool.or_eq_true, Bool.and_eq_true, decide_eq_true_eq] at hchar
  omega

/-- Cells other than those of the name. -/
def Nameless (a _v : Nat) : Prop := ¬ (nameBuf ≤ a ∧ a ≤ nameLen)

theorem nameless_of_mail {a v : Nat} (h : Mail a v) : Nameless a v := by
  simp only [Mail, Nameless, nameBuf, nameLen] at *
  omega

theorem Named.of_cells (h : Named name m)
    (hcell : ∀ i ≤ 9, m'.rd (nameBuf + i) = m.rd (nameBuf + i)) : Named name m' := by
  have hshort := h.short
  refine ⟨h.toValidName, ?_, ?_, (hcell 9 (by decide)).trans h.len⟩
  · rw [← h.buf]
    simp only [Machine.range, List.length_map, List.length_range]
    refine List.map_congr_left fun i hi => hcell i ?_
    have := List.mem_range.mp hi
    omega
  · rw [hcell _ (by omega)]
    exact h.nul

/-- The name stays. -/
theorem Named.of_nameless (h : Named name m) (hw : Writes Nameless m m') : Named name m' := by
  refine h.of_cells fun i hi => hw.frame fun v hv => ?_
  simp only [Nameless, nameBuf, nameLen] at hv
  omega

theorem sesAkClose_writes (a : Answer) (m : Machine) : Writes Mail m (sesAkClose a m) := by
  unfold sesAkClose
  refine .trans ?_ (mbTransact_writes _ _)
  repeat' first
    | exact .refl
    | refine .wr ?_ (by simp [Mail])

theorem akOpen_writes (a : Answer) (m : Machine) : Writes Mail m (akOpen a m) := by
  unfold akOpen
  refine .trans ?_ (mbTransact_writes _ _)
  repeat' first
    | exact .refl
    | refine .wr ?_ (by simp [Mail])

theorem akRead_writes (a : Answer) (m : Machine) : Writes Mail m (akRead a m) := by
  unfold akRead
  refine .trans ?_ (mbTransact_writes _ _)
  repeat' first
    | exact .refl
    | refine .wr ?_ (by simp [Mail])

/-- Copying succeeds on legal characters only, and puts them in order. -/
theorem gnCopy_spec {reply : Nat → Nat} {r1 i : Nat} (hlen : i + r1 ≤ 8)
    (h : (gnCopy reply r1 i m).2 = true) :
    (∀ j < r1, Relay.nameChar (reply (2 + (i + j)) % 256) = true) ∧
      ∀ a, (gnCopy reply r1 i m).1.rd a =
        if nameBuf + i ≤ a ∧ a < nameBuf + i + r1 then reply (2 + (a - nameBuf)) % 256
        else m.rd a := by
  induction r1 generalizing i m with
  | zero =>
      refine ⟨fun j hj => absurd hj (Nat.not_lt_zero j), fun a => ?_⟩
      rw [if_neg (by omega)]
      rfl
  | succ r1 ih =>
      -- a character that is taken
      have hgo : Relay.nameChar (reply (2 + i) % 256) = true →
          (gnCopy reply r1 (i + 1) (m.wr (nameBuf + i) (reply (2 + i) % 256))).2 = true →
          (∀ j < r1 + 1, Relay.nameChar (reply (2 + (i + j)) % 256) = true) ∧
            ∀ a, (gnCopy reply r1 (i + 1) (m.wr (nameBuf + i) (reply (2 + i) % 256))).1.rd a =
              if nameBuf + i ≤ a ∧ a < nameBuf + i + (r1 + 1) then reply (2 + (a - nameBuf)) % 256
              else m.rd a := by
        intro hchar hrest
        obtain ⟨hchars, hcells⟩ := ih (by omega) hrest
        constructor
        · intro j hj
          cases j with
          | zero => exact hchar
          | succ j =>
              have hidx : i + 1 + j = i + (j + 1) := by omega
              rw [← hidx]
              exact hchars j (by omega)
        · intro a
          have hw : cellWidth (nameBuf + i) = 256 := nameBuf_width (by omega)
          rw [hcells a, rd_wr]
          by_cases ha : a = nameBuf + i
          · rw [if_neg (by omega), if_pos ha, if_pos (by omega), ha, hw,
              Nat.add_sub_cancel_left, Nat.mod_mod]
          · rw [if_neg ha]
            congr 1
            exact propext ⟨fun h => by omega, fun h => by omega⟩
      unfold gnCopy at h ⊢
      dsimp only at h ⊢
      split_ifs at h ⊢ with hlow hdigit hmid hhigh
      · exact hgo (by simp only [Relay.nameChar, Bool.or_eq_true, Bool.and_eq_true,
          decide_eq_true_eq]; omega) h
      · exact hgo (by simp only [Relay.nameChar, Bool.or_eq_true, Bool.and_eq_true,
          decide_eq_true_eq]; omega) h

/-- A name that was copied. -/
theorem named_of_copy {reply : Nat → Nat} {r2 : Nat} (hmin : 2 ≤ r2) (hmax : r2 ≤ 8)
    (h : (gnCopy reply r2 0 (m.wr nameLen r2)).2 = true) :
    ∃ name, Named name ((gnCopy reply r2 0 (m.wr nameLen r2)).1.wr (nameBuf + r2) 0) := by
  obtain ⟨hchars, hcells⟩ := gnCopy_spec (by omega) h
  refine ⟨(List.range r2).map fun j => reply (2 + j) % 256, ⟨⟨?_, ?_, ?_⟩, ?_, ?_, ?_⟩⟩
  · simpa using hmin
  · simpa using hmax
  · rw [List.all_eq_true]
    intro b hb
    obtain ⟨j, hj, rfl⟩ := List.mem_map.mp hb
    have hchar := hchars j (List.mem_range.mp hj)
    rwa [Nat.zero_add] at hchar
  · rw [List.length_map, List.length_range]
    refine List.map_congr_left fun j hj => ?_
    have hj' : j < r2 := List.mem_range.mp hj
    rw [rd_wr, if_neg (by omega), hcells, if_pos (by omega), Nat.add_sub_cancel_left]
  · rw [List.length_map, List.length_range, rd_wr, if_pos rfl, Nat.zero_mod]
  · have hw : cellWidth nameLen = 256 := by decide
    rw [List.length_map, List.length_range, rd_wr, if_neg (by simp only [nameLen, nameBuf]; omega),
      hcells, if_neg (by simp only [nameLen, nameBuf]; omega), rd_wr, if_pos rfl, hw]
    omega

theorem gnDigit_digit {r0 : Nat} (h : r0 < 16) : 48 ≤ gnDigit r0 ∧ gnDigit r0 ≤ 57 := by
  unfold gnDigit
  split
  · omega
  · omega

/-- The name made up: GUEST and two digits. -/
def guestName (rng : Nat) : List Nat :=
  strGuest ++ [gnDigit (rng % 16), gnDigit (rng / 256 % 16)]

theorem guestName_valid (rng : Nat) : Relay.ValidName (guestName rng) := by
  have h₁ := gnDigit_digit (Nat.mod_lt rng (by decide : 0 < 16))
  have h₂ := gnDigit_digit (Nat.mod_lt (rng / 256) (by decide : 0 < 16))
  refine ⟨?_, ?_, ?_⟩
  · simp [guestName, strGuest]
  · simp [guestName, strGuest]
  · simp [guestName, strGuest, Relay.nameChar, h₁, h₂]

/-- The fallback spells the name out in `NAME_BUF`. -/
theorem gnFallback_cell (m : Machine) {i : Nat} (hi : i < 8) :
    (gnFallback m).rd (nameBuf + i) = (guestName (m.rd execRng) ++ [0]).getD i 0 := by
  have h₁ := gnDigit_digit (Nat.mod_lt (m.rd execRng) (by decide : 0 < 16))
  have h₂ := gnDigit_digit (Nat.mod_lt (m.rd execRng / 256) (by decide : 0 < 16))
  have hrng : (m.putList nameBuf strGuest).rd execRng = m.rd execRng := by
    rw [rd_putList, if_neg (by simp [strGuest])]
  have hrng' : ∀ v, ((m.putList nameBuf strGuest).wr (nameBuf + 5) v).rd execRng =
      m.rd execRng := fun v => by
    rw [rd_wr, if_neg (by simp), hrng]
  have hwidth : cellWidth (nameBuf + i) = 256 := nameBuf_width (by omega)
  have hletters : ∀ i < 5, strGuest.getD i 0 % 256 = strGuest.getD i 0 := by decide
  unfold gnFallback
  dsimp only
  rw [hrng', hrng, rd_wr, if_neg (by simp only [nameBuf, nameLen]; omega)]
  by_cases hfive : i < 5
  · rw [rd_wr, if_neg (by omega), rd_wr, if_neg (by omega), rd_wr, if_neg (by omega), rd_putList,
      if_pos (by simp only [strGuest, List.length_cons, List.length_nil]; omega), hwidth,
      Nat.add_sub_cancel_left]
    rw [guestName, List.append_assoc, List.getD_append _ _ _ _ hfive]
    exact hletters i hfive
  · obtain rfl | rfl | rfl : i = 5 ∨ i = 6 ∨ i = 7 := by omega
    · rw [rd_wr, if_neg (by omega), rd_wr, if_neg (by omega), rd_wr, if_pos rfl, hwidth]
      exact Nat.mod_eq_of_lt (by omega)
    · rw [rd_wr, if_neg (by omega), rd_wr, if_pos rfl, hwidth]
      exact Nat.mod_eq_of_lt (by omega)
    · rw [rd_wr, if_pos rfl, Nat.zero_mod]
      rfl

theorem named_of_fallback (m : Machine) : Named (guestName (m.rd execRng)) (gnFallback m) := by
  have hlen : (guestName (m.rd execRng)).length = 7 := rfl
  refine ⟨guestName_valid _, ?_, ?_, ?_⟩
  · rw [hlen]
    refine List.ext_getElem (by rw [hlen, Machine.range, List.length_map, List.length_range]) fun i h₁ h₂ => ?_
    have hi : i < 7 := by
      rw [← hlen]
      exact h₂
    simp only [Machine.range, List.getElem_map, List.getElem_range]
    rw [gnFallback_cell m (by omega), List.getD_append _ _ _ _ h₂, List.getD_eq_getElem]
  · rw [hlen]
    exact gnFallback_cell m (by decide)
  · unfold gnFallback
    dsimp only
    rw [rd_wr, if_pos rfl, hlen]
    rfl

/-! ## What `SES_GETNAME` leaves -/

/-- Whatever the key store answers, there is a name. -/
theorem gnTries_named (ts : List AppkeyTry) (m : Machine) : ∃ name, Named name (gnTries ts m) := by
  induction ts generalizing m with
  | nil => exact ⟨_, named_of_fallback m⟩
  | cons t ts ih =>
      have hretry : ∀ m : Machine, ∃ name,
          Named name (if m.rd ppTmp = 0 then gnFallback m else gnTries ts m) := by
        intro m
        split
        · exact ⟨_, named_of_fallback m⟩
        · exact ih m
      unfold gnTries
      extract_lets retry m₁ m₂ r2 p
      split
      · exact hretry _
      split
      · exact hretry _
      split
      · exact ⟨_, named_of_fallback _⟩
      next hlong =>
      split
      next hcopied =>
        obtain ⟨name, hnamed⟩ := named_of_copy (by omega : 2 ≤ r2) (Nat.min_le_right _ _) hcopied
        exact ⟨name, hnamed.of_nameless ((sesAkClose_writes _ _).mono fun _ _ => nameless_of_mail)⟩
      · exact ⟨_, named_of_fallback _⟩

theorem netOpen_writes (a : Answer) (m : Machine) : Writes Mail m (netOpen a m) := by
  unfold netOpen
  refine .trans ?_ (mbTransact_writes _ _)
  repeat' first
    | exact .refl
    | refine .wr ?_ (by simp [Mail])

/-- The name is there when the console is connected. -/
theorem sesConnect_named (t₁ t₂ : AppkeyTry) (srvSpec : List Nat) (opened : Answer) (m : Machine) :
    ∃ name, Named name (sesConnect t₁ t₂ srvSpec opened m) := by
  obtain ⟨name, hnamed⟩ := gnTries_named [t₁, t₂] (m.wr ppTmp 2)
  refine ⟨name, hnamed.of_nameless ?_⟩
  unfold sesConnect
  extract_lets m₁ m₂
  have hprint : Writes Nameless m₁ m₂ :=
    (uiPrintN_writes (by decide) (uiPrint_writes (by decide) .refl)).mono fun a v h => by
      simp only [Screen, Nameless, nameBuf, nameLen, uiColor, ppTmp] at *
      omega
  have hspec : Writes Nameless m₁ (((m₂.putList fnTx srvSpec).wr nreqLo srvSpec.length).wr
      nreqHi 0) := by
    refine .wr (.wr (hprint.putList fun i hi => ?_) (by simp [Nameless])) (by simp [Nameless])
    simp only [Nameless, fnTx, nameBuf, nameLen]
    omega
  exact hspec.trans ((netOpen_writes _ _).mono fun _ _ => nameless_of_mail)

/-- The HELLO under a name: what goes out if the peripheral carries the write out. -/
theorem sesHello_spec (h : Named name m) :
    Named name (sesHello m) ∧ (sesHello m).hist.sent = m.hist.sent ++
      if (nextAnswer m).performed then
        [(m.hist.stamp, Relay.Py.frame Relay.tHello (2 :: name))]
      else [] := by
  have hframe : sesHello m = sendFrame (Relay.Py.frame Relay.tHello (2 :: name)) m := by
    unfold sesHello Relay.Py.frame
    rw [h.len, h.buf, List.length_cons]
  have hshort := h.short
  have hlength : (Relay.Py.frame Relay.tHello (2 :: name)).length = name.length + 3 := by
    simp [Relay.Py.frame]
  have hbytes : (Relay.Py.frame Relay.tHello (2 :: name)).map (· % 256) =
      Relay.Py.frame Relay.tHello (2 :: name) := by
    conv_rhs => rw [← List.map_id (Relay.Py.frame Relay.tHello (2 :: name))]
    refine List.map_congr_left fun b hb => Nat.mod_eq_of_lt ?_
    simp only [Relay.Py.frame, List.mem_cons, List.length_cons] at hb
    obtain rfl | rfl | rfl | hb := hb
    · omega
    · decide
    · decide
    · exact (name_bytes h.toValidName b hb).1
  rw [hframe]
  constructor
  · exact h.of_nameless ((sendFrame_writes (by omega) m).mono fun _ _ => nameless_of_mail)
  · rw [hist_sendFrame (by omega) m, hbytes]
    split
    · rfl
    · exact (List.append_nil _).symm

/-! ## What `SES_MAIN` writes -/

/-- Cells written up to the HELLO. -/
def HelloCell (a v : Nat) : Prop :=
  Mail a v ∨ Screen a v ∨ (nameBuf ≤ a ∧ a ≤ nameLen) ∨ 0x9C00 ≤ a

theorem hello_of_mail (h : Writes Mail m m') : Writes HelloCell m m' := h.mono fun _ _ => Or.inl

theorem gnCopy_writes {reply : Nat → Nat} {r1 i : Nat} (hlen : i + r1 ≤ 8) (m : Machine) :
    Writes HelloCell m (gnCopy reply r1 i m).1 := by
  induction r1 generalizing i m with
  | zero => exact .refl
  | succ r1 ih =>
      have hgo : ∀ v, Writes HelloCell m (gnCopy reply r1 (i + 1) (m.wr (nameBuf + i) v)).1 := by
        intro v
        refine Writes.trans (.wr .refl ?_) (ih (by omega) _)
        refine Or.inr (Or.inr (Or.inl ?_))
        simp only [nameBuf, nameLen]
        omega
      unfold gnCopy
      dsimp only
      split_ifs
      · exact .refl
      · exact hgo _
      · exact .refl
      · exact .refl
      · exact hgo _

theorem gnFallback_writes (m : Machine) : Writes HelloCell m (gnFallback m) := by
  unfold gnFallback
  have hname : ∀ i ≤ 9, ∀ v, HelloCell (nameBuf + i) v := by
    intro i hi v
    refine Or.inr (Or.inr (Or.inl ?_))
    simp only [nameBuf, nameLen]
    omega
  refine (((Writes.wr (.wr (.putList .refl fun i hi => hname i ?_ _) (hname 5 ?_ _))
    (hname 6 ?_ _)).wr (hname 7 ?_ _)).wr (hname 9 ?_ _))
  · simp only [strGuest, List.length_cons, List.length_nil] at hi
    omega
  all_goals decide

theorem gnTries_writes (ts : List AppkeyTry) (m : Machine) :
    Writes HelloCell m (gnTries ts m) := by
  induction ts generalizing m with
  | nil => exact gnFallback_writes m
  | cons t ts ih =>
      have hretry : ∀ {m m' : Machine}, Writes HelloCell m m' → Writes HelloCell m
          (if m'.rd ppTmp = 0 then gnFallback m' else gnTries ts m') := by
        intro m m' h
        split
        · exact h.trans (gnFallback_writes m')
        · exact h.trans (ih m')
      have hclose : ∀ {m m' : Machine}, Writes HelloCell m m' →
          Writes HelloCell m (sesAkClose t.closed m') := fun h =>
        h.trans (hello_of_mail (sesAkClose_writes _ _))
      have htmp : ∀ v, HelloCell ppTmp v := by simp [HelloCell, Screen]
      unfold gnTries
      extract_lets retry m₁ m₂ r2 p
      have h₁ : Writes HelloCell m m₁ := hello_of_mail (akOpen_writes t.opened m)
      have h₂ : Writes HelloCell m m₂ := h₁.trans (hello_of_mail (akRead_writes t.read m₁))
      have hr2 : r2 ≤ 8 := Nat.min_le_right _ _
      have hp : Writes HelloCell m p.1 :=
        (h₂.wr (by simp [HelloCell])).trans (gnCopy_writes (by omega) _)
      split
      · exact hretry ((hclose h₁).wr (htmp _))
      split
      · exact hretry ((hclose h₂).wr (htmp _))
      split
      · exact (hclose h₂).trans (gnFallback_writes _)
      next hlong =>
      split
      · refine hclose (hp.wr (Or.inr (Or.inr (Or.inl ?_))))
        simp only [nameBuf, nameLen]
        omega
      · exact (hclose hp).trans (gnFallback_writes _)

/-- What is written from the name to the connection. -/
theorem netOpen_hello {opened : Answer} (srvSpec : List Nat) (h : Writes HelloCell m m') :
    Writes HelloCell m (netOpen opened (((m'.putList fnTx srvSpec).wr nreqLo srvSpec.length).wr
      nreqHi 0)) := by
  refine Writes.trans (.wr (.wr (h.putList fun i hi => ?_) ?_) ?_)
    (hello_of_mail (netOpen_writes _ _))
  · refine Or.inr (Or.inr (Or.inr ?_))
    simp only [fnTx]
    omega
  all_goals simp [HelloCell, Mail]

theorem sesMain_writes {t₁ t₂ : AppkeyTry} {srvSpec : List Nat} {opened : Answer}
    (h : sesMain t₁ t₂ srvSpec opened m = some m') : Writes HelloCell m m' := by
  have hname : Writes HelloCell m (sesGetname t₁ t₂ m) :=
    Writes.trans (.wr .refl (by simp [HelloCell, Screen])) (gnTries_writes _ _)
  have hprint : Writes HelloCell (sesGetname t₁ t₂ m)
      (uiPrintN 46 nameBuf 8 (uiPrint 40 strHello (sesGetname t₁ t₂ m))) :=
    (uiPrintN_writes (by decide) (uiPrint_writes (by decide) .refl)).mono fun _ _ hs =>
      Or.inr (Or.inl hs)
  have hconnect : Writes HelloCell m (sesConnect t₁ t₂ srvSpec opened m) :=
    netOpen_hello srvSpec (hname.trans hprint)
  obtain ⟨name, hnamed⟩ := sesConnect_named t₁ t₂ srvSpec opened m
  unfold sesMain at h
  dsimp only at h
  split at h
  · cases h
  · rw [Option.some.injEq] at h
    subst h
    have hshort := hnamed.short
    refine hconnect.trans (hello_of_mail (sendFrame_writes ?_ _))
    rw [hnamed.len]
    simp only [List.length_cons, Machine.range, List.length_map, List.length_range]
    omega

end SharkNetplay.Console
