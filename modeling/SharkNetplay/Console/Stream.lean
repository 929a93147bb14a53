import Mathlib.Data.List.GetD
import SharkNetplay.Lib.Framing
import SharkNetplay.Console.Footprint

/-!
# The receive accumulator as a byte list

`RXACC` with its two byte pointers holds a queue of bytes. The parser's copies
append to it, a slip drops one byte, a dispatch drops one frame and leaves it in
`FRMBUF`.
-/

namespace SharkNetplay.Console

open Lib Cell Machine

variable {m m' : Machine}

/-- The bytes waiting in the accumulator, oldest first. -/
def buffered (m : Machine) : List Nat :=
  (List.range ((m.rd rxWr + 256 - m.rd rxRd) % 256)).map
    fun i => m.rd ((m.rd rxRd + i) % 256 + rxAcc)

@[simp] theorem buffered_length (m : Machine) :
    (buffered m).length = (m.rd rxWr + 256 - m.rd rxRd) % 256 := by
  simp [buffered]

theorem buffered_length_lt (m : Machine) : (buffered m).length < 256 := by
  rw [buffered_length]
  exact Nat.mod_lt _ (by decide)

theorem buffered_getElem {i : Nat} (h : i < (buffered m).length) :
    (buffered m)[i] = m.rd ((m.rd rxRd + i) % 256 + rxAcc) := by
  simp [buffered]

/-- Cells the queue lives in. -/
def RxCell (a : Nat) : Prop := (0x8200 ≤ a ∧ a ≤ 0x82FF) ∨ a = rxWr ∨ a = rxRd

/-- The queue depends on its own cells only. -/
theorem buffered_congr (h : ∀ a, RxCell a → m'.rd a = m.rd a) : buffered m' = buffered m := by
  have hwr : m'.rd rxWr = m.rd rxWr := h _ (by simp [RxCell])
  have hrd : m'.rd rxRd = m.rd rxRd := h _ (by simp [RxCell])
  unfold buffered
  rw [hwr, hrd]
  refine List.map_congr_left fun i _ => h _ ?_
  simp only [RxCell, rxAcc]
  omega

theorem buffered_writes {S : Nat → Nat → Prop} (h : Writes S m m')
    (hS : ∀ a v, S a v → ¬ RxCell a) : buffered m' = buffered m :=
  buffered_congr fun _ ha => h.frame fun v hv => hS _ v hv ha

theorem rxWr_lt (m : Machine) : m.rd rxWr < 256 := m.rd_byte (by decide)

theorem rxRd_lt (m : Machine) : m.rd rxRd < 256 := m.rd_byte (by decide)

theorem cellWidth_rxAcc {i : Nat} (hi : i < 256) : cellWidth (i + rxAcc) = 256 := by
  simp only [rxAcc]
  exact cellWidth_cart (by omega) (by omega)

/-- One byte copied in. -/
theorem buffered_push (b : Nat) (m : Machine) (hroom : (buffered m).length + 1 < 256) :
    buffered ((m.wr (m.rd rxWr + rxAcc) b).wr rxWr ((m.rd rxWr + 1) % 256)) =
      buffered m ++ [b % 256] := by
  have hw := rxWr_lt m
  have hr := rxRd_lt m
  rw [buffered_length] at hroom
  have hne : ∀ i < 256, i + rxAcc ≠ rxWr ∧ i + rxAcc ≠ rxRd := by
    intro i _
    simp only [rxAcc, rxWr, rxRd]
    omega
  have hwr' : ((m.wr (m.rd rxWr + rxAcc) b).wr rxWr ((m.rd rxWr + 1) % 256)).rd rxWr =
      (m.rd rxWr + 1) % 256 := by
    rw [rd_wr, if_pos rfl]
    exact Nat.mod_eq_of_lt (show (m.rd rxWr + 1) % 256 < 256 by omega)
  have hrd' : ((m.wr (m.rd rxWr + rxAcc) b).wr rxWr ((m.rd rxWr + 1) % 256)).rd rxRd =
      m.rd rxRd := by
    rw [rd_wr, if_neg (by decide), rd_wr, if_neg (hne _ hw).2.symm]
  refine List.ext_getElem ?_ fun i h₁ h₂ => ?_
  · rw [buffered_length, hwr', hrd', List.length_append, buffered_length]
    simp only [List.length_singleton]
    omega
  · rw [buffered_getElem, hrd']
    have hi := h₂
    rw [List.length_append, buffered_length, List.length_singleton] at hi
    have hlt : (m.rd rxRd + i) % 256 < 256 := Nat.mod_lt _ (by decide)
    rw [rd_wr, if_neg (hne _ hlt).1, rd_wr]
    by_cases hlast : i < (buffered m).length
    · rw [List.getElem_append_left hlast, buffered_getElem, if_neg]
      rw [buffered_length] at hlast
      omega
    · have hcell : (m.rd rxRd + i) % 256 = m.rd rxWr := by
        rw [buffered_length] at hlast
        omega
      rw [List.getElem_append_right (by omega), List.getElem_singleton, hcell, if_pos rfl,
        cellWidth_rxAcc hw]

/-- `@@pp_cp` appends what was read while there is room for it. -/
theorem buffered_ppCopy (bs : List Nat) (m : Machine)
    (hroom : (buffered m).length + bs.length < 256) :
    buffered (ppCopy bs m) = buffered m ++ bs.map (· % 256) := by
  induction bs generalizing m with
  | nil => simp [ppCopy]
  | cons b bs ih =>
      rw [List.length_cons] at hroom
      have hpush := buffered_push b m (by omega)
      unfold ppCopy
      rw [ih _ ?_, hpush]
      · simp
      · rw [hpush, List.length_append, List.length_singleton]
        omega

/-- One byte consumed by advancing the read pointer. -/
theorem buffered_pop {b : Nat} {rest : List Nat} (hb : buffered m = b :: rest)
    (hrd : m'.rd rxRd = (m.rd rxRd + 1) % 256)
    (hsame : ∀ a, RxCell a → a ≠ rxRd → m'.rd a = m.rd a) : buffered m' = rest := by
  have hw := rxWr_lt m
  have hr := rxRd_lt m
  have hwr : m'.rd rxWr = m.rd rxWr := hsame _ (by simp [RxCell]) (by decide)
  have hlen : rest.length + 1 = (m.rd rxWr + 256 - m.rd rxRd) % 256 := by
    rw [← buffered_length, hb, List.length_cons]
  refine List.ext_getElem ?_ fun i h₁ h₂ => ?_
  · rw [buffered_length, hwr, hrd]
    omega
  · have hi : i + 1 < (buffered m).length := by rw [hb, List.length_cons]; omega
    have hget : (buffered m)[i + 1] = rest[i] := by simp [hb]
    have hcell : ((m.rd rxRd + 1) % 256 + i) % 256 = (m.rd rxRd + (i + 1)) % 256 := by omega
    rw [← hget, buffered_getElem, buffered_getElem, hrd, hcell]
    refine hsame _ ?_ ?_
    · simp only [RxCell, rxAcc]
      omega
    · simp only [rxRd, rxAcc]
      omega

/-- The oldest byte, where the parser looks for it. -/
theorem buffered_head {b : Nat} {rest : List Nat} (hb : buffered m = b :: rest) :
    m.rd (m.rd rxRd + rxAcc) = b := by
  have h0 : 0 < (buffered m).length := by simp only [hb, List.length_cons]; omega
  have hget : (buffered m)[0] = b := by simp [hb]
  rw [← hget, buffered_getElem, Nat.add_zero, Nat.mod_eq_of_lt (rxRd_lt m)]

theorem buffered_second {b c : Nat} {rest : List Nat} (hb : buffered m = b :: c :: rest) :
    m.rd ((m.rd rxRd + 1) % 256 + rxAcc) = c := by
  have h1 : 1 < (buffered m).length := by simp only [hb, List.length_cons]; omega
  have hget : (buffered m)[1] = c := by simp [hb]
  rw [← hget, buffered_getElem]

theorem ppSlip_writes (m : Machine) : Writes (fun a _ => a = rxRd ∨ a = diagSlip) m (ppSlip m) :=
  diagBump_writes (by simp) (.wr .refl (by simp))

theorem buffered_ppSlip {b : Nat} {rest : List Nat} (hb : buffered m = b :: rest) :
    buffered (ppSlip m) = rest := by
  have hslip : Writes (fun a _ => a = diagSlip) (m.wr rxRd ((m.rd rxRd + 1) % 256)) (ppSlip m) :=
    diagBump_writes (fun _ => rfl) .refl
  refine buffered_pop hb ?_ fun a ha hne => ?_
  · rw [hslip.frame (by simp), rd_wr, if_pos rfl]
    exact Nat.mod_eq_of_lt (show (m.rd rxRd + 1) % 256 < 256 by omega)
  · rw [hslip.frame, rd_wr, if_neg hne]
    rintro v rfl
    simp [RxCell] at ha

/-! ## Receiving -/

/-- The transaction is acknowledged and succeeds. -/
structure Answer.Ok (a : Answer) : Prop where
  polls : a.polls.isSome
  reply : a.replyCmd % 256 = 0x06

theorem Answer.ack_ok : Answer.ack.Ok := ⟨rfl, rfl⟩

theorem mbOk_of_ok {a : Answer} (h : a.Ok) (m : Machine) : (mbTransact a m).rd mbOk = 1 := by
  obtain ⟨r1, hr1⟩ := Option.isSome_iff_exists.mp h.polls
  exact mbOk_mbTransact hr1 h.reply m

/-- The pump's transactions succeed and the READ hands over `bytes`. -/
structure Arrival.Delivers (v : Arrival) (bytes : List Nat) : Prop where
  status : v.status.Ok
  read : v.read.Ok
  code : v.code % 256 = 1
  avail_lt : v.avail < 65536
  avail : bytes.length ≤ v.avail
  short : bytes.length ≤ 64
  bytes_eq : v.bytes = bytes

/-- A prompt peripheral with exactly `bytes` waiting. -/
def Arrival.of (bytes : List Nat) : Arrival := ⟨.ack, bytes.length, 1, .ack, bytes⟩

theorem Arrival.of_delivers {bytes : List Nat} (h : bytes.length ≤ 64) :
    (Arrival.of bytes).Delivers bytes :=
  ⟨Answer.ack_ok, Answer.ack_ok, rfl, Nat.lt_of_le_of_lt h (by decide), Nat.le_refl _, h, rfl⟩

/-- Cells `SES_PUMP` writes before it parses. -/
def RecvCell (a v : Nat) : Prop := Mail a v ∨ (0x8200 ≤ a ∧ a ≤ 0x82FF) ∨ a = rxWr

theorem ppCopy_writes (bs : List Nat) (h : Writes RecvCell m m') :
    Writes RecvCell m (ppCopy bs m') := by
  induction bs generalizing m' with
  | nil => exact h
  | cons b bs ih =>
      have hw := rxWr_lt m'
      refine ih ((h.wr ?_).wr (Or.inr (Or.inr rfl)))
      simp only [RecvCell, rxAcc]
      omega

theorem pumpRecv_writes (v : Arrival) (m : Machine) : Writes RecvCell m (pumpRecv v m) := by
  have h₁ : Writes RecvCell m (netStatus v.status v.avail v.code m) :=
    (netStatus_writes _ _ _ _).mono fun _ _ => Or.inl
  unfold pumpRecv
  extract_lets m₁ r0 m₂ m₃
  split
  · exact h₁
  · have h₂ : Writes RecvCell m m₂ := by
      refine (h₁.wr ?_).wr ?_ <;> simp [RecvCell, Mail]
    exact ppCopy_writes _ (h₂.trans ((netRead_writes _ _ _).mono fun _ _ => Or.inl))

@[simp] theorem hist_ppCopy (bs : List Nat) (m : Machine) : (ppCopy bs m).hist = m.hist := by
  induction bs generalizing m with
  | nil => rfl
  | cons b bs ih => simp [ppCopy, ih]

@[simp] theorem answers_ppCopy (bs : List Nat) (m : Machine) :
    (ppCopy bs m).answers = m.answers := by
  induction bs generalizing m with
  | nil => rfl
  | cons b bs ih => simp [ppCopy, ih]

@[simp] theorem hist_pumpRecv (v : Arrival) (m : Machine) : (pumpRecv v m).hist = m.hist := by
  unfold pumpRecv
  dsimp only
  split_ifs <;> simp

@[simp] theorem answers_pumpRecv (v : Arrival) (m : Machine) :
    (pumpRecv v m).answers = m.answers := by
  unfold pumpRecv
  dsimp only
  split_ifs <;> simp

/-- The mailbox driver leaves the queue alone. -/
theorem buffered_mail (h : Writes Mail m m') : buffered m' = buffered m := by
  refine buffered_writes h fun a v ha hrx => ?_
  simp only [Mail, RxCell, rxWr, rxRd] at *
  omega

/-- A successful STATUS. -/
theorem netStatus_ok {a : Answer} (h : a.Ok) {avail code : Nat} (hc : code % 256 = 1)
    (hav : avail < 65536) (m : Machine) :
    (netStatus a avail code m).rd mbOk = 1 ∧
      (netStatus a avail code m).pair navailLo navailHi = avail := by
  unfold netStatus
  extract_lets m₁ m₂ m₃ m₄ m₅ m₆ m₇
  have hok : m₆.rd mbOk = 1 := mbOk_of_ok h m₅
  rw [if_neg (by rw [hok]; decide), if_pos hc]
  refine ⟨by rw [rd_wr, if_neg (by decide), rd_wr, if_neg (by decide), hok], ?_⟩
  simp [m₇, Machine.pair, cellWidth]
  omega

/-- A successful READ. -/
theorem netRead_ok {a : Answer} (h : a.Ok) {got : Nat} (hg : got < 256) (m : Machine) :
    (netRead a got m).rd ngotLo = got := by
  unfold netRead
  extract_lets m₁ m₂ m₃ m₄ m₅ m₆
  have hok : m₆.rd mbOk = 1 := mbOk_of_ok h m₅
  rw [if_neg (by rw [hok]; decide)]
  simp [cellWidth, Nat.mod_eq_of_lt hg]

/-- The pump appends what the peripheral delivers, room permitting. -/
theorem buffered_pumpRecv {v : Arrival} {bytes : List Nat} (hv : v.Delivers bytes)
    (hroom : (buffered m).length + 64 < 256) :
    buffered (pumpRecv v m) = buffered m ++ bytes.map (· % 256) := by
  have hshort := hv.short
  have hst := netStatus_ok hv.status hv.code hv.avail_lt m
  have hbuf₁ : buffered (netStatus v.status v.avail v.code m) = buffered m :=
    buffered_mail (netStatus_writes _ _ _ _)
  unfold pumpRecv
  extract_lets m₁ r0 m₂ m₃
  by_cases hnone : m₁.rd navailHi = 0 ∧ m₁.rd navailLo = 0
  · have h0 : v.avail = 0 := by
      rw [← hst.2]
      simp only [Machine.pair]
      rw [show (netStatus v.status v.avail v.code m).rd navailHi = 0 from hnone.1,
        show (netStatus v.status v.avail v.code m).rd navailLo = 0 from hnone.2]
    have hempty : bytes = [] := List.eq_nil_of_length_eq_zero (by have := hv.avail; omega)
    rw [if_pos (Or.inr hnone), hempty]
    simpa using hbuf₁
  · have hok : ¬ (m₁.rd mbOk = 0 ∨ (m₁.rd navailHi = 0 ∧ m₁.rd navailLo = 0)) := by
      rw [show m₁.rd mbOk = 1 from hst.1]
      rintro (h | h)
      · exact absurd h (by decide)
      · exact hnone h
    have hbuf₂ : buffered m₂ = buffered m₁ := by
      refine buffered_mail ((Writes.refl.wr ?_).wr ?_) <;> simp [Mail]
    have hbuf₃ : buffered m₃ = buffered m := by
      rw [buffered_mail (netRead_writes _ _ _), hbuf₂, hbuf₁]
    have hgot : m₃.rd ngotLo = bytes.length := by
      rw [← hv.bytes_eq]
      exact netRead_ok hv.read (by rw [hv.bytes_eq]; omega) m₂
    rw [if_neg hok, hgot, hv.bytes_eq, List.take_length,
      buffered_ppCopy _ _ (by rw [hbuf₃]; omega), hbuf₃]

/-! ## Extraction -/

theorem ppExtract_writes (r5 n : Nat) (m : Machine) :
    Writes (fun a _ => a = rxRd ∨ (r5 ≤ a ∧ a < r5 + n)) m (ppExtract r5 n m) := by
  induction n generalizing r5 m with
  | zero => exact .refl
  | succ n ih =>
      unfold ppExtract
      refine .trans (.wr (.wr .refl (by simp)) (by simp)) ((ih (r5 + 1) _).mono ?_)
      intro a _ h
      omega

@[simp] theorem hist_ppExtract (r5 n : Nat) (m : Machine) :
    (ppExtract r5 n m).hist = m.hist := by
  induction n generalizing r5 m with
  | zero => rfl
  | succ n ih => simp [ppExtract, ih]

@[simp] theorem answers_ppExtract (r5 n : Nat) (m : Machine) :
    (ppExtract r5 n m).answers = m.answers := by
  induction n generalizing r5 m with
  | zero => rfl
  | succ n ih => simp [ppExtract, ih]

/-- Extracting `n` bytes into the frame buffer drops them from the queue and
leaves them there. -/
theorem ppExtract_spec (r5 n : Nat) (m : Machine) (hlo : frmBuf ≤ r5)
    (hhi : r5 + n ≤ frmBuf + 128) (hn : n ≤ (buffered m).length) :
    buffered (ppExtract r5 n m) = (buffered m).drop n ∧
      (ppExtract r5 n m).range r5 n = (buffered m).take n := by
  induction n generalizing r5 m with
  | zero => simp [ppExtract, Machine.range]
  | succ n ih =>
      simp only [frmBuf] at hlo hhi ih
      obtain ⟨b, rest, hb⟩ : ∃ b rest, buffered m = b :: rest := by
        cases h : buffered m with
        | nil => rw [h] at hn; simp at hn
        | cons b rest => exact ⟨b, rest, rfl⟩
      rw [hb, List.length_cons] at hn
      unfold ppExtract
      extract_lets r1
      have hr := rxRd_lt m
      have hne : r5 ≠ rxRd := by simp only [rxRd]; omega
      have hpop : buffered ((m.wr r5 (m.rd (r1 + rxAcc))).wr rxRd ((r1 + 1) % 256)) = rest := by
        refine buffered_pop hb ?_ fun a ha hne' => ?_
        · rw [rd_wr, if_pos rfl]
          exact Nat.mod_eq_of_lt (show (r1 + 1) % 256 < 256 by omega)
        · rw [rd_wr, if_neg hne', rd_wr, if_neg]
          simp only [RxCell, rxWr, rxRd] at ha
          omega
      obtain ⟨hbuf, hrange⟩ := ih (r5 + 1)
        ((m.wr r5 (m.rd (r1 + rxAcc))).wr rxRd ((r1 + 1) % 256)) (by omega) (by omega)
        (by rw [hpop]; omega)
      refine ⟨by rw [hbuf, hpop, hb, List.drop_succ_cons], ?_⟩
      have hfirst : (ppExtract (r5 + 1) n
          ((m.wr r5 (m.rd (r1 + rxAcc))).wr rxRd ((r1 + 1) % 256))).rd r5 = b := by
        rw [(ppExtract_writes _ _ _).frame (by intro _; omega), rd_wr, if_neg hne, rd_wr,
          if_pos rfl, buffered_head hb]
        have hlt : b < 256 := by
          rw [← buffered_head hb]
          exact m.rd_byte (cellWidth_rxAcc hr)
        rw [cellWidth_cart (by omega) (by omega), Nat.mod_eq_of_lt hlt]
      rw [hb, List.take_succ_cons, ← hpop, ← hrange]
      simp only [Machine.range, List.range_succ_eq_map, List.map_cons, List.map_map, Nat.add_zero,
        hfirst, List.cons.injEq, true_and]
      refine List.map_congr_left fun i _ => ?_
      simp only [Function.comp_apply]
      congr 1
      omega

/-! ## One round of the parser -/

/-- The type and length test of `@@pp_parse`. -/
def headOk (ty len : Nat) : Bool :=
  decide (¬ (sesFlen ty = (0, 0) ∨ len < (sesFlen ty).1 ∨ (sesFlen ty).2 < len))

/-- `SES_FLEN` keeps every body between 1 and 99 bytes. -/
theorem headOk_bounds {ty len : Nat} (h : headOk ty len = true) : 1 ≤ len ∧ len ≤ 99 := by
  have hrow : sesFlen ty = (0, 0) ∨ 1 ≤ (sesFlen ty).1 ∧ (sesFlen ty).2 ≤ 99 := by
    unfold sesFlen
    split <;> simp
  simp only [headOk, decide_eq_true_eq, not_or, Nat.not_lt] at h
  rcases hrow with hrow | hrow
  · exact absurd hrow h.1
  · omega

theorem headOk_zero (ty : Nat) : headOk ty 0 = false := by
  cases h : headOk ty 0 with
  | false => rfl
  | true =>
      have := headOk_bounds h
      omega

/-- The machine with the frame at the head of the accumulator in `FRMBUF`. -/
def ppLoad (m : Machine) : Machine := ppExtract frmBuf (m.rd (m.rd rxRd + rxAcc) + 1) m

/-- What loading a frame leaves behind. -/
structure Loaded (f rest : List Nat) (m m' : Machine) : Prop where
  queue : buffered m' = rest
  bytes : m'.range frmBuf f.length = f
  len : m'.rd frmBuf + 1 = f.length
  frame : ∀ b, b ≠ rxRd → ¬ (0x8300 ≤ b ∧ b ≤ 0x837F) → m'.rd b = m.rd b
  hist : m'.hist = m.hist
  answers : m'.answers = m.answers

/-- A byte of the loaded frame. -/
theorem Loaded.rd {f rest : List Nat} (h : Loaded f rest m m') {i : Nat} (hi : i < f.length) :
    m'.rd (frmBuf + i) = f[i] := by
  have hget : f[i]? = (m'.range frmBuf f.length)[i]? := by rw [h.bytes]
  rw [List.getElem?_eq_getElem hi] at hget
  simp only [Machine.range, List.getElem?_map, List.getElem?_range hi, Option.map_some,
    Option.some.injEq] at hget
  exact hget.symm

theorem range_head {m : Machine} {a n : Nat} (h : 0 < n) : (m.range a n).head? = some (m.rd a) := by
  obtain ⟨k, rfl⟩ := Nat.exists_eq_succ_of_ne_zero (Nat.ne_of_gt h)
  simp [Machine.range, List.range_succ_eq_map]

open Framing in
/-- `ppLoad` takes the frame the reader cuts. -/
theorem ppLoad_loaded {f rest : List Nat} (h : cut headOk (buffered m) = .frame f rest) :
    Loaded f rest m (ppLoad m) := by
  obtain ⟨hbuf, hwf⟩ := cut_eq_frame headOk_zero h
  obtain ⟨len, ty, tail, rfl, hlen, hok⟩ := hwf.cases_eq
  have hbound := headOk_bounds hok
  have hhead : m.rd (m.rd rxRd + rxAcc) = len := buffered_head hbuf
  have hflen : (len :: ty :: tail).length = len + 1 := by
    simp only [List.length_cons]
    omega
  have hspec := ppExtract_spec frmBuf (len + 1) m (Nat.le_refl _) (by omega) (by
    rw [hbuf, List.length_append, hflen]
    omega)
  have hw := ppExtract_writes frmBuf (len + 1) m
  unfold ppLoad
  rw [hhead]
  have hbytes : (ppExtract frmBuf (len + 1) m).range frmBuf (len + 1) = len :: ty :: tail := by
    rw [hspec.2, hbuf, ← hflen, List.take_left]
  refine ⟨?_, by rw [hflen, hbytes], ?_, fun b hb hb' => hw.frame fun _ => ?_, by simp, by simp⟩
  · rw [hspec.1, hbuf, ← hflen, List.drop_left]
  · have := range_head (m := ppExtract frmBuf (len + 1) m) (a := frmBuf) (Nat.succ_pos len)
    rw [hbytes] at this
    rw [hflen]
    simp only [List.head?_cons, Option.some.injEq] at this
    omega
  · simp only [frmBuf, rxRd] at *
    omega

open Framing in
/-- A round of the parser is one decision of the frame reader on the queue. -/
theorem ppParse_eq (m : Machine) :
    ppParse m = match cut headOk (buffered m) with
      | .wait => none
      | .slip => some (ppSlip m)
      | .frame _ _ => some (sesOnframe (ppLoad m)) := by
  have hlen := buffered_length m
  unfold ppParse
  extract_lets r0 r2 ty bounds
  have hr0 : r0 = (buffered m).length := hlen.symm
  match hb : buffered m with
  | [] =>
      rw [hb] at hr0
      rw [if_pos (by rw [hr0]; simp)]
      rfl
  | [_] =>
      rw [hb] at hr0
      rw [if_pos (by rw [hr0]; simp)]
      rfl
  | len :: t :: rest =>
      have h2 : r2 = len := buffered_head hb
      have hty : ty = t := buffered_second hb
      rw [hb, List.length_cons, List.length_cons] at hr0
      rw [if_neg (by omega)]
      simp only [cut, headOk, bounds, h2, hty]
      by_cases hbad : sesFlen t = (0, 0) ∨ len < (sesFlen t).1 ∨ (sesFlen t).2 < len
      · simp [hbad]
      · by_cases hshort : rest.length + 1 < len
        · simp only [hbad, hshort, not_false_eq_true, decide_true, if_true, if_false]
          rw [if_pos (by omega)]
        · simp only [hbad, hshort, not_false_eq_true, decide_true, if_true, if_false]
          rw [if_neg (by omega)]
          simp only [ppLoad]
          rw [show m.rd (m.rd rxRd + rxAcc) = len from h2]

end SharkNetplay.Console
