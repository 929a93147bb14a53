import SharkNetplay.Console.Lockstep

/-!
# What the building blocks read and write

Read-after-write rules for the block operations, and the footprint of the
mailbox driver, the screens and the image writer. A routine's footprint gives
the frame of every cell outside it.
-/

namespace SharkNetplay.Console

open Lib Cell

namespace Machine

/-- The writes leading from one machine to another. -/
def Writes (S : Nat → Nat → Prop) (m m' : Machine) : Prop :=
  Store.Writes S m.store m'.store

namespace Writes

variable {S T : Nat → Nat → Prop} {m m' m'' : Machine}

theorem refl : Writes S m m := Store.Writes.refl

theorem trans (h₁ : Writes S m m') (h₂ : Writes S m' m'') : Writes S m m'' :=
  Store.Writes.trans h₁ h₂

theorem mono (h : Writes S m m') (hST : ∀ a v, S a v → T a v) : Writes T m m' :=
  Store.Writes.mono h hST

/-- One more write. -/
theorem wr {a v : Nat} (h : Writes S m m') (ha : S a v) : Writes S m (m'.wr a v) :=
  Store.Writes.trans h (Store.Writes.wr ha)

theorem note {f : Record → Record} (h : Writes S m m') : Writes S m (m'.note f) := h

theorem frame (h : Writes S m m') {b : Nat} (hb : ∀ v, ¬ S b v) : m'.rd b = m.rd b :=
  Store.Writes.frame_rd h cellWidth hb

/-- What holds of a cell and of every value that may be written to it holds
afterwards. -/
theorem keeps (h : Writes S m m') {b : Nat} {P : Nat → Prop}
    (hb : ∀ v, S b v → P (v % cellWidth b)) (hm : P (m.rd b)) : P (m'.rd b) :=
  Store.Writes.keeps (P := fun v => P (v % cellWidth b)) h hb hm

theorem putList {a : Nat} {vs : List Nat} (h : Writes S m m')
    (hS : ∀ i (hi : i < vs.length), S (a + i) vs[i]) : Writes S m (m'.putList a vs) := by
  induction vs generalizing a m' with
  | nil => exact h
  | cons v vs ih =>
      have h0 : S a v := hS 0 (by simp)
      refine ih (h.wr h0) fun i hi => ?_
      have := hS (i + 1) (by simpa using hi)
      simpa [Nat.add_assoc, Nat.add_comm 1 i] using this

theorem fill {a n v : Nat} (h : Writes S m m') (hS : ∀ i < n, S (a + i) v) :
    Writes S m (m'.fill a n v) := by
  induction n generalizing a m' with
  | zero => exact h
  | succ n ih =>
      refine ih (h.wr (by simpa using hS 0 (by omega))) fun i hi => ?_
      simpa [Nat.add_assoc, Nat.add_comm 1 i] using hS (i + 1) (by omega)

theorem copy {src dst n : Nat} (h : Writes S m m') (hS : ∀ i < n, ∀ v, S (dst + i) v) :
    Writes S m (m'.copy src dst n) := by
  induction n generalizing src dst m' with
  | zero => exact h
  | succ n ih =>
      refine ih (h.wr (by simpa using hS 0 (by omega) _)) fun i hi v => ?_
      simpa [Nat.add_assoc, Nat.add_comm 1 i] using hS (i + 1) (by omega) v

end Writes

/-! ## Block operations -/

theorem rd_fill (m : Machine) (a n v b : Nat) :
    (m.fill a n v).rd b = if a ≤ b ∧ b < a + n then v % cellWidth b else m.rd b := by
  induction n generalizing a m with
  | zero =>
      rw [if_neg (by omega)]
      rfl
  | succ n ih =>
      simp only [fill, ih, rd_wr]
      by_cases h : b = a
      · subst h
        simp
      · have : (a + 1 ≤ b ∧ b < a + 1 + n) ↔ (a ≤ b ∧ b < a + (n + 1)) := by omega
        simp only [this, h, if_false]

theorem rd_putList (m : Machine) (a : Nat) (vs : List Nat) (b : Nat) :
    (m.putList a vs).rd b =
      if a ≤ b ∧ b < a + vs.length then vs.getD (b - a) 0 % cellWidth b else m.rd b := by
  induction vs generalizing a m with
  | nil =>
      rw [List.length_nil, if_neg (by omega)]
      rfl
  | cons v vs ih =>
      simp only [putList, ih, rd_wr, List.length_cons]
      by_cases h : b = a
      · subst h
        rw [if_neg (by omega), if_pos rfl, if_pos (by omega)]
        simp
      · by_cases hin : a + 1 ≤ b ∧ b < a + 1 + vs.length
        · have hsub : b - a = (b - (a + 1)) + 1 := by omega
          rw [if_pos hin, if_pos (by omega), hsub, List.getD_cons_succ]
        · rw [if_neg hin, if_neg h, if_neg (by omega)]

/-- A copy between disjoint blocks reads the source as it was. -/
theorem rd_copy (m : Machine) (src dst n b : Nat) (hd : src + n ≤ dst ∨ dst + n ≤ src) :
    (m.copy src dst n).rd b =
      if dst ≤ b ∧ b < dst + n then m.rd (src + (b - dst)) % cellWidth b else m.rd b := by
  induction n generalizing src dst m with
  | zero =>
      rw [if_neg (by omega)]
      rfl
  | succ n ih =>
      simp only [copy, ih _ (src + 1) (dst + 1) (by omega), rd_wr]
      by_cases h : b = dst
      · subst h
        rw [if_neg (by omega), if_pos rfl, if_pos (by omega)]
        simp
      · by_cases hin : dst + 1 ≤ b ∧ b < dst + 1 + n
        · have hne : src + 1 + (b - (dst + 1)) ≠ dst := by omega
          have hsub : src + 1 + (b - (dst + 1)) = src + (b - dst) := by omega
          rw [if_pos hin, if_neg hne, if_pos (by omega), hsub]
        · rw [if_neg hin, if_neg h, if_neg (by omega)]

@[simp] theorem hist_fill (m : Machine) (a n v : Nat) : (m.fill a n v).hist = m.hist := by
  induction n generalizing a m with
  | zero => rfl
  | succ n ih => simp [fill, ih]

@[simp] theorem answers_fill (m : Machine) (a n v : Nat) :
    (m.fill a n v).answers = m.answers := by
  induction n generalizing a m with
  | zero => rfl
  | succ n ih => simp [fill, ih]

@[simp] theorem hist_putList (m : Machine) (a : Nat) (vs : List Nat) :
    (m.putList a vs).hist = m.hist := by
  induction vs generalizing a m with
  | nil => rfl
  | cons v vs ih => simp [putList, ih]

@[simp] theorem answers_putList (m : Machine) (a : Nat) (vs : List Nat) :
    (m.putList a vs).answers = m.answers := by
  induction vs generalizing a m with
  | nil => rfl
  | cons v vs ih => simp [putList, ih]

@[simp] theorem hist_copy (m : Machine) (src dst n : Nat) :
    (m.copy src dst n).hist = m.hist := by
  induction n generalizing src dst m with
  | zero => rfl
  | succ n ih => simp [copy, ih]

@[simp] theorem answers_copy (m : Machine) (src dst n : Nat) :
    (m.copy src dst n).answers = m.answers := by
  induction n generalizing src dst m with
  | zero => rfl
  | succ n ih => simp [copy, ih]

end Machine

open Machine

/-! ## Mailbox driver -/

/-- Cells of the mailbox driver: its arguments and results in cart RAM, the
diagnostic counters it bumps, and the mailbox. -/
def Mail (a _v : Nat) : Prop :=
  (0x8114 ≤ a ∧ a ≤ 0x811E) ∨ (0x8130 ≤ a ∧ a ≤ 0x8133) ∨ (0x8182 ≤ a ∧ a ≤ 0x8183) ∨
    (0x9C00 ≤ a ∧ a ≤ 0x9FFF)

variable {m m' : Machine}

theorem diagBump_writes {S : Nat → Nat → Prop} {cell : Nat} (hS : ∀ v, S cell v)
    (h : Writes S m m') : Writes S m (diagBump cell m') := by
  unfold diagBump
  split
  · exact h
  · exact h.wr (hS _)

theorem mbTransact_writes (a : Answer) (m : Machine) : Writes Mail m (mbTransact a m) := by
  unfold mbTransact
  cases a.polls with
  | none =>
      refine diagBump_writes (by simp [Mail]) ?_
      repeat' first
        | exact .refl
        | refine .wr ?_ (by simp [Mail])
  | some r1 =>
      dsimp only
      split_ifs <;> first
        | (refine diagBump_writes (by simp [Mail]) ?_
           repeat' first
            | exact .refl
            | refine .wr ?_ (by simp [Mail]))
        | (repeat' first
            | exact .refl
            | refine .wr ?_ (by simp [Mail]))

theorem netStatus_writes (a : Answer) (avail code : Nat) (m : Machine) :
    Writes Mail m (netStatus a avail code m) := by
  unfold netStatus
  dsimp only
  split_ifs
  all_goals
    repeat' first
      | exact .refl
      | refine .trans ?_ (mbTransact_writes _ _)
      | refine .wr ?_ (by simp [Mail])

theorem netRead_writes (a : Answer) (got : Nat) (m : Machine) :
    Writes Mail m (netRead a got m) := by
  unfold netRead
  dsimp only
  split_ifs
  all_goals
    repeat' first
      | exact .refl
      | refine .trans ?_ (mbTransact_writes _ _)
      | refine .wr ?_ (by simp [Mail])

theorem netWriteArgs_writes (m : Machine) : Writes Mail m (netWriteArgs m) := by
  unfold netWriteArgs
  repeat' first
    | exact .refl
    | refine .wr ?_ (by simp [Mail])

theorem netWrite_writes (m : Machine) : Writes Mail m (netWrite m) := by
  have h : Writes Mail m
      (mbTransact (nextAnswer m) { netWriteArgs m with answers := m.answers.tail }) :=
    (netWriteArgs_writes m).trans (mbTransact_writes _ _)
  unfold netWrite
  dsimp only
  split_ifs
  · exact h.note
  · exact h

theorem sendFrame_writes {frame : List Nat} (hlen : frame.length ≤ 192) (m : Machine) :
    Writes Mail m (sendFrame frame m) := by
  refine .trans ?_ (netWrite_writes _)
  refine .wr (.wr (.putList .refl ?_) (by simp [Mail])) (by simp [Mail])
  intro i hi
  simp [Mail]
  omega

@[simp] theorem hist_diagBump (cell : Nat) (m : Machine) : (diagBump cell m).hist = m.hist := by
  unfold diagBump
  split <;> simp

@[simp] theorem answers_diagBump (cell : Nat) (m : Machine) :
    (diagBump cell m).answers = m.answers := by
  unfold diagBump
  split <;> simp

@[simp] theorem hist_mbTransact (a : Answer) (m : Machine) :
    (mbTransact a m).hist = m.hist := by
  unfold mbTransact
  cases a.polls with
  | none => simp
  | some r1 =>
      dsimp only
      split_ifs <;> simp

@[simp] theorem answers_mbTransact (a : Answer) (m : Machine) :
    (mbTransact a m).answers = m.answers := by
  unfold mbTransact
  cases a.polls with
  | none => simp
  | some r1 =>
      dsimp only
      split_ifs <;> simp

/-- An acknowledged transaction succeeds. -/
theorem mbOk_mbTransact {a : Answer} {r1 : Nat} (hp : a.polls = some r1)
    (hc : a.replyCmd % 256 = 6) (m : Machine) : (mbTransact a m).rd mbOk = 1 := by
  unfold mbTransact
  simp [hp, hc, cellWidth]

@[simp] theorem hist_netStatus (a : Answer) (avail code : Nat) (m : Machine) :
    (netStatus a avail code m).hist = m.hist := by
  unfold netStatus
  dsimp only
  split_ifs <;> simp

@[simp] theorem answers_netStatus (a : Answer) (avail code : Nat) (m : Machine) :
    (netStatus a avail code m).answers = m.answers := by
  unfold netStatus
  dsimp only
  split_ifs <;> simp

@[simp] theorem hist_netRead (a : Answer) (got : Nat) (m : Machine) :
    (netRead a got m).hist = m.hist := by
  unfold netRead
  dsimp only
  split_ifs <;> simp

@[simp] theorem answers_netRead (a : Answer) (got : Nat) (m : Machine) :
    (netRead a got m).answers = m.answers := by
  unfold netRead
  dsimp only
  split_ifs <;> simp

@[simp] theorem hist_netWriteArgs (m : Machine) : (netWriteArgs m).hist = m.hist := rfl

@[simp] theorem answers_netWrite (m : Machine) : (netWrite m).answers = m.answers.tail := by
  unfold netWrite
  dsimp only
  split_ifs <;> simp

/-- What `NET_WRITE` puts on the record: the staged bytes, when the peripheral
carries the command out. -/
theorem hist_netWrite (m : Machine) :
    (netWrite m).hist =
      if (nextAnswer m).performed then
        { m.hist with
          sent := m.hist.sent ++ [(m.hist.stamp, m.range fnTx (m.pair nreqLo nreqHi))] }
      else m.hist := by
  unfold netWrite
  dsimp only
  split_ifs <;> simp

/-- The bytes `NET_WRITE` finds are the staged frame. -/
theorem hist_sendFrame {frame : List Nat} (hlen : frame.length < 256) (m : Machine) :
    (sendFrame frame m).hist =
      if (nextAnswer m).performed then
        { m.hist with
          sent := m.hist.sent ++ [(m.hist.stamp, frame.map (· % 256))] }
      else m.hist := by
  have hpair : (((m.putList fnTx frame).wr nreqLo frame.length).wr nreqHi 0).pair nreqLo nreqHi =
      frame.length := by
    simp [Machine.pair, cellWidth, Nat.mod_eq_of_lt hlen]
  have hbytes : (((m.putList fnTx frame).wr nreqLo frame.length).wr nreqHi 0).range fnTx
      frame.length = frame.map (· % 256) := by
    refine List.ext_getElem (by simp [Machine.range]) fun i h₁ h₂ => ?_
    have hi : i < frame.length := by simpa using h₂
    have hlo : 0x9C40 + i ≠ 0x8130 := by omega
    have hhi : 0x9C40 + i ≠ 0x8131 := by omega
    have hw : cellWidth (0x9C40 + i) = 256 := by
      unfold cellWidth
      rw [if_pos (by omega)]
    simp [Machine.range, Machine.rd_putList, hlo, hhi, hw, hi]
  rw [sendFrame, hist_netWrite, hpair, hbytes]
  simp [nextAnswer]

end SharkNetplay.Console
