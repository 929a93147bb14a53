import SharkNetplay.Console.Checksum

/-!
# The determinism trace

`TRACE_TICK` of the determinism builds: a table-driven sum over `TRACE_RANGES`, put
into a ring at the tick's slot. The sum is that of `LS_CKSUM`.

## Implementation notes

The table is data, read pair by pair. Parking at `TRACE_STOP` is left out: it comes after
everything the routine writes. The inner loop is the loop of `LS_CKSUM` with its end in
a register.
-/

namespace SharkNetplay.Console

open Lib Cell Machine

/-! Cells of `debug.asm`. -/

@[simp] def firstcLo : Nat := 0x8110
@[simp] def firstcHi : Nat := 0x8111
@[simp] def rngpLo : Nat := 0x8112
@[simp] def rngpHi : Nat := 0x8113
@[simp] def traceRing : Nat := 0x9000
@[simp] def lagRing : Nat := 0x9200

/-- `TRACE_RANGES`: starts and ends, the end exclusive. -/
def traceRanges : List Nat :=
  [0x15D, 0x1F0, rngLo, rngHi + 1, ssArm1, ssArm3 + 1, ssArm4, ssArm4 + 1, ssArm5, ssCnt5 + 1,
    ssInj, ssInj + 1, 0, 0]

/-- `@@range`: the sum over the ranges of a table from `r3` on, `r0` so far. -/
def traceSum : List Nat → Nat → Machine → Nat
  | r1 :: r2 :: r3, r0, m => if r1 = 0 then r0 else traceSum r3 (ckLoop r2 256 r1 r0 m) m
  | _, r0, _ => r0

/-- The first game RNG consumption is noted with its tick. -/
def traceRng (m : Machine) : Machine :=
  if m.rd rngLo = m.rd rngpLo ∧ m.rd rngHi = m.rd rngpHi then m
  else
    let m := (m.wr rngpLo (m.rd rngLo)).wr rngpHi (m.rd rngHi)
    if m.rd firstcLo ≠ 0 ∨ m.rd firstcHi ≠ 0 then m
    else (m.wr firstcLo (m.rd tickLo + 1)).wr firstcHi (m.rd tickHi)

/-- `@@rng_same`: the sum into the trace ring and two cells into the lag ring. -/
def traceStore (r0 : Nat) (m : Machine) : Machine :=
  let r4 := m.rd tickLo * 2 + traceRing
  let m := (m.wr r4 r0).wr (r4 + 1) (r0 / 256)
  let r4 := m.rd tickLo * 2 + lagRing
  (m.wr r4 (m.rd 0x168)).wr (r4 + 1) (m.rd 0x169)

/-- `TRACE_TICK`. -/
def traceTick (m : Machine) : Machine :=
  lsTickInc (traceStore (traceSum traceRanges 0 m) (traceRng m))

/-! ## The sum -/

/-- A table of ranges, each a start and a length less one. -/
def rangeWords : List (Nat × Nat) → List Nat
  | [] => [0, 0]
  | r :: rs => r.1 :: (r.1 + r.2 + 1) :: rangeWords rs

/-- The cells of such a table. -/
def rangeCells (rs : List (Nat × Nat)) : List Nat := rs.flatMap fun r => List.range' r.1 (r.2 + 1)

/-- A range the inner loop goes through: not at 0, and on one side of the sign boundary. -/
def Summable (r : Nat × Nat) : Prop :=
  r.1 ≠ 0 ∧ r.2 < 256 ∧ (r.1 + r.2 + 1 < 32768 ∨ 32768 ≤ r.1)

/-- A table is summed in its order, without a gap or a rotation between the ranges. -/
theorem traceSum_words (rs : List (Nat × Nat)) (hrs : ∀ r ∈ rs, Summable r) (r0 : Nat)
    (m : Machine) : traceSum (rangeWords rs) r0 m =
      (rangeCells rs).foldl (fun a i => rotAdd a (m.rd i)) r0 := by
  induction rs generalizing r0 with
  | nil => rfl
  | cons r rs ih =>
      obtain ⟨hpos, hlen, hside⟩ := hrs r List.mem_cons_self
      have hinner : ckLoop (r.1 + r.2 + 1) 256 r.1 r0 m =
          (List.range' r.1 (r.2 + 1)).foldl (fun a i => rotAdd a (m.rd i)) r0 :=
        ckLoop_fold m r.2 hlen rfl hside
      unfold rangeWords traceSum
      rw [if_neg hpos, hinner, ih fun r' hr' => hrs r' (List.mem_cons_of_mem _ hr')]
      unfold rangeCells
      rw [List.flatMap_cons, List.foldl_append]

/-- The ranges of `TRACE_RANGES`. -/
def traceSpans : List (Nat × Nat) :=
  [(0x15D, 146), (rngLo, 1), (ssArm1, 2), (ssArm4, 0), (ssArm5, 5), (ssInj, 0)]

theorem traceSpans_words : rangeWords traceSpans = traceRanges := rfl

/-- They are the cells of `LS_CKSUM`, in its order. -/
theorem traceSpans_cells : rangeCells traceSpans = ckCells := by decide

theorem traceSpans_summable : ∀ r ∈ traceSpans, Summable r := by
  unfold Summable
  decide

/-- The sum of `TRACE_TICK` is the one of `LS_CKSUM`. -/
theorem traceSum_eq (m : Machine) : traceSum traceRanges 0 m = lsCksum m := by
  calc traceSum traceRanges 0 m
      = (rangeCells traceSpans).foldl (fun a i => rotAdd a (m.rd i)) 0 := by
        rw [← traceSpans_words]
        exact traceSum_words traceSpans traceSpans_summable 0 m
    _ = lsCksum m := by
        rw [traceSpans_cells]
        exact (lsCksum_fold m).symm

/-! ## The ring -/

/-- What `TRACE_TICK` writes before the ring. -/
def CrumbCell (a _v : Nat) : Prop := a = rngpLo ∨ a = rngpHi ∨ a = firstcLo ∨ a = firstcHi

theorem traceRng_writes (m : Machine) : Writes CrumbCell m (traceRng m) := by
  unfold traceRng
  split
  · exact .refl
  · have h : Writes CrumbCell m ((m.wr rngpLo (m.rd rngLo)).wr rngpHi (m.rd rngHi)) := by
      apply Writes.wr
      · exact .wr .refl (Or.inl rfl)
      · exact Or.inr (Or.inl rfl)
    dsimp only
    split
    · exact h
    · apply Writes.wr
      · exact h.wr (Or.inr (Or.inr (Or.inl rfl)))
      · exact Or.inr (Or.inr (Or.inr rfl))

/-- The tick counter and the lag ring are elsewhere. -/
theorem rd_lsTickInc {a : Nat} (hlo : a ≠ tickLo) (hhi : a ≠ tickHi) (m : Machine) :
    (lsTickInc m).rd a = m.rd a := by
  unfold lsTickInc
  dsimp only
  split
  · rw [rd_wr, if_neg hhi, rd_wr, if_neg hlo]
  · rw [rd_wr, if_neg hlo]

theorem lsTickInc_ring {a : Nat} (ha : 0x9000 ≤ a) (m : Machine) :
    (lsTickInc m).rd a = m.rd a :=
  rd_lsTickInc (by simp only [tickLo]; omega) (by simp only [tickHi]; omega) m

theorem traceStore_ring {r0 : Nat} (hr0 : r0 < 65536) (m : Machine) :
    (traceStore r0 m).rd (traceRing + 2 * m.rd tickLo) = r0 % 256 ∧
      (traceStore r0 m).rd (traceRing + 2 * m.rd tickLo + 1) = r0 / 256 := by
  have hlo : m.rd tickLo < 256 := m.rd_byte (by decide)
  have hwidth : ∀ i, i < 512 → cellWidth (traceRing + i) = 256 := fun i hi =>
    cellWidth_cart (by simp only [traceRing]; omega) (by simp only [traceRing]; omega)
  have hslot : m.rd tickLo * 2 + traceRing = traceRing + 2 * m.rd tickLo := by omega
  -- the lag ring begins where the trace ring ends
  have hlag : ∀ (a b v w : Nat) (k : Machine), a < lagRing → lagRing ≤ b →
      ((k.wr b v).wr (b + 1) w).rd a = k.rd a := by
    intro a b v w k ha hb
    rw [rd_wr, if_neg (by omega), rd_wr, if_neg (by omega)]
  have hin : ∀ i, i < 512 → traceRing + i < lagRing := by
    intro i hi
    simp only [traceRing, lagRing]
    omega
  unfold traceStore
  dsimp only
  rw [hslot]
  constructor
  · rw [hlag _ _ _ _ _ (hin _ (by omega)) (Nat.le_add_left _ _), rd_wr, if_neg (by omega), rd_wr,
      if_pos rfl, hwidth _ (by omega)]
  · have hhigh := hin (2 * m.rd tickLo + 1) (by omega)
    have hw := hwidth (2 * m.rd tickLo + 1) (by omega)
    rw [← Nat.add_assoc] at hhigh hw
    rw [hlag _ _ _ _ _ hhigh (Nat.le_add_left _ _), rd_wr, if_pos rfl, hw]
    omega

/-- `TRACE_TICK` computes over its table what `LS_CKSUM` returns, and leaves that value in the
ring at the tick's slot. -/
theorem trace_cksum (m : Machine) :
    traceSum traceRanges 0 m = lsCksum m ∧
      (traceTick m).rd (traceRing + 2 * m.rd tickLo) = lsCksum m % 256 ∧
      (traceTick m).rd (traceRing + 2 * m.rd tickLo + 1) = lsCksum m / 256 := by
  have hsum := traceSum_eq m
  have htick : (traceRng m).rd tickLo = m.rd tickLo :=
    (traceRng_writes m).frame fun v hv => by simp [CrumbCell] at hv
  obtain ⟨hlow, hhigh⟩ := traceStore_ring (lsCksum_lt m) (traceRng m)
  rw [htick] at hlow hhigh
  refine ⟨hsum, ?_, ?_⟩
  · unfold traceTick
    rw [hsum, lsTickInc_ring (by simp only [traceRing]; omega), hlow]
  · unfold traceTick
    rw [hsum, lsTickInc_ring (by simp only [traceRing]; omega), hhigh]

end SharkNetplay.Console
