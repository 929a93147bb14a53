import SharkNetplay.Console.Confinement
import SharkNetplay.Console.Emission
import SharkNetplay.Console.Image
import SharkNetplay.Lib.Fold

/-!
# What the checksum covers

`LS_CKSUM` as a fold of `rotAdd`, and the cells of the resync image it covers. Each cell
it sums is summed once and no change of it is lost; the two cells of the handler table
travel in the image and are not summed.
-/

namespace SharkNetplay.Console

open Lib Cell Machine

/-- The cells of `LS_CKSUM`, in its order. -/
def ckCells : List Nat :=
  List.range' 0x15D 147 ++ [rngLo, rngHi, ssArm1, ssArm2, ssArm3, ssArm4] ++
    List.range' ssArm5 6 ++ [ssInj]

/-- Cells the image carries in section 1 or in `RS_TAILTBL`. -/
def Carried (a : Nat) : Prop := (0x15D ≤ a ∧ a ≤ 0x1EF) ∨ a ∈ rsTailtbl

/-- `SLLC` and `ADCR`. -/
def rot (a : Nat) : Nat := a * 2 % 65536 + a / 32768

theorem rot_low {a : Nat} (ha : a < 32768) : rot a = a * 2 := by
  unfold rot
  omega

theorem rot_high {a : Nat} (hlo : 32768 ≤ a) (hhi : a < 65536) :
    rot a = (a - 32768) * 2 + 1 := by
  unfold rot
  omega

theorem rot_lt {a : Nat} (ha : a < 65536) : rot a < 65536 := by
  rcases Nat.lt_or_ge a 32768 with h | h
  · rw [rot_low h]
    omega
  · rw [rot_high h ha]
    omega

theorem rot_inj {a b : Nat} (ha : a < 65536) (hb : b < 65536) (h : rot a = rot b) : a = b := by
  rcases Nat.lt_or_ge a 32768 with ha' | ha' <;> rcases Nat.lt_or_ge b 32768 with hb' | hb'
  · rw [rot_low ha', rot_low hb'] at h
    omega
  · rw [rot_low ha', rot_high hb' hb] at h
    omega
  · rw [rot_high ha' ha, rot_low hb'] at h
    omega
  · rw [rot_high ha' ha, rot_high hb' hb] at h
    omega

theorem add_mod_inj {x a b : Nat} (ha : a < 65536) (hb : b < 65536)
    (h : (x + a) % 65536 = (x + b) % 65536) : a = b := by
  omega

theorem rotAdd_cancels : Cancels (· < 65536) (· < 65536) rotAdd where
  maps := rotAdd_lt
  acc {a a' v} ha ha' h := by
    change (rot a + v) % 65536 = (rot a' + v) % 65536 at h
    rw [Nat.add_comm, Nat.add_comm (rot a')] at h
    exact rot_inj ha ha' (add_mod_inj (rot_lt ha) (rot_lt ha') h)
  item hb hb' h := add_mod_inj hb hb' h

/-- The signed compare of two addresses on one side of the sign boundary. -/
theorem slt_side {a b : Nat} (hab : a ≤ b) (hside : b < 32768 ∨ 32768 ≤ a) :
    slt a b = true ↔ a < b := by
  rcases hside with h | h
  · exact slt_iff (by omega) h
  · simp only [slt, if_neg (show ¬ a < 32768 by omega), if_neg (show ¬ b < 32768 by omega),
      decide_eq_true_eq]

/-- A summing loop below the sign boundary or above it. -/
theorem ckLoop_fold (m : Machine) {stop : Nat} (n : Nat) {fuel r4 r0 : Nat} (hfuel : n < fuel)
    (hstop : r4 + n + 1 = stop) (hside : stop < 32768 ∨ 32768 ≤ r4) :
    ckLoop stop fuel r4 r0 m = (List.range' r4 (n + 1)).foldl (fun a i => rotAdd a (m.rd i)) r0 := by
  have hslt : slt (r4 + 1) stop = true ↔ r4 + 1 < stop := slt_side (by omega) (by omega)
  induction n generalizing fuel r4 r0 with
  | zero =>
      obtain ⟨fuel, rfl⟩ := Nat.exists_eq_add_one.mpr hfuel
      unfold ckLoop
      rw [if_neg (by rw [hslt]; omega)]
      rfl
  | succ n ih =>
      obtain ⟨fuel, rfl⟩ := Nat.exists_eq_add_one.mpr (Nat.lt_of_le_of_lt (Nat.zero_le _) hfuel)
      unfold ckLoop
      rw [if_pos (by rw [hslt]; omega), List.range'_succ, List.foldl_cons]
      exact ih (by omega) (by omega) (by omega) (slt_side (by omega) (by omega))

theorem lsCksum_fold (m : Machine) :
    lsCksum m = ckCells.foldl (fun a i => rotAdd a (m.rd i)) 0 := by
  have hscratch : ckLoop 0x1F0 256 0x15D 0 m =
      (List.range' 0x15D 147).foldl (fun a i => rotAdd a (m.rd i)) 0 :=
    ckLoop_fold m 146 (by decide) (by decide) (Or.inl (by decide))
  have htail : ∀ r0, ckLoop (ssCnt5 + 1) 256 ssArm5 r0 m =
      (List.range' ssArm5 6).foldl (fun a i => rotAdd a (m.rd i)) r0 := fun r0 =>
    ckLoop_fold m 5 (by decide) (by decide) (Or.inr (by decide))
  unfold lsCksum ckCells
  dsimp only
  rw [List.foldl_append, List.foldl_append, List.foldl_append, hscratch, htail]
  rfl

theorem ckCells_nodup : ckCells.Nodup := by
  unfold ckCells
  rw [List.append_assoc, List.append_assoc]
  refine List.Nodup.append List.nodup_range' (by decide) fun a ha hb => ?_
  have hlo := (List.mem_range'_1.mp ha).2
  exact absurd ((by decide : ∀ b ∈ [rngLo, rngHi, ssArm1, ssArm2, ssArm3, ssArm4] ++
    (List.range' ssArm5 6 ++ [ssInj]), 0x1F0 ≤ b) a hb) (by omega)

/-- All carried cells but those of the handler table are summed. -/
theorem mem_ckCells {a : Nat} (h : Carried a) : a ∈ ckCells ↔ a ≠ gameTblLo ∧ a ≠ gameTblHi := by
  rcases h with ⟨hlo, hhi⟩ | h
  · have hmem : a ∈ List.range' 0x15D 147 := List.mem_range'_1.mpr ⟨hlo, by omega⟩
    simp only [ckCells, List.mem_append, hmem, true_or, true_iff, gameTblLo, gameTblHi]
    omega
  · revert a
    decide

theorem ckCells_carried : ∀ a ∈ ckCells, Carried a := by
  intro a ha
  simp only [ckCells, List.mem_append, List.mem_range'_1] at ha
  rcases ha with ((ha | ha) | ha) | ha
  · exact Or.inl ⟨ha.1, by omega⟩
  · exact Or.inr ((by decide : ∀ a ∈ [rngLo, rngHi, ssArm1, ssArm2, ssArm3, ssArm4],
      a ∈ rsTailtbl) a ha)
  · exact Or.inr ((by decide : ∀ a ∈ List.range' ssArm5 6, a ∈ rsTailtbl) a
      (List.mem_range'_1.mpr ha))
  · exact Or.inr ((by decide : ∀ a ∈ [ssInj], a ∈ rsTailtbl) a ha)

/-- The sum of any machine reads the summed cells only. -/
theorem lsCksum_eq {m m' : Machine} (h : ∀ a ∈ ckCells, m'.rd a = m.rd a) :
    lsCksum m' = lsCksum m := by
  rw [lsCksum_fold, lsCksum_fold]
  exact Cancels.foldl_congr h

theorem rd_word (m : Machine) (a : Nat) : m.rd a < 65536 :=
  Nat.lt_of_lt_of_le (m.rd_lt a) (by unfold cellWidth; split <;> decide)

theorem crcFrame_inj {s t ck ck' : Nat} (h : crcFrame s t ck = crcFrame s t ck') : ck = ck' := by
  simp only [crcFrame, List.cons.injEq, and_true, true_and] at h
  omega

/-- Two consoles that differ in one carried cell have different checksums, and send
different CRC frames, when that cell is not one of the handler table. -/
theorem divergence_seen_iff {m m' : Machine} {a : Nat} (ha : Carried a)
    (hsame : ∀ b, Carried b → b ≠ a → m'.rd b = m.rd b) (hdiff : m'.rd a ≠ m.rd a) :
    (lsCksum m' ≠ lsCksum m ↔ a ≠ gameTblLo ∧ a ≠ gameTblHi) ∧
      ∀ s t, crcFrame s t (lsCksum m') ≠ crcFrame s t (lsCksum m) ↔
        a ≠ gameTblLo ∧ a ≠ gameTblHi := by
  have hsum : lsCksum m' ≠ lsCksum m ↔ a ≠ gameTblLo ∧ a ≠ gameTblHi := by
    rw [← mem_ckCells ha]
    constructor
    · intro hne
      by_contra hmem
      refine hne (lsCksum_eq fun b hb => hsame b (ckCells_carried b hb) ?_)
      rintro rfl
      exact hmem hb
    · intro hmem
      rw [lsCksum_fold, lsCksum_fold]
      exact rotAdd_cancels.foldl_ne (by decide) (rd_word m) (rd_word m') ckCells_nodup hmem
        (fun b hb => hsame b (ckCells_carried b hb)) hdiff
  refine ⟨hsum, fun s t => ?_⟩
  rw [← hsum]
  constructor
  · intro hne heq
    exact hne (congrArg _ heq)
  · intro hne heq
    exact hne (crcFrame_inj heq)

/-- Only the arm flag of timer entry 1 differs. -/
theorem divergence_seen_iff_armed :
    (lsCksum (blank.wr ssArm1 1) ≠ lsCksum blank ↔ ssArm1 ≠ gameTblLo ∧ ssArm1 ≠ gameTblHi) ∧
      ∀ s t, crcFrame s t (lsCksum (blank.wr ssArm1 1)) ≠ crcFrame s t (lsCksum blank) ↔
        ssArm1 ≠ gameTblLo ∧ ssArm1 ≠ gameTblHi :=
  divergence_seen_iff (Or.inr (by decide)) (fun b _ hb => by rw [rd_wr, if_neg hb])
    (by rw [rd_wr, if_pos rfl]; decide)

/-- A change of the handler table alone leaves the checksum as it was. -/
theorem divergence_unseen : Carried gameTblLo ∧ (blank.wr gameTblLo 1).rd gameTblLo ≠
      blank.rd gameTblLo ∧ lsCksum (blank.wr gameTblLo 1) = lsCksum blank := by
  refine ⟨Or.inr (by decide), by rw [rd_wr, if_pos rfl]; decide, lsCksum_eq fun a ha => ?_⟩
  rw [rd_wr, if_neg]
  rintro rfl
  revert ha
  decide

end SharkNetplay.Console
