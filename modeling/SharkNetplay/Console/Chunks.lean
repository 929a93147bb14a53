import SharkNetplay.Console.Adoption

/-!
# Image chunks in any order

STATE data frames cut from one image, applied under a hold: whatever their order, their
sizes and overlaps, the image becomes the one they were cut from, and no cell changes
but image cells and the applier's scratch.

## Implementation notes

A frame arrives by being in `FRMBUF` when `RS_ON_STATE` runs. A chunk without bytes is a
frame the handler refuses and counts in `DIAG_REJ`.
-/

namespace SharkNetplay.Console

open Lib Cell Machine

variable {m m' : Machine}

/-- A data frame arrives and is handled. -/
def arrive (m : Machine) (q : Piece Nat) : Machine :=
  rsOnState (m.putList frmBuf (Msg.piece q).frame)

/-- The frames of `qs` arrive in turn. -/
def arriveAll (qs : List (Piece Nat)) (m : Machine) : Machine := qs.foldl arrive m

/-- The applier's own scratch cells. -/
def rsScratch : List Nat := [rsTmp, rsTmp2, rsPosLo, rsPosHi]

/-- A chunk one frame carries, cut from the image of `M`. -/
structure CutFrom (M : Machine) (q : Piece Nat) : Prop where
  fits : q.Fits imgTotal
  bytes : q.From (image M)
  length : q.values.length ≤ 252

theorem piece_frame_length (q : Piece Nat) : (Msg.piece q).frame.length = q.values.length + 4 := by
  simp [Msg.frame]

theorem CutFrom.byte {M : Machine} {q : Piece Nat} (h : CutFrom M q) : ∀ b ∈ q.values, b < 256 := by
  intro b hb
  rw [h.bytes] at hb
  obtain ⟨p, hp, rfl⟩ := List.mem_map.mp (List.mem_of_mem_drop (List.mem_of_mem_take hb))
  exact imgGet_lt (List.mem_range.mp hp) M

/-- The frame of a chunk is in bytes. -/
theorem CutFrom.frame_byte {M : Machine} {q : Piece Nat} (h : CutFrom M q) :
    ∀ b ∈ (Msg.piece q).frame, b < 256 := by
  have hfits := h.fits
  have hlen := h.length
  simp only [Piece.Fits, imgTotal] at hfits
  intro b hb
  simp only [Msg.frame, List.mem_cons] at hb
  rcases hb with rfl | rfl | rfl | rfl | hb
  · omega
  · decide
  · omega
  · omega
  · exact h.byte b hb

/-- An arrived frame stands in `FRMBUF`. -/
theorem CutFrom.inBuf {M : Machine} {q : Piece Nat} (h : CutFrom M q) (m : Machine) :
    InBuf (Msg.piece q).frame (m.putList frmBuf (Msg.piece q).frame) := by
  have hlen := h.length
  have hcell : ∀ i (hi : i < (Msg.piece q).frame.length),
      (m.putList frmBuf (Msg.piece q).frame).rd (frmBuf + i) = (Msg.piece q).frame[i] := by
    intro i hi
    have hbyte := h.frame_byte _ (List.getElem_mem hi)
    rw [piece_frame_length] at hi
    have hwidth : cellWidth (frmBuf + i) = 256 := by
      refine cellWidth_cart ?_ ?_
      · simp only [frmBuf]
        omega
      · simp only [frmBuf]
        omega
    rw [rd_putList, if_pos ⟨by omega, by rw [piece_frame_length]; omega⟩, Nat.add_sub_cancel_left,
      List.getD_eq_getElem _ _ (by rw [piece_frame_length]; exact hi), hwidth,
      Nat.mod_eq_of_lt hbyte]
  constructor
  · have hzero := hcell 0 (by rw [piece_frame_length]; omega)
    rw [Nat.add_zero] at hzero
    rw [hzero]
    exact (piece_frame_length q).symm
  · exact hcell

/-- Nothing but the frame's own cells differs when a frame has arrived. -/
theorem rd_arrived (m : Machine) (q : Piece Nat) {a : Nat}
    (ha : a < frmBuf ∨ frmBuf + (Msg.piece q).frame.length ≤ a) :
    (m.putList frmBuf (Msg.piece q).frame).rd a = m.rd a := by
  rw [rd_putList, if_neg (by omega)]

theorem image_arrived (m : Machine) (q : Piece Nat) :
    image (m.putList frmBuf (Msg.piece q).frame) = image m := by
  apply image_congr
  intro a ha
  apply rd_arrived
  have hsim := simCell_range ha
  simp only [frmBuf]
  omega

/-- The hold cell is none of those `RS_ON_STATE` writes for a data frame. -/
theorem not_pieceCell_hold (taken : Bool) (v : Nat) : ¬ PieceCell taken resyncHold v := by
  rintro ((⟨hsim, -⟩ | h | h | h | h) | ⟨h, -⟩)
  · exact absurd hsim (by decide)
  all_goals exact absurd h (by decide)

/-- One chunk under a hold: the image is patched, the hold stays. -/
theorem arrive_spec {M : Machine} {q : Piece Nat} (h : CutFrom M q) (hhold : m.rd resyncHold ≠ 0) :
    image (arrive m q) = patch q.pos q.values (image m) ∧
      (arrive m q).rd resyncHold = m.rd resyncHold := by
  have hfits := h.fits
  simp only [Piece.Fits] at hfits
  have hpos : q.pos < 0xFF00 := by
    simp only [imgTotal] at hfits
    omega
  have hheld : (m.putList frmBuf (Msg.piece q).frame).rd resyncHold = m.rd resyncHold :=
    rd_arrived m q (Or.inl (by decide))
  obtain ⟨hw, himg⟩ := rsOnState_piece (h.inBuf m) hpos h.length
  constructor
  · show image (rsOnState _) = _
    rw [himg, image_arrived]
    by_cases hsome : q.values = []
    · rw [hsome, patch_nil, ite_self]
    · refine if_pos (decide_eq_true ⟨?_, hsome, hfits⟩)
      show (m.putList frmBuf (Msg.piece q).frame).rd resyncHold ≠ 0
      rw [hheld]
      exact hhold
  · rw [← hheld]
    exact hw.frame fun v hv => absurd hv (not_pieceCell_hold _ v)

/-- A cell one chunk leaves alone. -/
structure Spared (qs : List (Piece Nat)) (a : Nat) : Prop where
  image : ∀ p < imgTotal, imgCell p ≠ a
  scratch : a ∉ rsScratch
  buffer : ∀ q ∈ qs, a < frmBuf ∨ frmBuf + (Msg.piece q).frame.length ≤ a
  rejects : a = diagRej → ∀ q ∈ qs, q.values ≠ []

theorem Spared.not_applyCell {qs : List (Piece Nat)} {a v : Nat} (h : Spared qs a) :
    ¬ ApplyCell a v := by
  rintro (⟨hsim, hne⟩ | rfl | rfl | rfl | rfl)
  · obtain ⟨p, hp, hcell⟩ := exists_imgCell hsim hne
    exact h.image p hp hcell
  all_goals exact h.scratch (by decide)

theorem rd_arrive {M : Machine} {q : Piece Nat} {qs : List (Piece Nat)} {a : Nat}
    (h : CutFrom M q) (hmem : q ∈ qs) (ha : Spared qs a) (hhold : m.rd resyncHold ≠ 0) :
    (arrive m q).rd a = m.rd a := by
  have hfits := h.fits
  simp only [Piece.Fits] at hfits
  have hpos : q.pos < 0xFF00 := by
    simp only [imgTotal] at hfits
    omega
  have hheld : (m.putList frmBuf (Msg.piece q).frame).rd resyncHold ≠ 0 := by
    rw [rd_arrived m q (Or.inl (by decide))]
    exact hhold
  rw [← rd_arrived m q (ha.buffer q hmem)]
  refine (rsOnState_piece (h.inBuf m) hpos h.length).1.frame fun v hv => ?_
  rcases hv with hv | ⟨rfl, htaken⟩
  · exact ha.not_applyCell hv
  · -- a chunk with bytes that fits is taken under a hold
    exact absurd ⟨hheld, ha.rejects rfl q hmem, h.fits⟩ (of_decide_eq_false htaken)

/-- Chunks under a hold patch the image one after the other. -/
theorem arriveAll_spec {M : Machine} {qs : List (Piece Nat)} (hqs : ∀ q ∈ qs, CutFrom M q)
    (hhold : m.rd resyncHold ≠ 0) :
    image (arriveAll qs m) = patchAll qs (image m) ∧
      ∀ a, Spared qs a → (arriveAll qs m).rd a = m.rd a := by
  -- the cells a longer list spares are spared by each of its chunks
  suffices hmain : ∀ rs : List (Piece Nat), (∀ q ∈ rs, q ∈ qs) → ∀ m : Machine,
      m.rd resyncHold ≠ 0 → image (arriveAll rs m) = patchAll rs (image m) ∧
        ∀ a, Spared qs a → (arriveAll rs m).rd a = m.rd a from hmain qs (fun _ h => h) m hhold
  intro rs
  induction rs with
  | nil =>
      intro _ m _
      exact ⟨(patchAll_nil _).symm, fun _ _ => rfl⟩
  | cons q rs ih =>
      intro hsub m hhold
      have hq := hqs q (hsub q (by simp))
      obtain ⟨himg, hheld⟩ := arrive_spec hq hhold
      obtain ⟨himgs, hcells⟩ := ih (fun r hr => hsub r (by simp [hr])) (arrive m q)
        (by rw [hheld]; exact hhold)
      constructor
      · rw [patchAll_cons, ← himg]
        exact himgs
      · intro a ha
        have hone := rd_arrive hq (hsub q (by simp)) ha hhold
        exact (hcells a ha).trans hone

/-- Chunks of one image that cover it, in any order and with any overlaps, carry it
over, and nothing else but the applier's scratch changes. -/
theorem chunks_commute (M m : Machine) (qs : List (Piece Nat)) (hqs : ∀ q ∈ qs, CutFrom M q)
    (hcov : Covers imgTotal qs) (hhold : m.rd resyncHold ≠ 0) :
    (∀ p < imgTotal, imgGet p (arriveAll qs m) = imgGet p M) ∧
      ∀ a, Spared qs a → (arriveAll qs m).rd a = m.rd a := by
  obtain ⟨himg, hcells⟩ := arriveAll_spec hqs hhold
  have hwhole : image (arriveAll qs m) = image M := by
    rw [himg]
    have hlen := image_length M
    apply patchAll_eq
    · rw [image_length, hlen]
    · rw [hlen]
      exact fun q hq => (hqs q hq).fits
    · exact fun q hq => (hqs q hq).bytes
    · rw [hlen]
      exact hcov
  refine ⟨fun p hp => ?_, hcells⟩
  have hread := image_getD hp (arriveAll qs m)
  rw [hwhole] at hread
  rw [imgGet_eq, imgGet_eq]
  exact hread.symm.trans (image_getD hp M)

/-- The chunks a push sends are cut from its image. -/
theorem chunkPieces_cut (M : Machine) : ∀ q ∈ chunkPieces (image M) imgTotal 0, CutFrom M q := by
  intro q hq
  obtain ⟨hfits, hfrom, -, hlen⟩ := chunkPieces_from (image_length M) _ _ q hq
  simp only [rsChunk] at hlen
  exact ⟨hfits, hfrom, by omega⟩

/-- A push whose chunks arrive last one first. -/
theorem chunks_commute_reversed :
    (∀ p < imgTotal, imgGet p (arriveAll (chunkPieces (image (blank.wr 0x200 0x1234)) imgTotal
        0).reverse (blank.wr resyncHold 1)) = imgGet p (blank.wr 0x200 0x1234)) ∧
    ∀ a, Spared (chunkPieces (image (blank.wr 0x200 0x1234)) imgTotal 0).reverse a →
      (arriveAll (chunkPieces (image (blank.wr 0x200 0x1234)) imgTotal 0).reverse
        (blank.wr resyncHold 1)).rd a = (blank.wr resyncHold 1).rd a := by
  apply chunks_commute
  · exact fun q hq => chunkPieces_cut _ q (List.mem_reverse.mp hq)
  · intro i hi
    obtain ⟨q, hq, hhas⟩ := chunkPieces_cover (image_length _) i hi
    exact ⟨q, List.mem_reverse.mpr hq, hhas⟩
  · decide

end SharkNetplay.Console
