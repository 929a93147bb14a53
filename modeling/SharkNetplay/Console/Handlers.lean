import SharkNetplay.Console.Transfer

/-!
# The messages of a match

A frame of a running match, taken apart, and what its handler does: one equation on
the view for each kind of message, with the image where a message touches it.

## Implementation notes

LOBBY, START, ROOM, PEER_LEFT and PONG come from the server and are no messages of a
match. A message is handled from `FRMBUF`, so the equations are about a machine that
holds the message's frame there.
-/

namespace SharkNetplay.Console

open Lib Lib.Framing Cell Machine

variable {m m' : Machine}

/-- A message of a match. -/
inductive Msg
  | input (seat tick : Nat) (cells : Nat × Nat)
  | report (seat tick ck : Nat)
  | request (tick : Nat)
  | opening (resume : Nat)
  | piece (q : Piece Nat)
  | closing
  deriving DecidableEq

namespace Msg

/-- The frame of a message. -/
def frame : Msg → List Nat
  | input seat tick cells => inputFrame seat tick cells
  | report seat tick ck => crcFrame seat tick ck
  | request tick => reqFrame tick
  | opening resume => beginFrame resume
  | piece q => (q.values.length + 3) :: ftState :: (q.pos % 256) :: (q.pos / 256) :: q.values
  | closing => endFrame

/-- A message some frame the parser admits can carry. -/
structure Sound (x : Msg) : Prop where
  framed : Framed x.frame
  piece : ∀ q, x = piece q → q.pos < 0xFF00

end Msg

/-- `FRMBUF` holds the frame `f`. -/
structure InBuf (f : List Nat) (m : Machine) : Prop where
  len : m.rd frmBuf + 1 = f.length
  cell : ∀ i (h : i < f.length), m.rd (frmBuf + i) = f[i]

theorem Loaded.inBuf {f rest : List Nat} (h : Loaded f rest m m') : InBuf f m' :=
  ⟨h.len, fun _ hi => h.rd hi⟩

theorem InBuf.logHandled {f : List Nat} (h : InBuf f m) : InBuf f (logHandled m) := ⟨h.len, h.cell⟩

theorem InBuf.range {f : List Nat} (h : InBuf f m) : m.range frmBuf (m.rd frmBuf + 1) = f := by
  rw [h.len]
  refine List.ext_getElem (by simp [Machine.range]) fun i h₁ h₂ => ?_
  simp only [Machine.range, List.getElem_map, List.getElem_range]
  exact h.cell i h₂

theorem InBuf.bytes {f : List Nat} (h : InBuf f m) (hlen : f.length ≤ 128) : ∀ b ∈ f, b < 256 := by
  intro b hb
  obtain ⟨i, hi, rfl⟩ := List.mem_iff_getElem.mp hb
  rw [← h.cell i hi]
  refine m.rd_byte (cellWidth_cart ?_ ?_)
  · simp only [frmBuf]
    omega
  · simp only [frmBuf]
    omega

@[simp] theorem view_logHandled (m : Machine) : (logHandled m).view = m.view := rfl

/-! ## INPUT -/

/-- The tests of `@@of_input`, on the view. -/
theorem inputFresh_eq {s t : Nat} {c : Nat × Nat} (h : InBuf (inputFrame s t c) m)
    (hcount : m.rd netCount ≤ 4) : inputFresh m = m.view.fresh s t := by
  have hlen : m.rd frmBuf = 6 := h.cell 0 (by simp [inputFrame])
  have hs : m.rd (frmBuf + 2) = s := h.cell 2 (by simp [inputFrame])
  have htick : m.pair (frmBuf + 3) (frmBuf + 4) = t := by
    have h₃ : m.rd (frmBuf + 3) = t % 256 := h.cell 3 (by simp [inputFrame])
    have h₄ : m.rd (frmBuf + 4) = t / 256 := h.cell 4 (by simp [inputFrame])
    rw [Machine.pair, h₃, h₄]
    omega
  have hdelta : s < 4 → inputDelta m = m.view.delta s t := by
    intro hs4
    have hwm : m.view.wm s = m.pair (seatWm + s * 2) (seatWm + s * 2 + 1) := by
      rw [Nat.mul_comm s 2]
      exact if_pos hs4
    unfold inputDelta View.delta
    dsimp only
    rw [hs, htick, hwm]
  have hiff : inputFresh m = true ↔ m.view.fresh s t = true := by
    simp only [inputFresh, View.fresh, decide_eq_true_eq, hlen, hs]
    constructor
    · rintro ⟨-, h₁, h₂, h₃, h₄⟩
      rw [hdelta (by omega)] at h₃ h₄
      exact ⟨h₁, h₂, h₃, h₄⟩
    · rintro ⟨h₁, h₂, h₃, h₄⟩
      have hs4 : s < 4 := Nat.lt_of_lt_of_le h₂ hcount
      rw [← hdelta hs4] at h₃ h₄
      exact ⟨Nat.le_refl _, h₁, h₂, h₃, h₄⟩
  exact Bool.eq_iff_iff.mpr hiff

/-- `@@of_input`. -/
theorem view_ofInput {s t : Nat} {c : Nat × Nat} (h : InBuf (inputFrame s t c) m)
    (hcount : m.rd netCount ≤ 4) : (ofInput m).view = m.view.onInput s t c := by
  have hs : m.rd (frmBuf + 2) = s := h.cell 2 (by simp [inputFrame])
  have hlo : m.rd (frmBuf + 3) = t % 256 := h.cell 3 (by simp [inputFrame])
  have hhi : m.rd (frmBuf + 4) = t / 256 := h.cell 4 (by simp [inputFrame])
  have hcur : m.rd (frmBuf + 5) = c.1 := h.cell 5 (by simp [inputFrame])
  have hkp : m.rd (frmBuf + 6) = c.2 := h.cell 6 (by simp [inputFrame])
  have hbytes := h.bytes (by simp [inputFrame])
  have hb₁ : c.1 < 256 := hbytes _ (by simp [inputFrame])
  have hb₂ : c.2 < 256 := hbytes _ (by simp [inputFrame])
  have hb₃ : t / 256 < 256 := hbytes _ (by simp [inputFrame])
  unfold ofInput View.onInput
  rw [inputFresh_eq h hcount]
  by_cases hfresh : m.view.fresh s t = true
  · have hs4 : s < 4 := by
      simp only [View.fresh, decide_eq_true_eq] at hfresh
      exact Nat.lt_of_lt_of_le hfresh.2.1 hcount
    rw [if_pos hfresh, if_pos hfresh]
    extract_lets r3 r4 m₁ m₂
    have hr4 : r4 = seatRing + 256 * s + t % 256 := by
      simp only [r4, hs, hlo, seatRing]
      omega
    have hr4' : (r4 + (seatKp - seatRing)) % 65536 = seatKp + 256 * s + t % 256 := by
      rw [hr4]
      simp only [seatKp, seatRing]
      omega
    have hr3 : r3 = seatWm + 2 * s := by
      simp only [r3, hs]
      omega
    have hframe : ∀ i < 7, m₂.rd (frmBuf + i) = m.rd (frmBuf + i) := by
      intro i hi
      simp only [m₂, m₁, hr4, rd_wr]
      rw [if_neg (by simp only [frmBuf, seatKp]; omega),
        if_neg (by simp only [frmBuf, seatRing]; omega)]
    have hm₂ : m₂.view = m.view.put s (t % 256) c := by
      have hcell : m₁.rd (frmBuf + 6) = c.2 := by
        rw [← hkp]
        simp only [m₁, hr4, rd_wr]
        rw [if_neg (by simp only [frmBuf, seatRing]; omega)]
      show (m₁.wr ((r4 + (seatKp - seatRing)) % 65536) (m₁.rd (frmBuf + 6))).view = _
      rw [hr4', hcell]
      show ((m.wr r4 (m.rd (frmBuf + 5))).wr (seatKp + 256 * s + t % 256) c.2).view = _
      rw [hr4, hcur, view_wr_slot hs4 (Nat.mod_lt _ (by decide)), Nat.mod_eq_of_lt hb₁,
        Nat.mod_eq_of_lt hb₂]
    have htick : t / 256 % 256 * 256 + t % 256 % 256 = t := by omega
    rw [hframe 4 (by decide), hframe 3 (by decide), hlo, hhi, hr3, view_wr_wm hs4, hm₂, htick]
  · rw [if_neg hfresh, if_neg hfresh]

theorem ofInput_quiet (hcount : m.rd netCount ≤ 4) : Writes Quiet m (ofInput m) := by
  unfold ofInput
  split
  · next hfresh =>
      simp only [inputFresh, decide_eq_true_eq] at hfresh
      have hs4 : m.rd (frmBuf + 2) < 4 := Nat.lt_of_lt_of_le hfresh.2.2.1 hcount
      have hlo : m.rd (frmBuf + 3) < 256 := m.rd_byte (by decide)
      extract_lets r3 r4 m₁ m₂
      have hr4 : 0x8400 ≤ r4 ∧ r4 < 0x8800 := by
        simp only [r4, seatRing]
        omega
      have hr3 : 0x81A0 ≤ r3 ∧ r3 ≤ 0x81A6 := by
        simp only [r3, seatWm]
        omega
      refine (((Writes.refl.wr ?_).wr ?_).wr ?_).wr ?_
      · exact quiet_ring (by omega)
      · exact quiet_ring (by simp only [seatKp, seatRing]; omega)
      · exact quiet_wm (by omega)
      · exact quiet_wm (by omega)
  · exact .refl

/-! ## CRC and RESYNC -/

/-- The tests of `RS_ON_CRC`, on the view. -/
theorem crcBad_eq {s t ck : Nat} (h : InBuf (crcFrame s t ck) m) :
    crcBad m = m.view.clashes t ck := by
  have hlen : m.rd frmBuf = 6 := h.cell 0 (by simp [crcFrame])
  have h₃ : m.rd (frmBuf + 3) = t % 256 := h.cell 3 (by simp [crcFrame])
  have h₄ : m.rd (frmBuf + 4) = t / 256 := h.cell 4 (by simp [crcFrame])
  have h₅ : m.rd (frmBuf + 5) = ck % 256 := h.cell 5 (by simp [crcFrame])
  have h₆ : m.rd (frmBuf + 6) = ck / 256 := h.cell 6 (by simp [crcFrame])
  have hslot : crcSlot (t % 256) = ownCrc + t % 256 / 64 * 4 := by
    simp only [crcSlot]
    omega
  have hown : ∀ j < 4, m.rd (ownCrc + t % 256 / 64 * 4 + j) =
      m.view.own (t % 256 / 64 * 4 + j) := by
    intro j hj
    have hlt : t % 256 / 64 * 4 + j < 32 := by omega
    rw [Nat.add_assoc]
    exact (if_pos hlt).symm
  have hhold : m.rd resyncHold = m.view.hold := rfl
  have hpend : m.rd rsPend = m.view.pend := rfl
  have h0 := hown 0 (by decide)
  rw [Nat.add_zero, Nat.add_zero] at h0
  unfold crcBad View.clashes
  dsimp only
  rw [h₃, h₄, h₅, h₆, hslot, h0, hown 1 (by decide), hown 2 (by decide), hown 3 (by decide), hlen,
    hhold, hpend]
  simp only [Nat.le_refl, true_and]

/-- `RS_ON_CRC`. -/
theorem view_rsOnCrc {s t ck : Nat} (h : InBuf (crcFrame s t ck) m) :
    (rsOnCrc m).view = m.view.onCrc t ck := by
  unfold rsOnCrc View.onCrc
  rw [crcBad_eq h]
  by_cases hbad : m.view.clashes t ck = true
  · rw [if_pos hbad, if_pos hbad]
    extract_lets m₁
    have hm₁ : m₁.view = { m.view with pend := 1, ptmo := 0 } := by
      show ((m.wr rsPend 1).wr rsPtmo 0).view = _
      rw [view_wr_ptmo, view_wr_pend]
    split
    · exact hm₁
    · rw [view_mail (sendFrame_writes (by simp) m₁), hm₁]
  · rw [if_neg hbad, if_neg hbad]

theorem rsOnCrc_quiet (m : Machine) : Writes Quiet m (rsOnCrc m) := by
  unfold rsOnCrc
  split
  · extract_lets m₁
    have hm₁ : Writes Quiet m m₁ := by
      refine (Writes.refl.wr ?_).wr ?_
      · exact quiet_of_cell (by decide) (by decide)
      · exact quiet_of_cell (by decide) (by decide)
    split
    · exact hm₁
    · exact hm₁.trans (quiet_mail (sendFrame_writes (by simp) m₁))
  · exact .refl

/-- `RS_ON_REQ`. -/
theorem view_rsOnReq (m : Machine) : (rsOnReq m).view = m.view.onReq := by
  have hseat : m.rd netSeat = m.view.seat := rfl
  have hhold : m.rd resyncHold = m.view.hold := rfl
  have hpend : m.rd rsPend = m.view.pend := rfl
  unfold rsOnReq View.onReq
  rw [hseat, hhold, hpend]
  by_cases hreq : m.view.seat = 0 ∧ m.view.hold = 0 ∧ m.view.pend = 0
  · rw [if_pos hreq, if_pos hreq, view_wr_ptmo, view_wr_pend]
  · rw [if_neg hreq, if_neg hreq]

theorem rsOnReq_quiet (m : Machine) : Writes Quiet m (rsOnReq m) := by
  unfold rsOnReq
  split
  · refine (Writes.refl.wr ?_).wr ?_
    · exact quiet_of_cell (by decide) (by decide)
    · exact quiet_of_cell (by decide) (by decide)
  · exact .refl

/-! ## STATE -/

/-- `RS_ON_STATE` takes the data chunk: a hold is on, and the piece fits the image. -/
def View.takesPiece (q : Piece Nat) (v : View) : Bool :=
  decide (v.hold ≠ 0 ∧ q.values ≠ [] ∧ q.Fits imgTotal)

/-- What the handlers of STATE data write besides image cells. -/
def StateCell (a v : Nat) : Prop := ApplyCell a v ∨ a = diagRej

theorem not_stateCell_of_view {a v : Nat} (ha : ViewCell a) : ¬ StateCell a v := by
  rintro ((⟨hsim, -⟩ | rfl | rfl | rfl | rfl) | rfl)
  · exact not_viewCell_of_sim hsim ha
  all_goals
    simp [ViewCell] at ha

theorem stateCell_aside {a v : Nat} (h : StateCell a v) : ¬ Aside a := by
  intro ha
  have hrange := aside_range ha
  rcases h with (⟨hsim, -⟩ | rfl | rfl | rfl | rfl) | rfl
  · have := simCell_range hsim
    omega
  all_goals
    simp at hrange

theorem image_diagRej (m : Machine) : image (diagBump diagRej m) = image m := by
  have hw : Writes (fun a _ => a = diagRej) m (diagBump diagRej m) :=
    diagBump_writes (fun _ => rfl) .refl
  refine image_congr fun a ha => hw.frame fun v hv => ?_
  rw [hv] at ha
  exact absurd ha (by decide)

/-- What the handler of a data frame writes: a piece that is not taken is counted. -/
def PieceCell (taken : Bool) (a v : Nat) : Prop := ApplyCell a v ∨ a = diagRej ∧ taken = false

theorem PieceCell.stateCell {taken : Bool} {a v : Nat} (h : PieceCell taken a v) : StateCell a v :=
  h.imp_right And.left

/-- The handler of a data frame: the piece goes into the image when it is taken. -/
theorem rsOnState_piece {q : Piece Nat} (h : InBuf (Msg.piece q).frame m)
    (hpos : q.pos < 0xFF00) (hlen : q.values.length ≤ 252) :
    Writes (PieceCell (m.view.takesPiece q)) m (rsOnState m) ∧
      image (rsOnState m) = if m.view.takesPiece q then patch q.pos q.values (image m)
        else image m := by
  have hflen : (Msg.piece q).frame.length = q.values.length + 4 := by simp [Msg.frame]
  have hl : m.rd frmBuf = q.values.length + 3 := h.cell 0 (by simp [Msg.frame])
  have h₂ : m.rd (frmBuf + 2) = q.pos % 256 := h.cell 2 (by simp [Msg.frame])
  have h₃ : m.rd (frmBuf + 3) = q.pos / 256 := h.cell 3 (by simp [Msg.frame])
  have hhold : m.rd resyncHold = m.view.hold := rfl
  have hpair : m.pair (frmBuf + 2) (frmBuf + 3) = q.pos := by
    rw [Machine.pair, h₂, h₃]
    omega
  unfold rsOnState
  rw [if_neg (by omega), h₃, if_neg (by omega)]
  unfold rsOnData
  extract_lets r0 m₁ m₂
  have hr0 : r0 = q.values.length := by
    simp only [r0, hl]
    omega
  have hm₁ : Writes ApplyCell m m₁ := .wr .refl (Or.inr (Or.inr (Or.inl rfl)))
  -- a piece that is not taken only bumps the count
  have hbump : ∀ m' : Machine, m.view.takesPiece q = false →
      Writes (PieceCell (m.view.takesPiece q)) m' (diagBump diagRej m') := fun m' hnot =>
    diagBump_writes (fun _ => Or.inr ⟨rfl, hnot⟩) .refl
  have hbuf₁ : ∀ i, m₁.rd (frmBuf + i) = m.rd (frmBuf + i) := by
    intro i
    simp only [m₁, rd_wr]
    rw [if_neg (by simp only [frmBuf, rsTmp2]; omega)]
  have hpair₁ : m₁.pair (frmBuf + 2) (frmBuf + 3) = q.pos := by
    rw [← hpair, Machine.pair, Machine.pair, hbuf₁, hbuf₁]
  have himg₁ : image m₁ = image m := by
    refine image_congr fun a ha => ?_
    rw [rd_wr, if_neg]
    rintro rfl
    exact absurd ha (by decide)
  by_cases hheld : m.view.hold = 0
  · rw [hhold, if_pos (Or.inl hheld), if_neg (by simp [View.takesPiece, hheld])]
    exact ⟨hbump m (by simp [View.takesPiece, hheld]), image_diagRej m⟩
  by_cases hsome : q.values = []
  · rw [if_pos (Or.inr (by rw [hr0, hsome]; rfl)), if_neg (by simp [View.takesPiece, hsome])]
    exact ⟨hbump m (by simp [View.takesPiece, hsome]), image_diagRej m⟩
  have hpos0 : 0 < q.values.length := List.length_pos_iff.mpr hsome
  rw [hhold, if_neg (by rintro (h | h) <;> omega), hbuf₁, h₃, hpair₁, hr0]
  by_cases hfits : q.pos + q.values.length ≤ imgTotal
  · have htakes : m.view.takesPiece q = true := by
      simp only [View.takesPiece, decide_eq_true_eq]
      exact ⟨hheld, hsome, hfits⟩
    have hno : ¬ (4 ≤ q.pos / 256 ∨ imgTotal + 1 ≤ q.pos + q.values.length) := by
      simp only [imgTotal] at *
      omega
    rw [if_neg hno, if_pos htakes]
    have hm₂ : Writes ApplyCell m m₂ := by
      refine (hm₁.wr ?_).wr ?_
      · exact Or.inr (Or.inr (Or.inr (Or.inl rfl)))
      · exact Or.inr (Or.inr (Or.inr (Or.inr rfl)))
    have hbuf₂ : ∀ i, m₂.rd (frmBuf + i) = m.rd (frmBuf + i) := by
      intro i
      rw [← hbuf₁ i]
      simp only [m₂, rd_wr]
      rw [if_neg (by simp only [frmBuf, rsPosHi]; omega),
        if_neg (by simp only [frmBuf, rsPosLo]; omega)]
    have himg₂ : image m₂ = image m := by
      rw [← himg₁]
      refine image_congr fun a ha => ?_
      have hsim := simCell_range ha
      rw [rd_wr, if_neg (by simp only [rsPosHi]; omega), rd_wr,
        if_neg (by simp only [rsPosLo]; omega)]
    have hpos₂ : m₂.pair rsPosLo rsPosHi = q.pos := by
      show ((m₁.wr rsPosLo (m₁.rd (frmBuf + 2))).wr rsPosHi (m₁.rd (frmBuf + 3))).pair _ _ = _
      rw [hbuf₁, hbuf₁, h₂, h₃]
      simp [Machine.pair, cellWidth]
      simp only [imgTotal] at hfits
      omega
    obtain ⟨hw, himg⟩ := @rsApply_spec m₂ q.values.length (frmBuf + 4) _ hpos₂ hfits
      (by simp only [frmBuf]; omega) (by simp only [frmBuf]; omega)
    refine ⟨(hm₂.trans hw).mono fun _ _ => Or.inl, ?_⟩
    have hrange : m₂.range (frmBuf + 4) q.values.length = q.values := by
      refine List.ext_getElem (by simp [Machine.range]) fun i hi₁ hi₂ => ?_
      have hcell := h.cell (i + 4) (by omega)
      simp only [Machine.range, List.getElem_map, List.getElem_range]
      rw [Nat.add_assoc, hbuf₂, Nat.add_comm 4 i, hcell]
      simp [Msg.frame]
    rw [himg, hrange, himg₂]
  · have hyes : 4 ≤ q.pos / 256 ∨ imgTotal + 1 ≤ q.pos + q.values.length := Or.inr (by omega)
    have hnot : ¬ m.view.takesPiece q = true := by
      simp only [View.takesPiece, decide_eq_true_eq]
      exact fun h => hfits h.2.2
    rw [if_pos hyes, if_neg hnot]
    exact ⟨(hm₁.mono fun _ _ => Or.inl).trans (hbump m₁ (Bool.eq_false_iff.mpr hnot)),
      (image_diagRej m₁).trans himg₁⟩

/-- `RS_ON_STATE`, BEGIN. -/
theorem view_rsOnState_opening {r : Nat} (h : InBuf (beginFrame r) m) :
    (rsOnState m).view = m.view.enter r := by
  have hlen : m.rd frmBuf = 5 := h.cell 0 (by simp [beginFrame])
  have h₂ : m.rd (frmBuf + 2) = 0 := h.cell 2 (by simp [beginFrame])
  have h₃ : m.rd (frmBuf + 3) = 0xFF := h.cell 3 (by simp [beginFrame])
  have h₄ : m.rd (frmBuf + 4) = r % 256 := h.cell 4 (by simp [beginFrame])
  have h₅ : m.rd (frmBuf + 5) = r / 256 := h.cell 5 (by simp [beginFrame])
  have hr : r / 256 < 256 := h.bytes (by simp [beginFrame]) _ (by simp [beginFrame])
  have hbuf : ∀ i < 6, (rsEnterHold m).rd (frmBuf + i) = m.rd (frmBuf + i) := by
    intro i hi
    refine (rsEnterHold_hold m).frame fun v hv => ?_
    simp only [HoldCell, resyncHold, rsToLo, rsToHi, frmBuf] at hv
    omega
  unfold rsOnState
  rw [hlen, if_neg (by decide), if_pos h₃]
  unfold rsOnCtl
  rw [if_pos h₂, hlen, if_neg (by decide)]
  dsimp only
  have hbytes : r / 256 % 256 * 256 + r % 256 % 256 = r := by omega
  rw [hbuf 5 (by decide), hbuf 4 (by decide), h₄, h₅, view_wr_resume, view_rsEnterHold, hbytes]
  rfl

/-- `RS_ON_STATE`, END. -/
theorem rsOnState_closing (h : InBuf endFrame m) :
    rsOnState m = if m.view.hold = 0 then m else rsRebase m := by
  have hlen : m.rd frmBuf = 3 := h.cell 0 (by decide)
  have h₂ : m.rd (frmBuf + 2) = 1 := h.cell 2 (by decide)
  have h₃ : m.rd (frmBuf + 3) = 0xFF := h.cell 3 (by decide)
  have hhold : m.rd resyncHold = m.view.hold := rfl
  unfold rsOnState
  rw [hlen, if_neg (by decide), if_pos h₃]
  unfold rsOnCtl
  rw [h₂, if_neg (by decide), hhold]
  by_cases hheld : m.view.hold = 0
  · rw [if_neg (fun h => h.2 hheld), if_pos hheld]
  · rw [if_pos ⟨rfl, hheld⟩, if_neg hheld]

/-- What a new baseline writes after the clamps. -/
def BaseCell (a _v : Nat) : Prop :=
  a = tickLo ∨ a = tickHi ∨ (0x8400 ≤ a ∧ a ≤ 0x8C1F) ∨ (0x81A0 ≤ a ∧ a ≤ 0x81A7) ∨
    a = resyncHold ∨ a = rsToLo ∨ a = rsToHi ∨ a = lsWaitcLo ∨ a = lsWaitcHi

theorem not_baseCell_of_sim {a : Nat} (ha : simCell a = true) (v : Nat) : ¬ BaseCell a v := by
  have hsim := simCell_range ha
  simp only [BaseCell, tickLo, tickHi, resyncHold, rsToLo, rsToHi, lsWaitcLo, lsWaitcHi]
  omega

theorem lsRingInit_base (m : Machine) : Writes BaseCell m (lsRingInit m) := by
  refine .fill (.fill .refl fun i hi => ?_) fun i hi => ?_
  · simp only [BaseCell, seatRing]
    omega
  · simp only [BaseCell, seatKp]
    omega

theorem putWm_base {n a lo hi : Nat} (ha : seatWm ≤ a) (hn : a + 2 * n ≤ seatWm + 8)
    (m : Machine) : Writes BaseCell m (putWm a n lo hi m) := by
  induction n generalizing a m with
  | zero => exact .refl
  | succ n ih =>
      simp only [seatWm] at *
      have hstep : Writes BaseCell m ((m.wr a lo).wr (a + 1) hi) := by
        refine (Writes.refl.wr ?_).wr ?_
        · simp only [BaseCell]
          omega
        · simp only [BaseCell]
          omega
      exact hstep.trans (ih (by omega) (by omega) _)

theorem rsClrCrc_base (m : Machine) : Writes BaseCell m (rsClrCrc m) := by
  refine .fill .refl fun i hi => ?_
  simp only [BaseCell, ownCrc]
  omega

/-- `RS_REBASE` up to the clamps of what the image carried in. -/
def rsSanitize (m : Machine) : Machine :=
  ssRebaseHook (rsClampIsr (rsDisplayReset ((m.wr rsPend 0).wr rsPtmo 0)))

/-- The rest of `RS_REBASE`. -/
theorem rsRebase_base (m : Machine) : Writes BaseCell (rsSanitize m) (rsRebase m) := by
  unfold rsRebase
  extract_lets m₁ m₂ m₃ m₄ r1 m₅ m₆ m₇ m₈
  have h₃ : Writes BaseCell m₂ m₃ := by
    refine (Writes.refl.wr ?_).wr ?_ <;> simp [BaseCell]
  have h₅ : Writes BaseCell m₂ m₅ :=
    (h₃.trans (lsRingInit_base m₃)).trans (putWm_base (Nat.le_refl _) (by decide) m₄)
  have h₆ : Writes BaseCell m₂ m₆ := h₅.trans (rsClrCrc_base m₅)
  refine .note (((((h₆.wr ?_).wr ?_).wr ?_).wr ?_).wr ?_)
  all_goals simp [BaseCell]

/-- What the clamps write. -/
def ClampCell (a _v : Nat) : Prop :=
  a = rsPend ∨ a = rsPtmo ∨ (0x28 ≤ a ∧ a ≤ 0x32) ∨ a = scIsrSave ∨ a = scIsrSave + 1 ∨
    a = isrLo ∨ a = isrHi ∨ a = ssPcount

theorem rsSanitize_clamp (m : Machine) : Writes ClampCell m (rsSanitize m) := by
  have hpend : Writes ClampCell m ((m.wr rsPend 0).wr rsPtmo 0) := by
    refine (Writes.refl.wr ?_).wr ?_ <;> simp [ClampCell]
  have hdisp : Writes ClampCell m (rsDisplayReset ((m.wr rsPend 0).wr rsPtmo 0)) := by
    refine .copy (hpend.wr (by simp [ClampCell])) fun i hi v => ?_
    simp only [ClampCell]
    omega
  refine .wr ((((hdisp.wr ?_).wr ?_).wr ?_).wr ?_) ?_
  all_goals simp [ClampCell]

/-- What a new baseline writes. -/
theorem rsRebase_cells (m : Machine) :
    Writes (fun a v => ClampCell a v ∨ BaseCell a v) m (rsRebase m) :=
  ((rsSanitize_clamp m).mono fun _ _ => Or.inl).trans
    ((rsRebase_base m).mono fun _ _ => Or.inr)

theorem rsRebase_apart (m : Machine) : Apart m (rsRebase m) := by
  refine (rsRebase_cells m).apart fun a v hv ha => ?_
  have hrange := aside_range ha
  simp only [ClampCell, BaseCell, rsPend, rsPtmo, scIsrSave, isrLo, isrHi, ssPcount, tickLo,
    tickHi, resyncHold, rsToLo, rsToHi, lsWaitcLo, lsWaitcHi] at hv
  omega

/-- The saved vector and the live one after a new baseline. -/
theorem isr_rsRebase (m : Machine) :
    (rsRebase m).rd scIsrSave = execIsrDef % 256 ∧
      (rsRebase m).rd (scIsrSave + 1) = execIsrDef / 256 ∧
      (rsRebase m).rd isrLo = execIsrDef % 256 ∧ (rsRebase m).rd isrHi = execIsrDef / 256 := by
  have hbase : ∀ a < 0x200, (rsRebase m).rd a = (rsSanitize m).rd a := by
    intro a ha
    refine (rsRebase_base m).frame fun v hv => ?_
    simp only [BaseCell, tickLo, tickHi, resyncHold, rsToLo, rsToHi, lsWaitcLo, lsWaitcHi] at hv
    omega
  rw [hbase _ (by decide), hbase _ (by decide), hbase _ (by decide), hbase _ (by decide)]
  unfold rsSanitize
  generalize rsDisplayReset ((m.wr rsPend 0).wr rsPtmo 0) = m₁
  simp [rsClampIsr, ssRebaseHook, cellWidth]

/-- `SS_REBASE_HOOK` on the cell. -/
def clampCount (r0 : Nat) : Nat := if 0 < min r0 2 then min r0 2 else 1

/-- The image after a new baseline: the saved vector and the player count are clamped. -/
def cleanImage (img : List Nat) : List Nat :=
  ((img.set 2 (execIsrDef % 256)).set 3 (execIsrDef / 256)).set 21 (clampCount (img.getD 21 0))

theorem image_getElem {p : Nat} (hp : p < (image m).length) :
    (image m)[p] = imgByte p (m.rd (imgCell p)) := by
  simp only [image, List.getElem_map, List.getElem_range]
  exact imgGet_eq p m

theorem image_getD {p : Nat} (hp : p < imgTotal) (m : Machine) :
    (image m).getD p 0 = imgByte p (m.rd (imgCell p)) := by
  have hlt : p < (image m).length := by
    rw [image_length]
    exact hp
  rw [List.getD_eq_getElem _ _ hlt, image_getElem]

theorem image_rsRebase (m : Machine) : image (rsRebase m) = cleanImage (image m) := by
  have hbase : image (rsRebase m) = image (rsSanitize m) :=
    image_congr fun a ha => (rsRebase_base m).frame (not_baseCell_of_sim ha)
  have hcount : (image m).getD 21 0 = m.rd ssPcount := image_getD (by decide) m
  have hkeep : ∀ a, simCell a = true → a ≠ scIsrSave → a ≠ scIsrSave + 1 → a ≠ ssPcount →
      (rsSanitize m).rd a = m.rd a := by
    intro a ha h₁ h₂ h₃
    have hsim := simCell_range ha
    refine (rsSanitize_clamp m).frame fun v hv => ?_
    simp only [ClampCell, rsPend, rsPtmo, isrLo, isrHi] at hv
    simp only [scIsrSave, ssPcount] at *
    omega
  have hlo : (rsSanitize m).rd scIsrSave = execIsrDef % 256 := by
    unfold rsSanitize
    generalize rsDisplayReset ((m.wr rsPend 0).wr rsPtmo 0) = m₁
    simp [rsClampIsr, ssRebaseHook, cellWidth]
  have hhi : (rsSanitize m).rd (scIsrSave + 1) = execIsrDef / 256 := by
    unfold rsSanitize
    generalize rsDisplayReset ((m.wr rsPend 0).wr rsPtmo 0) = m₁
    simp [rsClampIsr, ssRebaseHook, cellWidth]
  have hpc : (rsSanitize m).rd ssPcount = clampCount (m.rd ssPcount) := by
    have hsame : (rsClampIsr (rsDisplayReset ((m.wr rsPend 0).wr rsPtmo 0))).rd ssPcount =
        m.rd ssPcount := by
      unfold rsClampIsr
      dsimp only
      rw [rd_wr, if_neg (by decide), rd_wr, if_neg (by decide), rd_wr, if_neg (by decide), rd_wr,
        if_neg (by decide), rsDisplayReset_frame (by decide), rd_wr, if_neg (by decide), rd_wr,
        if_neg (by decide)]
    have hlt : clampCount (m.rd ssPcount) < 256 := by
      unfold clampCount
      split <;> omega
    unfold rsSanitize ssRebaseHook
    dsimp only
    rw [hsame, rd_wr, if_pos rfl]
    exact Nat.mod_eq_of_lt hlt
  rw [hbase, cleanImage, hcount]
  refine List.ext_getElem (by simp [image_length]) fun p h₁ h₂ => ?_
  have hp : p < imgTotal := by
    rw [image_length] at h₁
    exact h₁
  have hother : ∀ q < imgS1, p ≠ q → imgCell p ≠ imgCell q := by
    intro q hq hne h
    have hle : imgS1 ≤ imgS2 ∧ imgS1 ≤ imgTotal := by decide
    have hcase := imgCell_eq (show q < imgTotal by omega) hp h
    omega
  rw [image_getElem, List.getElem_set, List.getElem_set, List.getElem_set, image_getElem]
  by_cases h21 : p = 21
  · subst h21
    rw [if_pos rfl]
    exact (imgByte_whole (Or.inl (by decide)) _).trans hpc
  by_cases h3 : p = 3
  · subst h3
    rw [if_neg (by decide), if_pos rfl]
    exact (imgByte_whole (Or.inl (by decide)) _).trans hhi
  by_cases h2 : p = 2
  · subst h2
    rw [if_neg (by decide), if_neg (by decide), if_pos rfl]
    exact (imgByte_whole (Or.inl (by decide)) _).trans hlo
  · rw [if_neg (Ne.symm h21), if_neg (Ne.symm h3), if_neg (Ne.symm h2),
      hkeep _ (simCell_imgCell hp) (hother 2 (by decide) h2) (hother 3 (by decide) h3)
        (hother 21 (by decide) h21)]

/-! ## Any message -/

namespace View

/-- The message is taken: an INPUT stored, or a CRC that sets `RS_PEND`. -/
def takes (v : View) : Msg → Bool
  | .input s t _ => v.fresh s t
  | .report _ t ck => v.clashes t ck
  | _ => false

/-- What the handler sends. -/
def replies (v : View) : Msg → List Msg
  | .report _ t ck => if v.clashes t ck = true ∧ v.seat ≠ 0 then [.request t] else []
  | _ => []

/-- The handler adopts a new baseline. -/
def adopts (v : View) : Msg → Bool
  | .closing => decide (v.hold ≠ 0)
  | _ => false

/-- The view after a message. -/
def onMsg (v : View) : Msg → View
  | .input s t c => v.onInput s t c
  | .report _ t ck => v.onCrc t ck
  | .request _ => v.onReq
  | .opening r => v.enter r
  | .piece _ => v
  | .closing => v.onEnd

/-- The image after a message. -/
def onImage (v : View) (img : List Nat) : Msg → List Nat
  | .piece q => if v.takesPiece q then patch q.pos q.values img else img
  | .closing => if v.hold = 0 then img else cleanImage img
  | _ => img

end View

/-- What a message changes, from the loaded frame on. -/
structure Took (x : Msg) (m m' : Machine) : Prop where
  view : m'.view = m.view.onMsg x
  image : image m' = m.view.onImage (image m) x
  apart : Apart m m'
  table : m'.rd execHtbl = m.rd execHtbl

/-- What the handler of a message puts on the record. -/
structure Logged (x : Msg) (m m' : Machine) : Prop where
  hist : ∃ l : List (List Nat), l.Sublist ((m.view.replies x).map Msg.frame) ∧
    (Willing m → l = (m.view.replies x).map Msg.frame ∧ Willing m') ∧
    m'.hist = { m.hist with
      handled := m.hist.handled ++ [⟨m.hist.stamp, x.frame, m.view.takes x⟩]
      sent := m.hist.sent ++ l.map fun f => (m.hist.stamp, f)
      stamp := if m.view.adopts x then ⟨m.hist.stamp.epoch + 1, 0⟩ else m.hist.stamp }

theorem image_quiet (h : Writes Quiet m m') : image m' = image m :=
  image_congr fun _ ha => h.sim_cell ha

/-- A handler that leaves simulation and queue alone. -/
theorem Took.of_quiet {x : Msg} (h : Writes Quiet m m') (hview : m'.view = m.view.onMsg x)
    (himg : m.view.onImage (Console.image m) x = Console.image m) : Took x m m' where
  view := hview
  image := (image_quiet h).trans himg.symm
  apart := h.quiet_apart
  table := h.frame fun _ hv => absurd hv.1 (by decide)

/-- The frame goes on the record. -/
theorem hist_logHandled {f : List Nat} (h : InBuf f m) :
    (logHandled m).hist = { m.hist with
      handled := m.hist.handled ++ [⟨m.hist.stamp, f, frameTaken m⟩] } := by
  unfold logHandled
  rw [hist_note, h.range]

/-- The record of a handler that sends nothing and keeps its baseline. -/
theorem Logged.silent {x : Msg} (hbuf : InBuf x.frame m)
    (hhist : m'.hist = (logHandled m).hist) (hans : m'.answers = m.answers)
    (htaken : frameTaken m = m.view.takes x) (hrep : m.view.replies x = [])
    (hadopt : m.view.adopts x = false) : Logged x m m' := by
  refine ⟨[], List.nil_sublist _, fun hw => ⟨by rw [hrep]; rfl, fun a ha => hw a (hans ▸ ha)⟩, ?_⟩
  rw [hhist, hadopt, ← htaken, hist_logHandled hbuf]
  simp

/-! Which handler `SES_ONFRAME` picks. -/

theorem sesOnframe_input (h : m.rd (frmBuf + 1) = ftInput) :
    sesOnframe m = ofInput (logHandled m) := by
  unfold sesOnframe
  extract_lets m₁ ty
  have hty : ty = ftInput := h
  rw [hty]
  rfl

theorem sesOnframe_report (h : m.rd (frmBuf + 1) = ftCrc) :
    sesOnframe m = rsOnCrc (logHandled m) := by
  unfold sesOnframe
  extract_lets m₁ ty
  have hty : ty = ftCrc := h
  rw [hty]
  rfl

theorem sesOnframe_request (h : m.rd (frmBuf + 1) = ftResync) :
    sesOnframe m = rsOnReq (logHandled m) := by
  unfold sesOnframe
  extract_lets m₁ ty
  have hty : ty = ftResync := h
  rw [hty]
  rfl

theorem sesOnframe_state (h : m.rd (frmBuf + 1) = ftState) :
    sesOnframe m = rsOnState (logHandled m) := by
  unfold sesOnframe
  extract_lets m₁ ty
  have hty : ty = ftState := h
  rw [hty]
  rfl

theorem frameTaken_other (h₁ : m.rd (frmBuf + 1) ≠ ftInput) (h₂ : m.rd (frmBuf + 1) ≠ ftCrc) :
    frameTaken m = false := by
  unfold frameTaken
  rw [if_neg h₁, if_neg h₂]

/-! ### Each kind -/

theorem took_input {s t : Nat} {c : Nat × Nat} (h : InBuf (Msg.input s t c).frame m)
    (hcount : m.rd netCount ≤ 4) :
    Took (.input s t c) m (sesOnframe m) ∧ Logged (.input s t c) m (sesOnframe m) := by
  have hty : m.rd (frmBuf + 1) = ftInput := h.cell 1 (by simp [Msg.frame, inputFrame])
  rw [sesOnframe_input hty]
  constructor
  · exact .of_quiet (ofInput_quiet hcount) (view_ofInput h.logHandled hcount) rfl
  · refine .silent h ?_ ?_ ?_ rfl rfl
    · unfold ofInput
      split <;> rfl
    · unfold ofInput
      split <;> rfl
    · unfold frameTaken
      rw [if_pos hty, inputFresh_eq h hcount]
      rfl

theorem took_report {s t ck : Nat} (h : InBuf (Msg.report s t ck).frame m) :
    Took (.report s t ck) m (sesOnframe m) ∧ Logged (.report s t ck) m (sesOnframe m) := by
  have hty : m.rd (frmBuf + 1) = ftCrc := h.cell 1 (by simp [Msg.frame, crcFrame])
  have h₃ : m.rd (frmBuf + 3) = t % 256 := h.cell 3 (by simp [Msg.frame, crcFrame])
  have h₄ : m.rd (frmBuf + 4) = t / 256 := h.cell 4 (by simp [Msg.frame, crcFrame])
  have htick : m.pair (frmBuf + 3) (frmBuf + 4) = t := by
    rw [Machine.pair, h₃, h₄]
    omega
  rw [sesOnframe_report hty]
  constructor
  · exact .of_quiet (rsOnCrc_quiet _) (view_rsOnCrc h.logHandled) rfl
  · have htaken : frameTaken m = m.view.takes (.report s t ck) := by
      unfold frameTaken
      rw [if_neg (by rw [hty]; decide), if_pos hty, crcBad_eq h]
      rfl
    obtain ⟨l, hl, hw, hh⟩ := rsOnCrc_emits (logHandled m)
    have hrep : (if crcBad (logHandled m) = true ∧ (logHandled m).rd netSeat ≠ 0 then
        [reqFrame ((logHandled m).pair (frmBuf + 3) (frmBuf + 4))] else []) =
        (m.view.replies (.report s t ck)).map Msg.frame := by
      have hbad : crcBad (logHandled m) = m.view.clashes t ck := crcBad_eq h.logHandled
      have hpair : (logHandled m).pair (frmBuf + 3) (frmBuf + 4) = t := htick
      have hseat : (logHandled m).rd netSeat = m.view.seat := rfl
      rw [hbad, hpair, hseat]
      simp only [View.replies]
      by_cases hreply : m.view.clashes t ck = true ∧ m.view.seat ≠ 0
      · rw [if_pos hreply, if_pos hreply]
        rfl
      · rw [if_neg hreply, if_neg hreply]
        rfl
    rw [hrep] at hl hw
    refine ⟨l, hl, hw, ?_⟩
    rw [hh, ← htaken, hist_logHandled h]
    simp [View.adopts]

theorem took_request {t : Nat} (h : InBuf (Msg.request t).frame m) :
    Took (.request t) m (sesOnframe m) ∧ Logged (.request t) m (sesOnframe m) := by
  have hty : m.rd (frmBuf + 1) = ftResync := h.cell 1 (by simp [Msg.frame, reqFrame])
  rw [sesOnframe_request hty]
  constructor
  · exact .of_quiet (rsOnReq_quiet _) (view_rsOnReq _) rfl
  · refine .silent h ?_ ?_ (frameTaken_other ?_ ?_) rfl rfl
    · unfold rsOnReq
      split <;> rfl
    · unfold rsOnReq
      split <;> rfl
    · rw [hty]
      decide
    · rw [hty]
      decide

theorem took_opening {r : Nat} (h : InBuf (Msg.opening r).frame m) :
    Took (.opening r) m (sesOnframe m) ∧ Logged (.opening r) m (sesOnframe m) := by
  have hty : m.rd (frmBuf + 1) = ftState := h.cell 1 (by simp [Msg.frame, beginFrame])
  have hlen : (logHandled m).rd frmBuf = 5 := h.cell 0 (by simp [Msg.frame, beginFrame])
  have h₂ : (logHandled m).rd (frmBuf + 2) = 0 := h.cell 2 (by simp [Msg.frame, beginFrame])
  have h₃ : (logHandled m).rd (frmBuf + 3) = 0xFF := h.cell 3 (by simp [Msg.frame, beginFrame])
  have heq : rsOnState (logHandled m) =
      ((rsEnterHold (logHandled m)).wr rsRLo ((rsEnterHold (logHandled m)).rd (frmBuf + 4))).wr
        rsRHi (((rsEnterHold (logHandled m)).wr rsRLo
          ((rsEnterHold (logHandled m)).rd (frmBuf + 4))).rd (frmBuf + 5)) := by
    unfold rsOnState
    rw [hlen, if_neg (by decide), if_pos h₃]
    unfold rsOnCtl
    rw [if_pos h₂, hlen, if_neg (by decide)]
    dsimp only
    rw [rd_wr, if_neg (by decide)]
  have hquiet : Writes Quiet m (rsOnState (logHandled m)) := by
    rw [heq]
    refine .wr (.wr ((rsEnterHold_hold (logHandled m)).mono fun a v hv => ?_) ?_) ?_
    · rcases hv with rfl | rfl | rfl | hv
      · exact quiet_of_cell (by decide) (by decide)
      · exact quiet_of_cell (by decide) (by decide)
      · exact quiet_of_cell (by decide) (by decide)
      · exact quiet_ring (by omega)
    · exact quiet_of_cell (by decide) (by decide)
    · exact quiet_of_cell (by decide) (by decide)
  rw [sesOnframe_state hty]
  constructor
  · exact .of_quiet hquiet (view_rsOnState_opening h.logHandled) rfl
  · refine .silent h ?_ ?_ (frameTaken_other ?_ ?_) rfl rfl
    · rw [heq]
      simp [rsEnterHold, rsClrCrc]
    · rw [heq]
      simp [rsEnterHold, rsClrCrc]
      rfl
    · rw [hty]
      decide
    · rw [hty]
      decide

@[simp] theorem hist_imgPut (b p : Nat) (m : Machine) : (imgPut b p m).hist = m.hist := by
  unfold imgPut putHalf
  dsimp only
  split_ifs <;> rfl

@[simp] theorem answers_imgPut (b p : Nat) (m : Machine) : (imgPut b p m).answers = m.answers := by
  unfold imgPut putHalf
  dsimp only
  split_ifs <;> rfl

@[simp] theorem hist_rsApply (n r3 : Nat) (m : Machine) : (rsApply n r3 m).hist = m.hist := by
  induction n generalizing r3 m with
  | zero => rfl
  | succ n ih =>
      unfold rsApply
      dsimp only
      rw [ih]
      split <;> simp

@[simp] theorem answers_rsApply (n r3 : Nat) (m : Machine) :
    (rsApply n r3 m).answers = m.answers := by
  induction n generalizing r3 m with
  | zero => rfl
  | succ n ih =>
      unfold rsApply
      dsimp only
      rw [ih]
      split <;> simp

theorem rsOnData_silent (m : Machine) :
    (rsOnData m).hist = m.hist ∧ (rsOnData m).answers = m.answers := by
  unfold rsOnData
  dsimp only
  split_ifs <;> simp

theorem took_piece {q : Piece Nat} (h : InBuf (Msg.piece q).frame m) (hpos : q.pos < 0xFF00)
    (hlen : q.values.length ≤ 96) :
    Took (.piece q) m (sesOnframe m) ∧ Logged (.piece q) m (sesOnframe m) := by
  have hty : m.rd (frmBuf + 1) = ftState := h.cell 1 (by simp [Msg.frame])
  obtain ⟨hpiece, himg⟩ := rsOnState_piece h.logHandled hpos (by omega)
  have hw : Writes StateCell (logHandled m) (rsOnState (logHandled m)) :=
    hpiece.mono fun _ _ => PieceCell.stateCell
  have hl : (logHandled m).rd frmBuf = q.values.length + 3 := h.cell 0 (by simp [Msg.frame])
  have h₃ : (logHandled m).rd (frmBuf + 3) = q.pos / 256 := h.cell 3 (by simp [Msg.frame])
  have hdata : rsOnState (logHandled m) = rsOnData (logHandled m) := by
    unfold rsOnState
    rw [if_neg (by omega), if_neg (by omega)]
  rw [sesOnframe_state hty]
  constructor
  · refine ⟨?_, himg, ?_, ?_⟩
    · exact view_writes hw fun a v hv ha => not_stateCell_of_view ha hv
    · exact hw.apart fun a v hv ha => stateCell_aside hv ha
    · refine hw.frame fun v hv => ?_
      rcases hv with (⟨-, hne⟩ | hv | hv | hv | hv) | hv
      · exact hne rfl
      all_goals exact absurd hv (by decide)
  · refine .silent h ?_ ?_ (frameTaken_other ?_ ?_) rfl rfl
    · rw [hdata, (rsOnData_silent _).1]
    · rw [hdata, (rsOnData_silent _).2]
      rfl
    · rw [hty]
      decide
    · rw [hty]
      decide

theorem took_closing (h : InBuf (Msg.closing).frame m) :
    Took .closing m (sesOnframe m) ∧ Logged .closing m (sesOnframe m) := by
  have hty : m.rd (frmBuf + 1) = ftState := h.cell 1 (by decide)
  have hview : (logHandled m).view = m.view := rfl
  have htaken : frameTaken m = m.view.takes .closing := by
    refine frameTaken_other ?_ ?_ <;> rw [hty] <;> decide
  rw [sesOnframe_state hty, rsOnState_closing h.logHandled, hview]
  by_cases hheld : m.view.hold = 0
  · rw [if_pos hheld]
    constructor
    · refine .of_quiet .refl ?_ ?_
      · rw [hview]
        exact (if_pos hheld).symm
      · exact if_pos hheld
    · exact .silent h rfl rfl htaken rfl (by simp [View.adopts, hheld])
  · rw [if_neg hheld]
    have hw := rsRebase_cells (logHandled m)
    constructor
    · refine ⟨?_, ?_, rsRebase_apart (logHandled m), ?_⟩
      · rw [view_rsRebase, hview]
        exact (if_neg hheld).symm
      · rw [image_rsRebase]
        exact (if_neg hheld).symm
      · refine hw.frame fun v hv => ?_
        simp [ClampCell, BaseCell] at hv
    · refine ⟨[], List.nil_sublist _, fun hwill => ⟨rfl, fun a ha => hwill a ?_⟩, ?_⟩
      · rw [answers_rsRebase] at ha
        exact ha
      · rw [hist_rsRebase, hist_logHandled h, ← htaken]
        simp [View.adopts, hheld]

/-- The messages `RS_ON_STATE` handles. -/
def Msg.IsState : Msg → Prop
  | .opening _ => True
  | .piece _ => True
  | .closing => True
  | _ => False

/-- The handler of a STATE message, from `FRMBUF`. -/
theorem took_state {x : Msg} (h : InBuf x.frame m) (hstate : x.IsState) (hx : x.Sound) :
    Took x m (sesOnframe m) ∧ Logged x m (sesOnframe m) := by
  cases x with
  | opening r => exact took_opening h
  | piece q =>
      obtain ⟨len, ty, tail, hframe, hlen, hok⟩ := hx.framed.wellFormed.cases_eq
      have hbound := headOk_bounds hok
      simp only [Msg.frame, List.cons.injEq] at hframe
      exact took_piece h (hx.piece q rfl) (by omega)
  | closing => exact took_closing h
  | input s t c => exact hstate.elim
  | report s t ck => exact hstate.elim
  | request t => exact hstate.elim

/-- The handler of a message, from `FRMBUF`. -/
theorem took_msg {x : Msg} (h : InBuf x.frame m) (hcount : m.rd netCount ≤ 4) (hx : x.Sound) :
    Took x m (sesOnframe m) ∧ Logged x m (sesOnframe m) := by
  cases x with
  | input s t c => exact took_input h hcount
  | report s t ck => exact took_report h
  | request t => exact took_request h
  | opening r => exact took_state h trivial hx
  | piece q => exact took_state h trivial hx
  | closing => exact took_state h trivial hx

/-- A round of the parser with a message at the head of the queue. -/
theorem parse_msg {x : Msg} {rest : List Nat} (h : cut headOk (buffered m) = .frame x.frame rest) :
    ppParse m = some (sesOnframe (ppLoad m)) ∧ Loaded x.frame rest m (ppLoad m) ∧
      (ppLoad m).view = m.view ∧ image (ppLoad m) = image m := by
  have hload := ppLoad_loaded h
  refine ⟨by rw [ppParse_eq, h], hload, hload.view, ?_⟩
  refine image_congr fun a ha => ?_
  have hsim := simCell_range ha
  refine hload.frame a ?_ ?_
  · simp only [rxRd]
    omega
  · omega

end SharkNetplay.Console
