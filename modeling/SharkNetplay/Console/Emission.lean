import SharkNetplay.Console.SessionBounds

/-!
# The frames a console sends

What each routine of the console offers to `NET_WRITE`, frame by frame. The
frames of a push carry the state image as it is when the push begins.
-/

namespace SharkNetplay.Console

open Lib Lib.Framing Cell Machine

variable {m m' m'' : Machine}

namespace Machine

/-- The peripheral carries out every coming `NET_WRITE`. -/
def Willing (m : Machine) : Prop := ∀ a ∈ m.answers, a.performed = true

/-- The routine offers the frames of `fs` in this order, and those that are carried out
go on the record. -/
def Emits (fs : List (List Nat)) (m m' : Machine) : Prop :=
  ∃ l : List (List Nat), l.Sublist fs ∧ (Willing m → l = fs ∧ Willing m') ∧
    m'.hist = { m.hist with sent := m.hist.sent ++ l.map fun f => (m.hist.stamp, f) }

namespace Emits

variable {fs gs : List (List Nat)}

/-- Nothing is sent by a routine that leaves the record and the answers alone. -/
theorem silent (hhist : m'.hist = m.hist) (hans : m'.answers = m.answers) : Emits [] m m' :=
  ⟨[], List.Sublist.refl _, fun h => ⟨rfl, fun a ha => h a (hans ▸ ha)⟩, by simp [hhist]⟩

theorem trans (h₁ : Emits fs m m') (h₂ : Emits gs m' m'') : Emits (fs ++ gs) m m'' := by
  obtain ⟨l₁, hl₁, hw₁, hh₁⟩ := h₁
  obtain ⟨l₂, hl₂, hw₂, hh₂⟩ := h₂
  refine ⟨l₁ ++ l₂, hl₁.append hl₂, fun h => ?_, ?_⟩
  · obtain ⟨rfl, h'⟩ := hw₁ h
    obtain ⟨rfl, h''⟩ := hw₂ h'
    exact ⟨rfl, h''⟩
  · rw [hh₂, hh₁]
    simp

end Emits

end Machine

/-! ## One frame -/

theorem netWrite_emits (m : Machine) :
    Emits [m.range fnTx (m.pair nreqLo nreqHi)] m (netWrite m) := by
  have hhist := hist_netWrite m
  have htail : Willing m → Willing (netWrite m) := fun h a ha =>
    h a (List.mem_of_mem_tail (answers_netWrite m ▸ ha))
  cases hperf : (nextAnswer m).performed with
  | true =>
      rw [hperf, if_pos rfl] at hhist
      exact ⟨_, List.Sublist.refl _, fun h => ⟨rfl, htail h⟩, by rw [hhist]; rfl⟩
  | false =>
      rw [hperf, if_neg (by simp)] at hhist
      refine ⟨[], List.nil_sublist _, fun h => ?_, by rw [hhist]; simp⟩
      -- a peripheral that turns a command down is not willing
      have hnext : (nextAnswer m).performed = true := by
        unfold nextAnswer
        cases ha : m.answers with
        | nil => rfl
        | cons a rest => exact h a (by simp [ha])
      rw [hperf] at hnext
      exact Bool.noConfusion hnext

/-- The bytes staged at `FN_TX`, as `NET_WRITE` finds them. -/
theorem range_putList {vs : List Nat} (hlen : vs.length < 256) (m : Machine) :
    (m.putList fnTx vs).range fnTx vs.length = vs.map (· % 256) := by
  refine List.ext_getElem (by simp [Machine.range]) fun i h₁ h₂ => ?_
  have hi : i < vs.length := by simpa using h₂
  have hw : cellWidth (fnTx + i) = 256 := by
    simp only [fnTx]
    exact cellWidth_cart (by omega) (by omega)
  simp only [Machine.range, List.getElem_map, List.getElem_range, rd_putList]
  rw [if_pos (by omega), Nat.add_sub_cancel_left, List.getD_eq_getElem _ _ hi, hw]

theorem range_congr {a n : Nat} (h : ∀ i < n, m'.rd (a + i) = m.rd (a + i)) :
    m'.range a n = m.range a n :=
  List.map_congr_left fun i hi => h i (List.mem_range.mp hi)

theorem sendFrame_emits {frame : List Nat} (hlen : frame.length < 256) (m : Machine) :
    Emits [frame.map (· % 256)] m (sendFrame frame m) := by
  have hstage : Emits [] m (((m.putList fnTx frame).wr nreqLo frame.length).wr nreqHi 0) :=
    .silent (by simp) (by simp)
  have hpair : (((m.putList fnTx frame).wr nreqLo frame.length).wr nreqHi 0).pair nreqLo nreqHi =
      frame.length := by
    simp [Machine.pair, cellWidth, Nat.mod_eq_of_lt hlen]
  have hbytes : (((m.putList fnTx frame).wr nreqLo frame.length).wr nreqHi 0).range fnTx
      frame.length = frame.map (· % 256) := by
    rw [← range_putList hlen m]
    refine range_congr fun i _ => ?_
    rw [rd_wr, if_neg (by simp only [fnTx, nreqHi]; omega), rd_wr,
      if_neg (by simp only [fnTx, nreqLo]; omega)]
  have h := hstage.trans (netWrite_emits _)
  rwa [hpair, hbytes] at h

/-! ## The image -/

/-- The image byte of position `p` in the content of its cell. -/
def imgByte (p w : Nat) : Nat :=
  if p < imgS1 ∨ imgS3 ≤ p then w
  else if (if p < imgS2 then p - imgS1 else p - imgS2) % 2 = 0 then w % 256 else w / 256 % 256

/-- The state image, 770 bytes. -/
def image (m : Machine) : List Nat := (List.range imgTotal).map fun p => imgGet p m

theorem image_length (m : Machine) : (image m).length = imgTotal := by
  simp [image]

theorem imgGet_eq (p : Nat) (m : Machine) : imgGet p m = imgByte p (m.rd (imgCell p)) := by
  unfold imgGet imgByte
  by_cases h₁ : p < imgS1
  · rw [if_pos h₁, if_pos (Or.inl h₁), imgCell_scratch h₁]
  have hle : imgS1 ≤ imgS2 ∧ imgS2 ≤ imgS3 := by decide
  by_cases h₂ : p < imgS2
  · rw [if_neg h₁, if_pos h₂, if_neg (not_or.mpr ⟨h₁, by omega⟩), if_pos h₂,
      imgCell_backtab (by omega) h₂]
    dsimp only
    split <;> rfl
  by_cases h₃ : p < imgS3
  · rw [if_neg h₁, if_neg h₂, if_pos h₃, if_neg (not_or.mpr ⟨h₁, by omega⟩), if_neg h₂,
      imgCell_objects (by omega) h₃]
    dsimp only
    split <;> rfl
  · rw [if_neg h₁, if_neg h₂, if_neg h₃, if_pos (Or.inr (by omega)), imgCell_tail (by omega)]

theorem imgGet_congr {p : Nat} (h : m'.rd (imgCell p) = m.rd (imgCell p)) :
    imgGet p m' = imgGet p m := by
  rw [imgGet_eq, imgGet_eq, h]

/-- The image does not change where the simulation cells do not. -/
theorem image_congr (h : ∀ a, simCell a = true → m'.rd a = m.rd a) : image m' = image m :=
  List.map_congr_left fun _ hp =>
    imgGet_congr (h _ (simCell_imgCell (List.mem_range.mp hp)))

theorem imgGet_lt {p : Nat} (hp : p < imgTotal) (m : Machine) : imgGet p m < 256 := by
  have htail : ∀ t ∈ rsTailtbl, cellWidth t = 256 := by decide
  rw [imgGet_eq]
  unfold imgByte
  split
  · next h =>
      refine m.rd_byte ?_
      rcases h with h | h
      · rw [imgCell_scratch h]
        simp only [imgS1] at h
        unfold cellWidth
        rw [if_pos (by omega)]
      · have hlt : p - imgS3 < rsTailtbl.length := by
          simp only [imgS3, imgTotal, rsTailtbl, List.length_cons, List.length_nil] at *
          omega
        rw [imgCell_tail h, List.getD_eq_getElem _ _ hlt]
        exact htail _ (List.getElem_mem hlt)
  · split_ifs
    · exact Nat.mod_lt _ (by decide)
    · exact Nat.mod_lt _ (by decide)
    · exact Nat.mod_lt _ (by decide)
    · exact Nat.mod_lt _ (by decide)

/-! ## The frames of a push -/

/-- A data frame of `n` image bytes from position `p`. -/
def chunkFrame (img : List Nat) (p n : Nat) : List Nat :=
  (n + 3) :: ftState :: (p % 256) :: (p / 256) :: (img.drop p).take n

/-- The data frames from position `p` to the end of the image. -/
def chunkFrames (img : List Nat) : Nat → Nat → List (List Nat)
  | 0, _ => []
  | fuel + 1, p =>
    let n := min (imgTotal - p) rsChunk
    if imgTotal - p = 0 then [] else chunkFrame img p n :: chunkFrames img fuel (p + n)

/-- The frame that announces a push with resume tick `r`. -/
def beginFrame (r : Nat) : List Nat := [5, ftState, 0, 0xFF, r % 256, r / 256]

/-- The frame that ends a push. -/
def endFrame : List Nat := [3, ftState, 1, 0xFF]

/-- The frames of a push. -/
def pushFrames (r : Nat) (img : List Nat) : List (List Nat) :=
  beginFrame r :: (chunkFrames img imgTotal 0 ++ [endFrame])

@[simp] theorem hist_pushBytes (n r2 r3 : Nat) (m : Machine) :
    (pushBytes n r2 r3 m).hist = m.hist := by
  induction n generalizing r2 r3 m with
  | zero => rfl
  | succ n ih => simp [pushBytes, ih]

@[simp] theorem answers_pushBytes (n r2 r3 : Nat) (m : Machine) :
    (pushBytes n r2 r3 m).answers = m.answers := by
  induction n generalizing r2 r3 m with
  | zero => rfl
  | succ n ih => simp [pushBytes, ih]

/-- The cells a chunk of a push writes. -/
def PushCell (a v : Nat) : Prop :=
  Mail a v ∨ a = rsTmp2 ∨ a = lsTmpb ∨ a = rsPosLo ∨ a = rsPosHi

theorem pushBytes_writes (n r2 r3 : Nat) (m : Machine) :
    Writes (fun a _ => a = rsTmp2 ∨ (r3 ≤ a ∧ a < r3 + n)) m (pushBytes n r2 r3 m) := by
  induction n generalizing r2 r3 m with
  | zero => exact .refl
  | succ n ih =>
      unfold pushBytes
      refine .trans (.wr (.wr .refl (by simp)) (by simp)) ((ih _ (r3 + 1) _).mono ?_)
      intro a _ h
      omega

/-- Where the simulation cells lie. -/
theorem simCell_range {a : Nat} (ha : simCell a = true) :
    (0x15D ≤ a ∧ a ≤ 0x1EF) ∨ (0x200 ≤ a ∧ a ≤ 0x2EF) ∨ (0x31D ≤ a ∧ a ≤ 0x35D) ∨
      (0x80C0 ≤ a ∧ a ≤ 0x80C1) ∨ (0x8102 ≤ a ∧ a ≤ 0x8104) ∨ (0x8106 ≤ a ∧ a ≤ 0x8107) ∨
      a = 0x810F ∨ (0x8196 ≤ a ∧ a ≤ 0x819B) ∨ a = 0x819F := by
  simp only [simCell, Bool.or_eq_true, Bool.and_eq_true, decide_eq_true_eq, beq_iff_eq, rngLo,
    rngHi, ssArm1, ssArm2, ssArm3, ssArm4, ssArm5, ssCnt1, ssCnt2, ssCnt3, ssCnt4, ssCnt5, ssInj,
    gameTblLo, gameTblHi] at ha
  omega

/-- `@@ps_pl` stages the image bytes it reads. -/
theorem range_pushBytes {n r2 r3 : Nat} (hlo : fnTx ≤ r3) (hhi : r3 + n ≤ 0xA000)
    (hpos : r2 + n ≤ imgTotal) (m : Machine) :
    (pushBytes n r2 r3 m).range r3 n = ((image m).drop r2).take n := by
  induction n generalizing r2 r3 m with
  | zero => simp [Machine.range]
  | succ n ih =>
      simp only [fnTx] at hlo ih
      have hlt : r2 < imgTotal := by omega
      have himg : image ((m.wr r3 (imgGet r2 m)).wr rsTmp2 n) = image m := by
        refine image_congr fun a ha => ?_
        have hsim := simCell_range ha
        rw [rd_wr, if_neg (by simp only [rsTmp2]; omega), rd_wr, if_neg (by omega)]
      have hfirst : (pushBytes (n + 1) r2 r3 m).rd r3 = imgGet r2 m := by
        unfold pushBytes
        rw [(pushBytes_writes _ _ _ _).frame (fun _ => by simp only [rsTmp2]; omega), rd_wr,
          if_neg (by simp only [rsTmp2]; omega), rd_wr, if_pos rfl,
          cellWidth_cart (by omega) (by omega), Nat.mod_eq_of_lt (imgGet_lt hlt m)]
      have hrest := @ih (r2 + 1) (r3 + 1) (by omega) (by omega) (by omega)
        ((m.wr r3 (imgGet r2 m)).wr rsTmp2 n)
      have hdrop : (image m).drop r2 = imgGet r2 m :: (image m).drop (r2 + 1) := by
        rw [List.drop_eq_getElem_cons (by rw [image_length]; exact hlt)]
        simp [image]
      rw [hdrop, List.take_succ_cons, ← himg, ← hrest]
      simp only [Machine.range, List.range_succ_eq_map, List.map_cons, List.map_map, Nat.add_zero,
        hfirst, List.cons.injEq, true_and]
      refine List.map_congr_left fun i _ => ?_
      simp only [Function.comp_apply, pushBytes]
      rw [show r3 + i.succ = r3 + 1 + i by omega]

theorem pushChunk_writes {n : Nat} (hn : n ≤ rsChunk) (r2 : Nat) (m : Machine) :
    Writes PushCell m (pushChunk n r2 m) := by
  have hput : ∀ m₁ : Machine, Writes PushCell m₁ (m₁.putList fnTx [n + 3, ftState, r2, r2 / 256]) := by
    refine fun m₁ => .putList .refl fun i hi => ?_
    have hi4 : i < 4 := hi
    simp only [PushCell, Mail, fnTx]
    omega
  have hbytes : ∀ m₁ : Machine, Writes PushCell m₁ (pushBytes n r2 (fnTx + 4) m₁) := by
    refine fun m₁ => (pushBytes_writes _ _ _ _).mono fun a v h => ?_
    simp only [PushCell, Mail, fnTx, rsTmp2, rsChunk] at *
    omega
  unfold pushChunk
  extract_lets m₁ m₂ m₃ m₄
  have h₁ : Writes PushCell m m₁ := by
    refine (Writes.refl.wr ?_).wr ?_ <;> simp [PushCell]
  have h₄ : Writes PushCell m m₄ := by
    refine ((h₁.trans ((hput m₁).trans (hbytes m₂))).wr ?_).wr ?_ <;> simp [PushCell]
  refine .trans ((h₄.wr ?_).wr ?_) ((netWrite_writes _).mono fun _ _ => Or.inl)
  · simp [PushCell, Mail]
  · simp [PushCell, Mail]

/-- One chunk of a push. -/
theorem pushChunk_emits {n r2 : Nat} (hn : n ≤ rsChunk) (hpos : r2 + n ≤ imgTotal) (m : Machine) :
    Emits [chunkFrame (image m) r2 n] m (pushChunk n r2 m) := by
  unfold pushChunk
  extract_lets m₁ m₂ m₃ m₄
  simp only [rsChunk, imgTotal] at hn hpos
  have hsilent : Emits [] m ((m₄.wr nreqLo (m₄.rd lsTmpb + 4)).wr nreqHi 0) :=
    .silent (by simp [m₄, m₃, m₂, m₁]) (by simp [m₄, m₃, m₂, m₁])
  have h := hsilent.trans (netWrite_emits _)
  have hframe₃ : ∀ a, a ≠ rsTmp2 → ¬ (fnTx + 4 ≤ a ∧ a < fnTx + 4 + n) → m₃.rd a = m₂.rd a :=
    fun a h₁ h₂ => (pushBytes_writes n r2 (fnTx + 4) m₂).frame fun _ h => h.elim h₁ h₂
  have htmp : m₄.rd lsTmpb = n := by
    rw [rd_wr, if_neg (by decide), rd_wr, if_neg (by decide), hframe₃ _ (by decide)
      (by simp only [fnTx, lsTmpb]; omega), rd_putList, if_neg (by simp [fnTx, lsTmpb]), rd_wr,
      if_pos rfl]
    rw [show cellWidth lsTmpb = 256 by decide]
    omega
  have hpair : ((m₄.wr nreqLo (m₄.rd lsTmpb + 4)).wr nreqHi 0).pair nreqLo nreqHi = n + 4 := by
    rw [htmp]
    simp [Machine.pair, cellWidth]
    omega
  have hcells : ∀ i < n + 4, ((m₄.wr nreqLo (m₄.rd lsTmpb + 4)).wr nreqHi 0).rd (fnTx + i) =
      m₃.rd (fnTx + i) := by
    intro i hi
    simp only [m₄, rd_wr, fnTx, nreqLo, nreqHi, rsPosLo, rsPosHi]
    rw [if_neg (by omega), if_neg (by omega), if_neg (by omega), if_neg (by omega)]
  have himg : image m₂ = image m := by
    refine image_congr fun a ha => ?_
    have hsim := simCell_range ha
    simp only [m₂, m₁, rd_putList, rd_wr]
    rw [if_neg (by simp only [fnTx]; omega), if_neg (by simp only [lsTmpb]; omega),
      if_neg (by simp only [rsTmp2]; omega)]
  have hhead : m₃.range fnTx 4 = [n + 3, ftState, r2 % 256, r2 / 256] := by
    have h4 : m₃.range fnTx 4 = m₂.range fnTx 4 := range_congr fun i hi =>
      hframe₃ _ (by simp only [fnTx, rsTmp2]; omega) (by omega)
    have hput := @range_putList [n + 3, ftState, r2, r2 / 256] (by simp) m₁
    rw [h4, show m₂.range fnTx 4 = _ from hput]
    simp only [List.map_cons, List.map_nil, ftState, List.cons.injEq, and_true, true_and]
    omega
  have htail : m₃.range (fnTx + 4) n = ((image m).drop r2).take n := by
    rw [← himg]
    exact range_pushBytes (by simp only [fnTx]; omega) (by simp only [fnTx]; omega)
      (by simp only [imgTotal]; omega) m₂
  have hrange : ((m₄.wr nreqLo (m₄.rd lsTmpb + 4)).wr nreqHi 0).range fnTx (n + 4) =
      chunkFrame (image m) r2 n := by
    rw [range_congr hcells, Nat.add_comm n 4]
    have hsplit : m₃.range fnTx (4 + n) = m₃.range fnTx 4 ++ m₃.range (fnTx + 4) n := by
      simp only [Machine.range, List.range_add, List.map_append, List.map_map]
      refine congrArg _ (List.map_congr_left fun i _ => ?_)
      simp only [Function.comp_apply, Nat.add_assoc]
    rw [hsplit, hhead, htail]
    rfl
  rw [hpair, hrange] at h
  exact h

/-- The image is out of reach of a push. -/
theorem image_push (h : Writes PushCell m m') : image m' = image m := by
  refine image_congr fun a ha => h.frame fun v hv => ?_
  have hsim := simCell_range ha
  simp only [PushCell, Mail, rsTmp2, lsTmpb, rsPosLo, rsPosHi] at hv
  omega

/-- `RS_POS` after a chunk. -/
theorem pos_pushChunk {n r2 : Nat} (hpos : r2 + n ≤ imgTotal) (m : Machine) :
    (pushChunk n r2 m).pair rsPosLo rsPosHi = r2 + n := by
  simp only [imgTotal] at hpos
  unfold pushChunk
  extract_lets m₁ m₂ m₃ m₄
  have hmail : ∀ a, ¬ Mail a 0 → (netWrite ((m₄.wr nreqLo (m₄.rd lsTmpb + 4)).wr nreqHi 0)).rd a =
      ((m₄.wr nreqLo (m₄.rd lsTmpb + 4)).wr nreqHi 0).rd a :=
    fun a ha => (netWrite_writes _).frame fun _ => ha
  have hlo : m₄.rd rsPosLo = (r2 + n) % 256 := by
    rw [rd_wr, if_neg (by decide), rd_wr, if_pos rfl]
    rfl
  have hhi : m₄.rd rsPosHi = (r2 + n) / 256 := by
    rw [rd_wr, if_pos rfl, show cellWidth rsPosHi = 256 by decide]
    omega
  have hreq : ∀ a, a ≠ nreqLo → a ≠ nreqHi →
      ((m₄.wr nreqLo (m₄.rd lsTmpb + 4)).wr nreqHi 0).rd a = m₄.rd a := by
    intro a h₁ h₂
    rw [rd_wr, if_neg h₂, rd_wr, if_neg h₁]
  rw [Machine.pair, hmail _ (by simp [Mail]), hmail _ (by simp [Mail]),
    hreq _ (by decide) (by decide), hreq _ (by decide) (by decide), hlo, hhi]
  omega

theorem pushChunks_writes (fuel : Nat) (m : Machine) :
    Writes PushCell m (pushChunks fuel m) := by
  induction fuel generalizing m with
  | zero => exact .refl
  | succ fuel ih =>
      unfold pushChunks
      dsimp only
      split
      · exact .refl
      · exact (pushChunk_writes (Nat.min_le_right _ _) _ m).trans (ih _)

theorem pushChunks_emits {fuel pos : Nat} (hpos : m.pair rsPosLo rsPosHi = pos)
    (hle : pos ≤ imgTotal) : Emits (chunkFrames (image m) fuel pos) m (pushChunks fuel m) := by
  induction fuel generalizing pos m with
  | zero => exact .silent rfl rfl
  | succ fuel ih =>
      unfold pushChunks chunkFrames
      dsimp only
      rw [hpos]
      split
      · exact .silent rfl rfl
      · have hn : min (imgTotal - pos) rsChunk ≤ rsChunk := Nat.min_le_right _ _
        have hend : pos + min (imgTotal - pos) rsChunk ≤ imgTotal := by
          have := Nat.min_le_left (imgTotal - pos) rsChunk
          omega
        have hrest := ih (m := pushChunk (min (imgTotal - pos) rsChunk) pos m)
          (pos_pushChunk hend m) hend
        rw [image_push (pushChunk_writes hn pos m)] at hrest
        exact (pushChunk_emits hn hend m).trans hrest

/-- `RS_PUSH` up to `RS_REBASE`. -/
def rsSend (m : Machine) : Machine :=
  let m := rsEnterHold m
  let r1 := (m.pair tickLo tickHi + 16) % 65536
  let m := (m.wr rsRLo r1).wr rsRHi (r1 / 256)
  let m := sendFrame [5, ftState, 0, 0xFF, m.rd rsRLo, m.rd rsRHi] m
  let m := (m.wr rsPosLo 0).wr rsPosHi 0
  let m := pushChunks imgTotal m
  sendFrame [3, ftState, 1, 0xFF] m

@[simp] theorem hist_putWm (a n lo hi : Nat) (m : Machine) : (putWm a n lo hi m).hist = m.hist := by
  induction n generalizing a m with
  | zero => rfl
  | succ n ih => simp [putWm, ih]

@[simp] theorem answers_putWm (a n lo hi : Nat) (m : Machine) :
    (putWm a n lo hi m).answers = m.answers := by
  induction n generalizing a m with
  | zero => rfl
  | succ n ih => simp [putWm, ih]

/-- The repairs of an image send nothing. -/
theorem rsHooks_keep (m : Machine) :
    (ssRebaseHook (rsClampIsr (rsDisplayReset m))).hist = m.hist ∧
      (ssRebaseHook (rsClampIsr (rsDisplayReset m))).answers = m.answers := by
  simp [ssRebaseHook, rsClampIsr, rsDisplayReset]

/-- `RS_REBASE` opens the next epoch. -/
theorem rsRebase_keeps (m : Machine) :
    (rsRebase m).hist = { m.hist with stamp := ⟨m.hist.stamp.epoch + 1, 0⟩ } ∧
      (rsRebase m).answers = m.answers := by
  unfold rsRebase
  extract_lets m₁ m₂ m₃ m₄ r1 m₅ m₆ m₇ m₈
  have hfill : ∀ (k : Machine) (a n v : Nat), (k.fill a n v).hist = k.hist ∧
      (k.fill a n v).answers = k.answers := fun k a n v => ⟨hist_fill _ _ _ _, answers_fill _ _ _ _⟩
  have hwr : ∀ (k : Machine) (a v : Nat), (k.wr a v).hist = k.hist ∧ (k.wr a v).answers = k.answers :=
    fun k a v => ⟨hist_wr _ _ _, answers_wr _ _ _⟩
  have htrans : ∀ {k l j : Machine}, l.hist = k.hist ∧ l.answers = k.answers →
      j.hist = l.hist ∧ j.answers = l.answers → j.hist = k.hist ∧ j.answers = k.answers :=
    fun h h' => ⟨h'.1.trans h.1, h'.2.trans h.2⟩
  have h₃ : m₃.hist = m.hist ∧ m₃.answers = m.answers :=
    htrans (htrans (htrans (hwr _ _ _) (hwr _ _ _)) (rsHooks_keep m₁)) (htrans (hwr _ _ _) (hwr _ _ _))
  have h₄ : m₄.hist = m.hist ∧ m₄.answers = m.answers :=
    htrans h₃ (htrans (hfill _ _ _ _) (hfill _ _ _ _))
  have h₆ : m₆.hist = m.hist ∧ m₆.answers = m.answers :=
    htrans (htrans h₄ ⟨hist_putWm _ _ _ _ _, answers_putWm _ _ _ _ _⟩) (hfill _ _ _ _)
  have h₇ : m₇.hist = m.hist ∧ m₇.answers = m.answers :=
    htrans h₆ (htrans (htrans (hwr _ _ _) (hwr _ _ _)) (hwr _ _ _))
  have h₈ : m₈.hist = m.hist ∧ m₈.answers = m.answers :=
    htrans h₇ (htrans (hwr _ _ _) (hwr _ _ _))
  rw [hist_note, answers_note, h₈.1, h₈.2]
  exact ⟨rfl, rfl⟩

@[simp] theorem hist_rsRebase (m : Machine) :
    (rsRebase m).hist = { m.hist with stamp := ⟨m.hist.stamp.epoch + 1, 0⟩ } := (rsRebase_keeps m).1

@[simp] theorem answers_rsRebase (m : Machine) : (rsRebase m).answers = m.answers :=
  (rsRebase_keeps m).2

theorem rsPush_eq (m : Machine) :
    rsPush m = (rsRebase (rsSend m)).note fun r => { r with pushes := r.pushes + 1 } := rfl

/-- The resume tick of a push: 16 ticks of headroom. -/
def resumeTick (m : Machine) : Nat := (m.pair tickLo tickHi + 16) % 65536

theorem rsEnterHold_silent (m : Machine) : Emits [] m (rsEnterHold m) :=
  .silent (by simp [rsEnterHold, rsClrCrc]) (by simp [rsEnterHold, rsClrCrc])

/-- The cells of a hold. -/
def HoldCell (a _v : Nat) : Prop :=
  a = resyncHold ∨ a = rsToLo ∨ a = rsToHi ∨ (0x8C00 ≤ a ∧ a ≤ 0x8C1F)

theorem rsEnterHold_hold (m : Machine) : Writes HoldCell m (rsEnterHold m) := by
  refine .fill (((Writes.refl.wr ?_).wr ?_).wr ?_) fun i hi => ?_
  · simp [HoldCell]
  · simp [HoldCell]
  · simp [HoldCell]
  · simp only [HoldCell, ownCrc]
    omega

/-- What a push writes before it rebases. -/
def SendCell (a v : Nat) : Prop := HoldCell a v ∨ PushCell a v ∨ a = rsRLo ∨ a = rsRHi

theorem mail_push (h : Writes Mail m m') : Writes PushCell m m' := h.mono fun _ _ => Or.inl

theorem rsSend_writes (m : Machine) : Writes SendCell m (rsSend m) := by
  have hpush : ∀ {m₁ m₂ : Machine}, Writes PushCell m₁ m₂ → Writes SendCell m₁ m₂ :=
    fun h => h.mono fun _ _ hv => Or.inr (Or.inl hv)
  unfold rsSend
  extract_lets m₁ r1 m₂ m₃ m₄ m₅
  have h₁ : Writes SendCell m m₁ := (rsEnterHold_hold m).mono fun _ _ => Or.inl
  have h₂ : Writes SendCell m m₂ := by
    refine (h₁.wr ?_).wr ?_ <;> simp [SendCell]
  have h₄ : Writes SendCell m m₄ := by
    refine ((h₂.trans (hpush (mail_push (sendFrame_writes (by simp) m₂)))).wr ?_).wr ?_
    · simp [SendCell, PushCell]
    · simp [SendCell, PushCell]
  exact (h₄.trans (hpush (pushChunks_writes _ m₄))).trans
    (hpush (mail_push (sendFrame_writes (by simp) m₅)))

/-- A push writes no simulation cell before it rebases. -/
theorem not_sendCell_of_sim {a : Nat} (ha : simCell a = true) (v : Nat) : ¬ SendCell a v := by
  have hsim := simCell_range ha
  simp only [SendCell, HoldCell, PushCell, Mail, resyncHold, rsToLo, rsToHi, rsRLo, rsRHi, rsTmp2,
    lsTmpb, rsPosLo, rsPosHi]
  omega

theorem image_send (m : Machine) : image (rsSend m) = image m :=
  image_congr fun _ ha => (rsSend_writes m).frame (not_sendCell_of_sim ha)

/-- The frames of a push. -/
theorem rsSend_emits (m : Machine) :
    Emits (pushFrames (resumeTick m) (image m)) m (rsSend m) := by
  unfold rsSend
  extract_lets m₁ r1 m₂ m₃ m₄ m₅
  have htick : r1 = resumeTick m := by
    simp only [r1, resumeTick, Machine.pair]
    rw [(rsEnterHold_hold m).frame (by simp [HoldCell]), (rsEnterHold_hold m).frame
      (by simp [HoldCell])]
  have hlt : r1 < 65536 := Nat.mod_lt _ (by decide)
  have h₁ : Emits [] m m₁ := rsEnterHold_silent m
  have h₂ : Emits [] m₁ m₂ := .silent (by simp [m₂]) (by simp [m₂])
  have h₃ : Emits [beginFrame (resumeTick m)] m₂ m₃ := by
    have h := @sendFrame_emits [5, ftState, 0, 0xFF, m₂.rd rsRLo, m₂.rd rsRHi]
      (by simp) m₂
    have hframe : [5, ftState, 0, 0xFF, m₂.rd rsRLo, m₂.rd rsRHi].map (· % 256) =
        beginFrame (resumeTick m) := by
      rw [← htick]
      simp [m₂, beginFrame, cellWidth]
      omega
    rwa [hframe] at h
  have h₄ : Emits [] m₃ m₄ := .silent (by simp [m₄]) (by simp [m₄])
  have hsend : Writes SendCell m m₄ := by
    have h₂ : Writes SendCell m m₂ := by
      refine (((rsEnterHold_hold m).mono fun _ _ => Or.inl).wr ?_).wr ?_
      · exact Or.inr (Or.inr (Or.inl rfl))
      · exact Or.inr (Or.inr (Or.inr rfl))
    refine ((h₂.trans ((mail_push (sendFrame_writes (by simp) m₂)).mono
      fun _ _ hv => Or.inr (Or.inl hv))).wr ?_).wr ?_ 
    · simp [SendCell, PushCell]
    · simp [SendCell, PushCell]
  have himg : image m₄ = image m :=
    image_congr fun _ ha => hsend.frame (not_sendCell_of_sim ha)
  have h₅ : Emits (chunkFrames (image m) imgTotal 0) m₄ m₅ := by
    rw [← himg]
    exact pushChunks_emits (by simp [m₄, Machine.pair]) (Nat.zero_le _)
  have h₆ : Emits [endFrame] m₅ (sendFrame [3, ftState, 1, 0xFF] m₅) :=
    @sendFrame_emits endFrame (by decide) m₅
  have h := h₁.trans (h₂.trans (h₃.trans (h₄.trans (h₅.trans h₆))))
  rwa [List.nil_append, List.nil_append, List.nil_append, List.singleton_append] at h

/-! ## The other frames -/

/-- The frame `LS_PASS` sends for an input. -/
def inputFrame (seat tick : Nat) (input : Nat × Nat) : List Nat :=
  [6, ftInput, seat, tick % 256, tick / 256, input.1, input.2]

/-- The frame of a checksum. -/
def crcFrame (seat tick ck : Nat) : List Nat :=
  [6, ftCrc, seat, tick % 256, tick / 256, ck % 256, ck / 256]

/-- The frame of a request. -/
def reqFrame (tick : Nat) : List Nat := [3, ftResync, tick % 256, tick / 256]

theorem pair_lt (m : Machine) {lo hi : Nat} (hlo : cellWidth lo = 256) (hhi : cellWidth hi = 256) :
    m.pair lo hi < 65536 := by
  have h₁ := m.rd_byte hlo
  have h₂ := m.rd_byte hhi
  simp only [Machine.pair]
  omega

/-- The tick the next capture is for. -/
def captureTick (m : Machine) : Nat := (m.pair tickLo tickHi + m.rd netDelay) % 65536

/-- The input as it is stored and sent. -/
def captureInput (input : Nat × Nat) : Nat × Nat := (input.1 % 256, input.2 % 256)

/-- What a capture writes besides its two ring cells. -/
def CaptureCell (m : Machine) (a v : Nat) : Prop :=
  Mail a v ∨ a = lsTmpb ∨ a = lsTmpb2 ∨
    a = (captureTick m % 256 + m.rd netSeat * 256 + seatRing) % 65536 ∨
    a = ((captureTick m % 256 + m.rd netSeat * 256 + seatRing) % 65536 + (seatKp - seatRing)) % 65536

/-- `LS_PASS` stores its input for tick `T + d`, sends it and puts it on the record. -/
theorem lsCapture_spec (input : Nat × Nat) (m : Machine) (hseat : m.rd netSeat ≤ 3) :
    ∃ m₁, lsCapture input m = (m₁.note fun r =>
        { r with captured := r.captured ++ [captureInput input] }) ∧
      Emits [inputFrame (m.rd netSeat) (captureTick m) (captureInput input)] m m₁ ∧
      Writes (CaptureCell m) m m₁ ∧
      m₁.rd (captureTick m % 256 + m.rd netSeat * 256 + seatRing) = input.1 % 256 ∧
      m₁.rd (captureTick m % 256 + m.rd netSeat * 256 + seatKp) = input.2 % 256 := by
  have htick : captureTick m < 65536 := Nat.mod_lt _ (by decide)
  unfold lsCapture
  extract_lets m₁ r2 r3 m₂ m₃ m₄
  have hr2 : r2 = captureTick m := by
    simp [r2, captureTick, m₁, Machine.pair]
  have hseat₁ : m₁.rd netSeat = m.rd netSeat := by simp [m₁]
  have hr3 : r3 = captureTick m % 256 + m.rd netSeat * 256 + seatRing := by
    simp only [r3, hr2, hseat₁, seatRing]
    omega
  have hb₁ : m₁.rd lsTmpb = input.1 % 256 := by simp [m₁, cellWidth]
  have hb₂ : m₁.rd lsTmpb2 = input.2 % 256 := by simp [m₁, cellWidth]
  have hlo : seatRing ≤ r3 ∧ r3 < seatRing + 1024 := by
    rw [hr3]
    simp only [seatRing]
    omega
  have hkp : (r3 + (seatKp - seatRing)) % 65536 = r3 + 1024 := by
    simp only [seatRing, seatKp] at *
    omega
  have hring : ∀ a, ¬ (seatRing ≤ a ∧ a < seatKp + 1024) → m₃.rd a = m₁.rd a := by
    intro a ha
    simp only [m₃, m₂, rd_wr, hkp, seatRing, seatKp] at *
    rw [if_neg (by omega), if_neg (by omega)]
  have hframe : [6, ftInput, m₃.rd netSeat, r2 % 256, r2 / 256, m₃.rd lsTmpb, m₃.rd lsTmpb2].map
      (· % 256) = inputFrame (m.rd netSeat) (captureTick m) (captureInput input) := by
    rw [hring _ (by simp [seatRing, seatKp]), hring _ (by simp [seatRing, seatKp]),
      hring _ (by simp [seatRing, seatKp]), hseat₁, hb₁, hb₂, hr2]
    simp only [List.map_cons, List.map_nil, inputFrame, captureInput, ftInput, List.cons.injEq,
      and_true, true_and]
    omega
  have hmail := @sendFrame_writes [6, ftInput, m₃.rd netSeat, r2 % 256, r2 / 256,
    m₃.rd lsTmpb, m₃.rd lsTmpb2] (by simp) m₃
  have hwrites : Writes (CaptureCell m) m m₃ := by
    refine (((Writes.refl.wr ?_).wr ?_).wr ?_).wr ?_
    · simp [CaptureCell]
    · simp [CaptureCell]
    · refine Or.inr (Or.inr (Or.inr (Or.inl ?_)))
      simp only [r3, hr2, hseat₁]
    · refine Or.inr (Or.inr (Or.inr (Or.inr ?_)))
      simp only [r3, hr2, hseat₁]
  refine ⟨m₄, ?_, ?_, hwrites.trans (hmail.mono fun _ _ => Or.inl), ?_, ?_⟩
  · have htmp : ∀ a, a = lsTmpb ∨ a = lsTmpb2 → m₄.rd a = m₁.rd a := by
      intro a ha
      rw [hmail.frame (by simp only [Mail, lsTmpb, lsTmpb2] at *; omega),
        hring _ (by simp only [seatRing, seatKp, lsTmpb, lsTmpb2] at *; omega)]
    rw [htmp _ (Or.inl rfl), htmp _ (Or.inr rfl), hb₁, hb₂]
    rfl
  · have hsend := @sendFrame_emits [6, ftInput, m₃.rd netSeat, r2 % 256, r2 / 256,
      m₃.rd lsTmpb, m₃.rd lsTmpb2] (by simp) m₃
    rw [hframe] at hsend
    have hsilent : Emits [] m m₃ := .silent (by simp [m₃, m₂, m₁]) (by simp [m₃, m₂, m₁])
    exact hsilent.trans hsend
  · rw [← hr3, hmail.frame (by simp only [Mail, seatRing] at *; omega)]
    simp only [m₃, m₂, rd_wr, hkp]
    rw [if_neg (by omega), if_pos trivial, hb₁, cellWidth_cart (by simp only [seatRing] at hlo; omega)
      (by simp only [seatRing] at hlo; omega), Nat.mod_mod]
  · have hcell : captureTick m % 256 + m.rd netSeat * 256 + seatKp = r3 + 1024 := by
      rw [hr3]
      simp only [seatRing, seatKp]
    have hb₂' : m₂.rd lsTmpb2 = input.2 % 256 := by
      rw [show m₂ = m₁.wr r3 (m₁.rd lsTmpb) from rfl, rd_wr,
        if_neg (by simp only [seatRing, lsTmpb2] at *; omega), hb₂]
    rw [hcell, hmail.frame (by simp only [Mail, seatRing] at *; omega)]
    simp only [m₃, rd_wr, hkp]
    rw [if_pos trivial, hb₂', cellWidth_cart (by simp only [seatRing] at hlo; omega)
      (by simp only [seatRing] at hlo; omega), Nat.mod_mod]

/-- The checksum and its two cells. -/
theorem rotAdd_lt (acc v : Nat) : rotAdd acc v < 65536 := Nat.mod_lt _ (by decide)

theorem lsCksum_lt (m : Machine) : lsCksum m < 65536 := rotAdd_lt _ _

/-- A summing loop reads the cells up to its end. -/
theorem ckLoop_congr {stop fuel r4 r0 : Nat}
    (hcells : ∀ a, r4 ≤ a → a < stop → m'.rd a = m.rd a) (hlt : r4 < stop)
    (hside : stop < 32768 ∨ 32768 ≤ r4) : ckLoop stop fuel r4 r0 m' = ckLoop stop fuel r4 r0 m := by
  induction fuel generalizing r4 r0 with
  | zero => rfl
  | succ fuel ih =>
      unfold ckLoop
      dsimp only
      rw [hcells r4 (Nat.le_refl _) hlt]
      split
      · next hslt =>
          have hnext : r4 + 1 < stop := by
            rcases hside with h | h
            · rwa [slt_iff (by omega) h] at hslt
            · simp only [slt, if_neg (show ¬ r4 + 1 < 32768 by omega),
                if_neg (show ¬ stop < 32768 by omega), decide_eq_true_eq] at hslt
              exact hslt
          exact ih (fun a ha => hcells a (by omega)) hnext (by omega)
      · rfl

/-- `LS_CKSUM` is a function of the simulation state. -/
theorem lsCksum_congr (h : ∀ a, simCell a = true → m'.rd a = m.rd a) :
    lsCksum m' = lsCksum m := by
  have hscratch : ∀ a, 0x15D ≤ a → a < 0x1F0 → m'.rd a = m.rd a := by
    intro a h₁ h₂
    refine h a ?_
    have : a ≤ 0x1EF := by omega
    simp [simCell, h₁, this]
  have hlist : ∀ t ∈ [rngLo, rngHi, ssArm1, ssArm2, ssArm3, ssArm4, ssArm5, ssCnt1, ssCnt2, ssCnt3,
      ssCnt4, ssCnt5, ssInj], m'.rd t = m.rd t := fun t ht =>
    h t ((by decide : ∀ t ∈ [rngLo, rngHi, ssArm1, ssArm2, ssArm3, ssArm4, ssArm5, ssCnt1, ssCnt2,
      ssCnt3, ssCnt4, ssCnt5, ssInj], simCell t = true) t ht)
  have htail : ∀ a, ssArm5 ≤ a → a < ssCnt5 + 1 → m'.rd a = m.rd a := by
    intro a h₁ h₂
    refine hlist a ?_
    simp only [ssArm5, ssCnt5] at h₁ h₂
    have : a = 0x8196 ∨ a = 0x8197 ∨ a = 0x8198 ∨ a = 0x8199 ∨ a = 0x819A ∨ a = 0x819B := by
      omega
    simp only [List.mem_cons, rngLo, rngHi, ssArm1, ssArm2, ssArm3, ssArm4, ssArm5, ssCnt1, ssCnt2,
      ssCnt3, ssCnt4, ssCnt5]
    omega
  unfold lsCksum
  dsimp only
  rw [ckLoop_congr hscratch (by decide) (Or.inl (by decide)),
    ckLoop_congr htail (by decide) (Or.inr (by decide))]
  rw [hlist rngLo (by simp), hlist rngHi (by simp), hlist ssArm1 (by simp),
    hlist ssArm2 (by simp), hlist ssArm3 (by simp), hlist ssArm4 (by simp), hlist ssInj (by simp)]

/-- What the CRC report writes: the display block, its scratch cells and a record. -/
def ReportCell (a v : Nat) : Prop :=
  Mail a v ∨ (0x28 ≤ a ∧ a ≤ 0x2C) ∨ a = 0x32 ∨ a = lsTmpb ∨ a = lsTmpb2 ∨
    (0x8C00 ≤ a ∧ a ≤ 0x8C1F)

theorem crcSlot_range (lo : Nat) : ownCrc ≤ crcSlot lo ∧ crcSlot lo + 3 < ownCrc + 32 := by
  simp only [crcSlot]
  omega

theorem rsDisplayReset_report (m : Machine) : Writes ReportCell m (rsDisplayReset m) := by
  refine .copy (Writes.refl.wr (by simp [ReportCell])) fun i hi v => ?_
  simp only [ReportCell]
  omega

theorem rsRecordCrc_report (m : Machine) : Writes ReportCell m (rsRecordCrc m) := by
  have hslot := crcSlot_range (m.rd tickLo)
  unfold rsRecordCrc
  extract_lets r4 m₁ m₂ m₃
  simp only [ownCrc] at hslot
  refine (((Writes.refl.wr ?_).wr ?_).wr ?_).wr ?_
  all_goals
    simp only [ReportCell, r4]
    omega

theorem not_reportCell_of_sim {a : Nat} (ha : simCell a = true) (v : Nat) : ¬ ReportCell a v := by
  have hsim := simCell_range ha
  simp only [ReportCell, Mail, lsTmpb, lsTmpb2]
  omega

/-- `tick % 64`, as the report tests it. -/
theorem boundary_iff (m : Machine) : m.rd tickLo % 64 = m.pair tickLo tickHi % 64 := by
  simp only [Machine.pair]
  omega

/-- `LS_PASS` reports the checksum of every 64th tick. -/
theorem lsReport_emits (m : Machine) :
    Emits (if m.pair tickLo tickHi % 64 = 0 then
      [crcFrame (m.rd netSeat) (m.pair tickLo tickHi) (lsCksum m)] else []) m (lsReport m) := by
  unfold lsReport
  rw [boundary_iff]
  by_cases hT : m.pair tickLo tickHi % 64 = 0
  · rw [if_pos hT, if_neg (not_not_intro hT)]
    extract_lets m₁ r0 m₂ m₃
    have h₁ : Writes ReportCell m m₁ := rsDisplayReset_report m
    have hck : r0 = lsCksum m := lsCksum_congr fun a ha => h₁.frame (not_reportCell_of_sim ha)
    have h₂ : Writes ReportCell m m₂ := by
      refine (h₁.wr ?_).wr ?_ <;> simp [ReportCell]
    have hrec := rsRecordCrc_report m₂
    have h₃ : Writes ReportCell m m₃ := h₂.trans hrec
    have hlt := lsCksum_lt m
    have hcell : ∀ a, 0x8100 ≤ a → a < 0x8168 → ¬ Mail a 0 → m₃.rd a = m.rd a := by
      intro a hlo hhi hmail
      refine h₃.frame fun v => ?_
      simp only [ReportCell, Mail, lsTmpb, lsTmpb2] at *
      omega
    have htmp : m₃.rd lsTmpb = lsCksum m % 256 ∧ m₃.rd lsTmpb2 = lsCksum m / 256 := by
      have hslot := crcSlot_range (m₂.rd tickLo)
      have hkeep : ∀ a, a < 0x8C00 → m₃.rd a = m₂.rd a := by
        intro a ha
        simp only [ownCrc] at hslot
        show (rsRecordCrc m₂).rd a = _
        unfold rsRecordCrc
        dsimp only
        rw [rd_wr, if_neg (by omega), rd_wr, if_neg (by omega), rd_wr, if_neg (by omega), rd_wr,
          if_neg (by omega)]
      rw [hkeep _ (by decide), hkeep _ (by decide)]
      refine ⟨?_, ?_⟩
      · rw [rd_wr, if_neg (by decide), rd_wr, if_pos rfl, hck]
        rfl
      · rw [rd_wr, if_pos rfl, hck, show cellWidth lsTmpb2 = 256 by decide]
        omega
    have hframe : [6, ftCrc, m₃.rd netSeat, m₃.rd tickLo, m₃.rd tickHi, m₃.rd lsTmpb,
        m₃.rd lsTmpb2].map (· % 256) =
          crcFrame (m.rd netSeat) (m.pair tickLo tickHi) (lsCksum m) := by
      have hb₁ := m.rd_byte (a := netSeat) (by decide)
      have hb₂ := m.rd_byte (a := tickLo) (by decide)
      have hb₃ := m.rd_byte (a := tickHi) (by decide)
      rw [htmp.1, htmp.2, hcell netSeat (by decide) (by decide) (by simp [Mail]),
        hcell tickLo (by decide) (by decide) (by simp [Mail]),
        hcell tickHi (by decide) (by decide) (by simp [Mail])]
      simp only [List.map_cons, List.map_nil, crcFrame, Machine.pair, ftCrc, List.cons.injEq,
        and_true, true_and]
      omega
    have hsilent : Emits [] m m₃ := .silent
      (by simp [m₃, m₂, m₁, rsRecordCrc, rsDisplayReset])
      (by simp [m₃, m₂, m₁, rsRecordCrc, rsDisplayReset])
    have hsend := @sendFrame_emits [6, ftCrc, m₃.rd netSeat, m₃.rd tickLo, m₃.rd tickHi,
      m₃.rd lsTmpb, m₃.rd lsTmpb2] (by simp) m₃
    rw [hframe] at hsend
    exact hsilent.trans hsend
  · rw [if_neg hT, if_pos hT]
    exact .silent rfl rfl

/-- A guest that sees another checksum asks for a push, and names the tick. -/
theorem rsOnCrc_emits (m : Machine) :
    Emits (if crcBad m = true ∧ m.rd netSeat ≠ 0 then
      [reqFrame (m.pair (frmBuf + 3) (frmBuf + 4))] else []) m (rsOnCrc m) := by
  unfold rsOnCrc
  by_cases hbad : crcBad m = true
  · rw [if_pos hbad]
    extract_lets m₁
    have hseat : m₁.rd netSeat = m.rd netSeat := by simp [m₁]
    by_cases h0 : m.rd netSeat = 0
    · rw [if_neg fun h => h.2 h0, if_pos (hseat.trans h0)]
      exact .silent (by simp [m₁]) (by simp [m₁])
    · rw [if_pos ⟨hbad, h0⟩, if_neg (hseat.symm ▸ h0)]
      have hsend := @sendFrame_emits [3, ftResync, m₁.rd (frmBuf + 3), m₁.rd (frmBuf + 4)]
        (by simp) m₁
      have hframe : [3, ftResync, m₁.rd (frmBuf + 3), m₁.rd (frmBuf + 4)].map (· % 256) =
          reqFrame (m.pair (frmBuf + 3) (frmBuf + 4)) := by
        have hb₁ := m.rd_byte (a := frmBuf + 3) (by decide)
        have hb₂ := m.rd_byte (a := frmBuf + 4) (by decide)
        have hc₁ : m₁.rd (frmBuf + 3) = m.rd (frmBuf + 3) := by simp [m₁]
        have hc₂ : m₁.rd (frmBuf + 4) = m.rd (frmBuf + 4) := by simp [m₁]
        rw [hc₁, hc₂]
        simp only [List.map_cons, List.map_nil, reqFrame, Machine.pair, ftResync, List.cons.injEq,
          and_true, true_and]
        omega
      rw [hframe] at hsend
      have hsilent : Emits [] m m₁ := .silent (by simp [m₁]) (by simp [m₁])
      exact hsilent.trans hsend
  · rw [if_neg fun h => hbad h.1, if_neg hbad]
    exact .silent rfl rfl

/-! ## What a peer receives -/

/-- The frames that went on the record between two states. -/
def newFrames (m m' : Machine) : List (List Nat) :=
  (m'.hist.sent.drop m.hist.sent.length).map Prod.snd

/-- A frame that some console's `LS_PASS`, `RS_ON_CRC` or `RS_PUSH` sends. -/
inductive ConsoleFrame (f : List Nat) : Prop
  | input (m : Machine) (input : Nat × Nat) (h : f ∈ newFrames m (lsCapture input m))
  | report (m : Machine) (h : f ∈ newFrames m (lsReport m))
  | request (m : Machine) (h : f ∈ newFrames m (rsOnCrc m))
  | push (m : Machine) (h : f ∈ newFrames m (rsPush m))

theorem Machine.Emits.newFrames {fs : List (List Nat)} (h : Emits fs m m') {f : List Nat}
    (hsent : m''.hist.sent = m'.hist.sent) (hf : f ∈ newFrames m m'') : f ∈ fs := by
  obtain ⟨l, hl, -, hh⟩ := h
  rw [Console.newFrames, hsent, hh] at hf
  simp only [List.drop_left, List.map_map] at hf
  obtain ⟨g, hg, rfl⟩ := List.mem_map.mp hf
  exact hl.subset hg

/-- A frame a console's parser admits, in bytes. -/
structure Framed (f : List Nat) : Prop where
  wellFormed : WellFormed headOk f
  bytes : ∀ b ∈ f, b < 256

/-- A sent frame is in bytes. -/
theorem map_byte_lt (l : List Nat) : ∀ b ∈ l.map (· % 256), b < 256 := by
  intro b hb
  obtain ⟨x, -, rfl⟩ := List.mem_map.mp hb
  exact Nat.mod_lt _ (by decide)

theorem crcFrame_framed {seat tick ck : Nat} (hseat : seat < 256) (htick : tick < 65536)
    (hck : ck < 65536) : Framed (crcFrame seat tick ck) := by
  refine ⟨⟨by simp [crcFrame], by simp [crcFrame], rfl⟩, fun b hb => ?_⟩
  simp only [crcFrame, ftCrc, List.mem_cons, List.not_mem_nil, or_false] at hb
  omega

theorem reqFrame_framed {tick : Nat} (htick : tick < 65536) : Framed (reqFrame tick) := by
  refine ⟨⟨by simp [reqFrame], by simp [reqFrame], rfl⟩, fun b hb => ?_⟩
  simp only [reqFrame, ftResync, List.mem_cons, List.not_mem_nil, or_false] at hb
  omega

theorem beginFrame_framed {r : Nat} (hr : r < 65536) : Framed (beginFrame r) := by
  refine ⟨⟨by simp [beginFrame], by simp [beginFrame], rfl⟩, fun b hb => ?_⟩
  simp only [beginFrame, ftState, List.mem_cons, List.not_mem_nil, or_false] at hb
  omega

theorem endFrame_framed : Framed endFrame := by
  refine ⟨⟨by decide, by decide, rfl⟩, fun b hb => ?_⟩
  simp only [endFrame, ftState, List.mem_cons, List.not_mem_nil, or_false] at hb
  omega

theorem image_bytes (m : Machine) : ∀ b ∈ image m, b < 256 := by
  intro b hb
  obtain ⟨p, hp, rfl⟩ := List.mem_map.mp hb
  exact imgGet_lt (List.mem_range.mp hp) m

theorem chunkFrame_framed {img : List Nat} {p n : Nat} (himg : img.length = imgTotal)
    (hbytes : ∀ b ∈ img, b < 256) (hpos : 0 < n) (hn : n ≤ rsChunk) (hp : p + n ≤ imgTotal) :
    Framed (chunkFrame img p n) := by
  simp only [rsChunk, imgTotal] at hn hp himg
  have hlen : ((img.drop p).take n).length = n := by
    rw [List.length_take, List.length_drop]
    omega
  refine ⟨⟨by simp [chunkFrame], ?_, ?_⟩, fun b hb => ?_⟩
  · simp only [chunkFrame, List.length_cons, hlen, List.headD_cons]
  · simp only [chunkFrame, List.getD_cons_succ, List.getD_cons_zero, List.headD_cons, headOk,
      ftState, sesFlen, decide_eq_true_eq]
    rintro (h | h | h)
    · exact absurd h (by decide)
    · omega
    · omega
  · simp only [chunkFrame, ftState, List.mem_cons] at hb
    rcases hb with rfl | rfl | rfl | rfl | hb
    · omega
    · omega
    · omega
    · omega
    · exact hbytes b (List.mem_of_mem_drop (List.mem_of_mem_take hb))

theorem chunkFrames_framed {img : List Nat} (himg : img.length = imgTotal)
    (hbytes : ∀ b ∈ img, b < 256) (fuel : Nat) {p : Nat} (hp : p ≤ imgTotal) :
    ∀ f ∈ chunkFrames img fuel p, Framed f := by
  induction fuel generalizing p with
  | zero => exact fun f hf => absurd hf (by simp [chunkFrames])
  | succ fuel ih =>
      intro f hf
      unfold chunkFrames at hf
      dsimp only at hf
      have hn : min (imgTotal - p) rsChunk ≤ rsChunk := Nat.min_le_right _ _
      have hle : min (imgTotal - p) rsChunk ≤ imgTotal - p := Nat.min_le_left _ _
      split at hf
      · exact absurd hf (by simp)
      · next hmore =>
          have hpos : 0 < min (imgTotal - p) rsChunk := by
            simp only [rsChunk]
            omega
          rcases List.mem_cons.mp hf with rfl | hf
          · exact chunkFrame_framed himg hbytes hpos hn (by omega)
          · exact ih (by omega) f hf

theorem pushFrames_framed {r : Nat} {img : List Nat} (hr : r < 65536)
    (himg : img.length = imgTotal) (hbytes : ∀ b ∈ img, b < 256) :
    ∀ f ∈ pushFrames r img, Framed f := by
  intro f hf
  rcases List.mem_cons.mp hf with rfl | hf
  · exact beginFrame_framed hr
  · rcases List.mem_append.mp hf with hf | hf
    · exact chunkFrames_framed himg hbytes _ (Nat.zero_le _) f hf
    · rw [List.mem_singleton.mp hf]
      exact endFrame_framed

/-- Whatever a console sends, another one's parser admits. -/
theorem ConsoleFrame.framed {f : List Nat} (h : ConsoleFrame f) : Framed f := by
  cases h with
  | input m input h =>
      unfold lsCapture at h
      extract_lets m₁ r2 r3 m₂ m₃ m₄ at h
      have hemits : Emits ([] ++ [_]) m m₄ := .trans
        (show Emits [] m m₃ from .silent (by simp [m₃, m₂, m₁]) (by simp [m₃, m₂, m₁]))
        (sendFrame_emits (by simp) m₃)
      rw [List.nil_append] at hemits
      rw [List.mem_singleton.mp (hemits.newFrames rfl h)]
      exact ⟨⟨by simp, by simp, by simp [headOk, sesFlen]⟩, map_byte_lt _⟩
  | report m h =>
      have hf := (lsReport_emits m).newFrames rfl h
      split at hf
      · rw [List.mem_singleton.mp hf]
        exact crcFrame_framed (m.rd_byte (by decide)) (pair_lt m (by decide) (by decide))
          (lsCksum_lt m)
      · exact absurd hf (by simp)
  | request m h =>
      have hf := (rsOnCrc_emits m).newFrames rfl h
      split at hf
      · rw [List.mem_singleton.mp hf]
        exact reqFrame_framed (pair_lt m (by decide) (by decide))
      · exact absurd hf (by simp)
  | push m h =>
      have hsent : (rsPush m).hist.sent = (rsSend m).hist.sent := by
        rw [rsPush_eq]
        simp
      exact pushFrames_framed (Nat.mod_lt _ (by decide)) (image_length m) (image_bytes m) f
        ((rsSend_emits m).newFrames hsent h)

end SharkNetplay.Console
