import SharkNetplay.Lib.Run
import SharkNetplay.Console.Confinement
import SharkNetplay.Console.Handlers

/-!
# What a guest adopts

A push as a guest sees it: BEGIN, data chunks, END. The guest keeps no account of the
chunks it applied, and END adopts the new baseline whatever arrived before it.

## Implementation notes

Between two frames of a push the rest of the console does anything that leaves the hold
alone (and the image, where that matters). A lost or slipped frame is one the guest does
not handle.
-/

namespace SharkNetplay.Console

open Lib Lib.Framing Cell Machine

variable {m m' m₀ m₁ : Machine}

/-! ## The pieces of a push -/

/-- The image from position `p` on, in chunks. -/
def chunkPieces (img : List Nat) : Nat → Nat → List (Piece Nat)
  | 0, _ => []
  | fuel + 1, p =>
    let n := min (imgTotal - p) rsChunk
    if imgTotal - p = 0 then [] else ⟨p, (img.drop p).take n⟩ :: chunkPieces img fuel (p + n)

/-- The messages of a push. -/
def pushMsgs (r : Nat) (img : List Nat) : List Msg :=
  .opening r :: ((chunkPieces img imgTotal 0).map .piece ++ [.closing])

variable {img : List Nat}

theorem take_length_of_le {p n : Nat} (h : p + n ≤ img.length) :
    ((img.drop p).take n).length = n := by
  rw [List.length_take, List.length_drop]
  omega

theorem chunkFrames_eq (himg : img.length = imgTotal) (fuel p : Nat) :
    chunkFrames img fuel p = (chunkPieces img fuel p).map fun q => (Msg.piece q).frame := by
  induction fuel generalizing p with
  | zero => rfl
  | succ fuel ih =>
      unfold chunkFrames chunkPieces
      dsimp only
      by_cases hdone : imgTotal - p = 0
      · rw [if_pos hdone, if_pos hdone]
        rfl
      · have hlen : ((img.drop p).take (min (imgTotal - p) rsChunk)).length =
            min (imgTotal - p) rsChunk := take_length_of_le (by omega)
        rw [if_neg hdone, if_neg hdone, List.map_cons, ih]
        simp only [chunkFrame, Msg.frame, hlen]

/-- The frames of a push are those of its messages. -/
theorem pushFrames_eq (himg : img.length = imgTotal) (r : Nat) :
    pushFrames r img = (pushMsgs r img).map Msg.frame := by
  simp only [pushFrames, pushMsgs, chunkFrames_eq himg, List.map_cons, List.map_append,
    List.map_map, List.map_nil]
  rfl

/-- Every chunk fits the image and carries its bytes. -/
theorem chunkPieces_from (himg : img.length = imgTotal) (fuel p : Nat) :
    ∀ q ∈ chunkPieces img fuel p, q.Fits imgTotal ∧ q.From img ∧ q.values ≠ [] ∧
      q.values.length ≤ rsChunk := by
  induction fuel generalizing p with
  | zero => exact fun q hq => absurd hq (by simp [chunkPieces])
  | succ fuel ih =>
      intro q hq
      unfold chunkPieces at hq
      dsimp only at hq
      split at hq
      · exact absurd hq (by simp)
      · next hmore =>
          have hlen : ((img.drop p).take (min (imgTotal - p) rsChunk)).length =
              min (imgTotal - p) rsChunk := take_length_of_le (by omega)
          have hpos : 0 < min (imgTotal - p) rsChunk := by
            simp only [rsChunk]
            omega
          rcases List.mem_cons.mp hq with rfl | hq
          · refine ⟨?_, ?_, ?_, ?_⟩
            · show p + _ ≤ _
              rw [hlen]
              omega
            · show _ = _
              rw [hlen]
            · exact List.length_pos_iff.mp (by rw [hlen]; exact hpos)
            · rw [hlen]
              exact Nat.min_le_right _ _
          · exact ih _ q hq

/-- The chunks of a push cover the image. -/
theorem chunkPieces_covers (himg : img.length = imgTotal) {fuel p : Nat}
    (hfuel : imgTotal - p ≤ fuel) {i : Nat} (hp : p ≤ i) (hi : i < imgTotal) :
    ∃ q ∈ chunkPieces img fuel p, q.Has i := by
  induction fuel generalizing p with
  | zero => omega
  | succ fuel ih =>
      have hlen : ((img.drop p).take (min (imgTotal - p) rsChunk)).length =
          min (imgTotal - p) rsChunk := take_length_of_le (by omega)
      have hpos : 0 < min (imgTotal - p) rsChunk := by
        simp only [rsChunk]
        omega
      unfold chunkPieces
      dsimp only
      rw [if_neg (by omega)]
      by_cases hin : i < p + min (imgTotal - p) rsChunk
      · refine ⟨_, List.mem_cons_self, hp, ?_⟩
        rw [hlen]
        exact hin
      · obtain ⟨q, hq, hhas⟩ := ih (p := p + min (imgTotal - p) rsChunk) (by omega) (by omega)
        exact ⟨q, List.mem_cons_of_mem _ hq, hhas⟩

theorem pushMsgs_sound {r : Nat} (hr : r < 65536) (himg : img.length = imgTotal)
    (hbytes : ∀ b ∈ img, b < 256) : ∀ x ∈ pushMsgs r img, x.Sound := by
  intro x hx
  have hframed : Framed x.frame := by
    refine pushFrames_framed hr himg hbytes _ ?_
    rw [pushFrames_eq himg]
    exact List.mem_map_of_mem hx
  refine ⟨hframed, fun q hq => ?_⟩
  have hmem : q ∈ chunkPieces img imgTotal 0 := by
    subst hq
    simpa [pushMsgs] using hx
  have hfits := (chunkPieces_from himg _ _ q hmem).1
  simp only [Piece.Fits, imgTotal] at hfits
  omega

/-! ## Handling frame after frame -/

/-- The rest of the console between two frames of a push: the hold stays as it is, and so
does the baseline. -/
structure Between (m m₁ : Machine) : Prop where
  hold : m₁.view.hold = m.view.hold
  epoch : m₁.hist.stamp.epoch = m.hist.stamp.epoch

/-- No simulation cell is written either. -/
structure Still (m m₁ : Machine) : Prop extends Between m m₁ where
  image : image m₁ = image m

theorem Still.trans {m₂ : Machine} (h : Still m m₁) (h' : Still m₁ m₂) : Still m m₂ :=
  ⟨⟨h'.hold.trans h.hold, h'.epoch.trans h.epoch⟩, h'.image.trans h.image⟩

/-- The parser comes to the frame of `x` and handles it. -/
def Handles (R : Machine → Machine → Prop) (x : Msg) (m m' : Machine) : Prop :=
  ∃ m₁ rest, R m m₁ ∧ cut headOk (buffered m₁) = .frame x.frame rest ∧ ppParse m₁ = some m'

/-- What a handled STATE message leaves. -/
theorem Handles.took {R : Machine → Machine → Prop} {x : Msg} (hstate : x.IsState) (hx : x.Sound)
    (h : Handles R x m m') : ∃ m₁, R m m₁ ∧ m'.view = m₁.view.onMsg x ∧
      image m' = m₁.view.onImage (image m₁) x ∧ m'.hist.stamp.epoch =
        m₁.hist.stamp.epoch + if m₁.view.adopts x then 1 else 0 := by
  obtain ⟨m₁, rest, hR, hcut, hparse⟩ := h
  obtain ⟨heq, hload, hview, himg⟩ := parse_msg hcut
  rw [hparse, Option.some.injEq] at heq
  obtain ⟨htook, hlog⟩ := took_state hload.inBuf hstate hx
  obtain ⟨l, -, -, hhist⟩ := hlog.hist
  rw [← heq, hview] at hhist
  have hv := htook.view
  have hi := htook.image
  rw [← heq, hview] at hv
  rw [← heq, hview, himg] at hi
  refine ⟨m₁, hR, hv, hi, ?_⟩
  rw [hhist, hload.hist]
  dsimp only
  split <;> rfl

theorem closing_sound : Msg.closing.Sound := ⟨endFrame_framed, fun _ h => by cases h⟩

/-- What END leaves. -/
theorem Handles.closing {R : Machine → Machine → Prop} (h : Handles R .closing m m') :
    ∃ m₁ m₂ : Machine, R m m₁ ∧ m₂.view = m₁.view ∧ image m₂ = image m₁ ∧
      m₂.hist.stamp = m₁.hist.stamp ∧ m' = if m₂.view.hold = 0 then m₂ else rsRebase m₂ := by
  obtain ⟨m₁, rest, hR, hcut, hparse⟩ := h
  obtain ⟨heq, hload, hview, himg⟩ := parse_msg hcut
  rw [hparse, Option.some.injEq] at heq
  have hbuf : InBuf Msg.closing.frame (ppLoad m₁) := hload.inBuf
  have hty : (ppLoad m₁).rd (frmBuf + 1) = ftState := hbuf.cell 1 (by decide)
  refine ⟨m₁, logHandled (ppLoad m₁), hR, hview, himg, ?_, ?_⟩
  · rw [hist_logHandled hbuf, hload.hist]
  · rw [heq, sesOnframe_state hty, rsOnState_closing hbuf.logHandled]

/-! ## END and the coverage of the image -/

/-- The tests of `RS_ON_STATE` before `@@rs_dl`: a data frame, a hold, and a chunk that
lies in the image. -/
def dataTaken (m : Machine) : Bool :=
  let r0 := m.rd frmBuf - 3
  decide (3 ≤ m.rd frmBuf ∧ m.rd (frmBuf + 3) ≠ 0xFF ∧ m.rd resyncHold ≠ 0 ∧ r0 ≠ 0 ∧
    ¬ (4 ≤ m.rd (frmBuf + 3) ∨ imgTotal + 1 ≤ m.pair (frmBuf + 2) (frmBuf + 3) + r0))

theorem dataTaken_eq {q : Piece Nat} (h : InBuf (Msg.piece q).frame m) (hpos : q.pos < 0xFF00) :
    dataTaken m = m.view.takesPiece q := by
  have hl : m.rd frmBuf = q.values.length + 3 := h.cell 0 (by simp [Msg.frame])
  have h₂ : m.rd (frmBuf + 2) = q.pos % 256 := h.cell 2 (by simp [Msg.frame])
  have h₃ : m.rd (frmBuf + 3) = q.pos / 256 := h.cell 3 (by simp [Msg.frame])
  have hhold : m.rd resyncHold = m.view.hold := rfl
  have hnil : q.values.length ≠ 0 ↔ q.values ≠ [] := by
    rw [Ne, List.length_eq_zero_iff]
  have hiff : dataTaken m = true ↔ m.view.takesPiece q = true := by
    simp only [dataTaken, View.takesPiece, decide_eq_true_eq, Machine.pair, hl, h₂, h₃, hhold,
      Piece.Fits, ← hnil, imgTotal]
    omega
  exact Bool.eq_iff_iff.mpr hiff

/-- The guest handles a data frame; the label says whether it applies the chunk. -/
def DataStep (e : Piece Nat × Bool) (m m' : Machine) : Prop :=
  e.1.pos < 0xFF00 ∧ ∃ m₁ rest, Between m m₁ ∧
    cut headOk (buffered m₁) = .frame (Msg.piece e.1).frame rest ∧
    e.2 = dataTaken (ppLoad m₁) ∧ ppParse m₁ = some m'

/-- The chunks that reached the guest. -/
def arrived (es : List (Piece Nat × Bool)) : List (Piece Nat) := es.map Prod.fst

/-- The chunks the guest applied. -/
def applied (es : List (Piece Nat × Bool)) : List (Piece Nat) := (es.filter Prod.snd).map Prod.fst

theorem piece_sound {q : Piece Nat} (hpos : q.pos < 0xFF00) {rest : List Nat}
    (hcut : cut headOk (buffered m) = .frame (Msg.piece q).frame rest) : (Msg.piece q).Sound := by
  have hwf := (cut_eq_frame headOk_zero hcut).2
  have hload := ppLoad_loaded hcut
  have hlen : (Msg.piece q).frame.length ≤ 128 := by
    obtain ⟨len, ty, tail, hframe, hlen, hok⟩ := hwf.cases_eq
    have hbound := headOk_bounds hok
    rw [hframe, List.length_cons, List.length_cons]
    omega
  refine ⟨⟨hwf, hload.inBuf.bytes hlen⟩, fun p hp => ?_⟩
  cases hp
  exact hpos

/-- One chunk: the hold and the baseline stay, and the label is decided by the bounds. -/
theorem DataStep.took {e : Piece Nat × Bool} (h : DataStep e m m') :
    m'.view.hold = m.view.hold ∧ m'.hist.stamp.epoch = m.hist.stamp.epoch ∧
      e.2 = m.view.takesPiece e.1 := by
  obtain ⟨hpos, m₁, rest, hR, hcut, htaken, hparse⟩ := h
  have hload := ppLoad_loaded hcut
  have hmark := dataTaken_eq hload.inBuf hpos
  obtain ⟨m₂, rfl, hview, -, hepoch⟩ := @Handles.took _ _ (fun a b => b = a) (.piece e.1)
    trivial (piece_sound hpos hcut) ⟨m₁, rest, rfl, hcut, hparse⟩
  refine ⟨?_, ?_, ?_⟩
  · rw [hview]
    exact hR.hold
  · rw [hepoch]
    exact hR.epoch
  · rw [htaken, hmark, hload.view]
    unfold View.takesPiece
    rw [hR.hold]

/-- Under a hold, what is applied is what lies in the image. -/
theorem applied_of_hold {es : List (Piece Nat × Bool)} (hrun : Run DataStep m es m')
    (hhold : m.view.hold ≠ 0) :
    m'.view.hold = m.view.hold ∧ m'.hist.stamp.epoch = m.hist.stamp.epoch ∧
      applied es = (arrived es).filter fun q => decide (q.values ≠ [] ∧ q.Fits imgTotal) := by
  induction hrun with
  | nil => exact ⟨rfl, rfl, rfl⟩
  | @cons s t u e es hstep _ ih =>
      obtain ⟨hh, he, hmark⟩ := hstep.took
      obtain ⟨hh', he', happ⟩ := ih (hh ▸ hhold)
      refine ⟨hh'.trans hh, he'.trans he, ?_⟩
      have hbounds : s.view.takesPiece e.1 =
          decide (e.1.values ≠ [] ∧ e.1.Fits imgTotal) := by
        simp only [View.takesPiece, ne_eq, hhold, not_false_eq_true, true_and]
      rw [hbounds] at hmark
      unfold applied arrived at happ ⊢
      rw [List.filter_cons, List.map_cons, List.filter_cons, hmark, ← happ]
      split <;> rfl

/-- Empty chunks cover nothing. -/
theorem covers_filter (n : Nat) (qs : List (Piece Nat)) :
    Covers n (qs.filter fun q => decide (q.values ≠ [] ∧ q.Fits n)) ↔
      Covers n (qs.filter fun q => decide (q.Fits n)) := by
  constructor
  · intro h i hi
    obtain ⟨q, hq, hhas⟩ := h i hi
    rw [List.mem_filter, decide_eq_true_eq] at hq
    exact ⟨q, List.mem_filter.mpr ⟨hq.1, decide_eq_true hq.2.2⟩, hhas⟩
  · intro h i hi
    obtain ⟨q, hq, hhas⟩ := h i hi
    rw [List.mem_filter, decide_eq_true_eq] at hq
    refine ⟨q, List.mem_filter.mpr ⟨hq.1, decide_eq_true ⟨?_, hq.2⟩⟩, hhas⟩
    intro hnil
    obtain ⟨h₁, h₂⟩ := hhas
    rw [hnil, List.length_nil] at h₂
    omega

theorem opening_hold {R : Machine → Machine → Prop} {r : Nat} (h : Handles R (.opening r) m m') :
    m'.view.hold = 1 := by
  obtain ⟨m₁, rest, hR, hcut, hparse⟩ := h
  have hload := ppLoad_loaded hcut
  obtain ⟨heq, -, -, -⟩ := parse_msg hcut
  rw [hparse, Option.some.injEq] at heq
  rw [heq, (took_opening hload.inBuf).1.view]
  rfl

/-- END after BEGIN adopts a new baseline, whatever came in between. -/
theorem closing_epoch {R : Machine → Machine → Prop} (hR : ∀ {a b}, R a b → Between a b)
    (hhold : m.view.hold ≠ 0) (h : Handles R .closing m m') :
    m'.hist.stamp.epoch = m.hist.stamp.epoch + 1 := by
  have hstate : Msg.closing.IsState := trivial
  obtain ⟨m₁, hrel, -, -, hepoch⟩ := h.took hstate closing_sound
  have hheld : m₁.view.adopts .closing = true := by
    simp only [View.adopts, decide_eq_true_eq, (hR hrel).hold]
    exact hhold
  rw [hepoch, hheld, (hR hrel).epoch]
  rfl

/-! ### A guest that is fed frames -/

theorem Still.pumpRecv (v : Arrival) (m : Machine) : Still m (pumpRecv v m) := by
  refine ⟨⟨by rw [view_pumpRecv], by rw [hist_pumpRecv]⟩, ?_⟩
  refine image_congr fun a ha => (pumpRecv_writes v m).frame fun w hw => ?_
  have hsim := simCell_range ha
  simp only [RecvCell, Mail, rxWr] at hw
  omega

/-- A console with nothing buffered reads a frame in two pumps. -/
theorem reads_frame {f : List Nat} (hf : Framed f) (hempty : buffered m = []) :
    ∃ m₁, Still m m₁ ∧ cut headOk (buffered m₁) = .frame f [] := by
  have hlen : f.length ≤ 100 := by
    obtain ⟨len, ty, tail, hframe, hlen, hok⟩ := hf.wellFormed.cases_eq
    have hbound := headOk_bounds hok
    rw [hframe, List.length_cons, List.length_cons]
    omega
  have hmod : ∀ l : List Nat, (∀ b ∈ l, b ∈ f) → l.map (· % 256) = l := by
    intro l hl
    refine (List.map_congr_left fun b hb => ?_).trans (List.map_id l)
    exact Nat.mod_eq_of_lt (hf.bytes b (hl b hb))
  have hfirst : buffered (pumpRecv (Arrival.of (f.take 64)) m) = f.take 64 := by
    have htake : (f.take 64).length ≤ 64 := by
      rw [List.length_take]
      exact Nat.min_le_left _ _
    rw [buffered_pumpRecv (Arrival.of_delivers htake) (by simp [hempty]), hempty,
      List.nil_append, hmod _ fun b hb => List.mem_of_mem_take hb]
  have hsecond : buffered (pumpRecv (Arrival.of (f.drop 64))
      (pumpRecv (Arrival.of (f.take 64)) m)) = f := by
    have hdrop : (f.drop 64).length ≤ 64 := by
      rw [List.length_drop]
      omega
    have hroom : (f.take 64).length + 64 < 256 := by
      rw [List.length_take]
      omega
    rw [buffered_pumpRecv (Arrival.of_delivers hdrop) (by rw [hfirst]; exact hroom),
      hfirst, hmod _ fun b hb => List.mem_of_mem_drop hb, List.take_append_drop]
  refine ⟨pumpRecv (Arrival.of (f.drop 64)) (pumpRecv (Arrival.of (f.take 64)) m),
    (Still.pumpRecv _ m).trans (Still.pumpRecv _ _), ?_⟩
  rw [hsecond]
  have hcut := cut_append hf.wellFormed []
  rwa [List.append_nil] at hcut

/-- It handles any STATE message it is fed. -/
theorem feeds {x : Msg} (hstate : x.IsState) (hx : x.Sound) (hempty : buffered m = []) :
    ∃ m₁ m', Still m m₁ ∧ cut headOk (buffered m₁) = .frame x.frame [] ∧
      ppParse m₁ = some m' ∧ buffered m' = [] := by
  obtain ⟨m₁, hstill, hcut⟩ := reads_frame hx.framed hempty
  obtain ⟨hparse, hload, -, -⟩ := parse_msg hcut
  exact ⟨m₁, _, hstill, hcut, hparse,
    ((took_state hload.inBuf hstate hx).1.apart.buffered_eq).trans hload.queue⟩

theorem feeds_all {xs : List Msg} (hxs : ∀ x ∈ xs, x.IsState ∧ x.Sound) (hempty : buffered m = []) :
    ∃ m', Run (Handles Still) m xs m' ∧ buffered m' = [] := by
  induction xs generalizing m with
  | nil => exact ⟨m, .nil m, hempty⟩
  | cons x xs ih =>
      obtain ⟨hstate, hx⟩ := hxs x (by simp)
      obtain ⟨m₁, m₂, hstill, hcut, hparse, hbuf⟩ := feeds hstate hx hempty
      obtain ⟨m', hrun, hend⟩ := ih (fun y hy => hxs y (by simp [hy])) hbuf
      exact ⟨m', .cons ⟨m₁, [], hstill, hcut, hparse⟩ hrun, hend⟩

theorem feeds_data {qs : List (Piece Nat)} (hqs : ∀ q ∈ qs, (Msg.piece q).Sound)
    (hempty : buffered m = []) :
    ∃ es m', arrived es = qs ∧ Run DataStep m es m' ∧ buffered m' = [] := by
  induction qs generalizing m with
  | nil => exact ⟨[], m, rfl, .nil m, hempty⟩
  | cons q qs ih =>
      have hx := hqs q (by simp)
      have hstate : (Msg.piece q).IsState := trivial
      obtain ⟨m₁, m₂, hstill, hcut, hparse, hbuf⟩ := feeds hstate hx hempty
      obtain ⟨es, m', harr, hrun, hend⟩ := ih (fun p hp => hqs p (by simp [hp])) hbuf
      refine ⟨(q, dataTaken (ppLoad m₁)) :: es, m', ?_, .cons ⟨hx.piece q rfl, m₁, [], hstill.toBetween,
        hcut, rfl, hparse⟩ hrun, hend⟩
      unfold arrived at harr ⊢
      rw [List.map_cons, harr]

theorem Handles.between {x : Msg} (h : Handles Still x m m') : Handles Between x m m' := by
  obtain ⟨m₁, rest, hstill, hcut, hparse⟩ := h
  exact ⟨m₁, rest, hstill.toBetween, hcut, hparse⟩

theorem opening_sound {r : Nat} (hr : r < 65536) : (Msg.opening r).Sound :=
  ⟨beginFrame_framed hr, fun _ h => by cases h⟩

/-- An image of zeros. -/
def zeroImage : List Nat := List.replicate imgTotal 0

theorem zeroImage_length : zeroImage.length = imgTotal := List.length_replicate

theorem zeroImage_bytes : ∀ b ∈ zeroImage, b < 256 := by
  intro b hb
  rw [List.eq_of_mem_replicate hb]
  decide

theorem zeroPieces_sound : ∀ q ∈ chunkPieces zeroImage imgTotal 0, (Msg.piece q).Sound := by
  intro q hq
  refine @pushMsgs_sound _ 0 (by decide) zeroImage_length zeroImage_bytes _ ?_
  exact List.mem_cons_of_mem _ (List.mem_append_left _ (List.mem_map_of_mem hq))

/-- A push of which the chunks `qs` arrive. -/
theorem push_arrives {qs : List (Piece Nat)} (hqs : ∀ q ∈ qs, (Msg.piece q).Sound)
    (hempty : buffered m₀ = []) : ∃ m m₁ m' es, Handles Between (.opening 16) m₀ m ∧
      Run DataStep m es m₁ ∧ Handles Between .closing m₁ m' ∧ arrived es = qs := by
  have hopen : (Msg.opening 16).IsState := trivial
  have hclose : Msg.closing.IsState := trivial
  obtain ⟨a, m, hstill, hcut, hparse, hbuf⟩ := feeds hopen (opening_sound (by decide)) hempty
  obtain ⟨es, m₁, harr, hrun, hbuf₁⟩ := feeds_data hqs hbuf
  obtain ⟨b, m', hstill', hcut', hparse', -⟩ := feeds hclose closing_sound hbuf₁
  exact ⟨m, m₁, m', es, ⟨a, [], hstill.toBetween, hcut, hparse⟩, hrun,
    ⟨b, [], hstill'.toBetween, hcut', hparse'⟩, harr⟩

/-- A guest adopts the baseline of a push only with the whole image exactly when the
chunks that reached it and lie in the image cover every position. -/
theorem rebase_covered_iff {r : Nat} {es : List (Piece Nat × Bool)}
    (hopen : Handles Between (.opening r) m₀ m) (hdata : Run DataStep m es m₁)
    (hclose : Handles Between .closing m₁ m') :
    (m'.hist.stamp.epoch ≠ m.hist.stamp.epoch → Covers imgTotal (applied es)) ↔
      Covers imgTotal ((arrived es).filter fun q => decide (q.Fits imgTotal)) := by
  have hhold : m.view.hold ≠ 0 := by
    rw [opening_hold hopen]
    decide
  obtain ⟨hh, he, happ⟩ := applied_of_hold hdata hhold
  have hadopt : m'.hist.stamp.epoch ≠ m.hist.stamp.epoch := by
    rw [closing_epoch id (hh ▸ hhold) hclose, he]
    omega
  rw [happ, covers_filter]
  exact ⟨fun h => h hadopt, fun h _ => h⟩

/-- A push that arrives whole, handled by a blank console. -/
theorem rebase_covered_iff_whole : ∃ m m₁ m' es, Handles Between (.opening 16) blank m ∧
    Run DataStep m es m₁ ∧ Handles Between .closing m₁ m' ∧
    ((m'.hist.stamp.epoch ≠ m.hist.stamp.epoch → Covers imgTotal (applied es)) ↔
      Covers imgTotal ((arrived es).filter fun q => decide (q.Fits imgTotal))) := by
  obtain ⟨m, m₁, m', es, hopen, hrun, hclose, -⟩ :=
    @push_arrives blank _ zeroPieces_sound (by decide)
  exact ⟨m, m₁, m', es, hopen, hrun, hclose, rebase_covered_iff hopen hrun hclose⟩

/-- The first chunk of a push is lost and END adopts the baseline all the same. -/
theorem rebase_uncovered : ¬ ∀ (m₀ m m₁ m' : Machine) (r : Nat) (es : List (Piece Nat × Bool)),
    Handles Between (.opening r) m₀ m → Run DataStep m es m₁ → Handles Between .closing m₁ m' →
      m'.hist.stamp.epoch ≠ m.hist.stamp.epoch → Covers imgTotal (applied es) := by
  intro hall
  have hcons : chunkPieces zeroImage imgTotal 0 =
      ⟨0, (zeroImage.drop 0).take 96⟩ :: chunkPieces zeroImage 769 96 := rfl
  have hsound : ∀ q ∈ chunkPieces zeroImage 769 96, (Msg.piece q).Sound := fun q hq =>
    zeroPieces_sound q (by rw [hcons]; exact List.mem_cons_of_mem _ hq)
  obtain ⟨m, m₁, m', es, hopen, hrun, hclose, harr⟩ := @push_arrives blank _ hsound (by decide)
  have hhold : m.view.hold ≠ 0 := by
    rw [opening_hold hopen]
    decide
  obtain ⟨hh, he, -⟩ := applied_of_hold hrun hhold
  have hadopt : m'.hist.stamp.epoch ≠ m.hist.stamp.epoch := by
    rw [closing_epoch id (hh ▸ hhold) hclose, he]
    omega
  obtain ⟨q, hq, hhas⟩ := hall blank m m₁ m' 16 es hopen hrun hclose hadopt 0 (by decide)
  have hmem : q ∈ chunkPieces zeroImage 769 96 := by
    rw [← harr]
    obtain ⟨e, he, rfl⟩ := List.mem_map.mp hq
    exact List.mem_map_of_mem (List.mem_of_mem_filter he)
  have hlate : ∀ (fuel p : Nat), ∀ q ∈ chunkPieces zeroImage fuel p, p ≤ q.pos := by
    intro fuel
    induction fuel with
    | zero => exact fun p q hq => absurd hq (by simp [chunkPieces])
    | succ fuel ih =>
        intro p q hq
        unfold chunkPieces at hq
        dsimp only at hq
        split at hq
        · exact absurd hq (by simp)
        · rcases List.mem_cons.mp hq with rfl | hq
          · exact Nat.le_refl p
          · exact Nat.le_trans (Nat.le_add_right _ _) (ih _ q hq)
  have hpos := hlate _ _ q hmem
  have hzero := hhas.1
  omega

/-! ## END and the code pointers of the image -/

@[simp] def ssHtblLive : Nat := 0x5193
@[simp] def ssHtblNull : Nat := 0x1906
@[simp] def ssHtblPlayagain : Nat := 0x629C

/-- The handler tables of the cart. -/
def handlerTables : List Nat := [ssHtblPrompt, ssHtblLive, ssHtblNull, ssHtblPlayagain]

/-- Every transported cell that is used as a code or table pointer has a known value. -/
structure PointersGood (m : Machine) : Prop where
  saved : m.pair scIsrSave (scIsrSave + 1) = execIsrDef
  live : m.pair isrLo isrHi = execIsrDef
  table : m.pair gameTblLo gameTblHi ∈ handlerTables

/-- Pieces of one image, applied under a hold, leave that image. -/
theorem image_of_pieces {qs : List (Piece Nat)} (hqs : ∀ q ∈ qs, q.Fits imgTotal)
    (hhold : m.view.hold ≠ 0) (hrun : Run (Handles Still) m (qs.map Msg.piece) m') :
    image m' = patchAll qs (image m) ∧ m'.view.hold = m.view.hold := by
  induction qs generalizing m with
  | nil =>
      cases hrun
      exact ⟨(patchAll_nil _).symm, rfl⟩
  | cons q qs ih =>
      cases hrun with
      | cons hstep hrest =>
          have hfits := hqs q (by simp)
          have hpos : q.pos < 0xFF00 := by
            simp only [Piece.Fits, imgTotal] at hfits
            omega
          obtain ⟨m₁, rest, hstill, hcut, hparse⟩ := hstep
          have hstate : (Msg.piece q).IsState := trivial
          obtain ⟨m₂, rfl, hview, himg, -⟩ := @Handles.took _ _ (fun a b => b = a) (.piece q)
            hstate (piece_sound hpos hcut) ⟨m₁, rest, rfl, hcut, hparse⟩
          have hhold' : m₂.view.hold ≠ 0 := by
            rw [hstill.hold]
            exact hhold
          obtain ⟨himg', hh'⟩ := ih (fun p hp => hqs p (by simp [hp])) (by rw [hview]; exact hhold')
            hrest
          refine ⟨?_, ?_⟩
          · have hone : m₂.view.onImage (image m₂) (.piece q) = patch q.pos q.values (image m) := by
              rw [hstill.image]
              by_cases hnil : q.values = []
              · rw [hnil, patch_nil]
                exact if_neg (by simp [View.takesPiece, hnil])
              · exact if_pos (decide_eq_true ⟨hhold', hnil, hfits⟩)
            rw [himg', himg, hone, patchAll_cons]
          · rw [hh', hview]
            exact hstill.hold

/-- The table pointer in an image. -/
def imageTable (img : List Nat) : Nat := img.getD 769 0 * 256 + img.getD 768 0

theorem table_eq (m : Machine) : m.pair gameTblLo gameTblHi = imageTable (image m) := by
  have h₁ : (image m).getD 769 0 = m.rd gameTblHi := image_getD (by decide) m
  have h₂ : (image m).getD 768 0 = m.rd gameTblLo := image_getD (by decide) m
  rw [imageTable, h₁, h₂]
  rfl

theorem imageTable_clean {img : List Nat} : imageTable (cleanImage img) = imageTable img := by
  unfold imageTable cleanImage
  simp [List.getD_eq_getElem?_getD]

/-- END of a push that covers the image adopts the baseline with that image. -/
theorem push_adopted {qs : List (Piece Nat)} (hlen : img.length = imgTotal)
    (hqs : ∀ q ∈ qs, q.Fits imgTotal ∧ q.From img) (hcov : Covers imgTotal qs)
    (hhold : m.view.hold ≠ 0) (hrun : Run (Handles Still) m (qs.map Msg.piece) m₁)
    (hclose : Handles Still .closing m₁ m') :
    ∃ m₂ : Machine, image m₂ = img ∧ m' = rsRebase m₂ := by
  obtain ⟨himg, hh⟩ := image_of_pieces (fun q hq => (hqs q hq).1) hhold hrun
  have hwhole : image m₁ = img := by
    rw [himg]
    refine patchAll_eq ?_ ?_ (fun q hq => (hqs q hq).2) ?_
    · rw [image_length, hlen]
    · rw [hlen]
      exact fun q hq => (hqs q hq).1
    · rw [hlen]
      exact hcov
  obtain ⟨a, b, hstill, hview, himg', -, heq⟩ := hclose.closing
  have hheld : ¬ b.view.hold = 0 := by
    rw [hview, hstill.hold, hh]
    exact hhold
  rw [if_neg hheld] at heq
  exact ⟨b, by rw [himg', hstill.image, hwhole], heq⟩

theorem table_rsRebase (m : Machine) :
    (rsRebase m).pair gameTblLo gameTblHi = imageTable (image m) := by
  rw [table_eq, image_rsRebase, imageTable_clean]

/-- After a push with the image `img` the transported pointers are good exactly when the
table pointer in `img` is one of the cart's: the vectors are clamped and it is not. -/
theorem pointers_good_iff {qs : List (Piece Nat)} (hlen : img.length = imgTotal)
    (hqs : ∀ q ∈ qs, q.Fits imgTotal ∧ q.From img) (hcov : Covers imgTotal qs)
    (hhold : m.view.hold ≠ 0) (hrun : Run (Handles Still) m (qs.map Msg.piece) m₁)
    (hclose : Handles Still .closing m₁ m') :
    PointersGood m' ↔ imageTable img ∈ handlerTables := by
  obtain ⟨b, himg, rfl⟩ := push_adopted hlen hqs hcov hhold hrun hclose
  have htable : (rsRebase b).pair gameTblLo gameTblHi = imageTable img := by
    rw [table_rsRebase, himg]
  constructor
  · intro h
    rw [← htable]
    exact h.table
  · intro h
    obtain ⟨h₁, h₂, h₃, h₄⟩ := isr_rsRebase b
    refine ⟨?_, ?_, htable ▸ h⟩
    · rw [Machine.pair, h₁, h₂]
      rfl
    · rw [Machine.pair, h₃, h₄]
      rfl

/-- A whole push of `img`, to a console that has nothing buffered. -/
theorem push_whole (hlen : img.length = imgTotal) (hbytes : ∀ b ∈ img, b < 256)
    (hempty : buffered m₀ = []) : ∃ m m₁ m', m.view.hold ≠ 0 ∧
      Run (Handles Still) m ((chunkPieces img imgTotal 0).map Msg.piece) m₁ ∧
      Handles Still .closing m₁ m' := by
  have hopen : (Msg.opening 16).IsState := trivial
  have hclose : Msg.closing.IsState := trivial
  obtain ⟨a, m, hstill, hcut, hparse, hbuf⟩ := feeds hopen (opening_sound (by decide)) hempty
  obtain ⟨m₁, hrun, hbuf₁⟩ := @feeds_all m ((chunkPieces img imgTotal 0).map Msg.piece) (by
    intro x hx
    obtain ⟨q, -, rfl⟩ := List.mem_map.mp hx
    refine ⟨trivial, @pushMsgs_sound _ 16 (by decide) hlen hbytes _ ?_⟩
    exact List.mem_cons_of_mem _ (List.mem_append_left _ hx)) hbuf
  obtain ⟨b, m', hstill', hcut', hparse', -⟩ := feeds hclose closing_sound hbuf₁
  have hhold : m.view.hold = 1 :=
    opening_hold (R := Still) (m := m₀) ⟨a, [], hstill, hcut, hparse⟩
  exact ⟨m, m₁, m', by rw [hhold]; decide, hrun, ⟨b, [], hstill', hcut', hparse'⟩⟩

theorem chunkPieces_fit (hlen : img.length = imgTotal) :
    ∀ q ∈ chunkPieces img imgTotal 0, q.Fits imgTotal ∧ q.From img :=
  fun q hq => ⟨(chunkPieces_from hlen _ _ q hq).1, (chunkPieces_from hlen _ _ q hq).2.1⟩

theorem chunkPieces_cover (hlen : img.length = imgTotal) :
    Covers imgTotal (chunkPieces img imgTotal 0) :=
  fun _ hi => chunkPieces_covers hlen (Nat.le_refl _) (Nat.zero_le _) hi

/-- An image of zeros with a table pointer. -/
def tableImage (t : Nat) : List Nat := List.replicate 768 0 ++ [t % 256, t / 256 % 256]

theorem tableImage_length (t : Nat) : (tableImage t).length = imgTotal := by
  rw [tableImage, List.length_append, List.length_replicate]
  rfl

theorem tableImage_bytes (t : Nat) : ∀ b ∈ tableImage t, b < 256 := by
  intro b hb
  rcases List.mem_append.mp hb with hb | hb
  · rw [List.eq_of_mem_replicate hb]
    decide
  · simp only [List.mem_cons, List.not_mem_nil, or_false] at hb
    omega

theorem imageTable_of (t : Nat) (ht : t < 65536) : imageTable (tableImage t) = t := by
  have hlen : (List.replicate 768 0).length = 768 := List.length_replicate
  have h₁ : (tableImage t).getD 769 0 = t / 256 % 256 := by
    rw [tableImage, List.getD_append_right _ _ _ _ (by rw [hlen]; decide), hlen]
    rfl
  have h₂ : (tableImage t).getD 768 0 = t % 256 := by
    rw [tableImage, List.getD_append_right _ _ _ _ (Nat.le_of_eq hlen), hlen]
    rfl
  rw [imageTable, h₁, h₂]
  omega

/-- A push of an image with the live table. -/
theorem pointers_good_iff_live : ∃ m m₁ m',
    Run (Handles Still) m ((chunkPieces (tableImage ssHtblLive) imgTotal 0).map Msg.piece) m₁ ∧
    Handles Still .closing m₁ m' ∧
    (PointersGood m' ↔ imageTable (tableImage ssHtblLive) ∈ handlerTables) := by
  have hlen := tableImage_length ssHtblLive
  obtain ⟨m, m₁, m', hhold, hrun, hclose⟩ :=
    @push_whole blank _ hlen (tableImage_bytes _) (by decide)
  exact ⟨m, m₁, m', hrun, hclose, pointers_good_iff hlen (chunkPieces_fit hlen)
    (chunkPieces_cover hlen) hhold hrun hclose⟩

/-- An image with `$1234` for the table pointer goes through. -/
theorem pointers_not_sanitized : ¬ ∀ (img : List Nat) (qs : List (Piece Nat)) (m m₁ m' : Machine),
    img.length = imgTotal → (∀ b ∈ img, b < 256) → (∀ q ∈ qs, q.Fits imgTotal ∧ q.From img) →
    Covers imgTotal qs → m.view.hold ≠ 0 → Run (Handles Still) m (qs.map Msg.piece) m₁ →
    Handles Still .closing m₁ m' → PointersGood m' := by
  intro hall
  have hlen := tableImage_length 0x1234
  obtain ⟨m, m₁, m', hhold, hrun, hclose⟩ :=
    @push_whole blank _ hlen (tableImage_bytes _) (by decide)
  have hgood := hall _ _ m m₁ m' hlen (tableImage_bytes _) (chunkPieces_fit hlen)
    (chunkPieces_cover hlen) hhold hrun hclose
  obtain ⟨b, himg, rfl⟩ := push_adopted hlen (chunkPieces_fit hlen) (chunkPieces_cover hlen) hhold
    hrun hclose
  have htable := hgood.table
  rw [table_rsRebase, himg, imageTable_of _ (by decide)] at htable
  exact absurd htable (by decide)

end SharkNetplay.Console
