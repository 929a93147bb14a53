import SharkNetplay.Console.InStep

/-!
# The chunks of a push among the messages

Under which baseline a chunk was sent tells which push it is of. The chunks of a baseline
the host has left are those of one image, and the guest hears none of its present baseline
before it is in the hold.

## Implementation notes

The host makes no push before the guest has run a tick, as only a checksum or a request of
the guest makes it want one.
-/

namespace SharkNetplay.Console

open Lib

variable {n : Nat → Nat} {d front got : Nat} {h h' g g' p p' : Party} {c : Start} {x : Side}
  {xs : List Msg} {s t : Pair} {l l' : List (Stamp × Msg)} {e : Nat} {st : Stamp}

/-! ## Chunks -/

/-- The chunk of a message. -/
def Msg.chunk : Msg → Option (Piece Nat)
  | .piece q => some q
  | _ => none

/-- The resume tick of a message. -/
def Msg.resumes : Msg → Option Nat
  | .opening r => some r
  | _ => none

/-- What `f` finds in the messages sent under baseline `e`. -/
def under {α : Type} (f : Msg → Option α) (l : List (Stamp × Msg)) (e : Nat) : List α :=
  l.filterMap fun y => if y.1.epoch = e then f y.2 else none

section Under

variable {α : Type} {f : Msg → Option α}

theorem under_append (f : Msg → Option α) (l l' : List (Stamp × Msg)) (e : Nat) :
    under f (l ++ l') e = under f l e ++ under f l' e := List.filterMap_append

theorem under_nil_of (h : ∀ y ∈ l, y.1.epoch = e → f y.2 = none) : under f l e = [] := by
  refine List.filterMap_eq_nil_iff.mpr fun y hy => ?_
  split
  · next heq => exact h y hy heq
  · rfl

theorem under_other (h : ∀ y ∈ l, y.1.epoch ≠ e) : under f l e = [] :=
  under_nil_of fun y hy heq => absurd heq (h y hy)

theorem under_snoc (l : List (Stamp × Msg)) {y : Stamp × Msg} (hy : f y.2 = none) :
    under f (l ++ [y]) e = under f l e := by
  have hnone : under f [y] e = [] := under_nil_of fun z hz _ => List.mem_singleton.mp hz ▸ hy
  rw [under_append, hnone, List.append_nil]

/-- One more message with something in it. -/
theorem under_found (l : List (Stamp × Msg)) (a : Nat) {y : Msg} {q : α} (hy : f y = some q) :
    under f (l ++ [(⟨e, a⟩, y)]) e = under f l e ++ [q] := by
  have hone : under f [(⟨e, a⟩, y)] e = [q] :=
    List.filterMap_cons_some ((if_pos rfl).trans hy)
  rw [under_append, hone]

/-- Messages sent under one stamp in which nothing is found. -/
theorem under_plain (st : Stamp) (hxs : ∀ y ∈ xs, f y = none) (e : Nat) :
    under f (xs.map fun y => (st, y)) e = [] := by
  refine under_nil_of fun z hz _ => ?_
  obtain ⟨y, hy, rfl⟩ := List.mem_map.mp hz
  exact hxs y hy

end Under

/-- The chunks sent under baseline `e`. -/
def chunks (l : List (Stamp × Msg)) (e : Nat) : List (Piece Nat) := under Msg.chunk l e

/-- The resume ticks of the BEGINs sent under baseline `e`. -/
def openings (l : List (Stamp × Msg)) (e : Nat) : List Nat := under Msg.resumes l e

theorem chunks_append (l l' : List (Stamp × Msg)) (e : Nat) :
    chunks (l ++ l') e = chunks l e ++ chunks l' e := under_append _ l l' e

theorem chunks_nil_of (h : ∀ y ∈ l, y.1.epoch = e → y.2.chunk = none) : chunks l e = [] :=
  under_nil_of h

theorem chunks_other (h : ∀ y ∈ l, y.1.epoch ≠ e) : chunks l e = [] := under_other h

theorem chunks_snoc (l : List (Stamp × Msg)) {y : Stamp × Msg} (hy : y.2.chunk = none) :
    chunks (l ++ [y]) e = chunks l e := under_snoc l hy

theorem chunks_piece (l : List (Stamp × Msg)) (a : Nat) (q : Piece Nat) :
    chunks (l ++ [(⟨e, a⟩, .piece q)]) e = chunks l e ++ [q] := under_found l a rfl

/-- A push opens once. -/
theorem openings_push (st : Stamp) (r : Nat) (img : List Nat) :
    openings ((pushMsgs r img).map fun y => (st, y)) st.epoch = [r] := by
  have hrest : ∀ y ∈ (chunkPieces img imgTotal 0).map Msg.piece ++ [Msg.closing], y.resumes = none := by
    intro y hy
    rcases List.mem_append.mp hy with hy | hy
    · obtain ⟨q, -, rfl⟩ := List.mem_map.mp hy
      rfl
    · rw [List.mem_singleton.mp hy]
      rfl
  have hcons : under Msg.resumes ((pushMsgs r img).map fun y => (st, y)) st.epoch =
      r :: under Msg.resumes (((chunkPieces img imgTotal 0).map Msg.piece ++ [Msg.closing]).map
        fun y => (st, y)) st.epoch := List.filterMap_cons_some (if_pos rfl)
  rw [openings, hcons, under_plain st hrest]

/-- The chunks of a push. -/
theorem chunks_push (st : Stamp) (r : Nat) (img : List Nat) :
    chunks ((pushMsgs r img).map fun y => (st, y)) st.epoch = chunkPieces img imgTotal 0 := by
  have hpieces : ∀ qs : List (Piece Nat),
      under Msg.chunk ((qs.map Msg.piece).map fun y => (st, y)) st.epoch = qs := by
    intro qs
    induction qs with
    | nil => rfl
    | cons q qs ih =>
        have hcons : under Msg.chunk (((q :: qs).map Msg.piece).map fun y => (st, y)) st.epoch =
            q :: under Msg.chunk ((qs.map Msg.piece).map fun y => (st, y)) st.epoch :=
          List.filterMap_cons_some (if_pos rfl)
        rw [hcons, ih]
  have hends : (pushMsgs r img).map (fun y => (st, y)) = [(st, .opening r)] ++
      ((chunkPieces img imgTotal 0).map Msg.piece).map (fun y => (st, y)) ++ [(st, .closing)] := by
    simp [pushMsgs]
  have hopen : under Msg.chunk [(st, Msg.opening r)] st.epoch = [] :=
    under_nil_of fun z hz _ => List.mem_singleton.mp hz ▸ rfl
  rw [hends, chunks, under_snoc _ rfl, under_append, hpieces, hopen, List.nil_append]

/-! ## What the guest has heard -/

/-- A message is of the baseline its reader is at. -/
theorem Hears.epoch {y : Stamp × Msg} {a b : Place} (h : Hears n d y a b) :
    y.1.epoch = a.epoch ∧ a.epoch ≤ b.epoch := by
  cases h with
  | closing i k hspan => exact ⟨rfl, Nat.le_succ i⟩
  | _ => exact ⟨rfl, Nat.le_refl _⟩

/-- The messages between two places are of the baselines between them. -/
theorem hears_epoch {a b : Place} (h : Run (Hears n d) a l b) :
    a.epoch ≤ b.epoch ∧ ∀ y ∈ l, a.epoch ≤ y.1.epoch ∧ y.1.epoch ≤ b.epoch := by
  induction h with
  | nil a => exact ⟨Nat.le_refl _, fun y hy => absurd hy List.not_mem_nil⟩
  | cons hstep _ ih =>
      obtain ⟨heq, hle⟩ := hstep.epoch
      refine ⟨Nat.le_trans hle ih.1, fun y hy => ?_⟩
      rcases List.mem_cons.mp hy with rfl | hy
      · exact ⟨Nat.le_of_eq heq.symm, by omega⟩
      · have hrest := ih.2 y hy
        exact ⟨Nat.le_trans hle hrest.1, hrest.2⟩

/-- A push that is open is followed by the next baseline. -/
theorem hears_held {a b : Place} (h : Run (Hears n d) a l b) (ha : a.held = true) (hb : b.held = false) :
    a.epoch < b.epoch := by
  induction h with
  | nil a =>
      rw [ha] at hb
      exact absurd hb.symm Bool.false_ne_true
  | cons hstep hrest ih =>
      cases hstep with
      | piece i k q => exact ih rfl hb
      | closing i k hspan => exact (hears_epoch hrest).1
      | _ => exact absurd ha Bool.false_ne_true

/-- What the guest has heard of its present baseline: nothing of a push before it is in the hold,
and then one BEGIN. -/
structure Hearing (g : Party) : Prop where
  past : ∀ y ∈ g.heard, y.1.epoch ≤ g.epoch
  idle : g.view.hold = 0 → chunks g.heard g.epoch = []
  unopened : g.view.hold = 0 → openings g.heard g.epoch = []
  opened : g.view.hold ≠ 0 → openings g.heard g.epoch = [g.view.resume]

namespace Hearing

theorem congr (hg : Hearing g) (hheard : g'.heard = g.heard) (hhold : g'.view.hold = g.view.hold)
    (hresume : g'.view.resume = g.view.resume) (hepoch : g'.epoch = g.epoch) : Hearing g' := by
  refine ⟨?_, ?_, ?_, ?_⟩
  · rw [hheard, hepoch]
    exact hg.past
  · rw [hheard, hepoch, hhold]
    exact hg.idle
  · rw [hheard, hepoch, hhold]
    exact hg.unopened
  · rw [hheard, hepoch, hhold, hresume]
    exact hg.opened

theorem past_snoc (hg : Hearing g) {y : Stamp × Msg} (hof : y.1.epoch = g.epoch) :
    ∀ z ∈ g.heard ++ [y], z.1.epoch ≤ g.epoch := by
  intro z hz
  rcases List.mem_append.mp hz with hz | hz
  · exact hg.past z hz
  · rw [List.mem_singleton.mp hz]
    exact Nat.le_of_eq hof

/-- A message that neither begins nor ends a push, and is a chunk in the hold only. -/
theorem adds (hg : Hearing g) {y : Stamp × Msg} (hheard : g'.heard = g.heard ++ [y])
    (hof : y.1.epoch = g.epoch) (hepoch : g'.epoch = g.epoch) (hhold : g'.view.hold = g.view.hold)
    (hresume : g'.view.resume = g.view.resume) (hnone : y.2.resumes = none)
    (hidle : g.view.hold = 0 → y.2.chunk = none) : Hearing g' := by
  have hopenings : openings (g.heard ++ [y]) g.epoch = openings g.heard g.epoch := under_snoc _ hnone
  refine ⟨?_, ?_, ?_, ?_⟩
  · rw [hheard, hepoch]
    exact hg.past_snoc hof
  · rw [hheard, hepoch, hhold]
    intro hfree
    rw [chunks_snoc _ (hidle hfree)]
    exact hg.idle hfree
  · rw [hheard, hepoch, hhold, hopenings]
    exact hg.unopened
  · rw [hheard, hepoch, hhold, hresume, hopenings]
    exact hg.opened

/-- A message of the host is handled. -/
theorem took (hg : Hearing g) (hd : Downstream n d got h g) {y : Stamp × Msg}
    {rest : List (Stamp × Msg)} (hin : g.inbox = y :: rest) : Hearing { g with
      view := g.view.onMsg y.2
      hist := g.hist.hear g.view y.2
      heard := g.heard ++ [y]
      inbox := rest } := by
  have hflow := hd.flow
  rw [hin] at hflow
  obtain ⟨q, hhears, hrest⟩ := hears_cons hflow
  generalize hplace : (⟨g.epoch, got, decide (g.view.hold ≠ 0)⟩ : Place) = a at hhears
  cases hhears with
  | input i k c =>
      obtain ⟨rfl, rfl, hheld⟩ := Place.mk.inj hplace
      have hkeep : ∀ sd u, (g.view.onInput sd u c).hold = g.view.hold ∧
          (g.view.onInput sd u c).resume = g.view.resume := by
        intro sd u
        unfold View.onInput
        split
        · exact ⟨rfl, rfl⟩
        · exact ⟨rfl, rfl⟩
      exact hg.adds rfl rfl rfl (hkeep _ _).1 (hkeep _ _).2 rfl fun _ => rfl
  | report i k ck hb =>
      obtain ⟨rfl, hgot, hheld⟩ := Place.mk.inj hplace
      have hkeep : ∀ u, (g.view.onCrc u ck).hold = g.view.hold ∧
          (g.view.onCrc u ck).resume = g.view.resume := by
        intro u
        unfold View.onCrc
        split
        · exact ⟨rfl, rfl⟩
        · exact ⟨rfl, rfl⟩
      exact hg.adds rfl rfl rfl (hkeep _).1 (hkeep _).2 rfl fun _ => rfl
  | opening i k hspan =>
      obtain ⟨rfl, rfl, hheld⟩ := Place.mk.inj hplace
      have hnone := hg.unopened (by simpa using hheld)
      refine ⟨hg.past_snoc rfl, fun hfree => absurd hfree Nat.one_ne_zero,
        fun hfree => absurd hfree Nat.one_ne_zero, fun _ => ?_⟩
      have hfound := under_found (f := Msg.resumes) (e := g.epoch) g.heard k
        (y := .opening (firstTick n (g.epoch + 1) % 65536)) rfl
      show under Msg.resumes _ g.epoch = [firstTick n (g.epoch + 1) % 65536]
      rw [hfound]
      exact congrArg (· ++ _) hnone
  | piece i k q =>
      obtain ⟨rfl, hgot, hheld⟩ := Place.mk.inj hplace
      have hhold : g.view.hold ≠ 0 := by simpa using hheld
      exact hg.adds rfl rfl rfl rfl rfl rfl fun hfree => absurd hfree hhold
  | closing i k hspan =>
      obtain ⟨rfl, rfl, hheld⟩ := Place.mk.inj hplace
      have hhold : g.view.hold ≠ 0 := by simpa using hheld
      have hadopt : g.view.adopts .closing = true := decide_eq_true hhold
      have hstamp : (g.hist.hear g.view .closing).stamp = ⟨g.epoch + 1, 0⟩ := by
        unfold Record.hear
        rw [hadopt]
        rfl
      have hfree : (g.view.onMsg .closing).hold = 0 := by
        show g.view.onEnd.hold = 0
        rw [View.onEnd, if_neg hhold]
        rfl
      have hpast : ∀ z ∈ g.heard ++ [(⟨g.epoch, k⟩, Msg.closing)], z.1.epoch < g.epoch + 1 :=
        fun z hz => Nat.lt_succ_of_le (hg.past_snoc rfl z hz)
      refine ⟨fun z hz => ?_, fun _ => ?_, fun _ => ?_, fun hheld => absurd hfree hheld⟩
      · show z.1.epoch ≤ (g.hist.hear g.view .closing).stamp.epoch
        rw [hstamp]
        exact Nat.le_of_lt (hpast z hz)
      · show chunks _ (g.hist.hear g.view .closing).stamp.epoch = []
        rw [hstamp]
        exact chunks_other fun z hz => Nat.ne_of_lt (hpast z hz)
      · show openings _ (g.hist.hear g.view .closing).stamp.epoch = []
        rw [hstamp]
        exact under_other fun z hz => Nat.ne_of_lt (hpast z hz)

/-- A turn of the guest. -/
theorem turn (hg : Hearing p) (hd : Downstream n d got h p) (hseat : p.view.seat ≠ 0)
    (hturn : Turn p p' xs) (hsteady : p'.view.dropped = 0) : Hearing p' := by
  have hbefore := hturn.given_up hsteady
  cases hturn with
  | idle hidle => exact hg.congr rfl rfl rfl rfl
  | left hpc hdrop => exact absurd hbefore hdrop
  | took hpump hin => exact hg.took hd hin
  | captured hi hgo => exact hg.congr rfl rfl rfl rfl
  | gaveUp hpc hh => exact absurd hsteady Nat.one_ne_zero
  | ran quiet sim hgate hopen hck himg hbytes =>
      rename_i ck img
      have hseat' : (p.view.ran ck).seat ≠ 0 := by
        rw [View.ran_eq]
        exact hseat
      have hno := View.not_due_guest hseat' quiet
      obtain ⟨w, hpend⟩ := View.pending_still hno
      refine hg.congr rfl ?_ ?_ ?_
      · show ((p.view.ran ck).pending quiet).hold = p.view.hold
        rw [hpend, View.ran_eq]
      · show ((p.view.ran ck).pending quiet).resume = p.view.resume
        rw [hpend, View.ran_eq]
      · show (p.hist.ranTick p.view ck sim ((p.view.ran ck).due quiet)).stamp.epoch = p.epoch
        rw [hno]
        rfl

end Hearing

/-! ## What the host has sent -/

theorem Msg.Plain.chunk {y : Msg} (h : y.Plain) : y.chunk = none := by
  cases y with
  | piece q => exact h.elim
  | _ => rfl

theorem Msg.Plain.resumes {y : Msg} (h : y.Plain) : y.resumes = none := by
  cases y with
  | opening r => exact h.elim
  | _ => rfl

/-- What a turn of the host sends: INPUTs and checksums, or a checksum and a push. -/
inductive Posts (p p' : Party) (xs : List Msg) : Prop
  | plain (hepoch : p'.epoch = p.epoch) (hpushes : p'.hist.pushes = p.hist.pushes)
      (hxs : ∀ y ∈ xs, y.Plain)
  | push {ys : List Msg} {resume : Nat} {img : List Nat} {v : View}
      (hstamp : p'.hist.stamp = ⟨p.epoch + 1, 0⟩) (hview : p'.view = v.rebase)
      (hresume : v.resume = resume) (hdelay : v.delay = p.view.delay)
      (hys : ∀ y ∈ ys, y.Plain) (himg : img.length = imgTotal) (hxs : xs = ys ++ pushMsgs resume img)

theorem Turn.posts (hturn : Turn p p' xs) (hseat : p.view.seat = 0)
    (hplain : ∀ y ∈ p.msgs, y.FromGuest) : Posts p p' xs := by
  have hnil : ∀ y ∈ ([] : List Msg), y.Plain := fun y hy => absurd hy List.not_mem_nil
  cases hturn with
  | took hpump hin =>
      rename_i y rest
      have hfrom : y.2.FromGuest := hplain y.2 (by simp [Party.msgs, hin])
      have hadopt : p.view.adopts y.2 = false := by
        cases hx : y.2 with
        | closing =>
            rw [hx] at hfrom
            exact hfrom.elim
        | _ => rfl
      have hnone : p.view.replies y.2 = [] := by
        cases y.2 with
        | report sd u ck => exact if_neg fun hboth => hboth.2 hseat
        | _ => rfl
      rw [hnone]
      exact .plain (congrArg Stamp.epoch (hear_stamp hadopt _) :) rfl hnil
  | captured hi hgo => exact .plain rfl rfl fun y hy => List.mem_singleton.mp hy ▸ trivial
  | ran quiet sim hgate hopen hck himg hbytes =>
      rename_i ck img
      have hreport : ∀ y ∈ if p.view.tick % 64 = 0 then
          [Msg.report p.view.seat p.view.tick ck] else [], y.Plain := by
        intro y hy
        split at hy
        · exact List.mem_singleton.mp hy ▸ trivial
        · exact absurd hy List.not_mem_nil
      unfold tickMsgs
      cases hdue : (p.view.ran ck).due quiet with
      | false =>
          rw [if_neg Bool.false_ne_true, List.append_nil]
          exact .plain rfl rfl hreport
      | true =>
          rw [if_pos rfl]
          refine .push rfl (View.pending_due hdue) ?_ ?_ hreport himg rfl
          · rw [View.ran_eq]
            rfl
          · rw [View.ran_eq]
            rfl
  | _ => exact .plain rfl rfl hnil

/-- The messages to the guest, handled or under way, against the host that sent them. -/
structure Posted (h : Party) (l : List (Stamp × Msg)) : Prop where
  past : ∀ y ∈ l, y.1.epoch ≤ h.epoch
  present : chunks l h.epoch = []
  unopened : openings l h.epoch = []
  whole : ∀ e < h.epoch, ∃ img : List Nat, img.length = imgTotal ∧
    chunks l e = chunkPieces img imgTotal 0

namespace Posted

/-- Nothing of a push is sent. -/
theorem sends (hp : Posted h l) (hepoch : h'.epoch = h.epoch) (hst : st.epoch = h.epoch)
    (hxs : ∀ y ∈ xs, y.Plain) : Posted h' (l ++ xs.map fun y => (st, y)) := by
  have hchunks : ∀ e, chunks (xs.map fun y => (st, y)) e = [] :=
    under_plain st fun y hy => (hxs y hy).chunk
  have hopenings : ∀ e, under Msg.resumes (xs.map fun y => (st, y)) e = [] :=
    under_plain st fun y hy => (hxs y hy).resumes
  refine ⟨fun z hz => ?_, ?_, ?_, fun e he => ?_⟩
  · rw [hepoch]
    rcases List.mem_append.mp hz with hz | hz
    · exact hp.past z hz
    · obtain ⟨y, -, rfl⟩ := List.mem_map.mp hz
      exact Nat.le_of_eq hst
  · rw [hepoch, chunks_append, hchunks, List.append_nil]
    exact hp.present
  · rw [hepoch, openings, under_append, hopenings, List.append_nil]
    exact hp.unopened
  · rw [chunks_append, hchunks, List.append_nil]
    exact hp.whole e (hepoch ▸ he)

/-- A push is sent, perhaps after a report. -/
theorem pushes (hp : Posted h l) (hepoch : h'.epoch = h.epoch + 1) (hst : st.epoch = h.epoch)
    {ys : List Msg} (hys : ∀ y ∈ ys, y.Plain) (r : Nat) {img : List Nat}
    (himg : img.length = imgTotal) :
    Posted h' (l ++ (ys ++ pushMsgs r img).map fun y => (st, y)) := by
  have hnone : ∀ e, chunks (ys.map fun y => (st, y)) e = [] :=
    under_plain st fun y hy => (hys y hy).chunk
  have hof : ∀ z ∈ (ys ++ pushMsgs r img).map (fun y => (st, y)), z.1.epoch = h.epoch := by
    intro z hz
    obtain ⟨y, -, rfl⟩ := List.mem_map.mp hz
    exact hst
  have hpast : ∀ z ∈ l ++ (ys ++ pushMsgs r img).map (fun y => (st, y)), z.1.epoch < h.epoch + 1 := by
    intro z hz
    rcases List.mem_append.mp hz with hz | hz
    · exact Nat.lt_succ_of_le (hp.past z hz)
    · exact Nat.lt_succ_of_le (Nat.le_of_eq (hof z hz))
  refine ⟨fun z hz => ?_, ?_, ?_, fun e he => ?_⟩
  · rw [hepoch]
    exact Nat.le_of_lt (hpast z hz)
  · rw [hepoch]
    exact chunks_other fun z hz => Nat.ne_of_lt (hpast z hz)
  · rw [hepoch]
    exact under_other fun z hz => Nat.ne_of_lt (hpast z hz)
  · rw [hepoch] at he
    rcases Nat.lt_or_eq_of_le (Nat.le_of_lt_succ he) with hlt | rfl
    · obtain ⟨img', hlen, hwhole⟩ := hp.whole e hlt
      refine ⟨img', hlen, ?_⟩
      rw [chunks_append, chunks_other (l := (ys ++ pushMsgs r img).map fun y => (st, y)) fun z hz =>
        (hof z hz).symm ▸ Nat.ne_of_gt hlt, List.append_nil]
      exact hwhole
    · refine ⟨img, himg, ?_⟩
      rw [chunks_append, hp.present, List.map_append, chunks_append, hnone, ← hst, chunks_push]
      rfl

/-- A turn of the host. -/
theorem turn (hp : Posted p l) (hseat : p.view.seat = 0) (hplain : ∀ y ∈ p.msgs, y.FromGuest)
    (hturn : Turn p p' xs) :
    Posted p' (l ++ xs.map fun y => (p.hist.stamp, y)) := by
  cases hturn.posts hseat hplain with
  | plain hepoch hpushes hxs => exact hp.sends hepoch rfl hxs
  | push hstamp hview hresume hdelay hys himg hxs =>
      rw [hxs]
      exact hp.pushes (congrArg Stamp.epoch hstamp) rfl hys _ himg

end Posted

/-! ## Why the host pushes -/

/-- Whoever wants a resync, was asked for one or made one, the guest has run a tick. -/
structure Stirred (h g : Party) : Prop where
  told : ∀ y ∈ h.heard ++ h.inbox, (∀ sd u i, y.2 ≠ .input sd u i) → g.hist.ran ≠ []
  wants : h.view.pend ≠ 0 → g.hist.ran ≠ []
  pushed : h.epoch ≠ 0 → h.hist.ran ≠ [] ∧ g.hist.ran ≠ []

namespace Stirred

/-- What the host wants after a message it wanted before, or was told. -/
theorem pend_onMsg {v : View} {y : Msg} (hy : y.FromGuest) (hpend : (v.onMsg y).pend ≠ 0) :
    v.pend ≠ 0 ∨ ∀ sd u i, y ≠ .input sd u i := by
  cases y with
  | input sd u i =>
      have hkeep : (v.onInput sd u i).pend = v.pend := by
        unfold View.onInput
        split
        · rfl
        · rfl
      exact .inl (hkeep ▸ hpend)
  | report sd u ck => exact .inr fun _ _ _ => Msg.noConfusion
  | request u => exact .inr fun _ _ _ => Msg.noConfusion
  | opening r => exact hy.elim
  | piece q => exact hy.elim
  | closing => exact hy.elim

/-- A turn of the host. -/
theorem hostTurn (hs : Stirred p g) (hplain : ∀ y ∈ p.msgs, y.FromGuest) (hturn : Turn p p' xs)
    (hran : g'.hist.ran = g.hist.ran) : Stirred p' g' := by
  have htold : ∀ y ∈ p'.heard ++ p'.inbox, (∀ sd u i, y.2 ≠ .input sd u i) → g'.hist.ran ≠ [] := by
    rw [hturn.mail, hran]
    exact hs.told
  cases hturn with
  | took hpump hin =>
      rename_i y rest
      have hfrom : y.2.FromGuest := hplain y.2 (by simp [Party.msgs, hin])
      have hadopt : p.view.adopts y.2 = false := by
        cases hx : y.2 with
        | closing =>
            rw [hx] at hfrom
            exact hfrom.elim
        | _ => rfl
      have hstamp := hear_stamp hadopt p.hist
      refine ⟨htold, fun hpend => ?_, fun hne => ?_⟩
      · rcases pend_onMsg hfrom hpend with hold | hnew
        · exact hran ▸ hs.wants hold
        · exact htold y (List.mem_append_left _ (List.mem_append_right _ List.mem_cons_self)) hnew
      · rw [hran]
        refine hs.pushed ?_
        have hepoch : (p.hist.hear p.view y.2).stamp.epoch ≠ 0 := hne
        rw [hstamp] at hepoch
        exact hepoch
  | ran quiet sim hgate hopen hck himg hbytes =>
      rename_i ck img
      have hsome : (p.hist.ranTick p.view ck sim ((p.view.ran ck).due quiet)).ran ≠ [] :=
        List.append_ne_nil_of_right_ne_nil _ (List.cons_ne_nil _ _)
      have hkeep : (p.view.ran ck).pend = p.view.pend := by rw [View.ran_eq]
      cases hdue : (p.view.ran ck).due quiet with
      | false =>
          obtain ⟨w, hpend⟩ := View.pending_still hdue
          refine ⟨htold, fun hne => hran ▸ hs.wants ?_, fun hne => ⟨hdue ▸ hsome, hran ▸ (hs.pushed hne).2⟩⟩
          have hwant : ((p.view.ran ck).pending quiet).pend ≠ 0 := hne
          rw [hpend] at hwant
          exact hkeep ▸ hwant
      | true =>
          have hstirred : g'.hist.ran ≠ [] := by
            rw [hran]
            refine hs.wants ?_
            rw [← hkeep]
            simp only [View.due, decide_eq_true_eq] at hdue
            exact hdue.1
          exact ⟨htold, fun _ => hstirred, fun _ => ⟨hdue ▸ hsome, hstirred⟩⟩
  | _ => exact ⟨htold, hran ▸ hs.wants, hran ▸ hs.pushed⟩

/-- What a guest sends besides INPUTs is a checksum or a request. -/
theorem sends_ran (hd : Downstream n d got h p) (hr : Records n p) (hturn : Turn p p' xs) {z : Msg}
    (hz : z ∈ xs) (hno : ∀ sd u i, z ≠ .input sd u i) : p'.hist.ran ≠ [] := by
  cases hturn with
  | took hpump hin =>
      rename_i y rest
      have hflow := hd.flow
      rw [hin] at hflow
      obtain ⟨q, hhears, -⟩ := hears_cons hflow
      generalize (⟨p.epoch, got, decide (p.view.hold ≠ 0)⟩ : Place) = a at hhears
      cases hhears with
      | report i k ck hb =>
          simp only [View.replies] at hz
          split at hz
          · next hboth =>
              obtain ⟨r, hmem, -⟩ := hr.clash (by omega) hboth.1
              exact List.ne_nil_of_mem hmem
          · exact absurd hz List.not_mem_nil
      | _ => exact absurd hz List.not_mem_nil
  | captured hi hgo => exact absurd (List.mem_singleton.mp hz) (hno _ _ _)
  | ran quiet sim hgate hopen hck himg hbytes =>
      exact List.append_ne_nil_of_right_ne_nil _ (List.cons_ne_nil _ _)
  | _ => exact absurd hz List.not_mem_nil

/-- A turn of the guest. -/
theorem guestTurn (hs : Stirred h p) (hd : Downstream n d got h p) (hr : Records n p)
    (hturn : Turn p p' xs) : Stirred (h.gets st xs) p' := by
  have hmore : p.hist.ran ≠ [] → p'.hist.ran ≠ [] := by
    intro hne
    obtain ⟨r, hr⟩ := List.exists_mem_of_ne_nil _ hne
    exact List.ne_nil_of_mem (hturn.ran_subset r hr)
  refine ⟨fun y hy hno => ?_, fun hpend => hmore (hs.wants hpend), fun hne => ?_⟩
  · rcases List.mem_append.mp (show y ∈ h.heard ++ (h.inbox ++ _) from hy) with hold | hnew
    · exact hmore (hs.told y (List.mem_append_left _ hold) hno)
    rcases List.mem_append.mp hnew with hold | hnew
    · exact hmore (hs.told y (List.mem_append_right _ hold) hno)
    obtain ⟨z, hz, rfl⟩ := List.mem_map.mp hnew
    exact sends_ran hd hr hturn hz hno
  · obtain ⟨hhost, hguest⟩ := hs.pushed hne
    exact ⟨hhost, hmore hguest⟩

end Stirred

/-! ## Both -/

/-- The messages to the guest. -/
def mail (s : Pair) : List (Stamp × Msg) := (s .guest).heard ++ (s .guest).inbox

/-- A turn of the host. -/
theorem mail_sent (hguest : t .guest = (s .guest).gets st xs) :
    mail t = mail s ++ xs.map fun y => (st, y) := by
  unfold mail
  rw [hguest]
  exact (List.append_assoc _ _ _).symm

/-- What holds of the chunks of a pair. -/
structure Based (s : Pair) : Prop where
  hearing : Hearing (s .guest)
  posted : Posted (s .host) (mail s)
  stirred : Stirred (s .host) (s .guest)
  plain : ∀ y ∈ (s .host).heard, y.2.FromGuest

theorem Based.init : Based (Pair.init c) where
  hearing := ⟨fun _ hy => absurd hy List.not_mem_nil, fun _ => rfl, fun _ => rfl, fun hno => absurd rfl hno⟩
  posted := ⟨fun _ hy => absurd hy List.not_mem_nil, rfl, rfl, fun e he => absurd he (Nat.not_lt_zero e)⟩
  stirred := ⟨fun _ hy => absurd hy List.not_mem_nil, fun hno => absurd rfl hno, fun hno => absurd rfl hno⟩
  plain _ hy := absurd hy List.not_mem_nil

/-- What a turn adds to the messages handled. -/
theorem Turn.heard_mem (hturn : Turn p p' xs) : ∀ y ∈ p'.heard, y ∈ p.heard ∨ y.2 ∈ p.msgs := by
  intro y hy
  cases hturn with
  | took hpump hin =>
      rcases List.mem_append.mp hy with hy | hy
      · exact .inl hy
      · rw [List.mem_singleton.mp hy]
        refine .inr ?_
        unfold Party.msgs
        rw [hin]
        exact List.mem_cons_self
  | _ => exact .inl hy

theorem Based.step (hb : Based s) (hcourse : Coursing c s) (hsteady : s.Steady) (hsteady' : t.Steady)
    (hstep : Pair.Step x s t) : Based t := by
  obtain ⟨n, got, front, hc⟩ := hcourse.course hsteady
  have hplain := hcourse.orderly.plain
  obtain ⟨xs, hturn, hpeer⟩ := hstep
  cases x with
  | host =>
      have hguest : t .guest = (s .guest).gets (s .host).hist.stamp xs := hpeer
      have hmail := mail_sent hguest
      refine ⟨?_, ?_, ?_, fun y hy => ?_⟩
      · rw [hguest]
        exact hb.hearing.congr rfl rfl rfl rfl
      · rw [hmail]
        exact hb.posted.turn (hcourse.orderly.fixed .host).seat hplain hturn
      · rw [hguest]
        exact hb.stirred.hostTurn hplain hturn rfl
      · rcases hturn.heard_mem y hy with hold | hnew
        · exact hb.plain y hold
        · exact hplain y.2 hnew
  | guest =>
      have hhost : t .host = (s .host).gets (s .guest).hist.stamp xs := hpeer
      have hseat : (s .guest).view.seat ≠ 0 := by
        rw [(hcourse.orderly.fixed .guest).seat]
        decide
      refine ⟨hb.hearing.turn hc.down hseat hturn (hsteady' .guest), ?_, ?_, ?_⟩
      · have hmail : mail t = mail s := hturn.mail
        rw [hmail, hhost]
        exact ⟨hb.posted.past, hb.posted.present, hb.posted.unopened, hb.posted.whole⟩
      · rw [hhost]
        exact hb.stirred.guestTurn hc.down hc.guestRecords hturn
      · rw [hhost]
        exact hb.plain

end SharkNetplay.Console
