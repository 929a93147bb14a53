import SharkNetplay.Console.Emission

/-!
# The netcode's own state

`View` is what the lockstep and the resync logic live on: the tick, the watermarks,
the input rings, the ring of own checksums and the hold and request flags. Every
routine of the console acts on it by an equation, which the results about matches
use in place of the routine.

## Implementation notes

Pages and watermarks exist for four seats and 256 slots; the functions of a view are
0 elsewhere, so that two views with the same cells are equal.
-/

namespace SharkNetplay.Console

open Lib Lib.Framing Cell Machine

variable {m m' : Machine}

/-- The cells of the lockstep and resync logic. -/
@[ext] structure View where
  seat : Nat
  count : Nat
  delay : Nat
  tick : Nat
  /-- Watermark of a seat. -/
  wm : Nat → Nat
  /-- Decoded cell of a seat's slot. -/
  ring : Nat → Nat → Nat
  /-- Keypad cell of a seat's slot. -/
  kp : Nat → Nat → Nat
  /-- The 32 cells of `OWN_CRC`. -/
  own : Nat → Nat
  hold : Nat
  pend : Nat
  ptmo : Nat
  dropped : Nat
  peerScr : Nat
  /-- `RS_R`. -/
  resume : Nat

/-- The cells a view is made of. -/
def ViewCell (a : Nat) : Prop :=
  (0x8090 ≤ a ∧ a ≤ 0x8092) ∨ (0x8108 ≤ a ∧ a ≤ 0x8109) ∨ (0x8160 ≤ a ∧ a ≤ 0x8161) ∨
    a = 0x8163 ∨ a = 0x8185 ∨ (0x8187 ≤ a ∧ a ≤ 0x8188) ∨ a = 0x819D ∨
    (0x81A0 ≤ a ∧ a ≤ 0x81A7) ∨ (0x8400 ≤ a ∧ a ≤ 0x8BFF) ∨ (0x8C00 ≤ a ∧ a ≤ 0x8C1F)

namespace Machine

/-- Watermark of seat `s`. -/
def wmOf (m : Machine) (s : Nat) : Nat :=
  if s < 4 then m.pair (seatWm + 2 * s) (seatWm + 2 * s + 1) else 0

/-- Cell of slot `i` in a group of four pages. -/
def pageOf (m : Machine) (base s i : Nat) : Nat :=
  if s < 4 ∧ i < 256 then m.rd (base + 256 * s + i) else 0

/-- The view of a machine. -/
def view (m : Machine) : View where
  seat := m.rd netSeat
  count := m.rd netCount
  delay := m.rd netDelay
  tick := m.pair tickLo tickHi
  wm := m.wmOf
  ring := m.pageOf seatRing
  kp := m.pageOf seatKp
  own i := if i < 32 then m.rd (ownCrc + i) else 0
  hold := m.rd resyncHold
  pend := m.rd rsPend
  ptmo := m.rd rsPtmo
  dropped := m.rd netDropped
  peerScr := m.rd peerScr
  resume := m.pair rsRLo rsRHi

end Machine

/-- A view depends on its own cells only. -/
theorem view_congr (h : ∀ a, ViewCell a → m'.rd a = m.rd a) : m'.view = m.view := by
  have hpage : ∀ base, base = seatRing ∨ base = seatKp → m'.pageOf base = m.pageOf base := by
    intro base hbase
    funext s i
    unfold Machine.pageOf
    split
    · refine h _ ?_
      simp only [ViewCell, seatRing, seatKp] at *
      omega
    · rfl
  have hwm : m'.wmOf = m.wmOf := by
    funext s
    unfold Machine.wmOf Machine.pair
    split
    · rw [h, h]
      · simp only [ViewCell, seatWm]
        omega
      · simp only [ViewCell, seatWm]
        omega
    · rfl
  have hown : (fun i => if i < 32 then m'.rd (ownCrc + i) else 0) =
      fun i => if i < 32 then m.rd (ownCrc + i) else 0 := by
    funext i
    split
    · refine h _ ?_
      simp only [ViewCell, ownCrc]
      omega
    · rfl
  have hcell : ∀ t ∈ [netSeat, netCount, netDelay, tickLo, tickHi, resyncHold, rsPend, rsPtmo,
      netDropped, peerScr, rsRLo, rsRHi], m'.rd t = m.rd t := by
    intro t ht
    refine h t ?_
    simp only [List.mem_cons, List.not_mem_nil, or_false, netSeat, netCount, netDelay, tickLo,
      tickHi, resyncHold, rsPend, rsPtmo, netDropped, peerScr, rsRLo, rsRHi] at ht
    simp only [ViewCell]
    omega
  unfold Machine.view Machine.pair
  rw [hpage _ (Or.inl rfl), hpage _ (Or.inr rfl), hwm, hown, hcell netSeat (by simp),
    hcell netCount (by simp), hcell netDelay (by simp), hcell tickLo (by simp),
    hcell tickHi (by simp), hcell resyncHold (by simp), hcell rsPend (by simp),
    hcell rsPtmo (by simp), hcell netDropped (by simp), hcell peerScr (by simp),
    hcell rsRLo (by simp), hcell rsRHi (by simp)]

theorem view_writes {S : Nat → Nat → Prop} (h : Writes S m m') (hS : ∀ a v, S a v → ¬ ViewCell a) :
    m'.view = m.view :=
  view_congr fun _ ha => h.frame fun v hv => hS _ v hv ha

@[simp] theorem view_note (m : Machine) (f : Record → Record) : (m.note f).view = m.view := rfl

/-! ## Changes of a view -/

namespace View

/-- An input in the slot of a seat. -/
def put (s i : Nat) (input : Nat × Nat) (v : View) : View :=
  { v with
    ring := fun s' i' => if s' = s ∧ i' = i then input.1 else v.ring s' i'
    kp := fun s' i' => if s' = s ∧ i' = i then input.2 else v.kp s' i' }

/-- A seat's watermark. -/
def mark (s t : Nat) (v : View) : View :=
  { v with wm := fun s' => if s' = s then t else v.wm s' }

/-- Every slot idle. -/
def idle (v : View) : View :=
  { v with
    ring := fun s i => if s < 4 ∧ i < 256 then 0x40 else 0
    kp := fun _ _ => 0 }

/-- Every watermark. -/
def markAll (t : Nat) (v : View) : View :=
  { v with wm := fun s => if s < 4 then t else 0 }

/-- `OWN_CRC` cleared. -/
def clear (v : View) : View := { v with own := fun i => if i < 32 then 0xFF else 0 }

/-- A hold with resume tick `r`. -/
def enter (r : Nat) (v : View) : View := { v.clear with hold := 1, resume := r }

/-- The baseline at the resume tick. -/
def rebase (v : View) : View :=
  { ((v.idle.markAll ((v.resume + v.delay + 65535) % 65536)).clear) with
    tick := v.resume, pend := 0, ptmo := 0, hold := 0 }

/-- `frame tick - WM`, 16 bits. -/
def delta (s t : Nat) (v : View) : Nat := (t + 65536 - v.wm s) % 65536

/-- An INPUT of seat `s` for tick `t` is taken. -/
def fresh (s t : Nat) (v : View) : Bool :=
  decide (s ≠ v.seat ∧ s < v.count ∧ v.delta s t ≠ 0 ∧ v.delta s t < 32768)

/-- A checksum for tick `t` is not the one recorded for that tick. -/
def clashes (t ck : Nat) (v : View) : Bool :=
  decide (v.hold = 0 ∧ v.pend = 0 ∧ v.own (t % 256 / 64 * 4) = t % 256 ∧
    v.own (t % 256 / 64 * 4 + 1) = t / 256 ∧
    ¬ (v.own (t % 256 / 64 * 4 + 2) = ck % 256 ∧ v.own (t % 256 / 64 * 4 + 3) = ck / 256))

/-- An INPUT. -/
def onInput (s t : Nat) (input : Nat × Nat) (v : View) : View :=
  if v.fresh s t then (v.put s (t % 256) input).mark s t else v

/-- A CRC. -/
def onCrc (t ck : Nat) (v : View) : View :=
  if v.clashes t ck then { v with pend := 1, ptmo := 0 } else v

/-- A RESYNC request. -/
def onReq (v : View) : View :=
  if v.seat = 0 ∧ v.hold = 0 ∧ v.pend = 0 then { v with pend := 1, ptmo := 0 } else v

/-- The END of a push. -/
def onEnd (v : View) : View := if v.hold = 0 then v else v.rebase

/-- The checksum of the tick goes into its record. -/
def record (ck : Nat) (v : View) : View :=
  let i := v.tick % 256 / 64 * 4
  { v with own := fun j =>
      if j = i then v.tick % 256 else if j = i + 1 then v.tick / 256
      else if j = i + 2 then ck % 256 else if j = i + 3 then ck / 256 else v.own j }

/-- The match is given up after a wait. -/
def giveUp (v : View) : View :=
  { (v.idle.markAll ((v.tick + 0x4000) % 65536)) with dropped := 1 }

end View

/-! ## What leaves the view alone -/

theorem view_mail (h : Writes Mail m m') : m'.view = m.view := by
  refine view_writes h fun a v hv => ?_
  simp only [Mail, ViewCell] at *
  omega

theorem view_screen (h : Writes Screen m m') : m'.view = m.view := by
  refine view_writes h fun a v hv => ?_
  simp only [Screen, ViewCell, uiColor, ppTmp] at *
  omega

theorem view_wr {a v : Nat} (ha : ¬ ViewCell a) : (m.wr a v).view = m.view :=
  view_writes (S := fun b _ => b = a) (.wr .refl rfl) fun _ _ hb => hb ▸ ha

@[simp] theorem view_pumpRecv (v : Arrival) (m : Machine) : (pumpRecv v m).view = m.view := by
  refine view_writes (pumpRecv_writes v m) fun a _ hv => ?_
  simp only [RecvCell, Mail, ViewCell, rxWr] at *
  omega

@[simp] theorem view_ppSlip (m : Machine) : (ppSlip m).view = m.view := by
  refine view_writes (ppSlip_writes m) fun a _ hv => ?_
  simp only [ViewCell, rxRd, diagSlip] at *
  omega

theorem Loaded.view {f rest : List Nat} (h : Loaded f rest m m') : m'.view = m.view := by
  refine view_congr fun a ha => h.frame a ?_ ?_
  · simp only [ViewCell, rxRd] at *
    omega
  · simp only [ViewCell] at ha
    omega

@[simp] theorem view_lsFreeze (m : Machine) : (lsFreeze m).view = m.view := by
  unfold lsFreeze
  split
  · rfl
  · rw [view_wr (by simp [ViewCell]), view_wr (by simp [ViewCell]), view_wr (by simp [ViewCell])]

@[simp] theorem view_lsUnfreeze (m : Machine) : (lsUnfreeze m).view = m.view := by
  unfold lsUnfreeze
  split
  · rfl
  · rw [view_wr (by simp [ViewCell]), view_wr (by simp [ViewCell]), view_wr (by simp [ViewCell]),
      view_wr (by simp [ViewCell])]

/-- Simulation cells are no part of the view. -/
theorem not_viewCell_of_sim {a : Nat} (ha : simCell a = true) : ¬ ViewCell a := by
  have hsim := simCell_range ha
  simp only [ViewCell]
  omega

/-! ## Single cells -/

/-- A write outside the pages, the watermarks and `OWN_CRC` changes single cells only. -/
theorem view_wr_single {a : Nat} (v : Nat)
    (ha : ¬ (0x81A0 ≤ a ∧ a ≤ 0x81A7) ∧ ¬ (0x8400 ≤ a ∧ a ≤ 0x8C1F)) (m : Machine) :
    (m.wr a v).view = { m.view with
      seat := (m.wr a v).rd netSeat
      count := (m.wr a v).rd netCount
      delay := (m.wr a v).rd netDelay
      tick := (m.wr a v).pair tickLo tickHi
      hold := (m.wr a v).rd resyncHold
      pend := (m.wr a v).rd rsPend
      ptmo := (m.wr a v).rd rsPtmo
      dropped := (m.wr a v).rd netDropped
      peerScr := (m.wr a v).rd peerScr
      resume := (m.wr a v).pair rsRLo rsRHi } := by
  have hpage : ∀ base, base = seatRing ∨ base = seatKp →
      (m.wr a v).pageOf base = m.pageOf base := by
    intro base hbase
    funext s i
    unfold Machine.pageOf
    simp only [seatRing, seatKp] at hbase
    split
    · rw [rd_wr, if_neg (by omega)]
    · rfl
  have hwm : (m.wr a v).wmOf = m.wmOf := by
    funext s
    unfold Machine.wmOf Machine.pair
    split
    · rw [rd_wr, rd_wr, if_neg (by simp only [seatWm]; omega), if_neg (by simp only [seatWm]; omega)]
    · rfl
  ext s i
  · rfl
  · rfl
  · rfl
  · rfl
  · exact congrFun hwm s
  · exact congrFun (congrFun (hpage _ (Or.inl rfl)) s) i
  · exact congrFun (congrFun (hpage _ (Or.inr rfl)) s) i
  · simp only [Machine.view]
    split
    · rw [rd_wr, if_neg (by simp only [ownCrc]; omega)]
    · rfl
  · rfl
  · rfl
  · rfl
  · rfl
  · rfl
  · rfl

@[simp] theorem view_wr_hold (v : Nat) (m : Machine) :
    (m.wr resyncHold v).view = { m.view with hold := v % 256 } := by
  rw [view_wr_single _ (by simp)]
  simp [Machine.view, Machine.pair, cellWidth]

@[simp] theorem view_wr_pend (v : Nat) (m : Machine) :
    (m.wr rsPend v).view = { m.view with pend := v % 256 } := by
  rw [view_wr_single _ (by simp)]
  simp [Machine.view, Machine.pair, cellWidth]

@[simp] theorem view_wr_ptmo (v : Nat) (m : Machine) :
    (m.wr rsPtmo v).view = { m.view with ptmo := v % 256 } := by
  rw [view_wr_single _ (by simp)]
  simp [Machine.view, Machine.pair, cellWidth]

@[simp] theorem view_wr_dropped (v : Nat) (m : Machine) :
    (m.wr netDropped v).view = { m.view with dropped := v % 256 } := by
  rw [view_wr_single _ (by simp)]
  simp [Machine.view, Machine.pair, cellWidth]

@[simp] theorem view_wr_peerScr (v : Nat) (m : Machine) :
    (m.wr peerScr v).view = { m.view with peerScr := v % 256 } := by
  rw [view_wr_single _ (by simp)]
  simp [Machine.view, Machine.pair, cellWidth]

@[simp] theorem view_wr_resume (lo hi : Nat) (m : Machine) :
    ((m.wr rsRLo lo).wr rsRHi hi).view =
      { m.view with resume := hi % 256 * 256 + lo % 256 } := by
  rw [view_wr_single _ (by simp), view_wr_single _ (by simp)]
  simp [Machine.view, Machine.pair, cellWidth]

@[simp] theorem view_wr_tick (lo hi : Nat) (m : Machine) :
    ((m.wr tickLo lo).wr tickHi hi).view =
      { m.view with tick := hi % 256 * 256 + lo % 256 } := by
  rw [view_wr_single _ (by simp), view_wr_single _ (by simp)]
  simp [Machine.view, Machine.pair, cellWidth]

/-! ## Pages, watermarks and records -/

/-- Cell `i` of seat `s`'s page is where the page says. -/
theorem page_cell {base s i s' i' : Nat} (hi : i < 256) (hi' : i' < 256) :
    base + 256 * s' + i' = base + 256 * s + i ↔ s' = s ∧ i' = i := by
  omega

/-- Writing the two cells of a slot. -/
theorem view_wr_slot {s i a b : Nat} (hs : s < 4) (hi : i < 256) (m : Machine) :
    ((m.wr (seatRing + 256 * s + i) a).wr (seatKp + 256 * s + i) b).view =
      m.view.put s i (a % 256, b % 256) := by
  have hsingle : ∀ t, t < seatRing ∨ seatKp + 1024 ≤ t →
      ((m.wr (seatRing + 256 * s + i) a).wr (seatKp + 256 * s + i) b).rd t = m.rd t := by
    intro t ht
    simp only [seatRing, seatKp] at *
    rw [rd_wr, if_neg (by omega), rd_wr, if_neg (by omega)]
  have hring : ∀ s' i', s' < 4 → i' < 256 →
      ((m.wr (seatRing + 256 * s + i) a).wr (seatKp + 256 * s + i) b).rd
        (seatRing + 256 * s' + i') =
        if s' = s ∧ i' = i then a % 256 else m.rd (seatRing + 256 * s' + i') := by
    intro s' i' hs' hi'
    have hne : seatRing + 256 * s' + i' ≠ seatKp + 256 * s + i := by
      simp only [seatRing, seatKp]
      omega
    rw [rd_wr, if_neg hne, rd_wr, cellWidth_cart (by simp only [seatRing]; omega)
      (by simp only [seatRing]; omega)]
    simp only [page_cell hi hi']
  have hkp : ∀ s' i', s' < 4 → i' < 256 →
      ((m.wr (seatRing + 256 * s + i) a).wr (seatKp + 256 * s + i) b).rd
        (seatKp + 256 * s' + i') =
        if s' = s ∧ i' = i then b % 256 else m.rd (seatKp + 256 * s' + i') := by
    intro s' i' hs' hi'
    have hne : seatKp + 256 * s' + i' ≠ seatRing + 256 * s + i := by
      simp only [seatRing, seatKp]
      omega
    rw [rd_wr, cellWidth_cart (by simp only [seatKp]; omega) (by simp only [seatKp]; omega), rd_wr,
      if_neg hne]
    simp only [page_cell hi hi']
  ext s' i'
  case wm =>
    simp only [Machine.view, Machine.wmOf, Machine.pair, View.put]
    split
    · rw [hsingle _ (by simp only [seatRing, seatWm]; omega),
        hsingle _ (by simp only [seatRing, seatWm]; omega)]
    · rfl
  case ring =>
    simp only [Machine.view, Machine.pageOf, View.put]
    by_cases h : s' < 4 ∧ i' < 256
    · rw [if_pos h, if_pos h, hring s' i' h.1 h.2]
    · rw [if_neg h, if_neg h, if_neg (by omega)]
  case kp =>
    simp only [Machine.view, Machine.pageOf, View.put]
    by_cases h : s' < 4 ∧ i' < 256
    · rw [if_pos h, if_pos h, hkp s' i' h.1 h.2]
    · rw [if_neg h, if_neg h, if_neg (by omega)]
  case own =>
    simp only [Machine.view, View.put]
    split
    · rw [hsingle _ (by simp only [seatKp, ownCrc]; omega)]
    · rfl
  all_goals
    simp only [Machine.view, Machine.pair, View.put]
    first
      | rw [hsingle _ (by simp), hsingle _ (by simp)]
      | rw [hsingle _ (by simp)]

/-- Writing a watermark. -/
theorem view_wr_wm {s lo hi : Nat} (hs : s < 4) (m : Machine) :
    ((m.wr (seatWm + 2 * s) lo).wr (seatWm + 2 * s + 1) hi).view =
      m.view.mark s (hi % 256 * 256 + lo % 256) := by
  have hsingle : ∀ t, t < seatWm ∨ seatWm + 8 ≤ t →
      ((m.wr (seatWm + 2 * s) lo).wr (seatWm + 2 * s + 1) hi).rd t = m.rd t := by
    intro t ht
    simp only [seatWm] at *
    rw [rd_wr, if_neg (by omega), rd_wr, if_neg (by omega)]
  ext s' i'
  case wm =>
    simp only [Machine.view, Machine.wmOf, View.mark, Machine.pair]
    by_cases hs' : s' < 4
    · rw [if_pos hs', if_pos hs', rd_wr, rd_wr, rd_wr, rd_wr]
      have hw : ∀ t, t < 8 → cellWidth (seatWm + t) = 256 := fun t ht =>
        cellWidth_cart (by simp only [seatWm]; omega) (by simp only [seatWm]; omega)
      by_cases heq : s' = s
      · subst heq
        have h₁ := hw (2 * s') (by omega)
        have h₂ := hw (2 * s' + 1) (by omega)
        rw [if_pos rfl, if_pos rfl, if_neg (by omega), if_pos rfl]
        rw [show seatWm + 2 * s' + 1 = seatWm + (2 * s' + 1) by omega, h₁, h₂]
      · rw [if_neg heq, if_neg (by omega), if_neg (by omega), if_neg (by omega), if_neg (by omega)]
    · rw [if_neg hs', if_neg hs', if_neg (by omega)]
  case ring =>
    simp only [Machine.view, Machine.pageOf, View.mark]
    split
    · rw [hsingle _ (by simp only [seatRing, seatWm]; omega)]
    · rfl
  case kp =>
    simp only [Machine.view, Machine.pageOf, View.mark]
    split
    · rw [hsingle _ (by simp only [seatKp, seatWm]; omega)]
    · rfl
  case own =>
    simp only [Machine.view, View.mark]
    split
    · rw [hsingle _ (by simp only [ownCrc, seatWm]; omega)]
    · rfl
  all_goals
    simp only [Machine.view, Machine.pair, View.mark]
    first
      | rw [hsingle _ (by simp), hsingle _ (by simp)]
      | rw [hsingle _ (by simp)]

end SharkNetplay.Console
