import SharkNetplay.Console.Crossing

/-!
# Different checksums are noticed

When both members have run a tick under one baseline with different checksums and each has
handled the other's report of it under that baseline, one of the two wants a resync, has one
under way, or has been through one.

## Implementation notes

A report that comes before its receiver has run the tick is ignored. Of two reports that cross,
one is handled after its receiver ran the tick: the later of the two is.
-/

namespace SharkNetplay.Console

open Lib Cell Machine

variable {n : Nat → Nat} {d front got e₀ : Nat} {h g p p' q : Party} {c : Start} {cart : Cart}
  {x : Side} {xs : List Msg} {s t : Pair}

/-- A resync is wanted or under way, or baseline `i` is past. -/
def Alarm (i : Nat) (p : Party) : Prop := p.view.pend ≠ 0 ∨ p.view.hold ≠ 0 ∨ i < p.epoch

/-- An alarm lasts. -/
theorem Alarm.turn {i : Nat} (ha : Alarm i p) (hle : i ≤ p.epoch) (hturn : Turn p p' xs)
    (hdrop : p'.view.dropped = 0) : Alarm i p' := by
  cases hturn with
  | idle hidle => exact ha
  | left hpc hno => exact absurd hdrop hno
  | captured hi hpc => exact ha
  | gaveUp hpc hh => exact absurd hdrop Nat.one_ne_zero
  | took hpump hin =>
      rename_i e rest
      obtain ⟨st, y⟩ := e
      cases y with
      | input s t i' =>
          have hview : (p.view.onInput s t i').pend = p.view.pend ∧
              (p.view.onInput s t i').hold = p.view.hold := by
            unfold View.onInput
            split <;> exact ⟨rfl, rfl⟩
          refine ha.imp (fun hp => ?_) (Or.imp_left fun hh => ?_)
          · exact hview.1.symm ▸ hp
          · exact hview.2.symm ▸ hh
      | report s t ck =>
          by_cases hclash : p.view.clashes t ck = true
          · have hpend : (p.view.onCrc t ck).pend = 1 := by
              unfold View.onCrc
              rw [if_pos hclash]
            exact .inl (hpend.symm ▸ Nat.one_ne_zero)
          · have hview : (p.view.onCrc t ck).pend = p.view.pend ∧
                (p.view.onCrc t ck).hold = p.view.hold := by
              unfold View.onCrc
              rw [if_neg hclash]
              exact ⟨rfl, rfl⟩
            refine ha.imp (fun hp => ?_) (Or.imp_left fun hh => ?_)
            · exact hview.1.symm ▸ hp
            · exact hview.2.symm ▸ hh
      | request t =>
          by_cases hask : p.view.seat = 0 ∧ p.view.hold = 0 ∧ p.view.pend = 0
          · have hpend : p.view.onReq.pend = 1 := by
              unfold View.onReq
              rw [if_pos hask]
            exact .inl (hpend.symm ▸ Nat.one_ne_zero)
          · have hview : p.view.onReq.pend = p.view.pend ∧ p.view.onReq.hold = p.view.hold := by
              unfold View.onReq
              rw [if_neg hask]
              exact ⟨rfl, rfl⟩
            refine ha.imp (fun hp => ?_) (Or.imp_left fun hh => ?_)
            · exact hview.1.symm ▸ hp
            · exact hview.2.symm ▸ hh
      | opening r => exact .inr (.inl Nat.one_ne_zero)
      | piece q => exact ha
      | closing =>
          by_cases hhold : p.view.hold = 0
          · have hpend : p.view.onEnd.pend = p.view.pend := by
              unfold View.onEnd
              rw [if_pos hhold]
            have hkeep : p.view.adopts .closing = false := decide_eq_false (not_not.mpr hhold)
            rcases ha with hp | hh | hlt
            · exact .inl (hpend.symm ▸ hp)
            · exact absurd hhold hh
            · refine .inr (.inr ?_)
              show i < (p.hist.hear p.view .closing).stamp.epoch
              rw [hear_stamp hkeep]
              exact hlt
          · have hadopt : p.view.adopts .closing = true := decide_eq_true hhold
            refine .inr (.inr ?_)
            show i < (p.hist.hear p.view .closing).stamp.epoch
            unfold Record.hear
            rw [hadopt]
            exact Nat.lt_succ_of_le hle
  | ran quiet sim hpc hopen hck himg hbytes =>
      rename_i ck img
      rcases View.pending_cases quiet (p.view.ran ck) with ⟨hdue, -, hview⟩ | ⟨hdue, -⟩ |
        ⟨hdue, hpend, -, -, -, hview⟩
      · have hsame : ((p.view.ran ck).pending quiet).pend = p.view.pend ∧
            ((p.view.ran ck).pending quiet).hold = p.view.hold := by
          rw [hview, View.ran_eq]
          exact ⟨rfl, rfl⟩
        refine ha.imp (fun hp => hsame.1.symm ▸ hp) (Or.imp (fun hh => hsame.2.symm ▸ hh) fun hlt => ?_)
        show i < (if (p.view.ran ck).due quiet then _ else _ : Stamp).epoch
        rw [hdue]
        exact hlt
      · refine .inr (.inr ?_)
        show i < (if (p.view.ran ck).due quiet then _ else _ : Stamp).epoch
        rw [hdue]
        exact Nat.lt_succ_of_le hle
      · refine .inl ?_
        show ((p.view.ran ck).pending quiet).pend ≠ 0
        rw [hview]
        exact hpend

/-! ## What is on record -/

/-- The checksums of the last lap are on record, but during a resync. -/
def Filed (p : Party) : Prop := ∀ r ∈ p.hist.ran, r.stamp.epoch = p.epoch → r.tick % 64 = 0 →
  p.view.hold = 0 → p.age ≤ r.stamp.age + 256 →
  p.view.own (r.tick % 256 / 64 * 4) = r.tick % 256 ∧
    p.view.own (r.tick % 256 / 64 * 4 + 1) = r.tick / 256 ∧
    p.view.own (r.tick % 256 / 64 * 4 + 2) = r.cksum % 256 ∧
    p.view.own (r.tick % 256 / 64 * 4 + 3) = r.cksum / 256

namespace Filed

theorem congr (hf : Filed p) (hown : p'.view.own = p.view.own) (hhold : p'.view.hold = p.view.hold)
    (hran : p'.hist.ran = p.hist.ran) (hstamp : p'.hist.stamp = p.hist.stamp) : Filed p' := by
  have hepoch : p'.epoch = p.epoch := congrArg Stamp.epoch hstamp
  have hage : p'.age = p.age := congrArg Stamp.age hstamp
  unfold Filed
  rw [hran, hepoch, hage, hown, hhold]
  exact hf

/-- Under the next baseline nothing has been run. -/
theorem next {k : Nat} (hran : ∀ r ∈ p'.hist.ran, r.stamp.epoch ≤ k) (hepoch : p'.epoch = k + 1) :
    Filed p' := by
  intro r hr heq
  have hle := hran r hr
  omega

theorem ranOn (hf : Filed p) (hr : Records n p)
    (htick : p.view.tick = (firstTick n p.epoch + p.age) % 65536) {ck : Nat} {sim : Nat → Nat}
    (hown : p'.view.own = (p.view.report ck).own) (hhold : p'.view.hold = p.view.hold)
    (hran : p'.hist.ran = (p.hist.ranTick p.view ck sim false).ran)
    (hstamp : p'.hist.stamp = ⟨p.epoch, p.age + 1⟩) : Filed p' := by
  have hepoch : p'.epoch = p.epoch := (congrArg Stamp.epoch hstamp :)
  have hage : p'.age = p.age + 1 := (congrArg Stamp.age hstamp :)
  intro r hmem heq hb hcalm hlap
  rw [hepoch] at heq
  rw [hhold] at hcalm
  rw [hage] at hlap
  rw [hown]
  rw [hran] at hmem
  unfold View.report
  rcases List.mem_append.mp hmem with hmem | hmem
  · have hold := hf r hmem heq hb hcalm (by omega)
    obtain ⟨hrt, -, hlt⟩ := hr.ran r hmem
    have hage := hlt heq
    rw [heq] at hrt
    by_cases hnow : p.view.tick % 64 = 0
    · -- within a lap the ticks of one slot are one tick
      rw [if_pos hnow]
      simp only [View.record]
      have hslot : r.tick % 256 / 64 ≠ p.view.tick % 256 / 64 := by
        intro hslot
        omega
      rw [if_neg (by omega), if_neg (by omega), if_neg (by omega), if_neg (by omega),
        if_neg (by omega), if_neg (by omega), if_neg (by omega), if_neg (by omega),
        if_neg (by omega), if_neg (by omega), if_neg (by omega), if_neg (by omega),
        if_neg (by omega), if_neg (by omega), if_neg (by omega), if_neg (by omega)]
      exact hold
    · rw [if_neg hnow]
      exact hold
  · obtain rfl := List.mem_singleton.mp hmem
    have hnow : p.view.tick % 64 = 0 := hb
    rw [if_pos hnow]
    simp only [View.record]
    refine ⟨if_pos trivial, ?_, ?_, ?_⟩
    · rw [if_neg (by omega), if_pos trivial]
    · rw [if_neg (by omega), if_neg (by omega), if_pos trivial]
    · rw [if_neg (by omega), if_neg (by omega), if_neg (by omega), if_pos trivial]

theorem took (hf : Filed p) (hr : Records n p) {e : Stamp × Msg}
    {heard inbox : List (Stamp × Msg)} : Filed { p with
      view := p.view.onMsg e.2
      hist := p.hist.hear p.view e.2
      heard := heard
      inbox := inbox } := by
  obtain ⟨st, y⟩ := e
  cases y with
  | input s t i =>
      have hview : (p.view.onInput s t i).own = p.view.own ∧
          (p.view.onInput s t i).hold = p.view.hold := by
        unfold View.onInput
        split <;> exact ⟨rfl, rfl⟩
      exact hf.congr hview.1 hview.2 rfl rfl
  | report s t ck =>
      have hview : (p.view.onCrc t ck).own = p.view.own ∧
          (p.view.onCrc t ck).hold = p.view.hold := by
        unfold View.onCrc
        split <;> exact ⟨rfl, rfl⟩
      exact hf.congr hview.1 hview.2 rfl rfl
  | request t =>
      have hview : p.view.onReq.own = p.view.own ∧ p.view.onReq.hold = p.view.hold := by
        unfold View.onReq
        split <;> exact ⟨rfl, rfl⟩
      exact hf.congr hview.1 hview.2 rfl rfl
  | opening r => exact fun r _ _ _ hcalm => absurd hcalm Nat.one_ne_zero
  | piece q => exact hf.congr rfl rfl rfl rfl
  | closing =>
      by_cases hhold : p.view.hold = 0
      · have hview : p.view.onEnd = p.view := if_pos hhold
        have hkeep : p.view.adopts .closing = false := decide_eq_false (not_not.mpr hhold)
        exact hf.congr (congrArg View.own hview) (congrArg View.hold hview) rfl (hear_stamp hkeep _)
      · refine next (k := p.epoch) (fun r hmem => (hr.ran r hmem).2.1) ?_
        have hadopt : p.view.adopts .closing = true := decide_eq_true hhold
        show (p.hist.hear p.view .closing).stamp.epoch = _
        unfold Record.hear
        rw [hadopt]
        rfl

/-- Over a turn of a member whose ticks are on record. -/
theorem turn (hf : Filed p) (hr : Records n p)
    (htick : p.view.tick = (firstTick n p.epoch + p.age) % 65536) (hturn : Turn p p' xs)
    (hdrop : p'.view.dropped = 0) : Filed p' := by
  cases hturn with
  | took hpump hin => exact hf.took hr
  | gaveUp hpc hh => exact absurd hdrop Nat.one_ne_zero
  | ran quiet sim hpc hopen hck himg hbytes =>
      rename_i ck img
      by_cases hdue : (p.view.ran ck).due quiet = true
      · refine next (k := p.epoch) (fun r hmem => ?_) ?_
        · rw [hdue] at hmem
          exact (hr.ranTick htick ck sim true r hmem).2.1
        · rw [hdue]
          rfl
      · have hno : (p.view.ran ck).due quiet = false := by simpa using hdue
        obtain ⟨m, hview⟩ := View.pending_still hno
        rw [hno, hview, View.ran_eq]
        exact hf.ranOn hr htick rfl rfl rfl rfl
  | _ => exact hf.congr rfl rfl rfl rfl

end Filed

/-! ## What is noticed -/

/-- What a member handled, and what it was. -/
def Party.log (p : Party) : List (Handled × Stamp × Msg) := p.hist.handled.zip p.heard

/-- `hd` handled the report that its sender made at `st`, under the baseline of `st`. -/
structure Checks (hd : Handled) (e : Stamp × Msg) (st : Stamp) (t ck : Nat) : Prop where
  report : ∃ sd, e.2 = .report sd t ck
  sent : e.1 = st
  epoch : hd.stamp.epoch = st.epoch

/-- A report that is about to be handled: what it is for and how near its tick is. -/
structure Near (n : Nat → Nat) (p : Party) (st : Stamp) (t : Nat) : Prop where
  boundary : t % 64 = 0
  tick : t = (firstTick n st.epoch + st.age) % 65536
  lap : st.epoch = p.epoch → p.age ≤ st.age + 256
  close : st.epoch = p.epoch → st.age ≤ p.age + 3000

theorem OnCourse.host_near (hc : OnCourse n d got front h g) (hlap : 2 * d + 2 < 256)
    {e : Stamp × Msg} {rest : List (Stamp × Msg)} (hin : h.inbox = e :: rest) {sd t ck : Nat}
    (hx : e.2 = .report sd t ck) : Near n h e.1 t := by
  obtain ⟨htold, -, hreach, -⟩ := hc.up.head hin
  have hpace := hc.up.pace
  have hcap := h.captures_le
  have hage := hreach.age
  have hfront := hreach.front
  obtain ⟨st, y⟩ := e
  dsimp only at hx hage hfront ⊢
  subst hx
  cases htold with
  | report _ _ hb =>
      refine ⟨by omega, rfl, fun heq => ?_, fun heq => ?_⟩
      · omega
      · rw [if_neg (by omega)] at hage
        omega

theorem OnCourse.guest_near (hc : OnCourse n d got front h g) (hlap : 2 * d + 2 < 256)
    {e : Stamp × Msg} {rest : List (Stamp × Msg)} (hin : g.inbox = e :: rest) {sd t ck : Nat}
    (hx : e.2 = .report sd t ck) : Near n g e.1 t := by
  have hflow := hc.down.flow
  have hpace := hc.down.pace
  have hlead := hc.up.lead hc.down
  rw [hin] at hflow
  obtain ⟨q, hhears, -⟩ := hears_cons hflow
  obtain ⟨st, y⟩ := e
  dsimp only at hx ⊢
  subst hx
  generalize hplace : (⟨g.epoch, got, decide (g.view.hold ≠ 0)⟩ : Place) = p at hhears
  cases hhears with
  | report i k ck hb =>
      obtain ⟨rfl, hgot, -⟩ := Place.mk.inj hplace
      refine ⟨by omega, rfl, fun heq => ?_, fun heq => ?_⟩
      · show g.age ≤ k + 256
        omega
      · show k ≤ g.age + 3000
        omega

/-- What the two members noticed of each other. -/
structure Noticed (s : Pair) : Prop where
  aligned : ∀ x, (s x).hist.handled.length = (s x).heard.length
  reported : Reported s
  filed : ∀ x, Filed (s x)
  past : ∀ x, ∀ y ∈ (s x).log, y.1.stamp.Le (s x).hist.stamp
  /-- A report handled near its tick. -/
  close : ∀ x, ∀ y ∈ (s x).log, ∀ t ck, Checks y.1 y.2 y.2.1 t ck →
    y.1.stamp.age ≤ y.2.1.age + 256 ∧ y.2.1.age ≤ y.1.stamp.age + 3000
  /-- A report that comes late enough is compared. -/
  alarmed : ∀ x, ∀ y ∈ (s x).log, ∀ r ∈ (s x).hist.ran, ∀ ck, Checks y.1 y.2 r.stamp r.tick ck →
    r.stamp.age < y.1.stamp.age → r.cksum ≠ ck → Alarm r.stamp.epoch (s x)
  /-- Of two reports that cross one comes late enough. -/
  late : ∀ x, ∀ y ∈ (s x).log, ∀ z ∈ (s x.peer).log, ∀ st t t' ck ck', Checks y.1 y.2 st t ck →
    Checks z.1 z.2 st t' ck' → st.age < y.1.stamp.age ∨ st.age < z.1.stamp.age

theorem Noticed.init : Noticed (Pair.init c) where
  aligned _ := rfl
  reported _ _ he := absurd he List.not_mem_nil
  filed _ _ hr := absurd hr List.not_mem_nil
  past _ _ hy := absurd hy List.not_mem_nil
  close _ _ hy := absurd hy List.not_mem_nil
  alarmed _ _ hy := absurd hy List.not_mem_nil
  late _ _ hy := absurd hy List.not_mem_nil

/-- The stamp of a member only grows. -/
theorem Turn.stamp_le (hturn : Turn p p' xs) : p.hist.stamp.Le p'.hist.stamp := by
  cases hturn with
  | took hpump hin =>
      rename_i e rest
      show p.hist.stamp.Le (if _ then _ else _)
      split
      · exact .inl (Nat.lt_succ_self _)
      · exact .refl _
  | ran quiet sim hpc hopen hck himg hbytes =>
      show p.hist.stamp.Le (if _ then _ else _)
      split
      · exact .inl (Nat.lt_succ_self _)
      · exact .inr ⟨rfl, Nat.le_succ _⟩
  | _ => exact .refl _

/-- A turn handles the message at the head of the inbox, or none. -/
theorem Turn.log_eq (hturn : Turn p p' xs) (hlen : p.hist.handled.length = p.heard.length) :
    (p'.log = p.log ∧ p'.hist.handled.length = p'.heard.length) ∨
      ∃ e rest, p.inbox = e :: rest ∧
        p'.log = p.log ++ [(⟨p.hist.stamp, e.2.frame, p.view.takes e.2⟩, e)] ∧
        p'.hist.handled.length = p'.heard.length ∧ p'.view = p.view.onMsg e.2 ∧
        p'.hist.ran = p.hist.ran := by
  cases hturn with
  | took hpump hin =>
      rename_i e rest
      refine .inr ⟨e, rest, hin, ?_, ?_, rfl, rfl⟩
      · exact List.zip_append hlen
      · show (p.hist.handled ++ [_]).length = (p.heard ++ [_]).length
        rw [List.length_append, List.length_append, hlen]
        rfl
  | _ => exact .inl ⟨rfl, hlen⟩

/-- What a turn adds to the ticks that were run. -/
theorem Turn.ran_new (hturn : Turn p p' xs) : ∀ r ∈ p'.hist.ran, r ∈ p.hist.ran ∨
    p.pc = .gate ∧ (p.view.dropped ≠ 0 ∨ p.view.ready = true) ∧ r.stamp = p.hist.stamp ∧
      r.seat0 = p.view.cells 0 ∧ r.seat1 = p.view.cells 1 := by
  intro r hr
  cases hturn with
  | ran quiet sim hgate hopen hck himg hbytes =>
      rcases List.mem_append.mp hr with hr | hr
      · exact .inl hr
      · rw [List.mem_singleton.mp hr]
        exact .inr ⟨hgate, hopen, rfl, rfl, rfl⟩
  | _ => exact .inl hr

/-- What a course says of one member. -/
structure Placed (n : Nat → Nat) (p : Party) : Prop where
  tick : p.view.tick = (firstTick n p.epoch + p.age) % 65536
  records : Records n p
  near : ∀ e rest, p.inbox = e :: rest → ∀ sd t ck, e.2 = .report sd t ck → Near n p e.1 t

theorem Coursing.placed (hs : Coursing c s) (hlap : 2 * c.delay + 2 < 256) (hsteady : s.Steady) :
    ∃ n, ∀ x, Placed n (s x) := by
  obtain ⟨n, got, front, hc⟩ := hs.course hsteady
  refine ⟨n, fun x => ?_⟩
  cases x with
  | host =>
      exact ⟨hc.down.hostTick, hc.hostRecords, fun e rest hin sd t ck hx => hc.host_near hlap hin hx⟩
  | guest =>
      exact ⟨hc.down.guestTick, hc.guestRecords,
        fun e rest hin sd t ck hx => hc.guest_near hlap hin hx⟩

/-- A report that is compared with the record of its tick. -/
theorem Filed.alarm (hf : Filed p) {t ck : Nat} {r : Ran} (hr : r ∈ p.hist.ran)
    (hepoch : r.stamp.epoch = p.epoch) (htick : r.tick = t) (hb : t % 64 = 0)
    (hlap : p.age ≤ r.stamp.age + 256) (hne : r.cksum ≠ ck) :
    (p.view.onCrc t ck).pend ≠ 0 ∨ p.view.hold ≠ 0 := by
  by_cases hhold : p.view.hold = 0
  · refine .inl ?_
    unfold View.onCrc
    by_cases hpend : p.view.pend = 0
    · obtain ⟨hlo, hhi, hcklo, hckhi⟩ := hf r hr hepoch (htick ▸ hb) hhold hlap
      rw [htick] at hlo hhi hcklo hckhi
      have hclash : p.view.clashes t ck = true := by
        simp only [View.clashes, decide_eq_true_eq]
        refine ⟨hhold, hpend, hlo, hhi, fun hboth => hne ?_⟩
        rw [hcklo, hckhi] at hboth
        omega
      rw [if_pos hclash]
      exact Nat.one_ne_zero
    · split
      · exact Nat.one_ne_zero
      · exact hpend
  · exact .inr hhold

namespace Noticed

/-- Of two reports for one tick, the later one is handled after its receiver ran the tick. -/
theorem crossing (hs : Noticed s) {x : Side} {m : Nat → Nat} (hr : Records m (s x))
    {z : Handled × Stamp × Msg} (hz : z ∈ (s x.peer).log) {st : Stamp} {t ck : Nat}
    (hc : Checks z.1 z.2 st t ck) (hepoch : (s x).epoch = st.epoch) : st.age < (s x).age := by
  obtain ⟨sd, hx⟩ := hc.report
  have hheard : z.2 ∈ (s x.peer).heard := (List.of_mem_zip (show (z.1, z.2) ∈ _ from hz)).2
  obtain ⟨r, hmem, hstamp, -, -⟩ :=
    hs.reported x.peer z.2 (List.mem_append_left _ hheard) sd t ck hx
  rw [x.peer_peer] at hmem
  obtain ⟨-, -, hlt⟩ := hr.ran r hmem
  rw [hstamp, hc.sent] at hlt
  exact hlt hepoch.symm

theorem step (hlap : 2 * c.delay + 2 < 256) (hcourse : Coursing c s) (hsteady : s.Steady)
    (hs : Noticed s) (hsteady' : t.Steady) (hstep : Pair.Step x s t) : Noticed t := by
  have hreported := hs.reported.step hstep
  obtain ⟨xs, hturn, hpeer⟩ := hstep
  obtain ⟨n, hall⟩ := hcourse.placed hlap hsteady
  have hplaced := hall x
  have hlog := hturn.log_eq (hs.aligned x)
  have hpeerlog : (t x.peer).log = (s x.peer).log := by
    rw [hpeer]
    rfl
  have hpeerstamp : (t x.peer).hist = (s x.peer).hist := by
    rw [hpeer]
    rfl
  -- what the turn adds to the log
  have hadded : ∀ y ∈ (t x).log, y ∈ (s x).log ∨ y.1.stamp = (s x).hist.stamp ∧
      ∃ rest, (s x).inbox = y.2 :: rest ∧ (t x).view = (s x).view.onMsg y.2.2 ∧
        (t x).hist.ran = (s x).hist.ran := by
    intro y hy
    rcases hlog with ⟨hsame, -⟩ | ⟨e, rest, hin, hmore, -, hview, hran⟩
    · exact .inl (hsame ▸ hy)
    · rw [hmore] at hy
      rcases List.mem_append.mp hy with hy | hy
      · exact .inl hy
      · obtain rfl := List.mem_singleton.mp hy
        exact .inr ⟨rfl, rest, hin, hview, hran⟩
  refine ⟨fun w => ?_, hreported, fun w => ?_, fun w y hy => ?_, fun w y hy t' ck hc => ?_,
    fun w y hy r hr ck hc hage hne => ?_, fun w y hy z hz st t₁ t₂ ck ck' hc hc' => ?_⟩
  · rcases Side.eq_or_peer x w with rfl | rfl
    · rcases hlog with ⟨-, hlen⟩ | ⟨e, rest, -, -, hlen, -⟩
      · exact hlen
      · exact hlen
    · rw [hpeer]
      exact hs.aligned x.peer
  · rcases Side.eq_or_peer x w with rfl | rfl
    · exact (hs.filed w).turn hplaced.records hplaced.tick hturn (hsteady' w)
    · rw [hpeer]
      exact (hs.filed x.peer).congr rfl rfl rfl rfl
  · rcases Side.eq_or_peer x w with rfl | rfl
    · rcases hadded y hy with hold | ⟨hstamp, -⟩
      · exact (hs.past w y hold).trans hturn.stamp_le
      · rw [hstamp]
        exact hturn.stamp_le
    · rw [hpeerstamp]
      exact hs.past x.peer y (hpeerlog ▸ hy)
  · rcases Side.eq_or_peer x w with rfl | rfl
    · rcases hadded y hy with hold | ⟨hstamp, rest, hin, -⟩
      · exact hs.close w y hold t' ck hc
      · obtain ⟨sd, hx⟩ := hc.report
        have hnear := hplaced.near _ rest hin sd t' ck hx
        have hepoch : y.2.1.epoch = (s w).epoch := by
          rw [← hc.epoch, hstamp]
          rfl
        rw [hstamp]
        exact ⟨hnear.lap hepoch, hnear.close hepoch⟩
    · exact hs.close x.peer y (hpeerlog ▸ hy) t' ck hc
  · rcases Side.eq_or_peer x w with rfl | rfl
    · have hin' := hplaced.records.ran
      rcases hadded y hy with hold | ⟨hstamp, rest, hin, hview, hran⟩
      · rcases hturn.ran_new r hr with hold' | ⟨-, -, hnew, -⟩
        · exact (hs.alarmed w y hold r hold' ck hc hage hne).turn (hin' r hold').2.1 hturn (hsteady' w)
        · -- the tick was not run when the report was handled
          have hpast := hs.past w y hold
          have hepoch := hc.epoch
          rw [hnew] at hage hepoch
          unfold Stamp.Le at hpast
          omega
      · obtain ⟨sd, hx⟩ := hc.report
        have hnear := hplaced.near _ rest hin sd r.tick ck hx
        have hepoch : r.stamp.epoch = (s w).epoch := by
          rw [← hc.epoch, hstamp]
          rfl
        have hlap' := hnear.lap (by rw [hc.sent]; exact hepoch)
        rw [hc.sent] at hlap'
        rw [hran] at hr
        rcases (hs.filed w).alarm hr hepoch rfl hnear.boundary hlap' hne with hpend | hhold
        · refine .inl ?_
          rw [hview, hx]
          exact hpend
        · exact Alarm.turn (.inr (.inl hhold)) (Nat.le_of_eq hepoch) hturn (hsteady' w)
    · rw [hpeer]
      rw [hpeerstamp] at hr
      exact hs.alarmed x.peer y (hpeerlog ▸ hy) r hr ck hc hage hne
  · rcases Side.eq_or_peer x w with rfl | rfl
    · rw [hpeerlog] at hz
      rcases hadded y hy with hold | ⟨hstamp, -⟩
      · exact hs.late w y hold z hz st t₁ t₂ ck ck' hc hc'
      · refine .inl ?_
        have hepoch := hc.epoch
        rw [hstamp] at hepoch ⊢
        exact hs.crossing hplaced.records hz hc' hepoch
    · rw [hpeerlog] at hy
      rw [x.peer_peer] at hz
      rcases hadded z hz with hold | ⟨hstamp, -⟩
      · exact hs.late x.peer y hy z (by rw [x.peer_peer]; exact hold) st t₁ t₂ ck ck' hc hc'
      · refine .inr ?_
        have hepoch := hc'.epoch
        rw [hstamp] at hepoch ⊢
        exact hs.crossing hplaced.records hy hc hepoch

/-- Two different checksums of one tick, each handled by the other member, are noticed. -/
theorem alarm (hs : Noticed s) {r r' : Ran} (hr : r ∈ (s x).hist.ran)
    (hr' : r' ∈ (s x.peer).hist.ran) (hstamp : r.stamp = r'.stamp) (htick : r.tick = r'.tick)
    (hne : r.cksum ≠ r'.cksum) {y z : Handled × Stamp × Msg} (hy : y ∈ (s x).log)
    (hz : z ∈ (s x.peer).log) (hc : Checks y.1 y.2 r.stamp r'.tick r'.cksum)
    (hc' : Checks z.1 z.2 r.stamp r.tick r.cksum) :
    Alarm r.stamp.epoch (s x) ∨ Alarm r.stamp.epoch (s x.peer) := by
  rcases hs.late x y hy z hz _ _ _ _ _ hc hc' with hage | hage
  · rw [← htick] at hc
    exact .inl (hs.alarmed x y hy r hr _ hc hage hne)
  · rw [hstamp] at hc' hage ⊢
    rw [htick] at hc'
    exact .inr (hs.alarmed x.peer z hz r' hr' _ hc' hage hne.symm)

end Noticed

/-! ## The consoles -/

/-- `k` handled the frame that reports tick `r` of `l`, under the baseline of that tick. The
16-bit tick in it is the one nearest to where `k` was. -/
def Compared (k l : Proc) (r : Ran) : Prop :=
  ∃ (i : Nat) (hd : Handled) (st : Stamp) (sd : Nat), k.m.hist.handled[i]? = some hd ∧
    l.m.hist.sent[i]? = some (st, crcFrame sd r.tick r.cksum) ∧ st.epoch = r.stamp.epoch ∧
    hd.stamp.epoch = r.stamp.epoch ∧ hd.stamp.age ≤ r.stamp.age + 32768 ∧
    r.stamp.age ≤ hd.stamp.age + 32768

/-- A console wants a resync or has one under way, or is past baseline `i`. -/
def Proc.Alarmed (i : Nat) (k : Proc) : Prop :=
  k.m.rd rsPend ≠ 0 ∨ k.m.rd resyncHold ≠ 0 ∨ i < k.m.hist.stamp.epoch

/-- Two checksums of one tick that differ are noticed when both were compared. -/
def Duo.NoticesMismatch (duo : Duo) : Prop :=
  ∀ x k l, duo.proc x = some k → duo.proc x.peer = some l →
    ∀ r ∈ k.m.hist.ran, ∀ r' ∈ l.m.hist.ran, r.stamp = r'.stamp → r.cksum ≠ r'.cksum →
    Compared k l r' → Compared l k r → k.Alarmed r.stamp.epoch ∨ l.Alarmed r.stamp.epoch

theorem Portrays.alarmed {duo : Duo} (hs : Portrays c duo s) {k : Proc}
    (hk : duo.proc x = some k) {i : Nat} (ha : Alarm i (s x)) : k.Alarmed i := by
  have hshown := (hs.shown x k hk).1
  unfold Alarm at ha
  have hepoch : (s x).epoch = k.m.hist.stamp.epoch := by
    show (s x).hist.stamp.epoch = _
    rw [hshown.hist]
  rw [hshown.view, hepoch] at ha
  exact ha

theorem crcFrame_cells {sd sd' t t' ck ck' : Nat} (h : crcFrame sd t ck = crcFrame sd' t' ck') :
    t = t' ∧ ck = ck' := by
  simp only [crcFrame, List.cons.injEq, and_true, true_and] at h
  omega

/-- The report that was compared is in the log of the member that compared it. -/
theorem Noticed.compared (hs : Noticed s) {duo : Duo} (hp : Portrays c duo s) {k l : Proc}
    (hk : duo.proc x = some k) (hl : duo.proc x.peer = some l) {m : Nat → Nat}
    (hm : Records m (s x.peer)) {r : Ran} (hr : r ∈ (s x.peer).hist.ran) (hc : Compared k l r) :
    ∃ y ∈ (s x).log, Checks y.1 y.2 r.stamp r.tick r.cksum := by
  obtain ⟨i, hd, st, sd, hi, hsent, hst, hepoch, hafter, hbefore⟩ := hc
  have hhandled : (s x).hist.handled[i]? = some hd := by
    rw [(hp.shown x k hk).1.hist]
    exact hi
  have hlt : i < (s x).heard.length := by
    rw [← hs.aligned x]
    exact (List.getElem?_eq_some_iff.mp hhandled).1
  obtain ⟨e, he⟩ : ∃ e, (s x).heard[i]? = some e := ⟨_, List.getElem?_eq_getElem hlt⟩
  have hy : (hd, e) ∈ (s x).log := by
    refine List.mem_of_getElem? (i := i) ?_
    rw [Party.log, List.getElem?_zip_eq_some]
    exact ⟨hhandled, he⟩
  obtain ⟨st', hsent', hst'⟩ := hp.sent hl he
  rw [hsent] at hsent'
  obtain ⟨rfl, hframe⟩ := Prod.mk.inj (Option.some.inj hsent')
  obtain ⟨sd', t, ck, hx⟩ := Msg.frame_crc (y := e.2) (by rw [← hframe]; rfl)
  rw [hx] at hframe
  obtain ⟨rfl, rfl⟩ := crcFrame_cells hframe
  obtain ⟨r₀, hr₀, hstamp, htick, -⟩ := hs.reported x e
    (List.mem_append_left _ (List.mem_of_getElem? he)) sd' r.tick r.cksum hx
  have hclose := hs.close x (hd, e) hy r.tick r.cksum
    ⟨⟨sd', hx⟩, rfl, by rw [hepoch, ← hst, hst']⟩
  dsimp only at hclose
  -- the ticks are less than a lap of 65536 apart
  obtain ⟨hrt, -, -⟩ := hm.ran r hr
  obtain ⟨hrt₀, -, -⟩ := hm.ran r₀ hr₀
  have hsame : r₀.stamp.epoch = r.stamp.epoch := by rw [hstamp, ← hst', hst]
  rw [hsame] at hrt₀
  have hage : r₀.stamp.age = r.stamp.age := by
    rw [← hstamp] at hclose
    omega
  have heq : e.1 = r.stamp := by
    rw [← hstamp]
    exact Stamp.of_eq hsame hage
  exact ⟨(hd, e), hy, ⟨sd', hx⟩, heq, hepoch⟩

/-- When both consoles have run a tick under one baseline with different checksums and each
handled the other's report of it, one of them has noticed. -/
theorem mismatch_noticed (hone : 1 ≤ c.delay) (hlap : 2 * c.delay + 2 < 256) {es : List Event}
    {duo : Duo} (hrun : Run (Duo.Step cart c) Duo.init es duo) (hsteady : duo.Steady) :
    duo.NoticesMismatch := by
  obtain ⟨s, hs, hcourse, hsteady', hnoticed⟩ := steady_pair (Q := Noticed) hone (by omega) .init
    (fun _ _ _ hcourse hsteady hsteady' hs hstep =>
      hs.step hlap hcourse hsteady hsteady' hstep) hrun hsteady
  intro x k l hk hl r hr r' hr' hstamp hne hcomp hcomp'
  obtain ⟨m, hm⟩ := hcourse.placed hlap hsteady'
  have hl' : duo.proc x.peer.peer = some k := by
    rw [x.peer_peer]
    exact hk
  have hr₁ : r ∈ (s x).hist.ran := by
    rw [(hs.shown x k hk).1.hist]
    exact hr
  have hr₂ : r' ∈ (s x.peer).hist.ran := by
    rw [(hs.shown x.peer l hl).1.hist]
    exact hr'
  have htick : r.tick = r'.tick := by
    rw [((hm x).records.ran r hr₁).1, ((hm x.peer).records.ran r' hr₂).1, hstamp]
  obtain ⟨y, hy, hcy⟩ := hnoticed.compared hs hk hl (hm x.peer).records hr₂ hcomp
  obtain ⟨z, hz, hcz⟩ := hnoticed.compared hs hl hl' (hm x.peer.peer).records
    (by rw [x.peer_peer]; exact hr₁) hcomp'
  rw [← hstamp] at hcy
  exact (hnoticed.alarm hr₁ hr₂ hstamp htick hne hy hz hcy hcz).imp (hs.alarmed hk) (hs.alarmed hl)

/-- A report that a role handled was compared. -/
theorem Staged.compared {S : Scene} (h : Staged c duo S) {k l : Proc} (hk : duo.proc x = some k)
    (hl : duo.proc x.peer = some l) {r : Ran} (i sd age : Nat)
    (hi : (S x).hist.handled[i]?.map Handled.stamp = some ⟨r.stamp.epoch, age⟩)
    (hmail : (mailFrames (S x).toParty)[i]? = some (r.stamp.epoch, crcFrame sd r.tick r.cksum))
    (hage : age ≤ r.stamp.age + 32768 ∧ r.stamp.age ≤ age + 32768) : Compared k l r := by
  have hhist := (h.portrays.shown x k hk).1.hist
  have hsent := (h.portrays.shown x.peer l hl).2
  rw [x.peer_peer] at hsent
  obtain ⟨hd, hhd, hstamp⟩ := Option.map_eq_some_iff.mp hi
  rw [hhist] at hhd
  rw [← hsent, sentFrames, List.getElem?_map] at hmail
  obtain ⟨⟨st, f⟩, hst, heq⟩ := Option.map_eq_some_iff.mp hmail
  obtain ⟨hepoch, hframe⟩ := Prod.mk.inj heq
  dsimp only at hepoch hframe
  refine ⟨i, hd, st, sd, hhd, by rw [hst, hframe], hepoch, ?_, ?_, ?_⟩
  · rw [hstamp]
  · rw [hstamp]
    exact hage.1
  · rw [hstamp]
    exact hage.2

/-- Both ran tick 0 with different checksums and compared them. -/
theorem mismatch_noticed_apart : ∃ es duo k l r r', Run (Duo.Step idleCart startOne) Duo.init es duo ∧
    duo.proc .host = some k ∧ duo.proc .guest = some l ∧ r ∈ k.m.hist.ran ∧ r' ∈ l.m.hist.ran ∧
    r.stamp = r'.stamp ∧ r.cksum ≠ r'.cksum ∧ Compared k l r' ∧ Compared l k r ∧
    (k.Alarmed r.stamp.epoch ∨ l.Alarmed r.stamp.epoch) := by
  have hsums : lsCksum (resting 0) ≠ lsCksum (resting 1) := by decide +kernel
  obtain ⟨es, duo, S, hrun, hstaged, -, hran, hran', hi, hi', hmail, hmail', hdrop, hdrop'⟩ :=
    Staged.follow startOne rfl seat_byte apartCues (P := fun S =>
        (S .host).hist.ran.map (fun r => (r.stamp, r.tick, r.cksum)) =
          [(⟨0, 0⟩, 0, lsCksum (resting 0))] ∧
        (S .guest).hist.ran.map (fun r => (r.stamp, r.tick, r.cksum)) =
          [(⟨0, 0⟩, 0, lsCksum (resting 1))] ∧
        (S .host).hist.handled[1]?.map Handled.stamp = some ⟨0, 1⟩ ∧
        (S .guest).hist.handled[1]?.map Handled.stamp = some ⟨0, 1⟩ ∧
        (mailFrames (S .host).toParty)[1]? = some (0, crcFrame 1 0 (lsCksum (resting 1))) ∧
        (mailFrames (S .guest).toParty)[1]? = some (0, crcFrame 0 0 (lsCksum (resting 0))) ∧
        (S .host).view.dropped = 0 ∧ (S .guest).view.dropped = 0) (by decide +kernel)
  obtain ⟨k, hk, -, hhist, -⟩ := hstaged.console .host
  obtain ⟨l, hl, -, hhist', -⟩ := hstaged.console .guest
  obtain ⟨r, hr, hkey⟩ := List.map_eq_singleton_iff.mp hran
  obtain ⟨r', hr', hkey'⟩ := List.map_eq_singleton_iff.mp hran'
  simp only [Prod.mk.injEq] at hkey hkey'
  obtain ⟨hstamp, htick, hck⟩ := hkey
  obtain ⟨hstamp', htick', hck'⟩ := hkey'
  have hmem : r ∈ k.m.hist.ran := by
    rw [← hhist] at hr
    exact hr ▸ List.mem_singleton_self r
  have hmem' : r' ∈ l.m.hist.ran := by
    rw [← hhist'] at hr'
    exact hr' ▸ List.mem_singleton_self r'
  have hne : r.cksum ≠ r'.cksum := by
    rw [hck, hck']
    exact hsums
  have hcomp : Compared k l r' := by
    refine hstaged.compared hk hl 1 1 1 ?_ ?_ ?_
    · rw [hstamp']
      exact hi
    · rw [hstamp', htick', hck']
      exact hmail
    · rw [hstamp']
      decide
  have hcomp' : Compared l k r := by
    refine hstaged.compared (x := .guest) hl hk 1 0 1 ?_ ?_ ?_
    · rw [hstamp]
      exact hi'
    · rw [hstamp, htick, hck]
      exact hmail'
    · rw [hstamp]
      decide
  have hsame : r.stamp = r'.stamp := hstamp.trans hstamp'.symm
  exact ⟨es, duo, k, l, r, r', hrun, hk, hl, hmem, hmem', hsame, hne, hcomp, hcomp',
    mismatch_noticed (by decide) (by decide) hrun (hstaged.steady hdrop hdrop') .host k l hk hl
      r hmem r' hmem' hsame hne hcomp hcomp'⟩

end SharkNetplay.Console
