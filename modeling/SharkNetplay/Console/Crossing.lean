import SharkNetplay.Console.Progress

/-!
# What crosses a resync

With a delay of at most 15 ticks the 16 ticks of headroom of a push keep the two baselines
apart: an INPUT or a CRC that is taken was sent under the baseline its receiver is on, and
a CRC is taken only when the two checksums of one tick differ.

## Implementation notes

The message handled `i`-th by a console is the `i`-th frame its peer sent, so what is taken
is traced to the peer's record by its place in the two records.
-/

namespace SharkNetplay.Console

open Lib Cell Machine

variable {n : Nat → Nat} {d front got : Nat} {h g p p' q : Party} {c : Start} {cart : Cart}
  {x : Side} {xs : List Msg} {s t : Pair}

theorem Stamp.of_eq {a b : Stamp} (hepoch : a.epoch = b.epoch) (hage : a.age = b.age) : a = b := by
  cases a
  cases b
  simp_all

/-! ## What is taken -/

/-- A message that is taken from `e` at `p`: it is of the baseline of `p`, and a checksum is
not the one `p` has for that tick. -/
structure Fair (p : Party) (e : Stamp × Msg) : Prop where
  epoch : e.1.epoch = p.epoch
  differs : ∀ s t ck, e.2 = .report s t ck →
    ∃ r ∈ p.hist.ran, r.stamp = e.1 ∧ r.tick = t ∧ r.cksum ≠ ck

/-- The host takes what was sent under its own baseline. -/
theorem OnCourse.host_takes (hc : OnCourse n d got front h g) (hlap : d ≤ 126)
    (hhead : d ≤ 15 ∨ h.epoch = 0) (hf : Fixed c .host h.view) {e : Stamp × Msg} {rest : List (Stamp × Msg)}
    (hin : h.inbox = e :: rest) (htakes : h.view.takes e.2 = true) : Fair h e := by
  obtain ⟨htold, -, hreach, -⟩ := hc.up.head hin
  have hstill := hreach.epoch
  have hmem : e.1 ∈ stamps h g := mem_stamps.mpr (.inl ⟨e, by rw [hin]; exact List.mem_cons_self, rfl⟩)
  have hgap := Nat.le_succ_of_le (hc.budget.gap hmem)
  obtain ⟨hbase, hfront, hnear⟩ := hreach.near hgap hlap
  have hfloor := hc.up.floor
  have hcap := h.captures_le
  have hpace := hc.up.pace
  cases htold with
  | input st i =>
      have hfresh : h.view.fresh 1 ((firstTick n st.epoch + st.age + d) % 65536) = true := htakes
      refine ⟨?_, fun s t ck => Msg.noConfusion⟩
      dsimp only at hbase hfront hnear hstill ⊢
      rcases hnear with ⟨hlate, hlt⟩ | ⟨heq, -⟩
      · -- the headroom is more than the delay, so the watermark has passed it
        have hle := (hc.up.fresh_iff hf.seat hf.count (by omega) (by omega)).mp hfresh
        omega
      · exact heq
  | report st ck hb =>
      have hclash : h.view.clashes ((firstTick n st.epoch + st.age) % 65536) ck = true := htakes
      obtain ⟨r, hr, hepoch, hage, htick, heq, hne⟩ :=
        hc.up.clash hc.hostRecords hlap hin hgap hclash
      have hsame : st.epoch = h.epoch := by
        dsimp only at hnear hstill
        omega
      refine ⟨hsame, ?_⟩
      rintro s t ck' hmsg
      obtain ⟨rfl, rfl, rfl⟩ := Msg.report.inj hmsg
      have hstamp : r.stamp = st := by
        rw [hsame] at heq
        exact Stamp.of_eq (by omega) (by omega)
      exact ⟨r, hr, hstamp, htick, fun hck => hne (by rw [hck]; exact ⟨rfl, rfl⟩)⟩
  | request st t => exact absurd htakes (by simp [View.takes])

/-- The guest takes what was sent under its own baseline. -/
theorem OnCourse.guest_takes (hc : OnCourse n d got front h g) (hlap : d ≤ 126) {e : Stamp × Msg}
    {rest : List (Stamp × Msg)} (hin : g.inbox = e :: rest) (htakes : g.view.takes e.2 = true) :
    Fair g e := by
  have hflow := hc.down.flow
  rw [hin] at hflow
  obtain ⟨q, hhears, -⟩ := hears_cons hflow
  generalize hplace : (⟨g.epoch, got, decide (g.view.hold ≠ 0)⟩ : Place) = p at hhears
  cases hhears with
  | input i k i' =>
      obtain ⟨hepoch, -, -⟩ := Place.mk.inj hplace
      exact ⟨hepoch.symm, fun s t ck => Msg.noConfusion⟩
  | report i k ck hb =>
      obtain ⟨rfl, hgot, -⟩ := Place.mk.inj hplace
      have hclash : g.view.clashes ((firstTick n g.epoch + k) % 65536) ck = true := htakes
      obtain ⟨r, hr, hepoch, hage, hrecent, htick, hmod, hne⟩ :=
        hc.guestRecords.clash (by omega) hclash
      have hpace := hc.down.pace
      have hlead := hc.up.lead hc.down
      have hages : r.stamp.age = k := by omega
      refine ⟨rfl, ?_⟩
      rintro s t ck' hmsg
      obtain ⟨rfl, rfl, rfl⟩ := Msg.report.inj hmsg
      refine ⟨r, hr, ?_, htick, fun hck => hne (by rw [hck]; exact ⟨rfl, rfl⟩)⟩
      rw [← hages, ← hepoch]
  | opening i k hspan => exact absurd htakes (by simp [View.takes])
  | piece i k q => exact absurd htakes (by simp [View.takes])
  | closing i k hspan => exact absurd htakes (by simp [View.takes])

/-- What a member is about to take is fair. -/
theorem Coursing.takes (hs : Coursing c s) (hlap : c.delay ≤ 126)
    (hhead : c.delay ≤ 15 ∨ (s .host).epoch = 0) (hsteady : s.Steady)
    {e : Stamp × Msg} {rest : List (Stamp × Msg)} (hin : (s x).inbox = e :: rest)
    (htakes : (s x).view.takes e.2 = true) : Fair (s x) e := by
  obtain ⟨n, got, front, hc⟩ := hs.course hsteady
  cases x with
  | host => exact hc.host_takes hlap hhead (hs.orderly.fixed .host) hin htakes
  | guest => exact hc.guest_takes hlap hin htakes

/-! ## The records of both members -/

/-- What a turn adds to a record. -/
theorem Turn.ran_subset (hturn : Turn p p' xs) : ∀ r ∈ p.hist.ran, r ∈ p'.hist.ran := by
  intro r hr
  cases hturn with
  | ran quiet sim hpc hopen hck himg hbytes => exact List.mem_append_left _ hr
  | _ => exact hr

/-- A checksum that is sent is the one of a tick that was run. -/
theorem Turn.reported (hturn : Turn p p' xs) {sd t ck : Nat} (hmem : .report sd t ck ∈ xs) :
    ∃ r ∈ p'.hist.ran, r.stamp = p.hist.stamp ∧ r.tick = t ∧ r.cksum = ck := by
  cases hturn with
  | took hpump hin =>
      rename_i e rest
      cases hx : e.2 with
      | report s' t' ck' =>
          rw [hx] at hmem
          simp only [View.replies] at hmem
          split at hmem
          · exact Msg.noConfusion (List.mem_singleton.mp hmem)
          · exact absurd hmem List.not_mem_nil
      | _ =>
          rw [hx] at hmem
          exact absurd hmem List.not_mem_nil
  | captured hi hpc => exact Msg.noConfusion (List.mem_singleton.mp hmem)
  | ran quiet sim hpc hopen hck himg hbytes =>
      rename_i ck' img
      rcases List.mem_append.mp hmem with hmem | hmem
      · split at hmem
        · obtain ⟨-, rfl, rfl⟩ := Msg.report.inj (List.mem_singleton.mp hmem)
          exact ⟨_, List.mem_append_right _ (List.mem_singleton.mpr rfl), rfl, rfl, rfl⟩
        · exact absurd hmem List.not_mem_nil
      · split at hmem
        · simp [pushMsgs] at hmem
        · exact absurd hmem List.not_mem_nil
  | _ => exact absurd hmem List.not_mem_nil

/-- Every checksum under way or handled is of a tick its sender ran. -/
def Reported (s : Pair) : Prop := ∀ x, ∀ e ∈ (s x).heard ++ (s x).inbox, ∀ sd t ck,
  e.2 = .report sd t ck → ∃ r ∈ (s x.peer).hist.ran, r.stamp = e.1 ∧ r.tick = t ∧ r.cksum = ck

theorem Reported.step (hs : Reported s) (hstep : Pair.Step x s t) : Reported t := by
  obtain ⟨xs, hturn, hpeer⟩ := hstep
  intro y e he sd tick ck hx
  rcases Side.eq_or_peer x y with rfl | rfl
  · rw [hturn.mail] at he
    rw [hpeer]
    exact hs y e he sd tick ck hx
  · rw [x.peer_peer]
    rw [hpeer] at he
    rcases List.mem_append.mp (show e ∈ (s x.peer).heard ++ ((s x.peer).inbox ++ _) from he) with
      hold | hnew
    · obtain ⟨r, hr, hr'⟩ := hs x.peer e (List.mem_append_left _ hold) sd tick ck hx
      rw [x.peer_peer] at hr
      exact ⟨r, hturn.ran_subset r hr, hr'⟩
    · rcases List.mem_append.mp hnew with hold | hnew
      · obtain ⟨r, hr, hr'⟩ := hs x.peer e (List.mem_append_right _ hold) sd tick ck hx
        rw [x.peer_peer] at hr
        exact ⟨r, hturn.ran_subset r hr, hr'⟩
      · obtain ⟨y, hy, rfl⟩ := List.mem_map.mp hnew
        obtain rfl : y = .report sd tick ck := hx
        exact hturn.reported hy

/-- What was taken of the messages handled was fair when it was. -/
def Traced (p : Party) : Prop := List.Forall₂ (fun hd e => hd.frame = e.2.frame ∧
  (hd.took = true → e.1.epoch = hd.stamp.epoch ∧ ∀ sd t ck, e.2 = .report sd t ck →
    ∃ r ∈ p.hist.ran, r.stamp = e.1 ∧ r.tick = t ∧ r.cksum ≠ ck)) p.hist.handled p.heard

theorem Traced.keep (ht : Traced p) (hran : ∀ r ∈ p.hist.ran, r ∈ p'.hist.ran)
    (hhandled : p'.hist.handled = p.hist.handled) (hheard : p'.heard = p.heard) : Traced p' := by
  unfold Traced
  rw [hhandled, hheard]
  refine ht.imp fun hd e hpair => ⟨hpair.1, fun htook => ?_⟩
  obtain ⟨hepoch, hdiffers⟩ := hpair.2 htook
  refine ⟨hepoch, fun sd t ck hx => ?_⟩
  obtain ⟨r, hr, hr'⟩ := hdiffers sd t ck hx
  exact ⟨r, hran r hr, hr'⟩

theorem Traced.turn (ht : Traced p) (hturn : Turn p p' xs)
    (hfair : ∀ e rest, p.inbox = e :: rest → p.view.takes e.2 = true → Fair p e) : Traced p' := by
  cases hturn with
  | took hpump hin =>
      rename_i e rest
      refine List.rel_append (Traced.keep ht (fun r hr => hr) rfl rfl) (.cons ⟨rfl, fun htook => ?_⟩ .nil)
      have hf := hfair e rest hin htook
      exact ⟨hf.epoch, hf.differs⟩
  | ran quiet sim hpc hopen hck himg hbytes =>
      exact ht.keep (fun r hr => List.mem_append_left _ hr) rfl rfl
  | _ => exact ht.keep (fun r hr => hr) rfl rfl

/-- What both members took is traced to what was sent. -/
structure Crossed (s : Pair) : Prop where
  reported : Reported s
  traced : ∀ x, Traced (s x)

theorem Crossed.init : Crossed (Pair.init c) :=
  ⟨fun _ _ he => absurd he List.not_mem_nil, fun _ => .nil⟩

theorem Crossed.step (hhead : c.delay ≤ 15) (hcourse : Coursing c s) (hsteady : s.Steady)
    (hs : Crossed s) (hstep : Pair.Step x s t) : Crossed t := by
  refine ⟨hs.reported.step hstep, fun y => ?_⟩
  obtain ⟨xs, hturn, hpeer⟩ := hstep
  rcases Side.eq_or_peer x y with rfl | rfl
  · exact (hs.traced y).turn hturn fun e rest hin htakes =>
      hcourse.takes (by omega) (.inl hhead) hsteady hin htakes
  · rw [hpeer]
    exact (hs.traced x.peer).keep (fun r hr => hr) rfl rfl

/-! ## The consoles -/

theorem forall₂_getElem {α β : Type*} {R : α → β → Prop} {l : List α} {l' : List β}
    (h : List.Forall₂ R l l') {i : Nat} {a : α} (hi : l[i]? = some a) :
    ∃ b, l'[i]? = some b ∧ R a b := by
  obtain ⟨hlt, rfl⟩ := List.getElem?_eq_some_iff.mp hi
  have hlt' : i < l'.length := h.length_eq ▸ hlt
  exact ⟨l'[i], List.getElem?_eq_getElem hlt', h.get hlt hlt'⟩

/-- The pair that stands for two consoles of a match with a delay within the headroom. -/
theorem crossed_pair (hone : 1 ≤ c.delay) (hhead : c.delay ≤ 15) {es : List Event} {duo : Duo}
    (hrun : Run (Duo.Step cart c) Duo.init es duo) (hsteady : duo.Steady) :
    ∃ s, Portrays c duo s ∧ Crossed s := by
  obtain ⟨s, hs, -, -, hcrossed⟩ := steady_pair (Q := Crossed) hone (by omega) .init
    (fun _ _ _ hcourse hsteady _ hs hstep => hs.step hhead hcourse hsteady hstep) hrun hsteady
  exact ⟨s, hs, hcrossed⟩

/-- The `i`-th message a console handled is the `i`-th frame its peer sent. -/
theorem Portrays.sent {duo : Duo} (hs : Portrays c duo s) {l : Proc}
    (hl : duo.proc x.peer = some l) {i : Nat} {e : Stamp × Msg}
    (hi : (s x).heard[i]? = some e) :
    ∃ st, l.m.hist.sent[i]? = some (st, e.2.frame) ∧ st.epoch = e.1.epoch := by
  have hmail := (hs.shown _ l hl).2
  rw [x.peer_peer] at hmail
  have hat : (mailFrames (s x))[i]? = some (e.1.epoch, e.2.frame) := by
    unfold mailFrames
    rw [List.getElem?_map, List.getElem?_append_left (List.getElem?_eq_some_iff.mp hi).1, hi]
    rfl
  rw [← hmail] at hat
  unfold sentFrames at hat
  rw [List.getElem?_map] at hat
  obtain ⟨⟨st, f⟩, hsent, heq⟩ := Option.map_eq_some_iff.mp hat
  obtain ⟨hepoch, hframe⟩ := Prod.mk.inj heq
  dsimp only at hepoch hframe
  exact ⟨st, by rw [hsent, hframe], hepoch⟩

/-- What a console took, an INPUT it stored or a CRC that set `RS_PEND`, was sent under the
baseline it was taken under. -/
def Duo.TakesCurrent (duo : Duo) : Prop :=
  ∀ x k l, duo.proc x = some k → duo.proc x.peer = some l →
    ∀ (i : Nat) (hd : Handled), k.m.hist.handled[i]? = some hd → hd.took = true →
    ∃ st : Stamp, l.m.hist.sent[i]? = some (st, hd.frame) ∧ st.epoch = hd.stamp.epoch

/-- A CRC that set `RS_PEND` brought another checksum for a tick both consoles ran. -/
def Duo.ChecksSound (duo : Duo) : Prop :=
  ∀ x k l, duo.proc x = some k → duo.proc x.peer = some l → ∀ hd ∈ k.m.hist.handled,
    hd.frame.getD 1 0 = ftCrc → hd.took = true →
    ∃ r ∈ k.m.hist.ran, ∃ r' ∈ l.m.hist.ran, r.stamp = r'.stamp ∧ r.tick = r'.tick ∧
      r.cksum ≠ r'.cksum ∧ r.stamp.epoch = hd.stamp.epoch ∧
      ∃ sd, hd.frame = crcFrame sd r'.tick r'.cksum

/-- While the delay is within the headroom of a push, nothing crosses a resync: what is taken was
sent under the same baseline. -/
theorem taken_current (hone : 1 ≤ c.delay) (hhead : c.delay ≤ 15) {es : List Event} {duo : Duo}
    (hrun : Run (Duo.Step cart c) Duo.init es duo) (hsteady : duo.Steady) : duo.TakesCurrent := by
  intro x k l hk hl i hd hi htook
  obtain ⟨s, hs, hcrossed⟩ := crossed_pair hone hhead hrun hsteady
  have hhandled : (s x).hist.handled[i]? = some hd := by
    rw [(hs.shown x k hk).1.hist]
    exact hi
  obtain ⟨e, he, hframe, hfair⟩ := forall₂_getElem (hcrossed.traced x) hhandled
  obtain ⟨st, hsent, hepoch⟩ := hs.sent hl he
  exact ⟨st, by rw [hsent, hframe], hepoch.trans (hfair htook).1⟩

/-- The host took an INPUT and a CRC of tick 0. -/
theorem taken_current_apart : ∃ es duo k l, Run (Duo.Step idleCart startOne) Duo.init es duo ∧
    duo.proc .host = some k ∧ duo.proc .guest = some l ∧
    (∃ hd ∈ k.m.hist.handled, hd.frame.getD 1 0 = ftInput ∧ hd.took = true) ∧
    (∃ hd ∈ k.m.hist.handled, hd.frame.getD 1 0 = ftCrc ∧ hd.took = true) ∧ duo.TakesCurrent := by
  obtain ⟨es, duo, S, hrun, hstaged, -, hinput, hcrc, hdrop, hdrop'⟩ :=
    Staged.follow startOne rfl seat_byte apartCues (P := fun S =>
        (∃ hd ∈ (S .host).hist.handled, hd.frame.getD 1 0 = ftInput ∧ hd.took = true) ∧
        (∃ hd ∈ (S .host).hist.handled, hd.frame.getD 1 0 = ftCrc ∧ hd.took = true) ∧
        (S .host).view.dropped = 0 ∧ (S .guest).view.dropped = 0) (by decide +kernel)
  obtain ⟨k, hk, -, hhist, -⟩ := hstaged.console .host
  obtain ⟨l, hl, -⟩ := hstaged.console .guest
  rw [← hhist] at hinput hcrc
  exact ⟨es, duo, k, l, hrun, hk, hl, hinput, hcrc,
    taken_current (by decide) (by decide) hrun (hstaged.steady hdrop hdrop')⟩

theorem Msg.frame_crc {y : Msg} (h : y.frame.getD 1 0 = ftCrc) :
    ∃ sd t ck, y = .report sd t ck := by
  cases y with
  | report sd t ck => exact ⟨sd, t, ck, rfl⟩
  | _ => exact absurd h (by simp [Msg.frame, inputFrame, reqFrame, beginFrame, endFrame, ftCrc])

/-- While the delay is within the headroom of a push, a CRC sets `RS_PEND` only for two different
checksums of one tick of one baseline. -/
theorem checks_sound (hone : 1 ≤ c.delay) (hhead : c.delay ≤ 15) {es : List Event} {duo : Duo}
    (hrun : Run (Duo.Step cart c) Duo.init es duo) (hsteady : duo.Steady) : duo.ChecksSound := by
  intro x k l hk hl hd hmem hty htook
  obtain ⟨s, hs, hcrossed⟩ := crossed_pair hone hhead hrun hsteady
  have hhist := (hs.shown x k hk).1.hist
  have hhist' := (hs.shown x.peer l hl).1.hist
  obtain ⟨i, hi⟩ := List.getElem?_of_mem hmem
  have hhandled : (s x).hist.handled[i]? = some hd := by
    rw [hhist]
    exact hi
  obtain ⟨e, he, hframe, hfair⟩ := forall₂_getElem (hcrossed.traced x) hhandled
  rw [hframe] at hty
  obtain ⟨sd, t, ck, hmsg⟩ := Msg.frame_crc hty
  obtain ⟨hepoch, hdiffers⟩ := hfair htook
  obtain ⟨r, hr, hstamp, htick, hne⟩ := hdiffers sd t ck hmsg
  obtain ⟨r', hr', hstamp', htick', hck'⟩ := hcrossed.reported x e
    (List.mem_append_left _ (List.mem_of_getElem? he)) sd t ck hmsg
  rw [hhist] at hr
  rw [hhist'] at hr'
  refine ⟨r, hr, r', hr', hstamp.trans hstamp'.symm, htick.trans htick'.symm, ?_, ?_, sd, ?_⟩
  · rw [hck']
    exact hne
  · rw [hstamp]
    exact hepoch
  · rw [hframe, hmsg, htick', hck']
    rfl

/-- The CRC of tick 0 made the guest send its request. -/
theorem checks_sound_apart : ∃ es duo k l, Run (Duo.Step idleCart startOne) Duo.init es duo ∧
    duo.proc .host = some k ∧ duo.proc .guest = some l ∧
    (∃ hd ∈ l.m.hist.handled, hd.frame.getD 1 0 = ftCrc ∧ hd.took = true) ∧ l.m.rd rsPend = 1 ∧
    duo.ChecksSound := by
  obtain ⟨es, duo, S, hrun, hstaged, -, hcrc, hpend, hdrop, hdrop'⟩ :=
    Staged.follow startOne rfl seat_byte apartCues (P := fun S =>
        (∃ hd ∈ (S .guest).hist.handled, hd.frame.getD 1 0 = ftCrc ∧ hd.took = true) ∧
        (S .guest).view.pend = 1 ∧ (S .host).view.dropped = 0 ∧ (S .guest).view.dropped = 0)
      (by decide +kernel)
  obtain ⟨k, hk, -⟩ := hstaged.console .host
  obtain ⟨l, hl, hview, hhist, -⟩ := hstaged.console .guest
  rw [← hhist] at hcrc
  rw [← hview] at hpend
  exact ⟨es, duo, k, l, hrun, hk, hl, hcrc, hpend,
    checks_sound (by decide) (by decide) hrun (hstaged.steady hdrop hdrop')⟩

end SharkNetplay.Console
