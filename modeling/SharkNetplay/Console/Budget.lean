import SharkNetplay.Console.CourseUp

/-!
# How many pushes can be made

A member's record of its checksums is of its present baseline, so a report of an earlier
one meets a record only while the ticks of the two still overlap. From that and from the
one request a guest makes under a baseline follows how far the host may have gone on since
any message under way was sent.

## Implementation notes

`owed` lists the baselines of the guest under which a request is still to reach the host.
A message sent nine baselines ago is never under way.
-/

namespace SharkNetplay.Console

open Lib

variable {n n' : Nat → Nat} {d front got : Nat} {h h' g g' p p' : Party}

/-! ## The checksums on record -/

/-- `OWN_CRC` holds no checksum of a reported tick. -/
def View.Unrecorded (v : View) : Prop := ∀ t, t % 64 = 0 → v.own (t % 256 / 64 * 4) ≠ t % 256

theorem View.unrecorded_clear {v : View} (h : v.own = fun i => if i < 32 then 0xFF else 0) :
    v.Unrecorded := by
  intro t ht hown
  rw [h] at hown
  have hcell : (if t % 256 / 64 * 4 < 32 then 0xFF else 0) = t % 256 := hown
  rw [if_pos (by omega)] at hcell
  omega

/-- The ticks a member ran, and the checksums it has on record of its present baseline. -/
structure Records (n : Nat → Nat) (p : Party) : Prop where
  ran : ∀ r ∈ p.hist.ran, r.tick = (firstTick n r.stamp.epoch + r.stamp.age) % 65536 ∧
    r.stamp.epoch ≤ p.epoch ∧ (r.stamp.epoch = p.epoch → r.stamp.age < p.age)
  kept : ∀ t, t % 64 = 0 → p.view.own (t % 256 / 64 * 4) = t % 256 →
    p.view.own (t % 256 / 64 * 4 + 1) = t / 256 →
    ∃ r ∈ p.hist.ran, r.stamp.epoch = p.epoch ∧ p.age ≤ r.stamp.age + 256 ∧ r.tick = t ∧
      p.view.own (t % 256 / 64 * 4 + 2) = r.cksum % 256 ∧
      p.view.own (t % 256 / 64 * 4 + 3) = r.cksum / 256

namespace Records

theorem congr (hr : Records n p) (hown : p'.view.own = p.view.own)
    (hran : p'.hist.ran = p.hist.ran) (hstamp : p'.hist.stamp = p.hist.stamp) : Records n p' := by
  have hepoch : p'.epoch = p.epoch := congrArg Stamp.epoch hstamp
  have hage : p'.age = p.age := congrArg Stamp.age hstamp
  refine ⟨?_, ?_⟩
  · rw [hran, hepoch, hage]
    exact hr.ran
  · rw [hown, hran, hepoch, hage]
    exact hr.kept

theorem extend (hr : Records n p) (hn : ∀ i < p.epoch, n' i = n i) : Records n' p := by
  refine ⟨fun r hmem => ?_, hr.kept⟩
  obtain ⟨htick, hle, hlt⟩ := hr.ran r hmem
  rw [firstTick_congr fun i hi => hn i (Nat.lt_of_lt_of_le hi hle)]
  exact ⟨htick, hle, hlt⟩

/-- The records are cleared, under this baseline or for the next one. -/
theorem blank (hr : Records n p) (hown : p'.view.Unrecorded) (hran : p'.hist.ran = p.hist.ran)
    (hstamp : p'.hist.stamp = p.hist.stamp ∨ p'.epoch = p.epoch + 1) : Records n p' := by
  refine ⟨fun r hmem => ?_, fun t ht hlo => absurd hlo (hown t ht)⟩
  rw [hran] at hmem
  obtain ⟨htick, hle, hlt⟩ := hr.ran r hmem
  rcases hstamp with hsame | hnext
  · have hepoch : p'.epoch = p.epoch := congrArg Stamp.epoch hsame
    have hage : p'.age = p.age := congrArg Stamp.age hsame
    rw [hepoch, hage]
    exact ⟨htick, hle, hlt⟩
  · exact ⟨htick, by omega, fun heq => by omega⟩

/-- A message leaves the records or clears them. -/
theorem took (hr : Records n p) {e : Stamp × Msg} {heard inbox : List (Stamp × Msg)} :
    Records n { p with
      view := p.view.onMsg e.2
      hist := p.hist.hear p.view e.2
      heard := heard
      inbox := inbox } := by
  obtain ⟨st, x⟩ := e
  cases x with
  | input s t c =>
      refine hr.congr ?_ rfl rfl
      show (p.view.onInput s t c).own = p.view.own
      unfold View.onInput
      split <;> rfl
  | report s t ck =>
      refine hr.congr ?_ rfl rfl
      show (p.view.onCrc t ck).own = p.view.own
      unfold View.onCrc
      split <;> rfl
  | request t =>
      refine hr.congr ?_ rfl rfl
      show p.view.onReq.own = p.view.own
      unfold View.onReq
      split <;> rfl
  | opening r => exact hr.blank (View.unrecorded_clear rfl) rfl (.inl rfl)
  | piece q => exact hr.congr rfl rfl rfl
  | closing =>
      by_cases hhold : p.view.hold = 0
      · have hkeep : p.view.adopts .closing = false := decide_eq_false (not_not.mpr hhold)
        refine hr.congr ?_ rfl (hear_stamp hkeep _)
        show p.view.onEnd.own = p.view.own
        unfold View.onEnd
        rw [if_pos hhold]
      · refine hr.blank (View.unrecorded_clear ?_) rfl (.inr ?_)
        · show p.view.onEnd.own = _
          unfold View.onEnd
          rw [if_neg hhold]
          rfl
        · have hadopt : p.view.adopts .closing = true := decide_eq_true hhold
          show (p.hist.hear p.view .closing).stamp.epoch = _
          unfold Record.hear
          rw [hadopt]
          rfl

/-- What a tick leaves of the ticks that were run. -/
theorem ranTick (hr : Records n p) (htick : p.view.tick = (firstTick n p.epoch + p.age) % 65536)
    (ck : Nat) (sim : Nat → Nat) (due : Bool) : ∀ r ∈ (p.hist.ranTick p.view ck sim due).ran,
      r.tick = (firstTick n r.stamp.epoch + r.stamp.age) % 65536 ∧ r.stamp.epoch ≤ p.epoch ∧
        (r.stamp.epoch = p.epoch → r.stamp.age < p.age + 1) := by
  intro r hmem
  rcases List.mem_append.mp hmem with hmem | hmem
  · obtain ⟨ht, hle, hlt⟩ := hr.ran r hmem
    exact ⟨ht, hle, fun heq => Nat.lt_succ_of_lt (hlt heq)⟩
  · rw [List.mem_singleton.mp hmem]
    exact ⟨htick, Nat.le_refl _, fun _ => Nat.lt_succ_self _⟩

/-- A tick is run, and no push is made. -/
theorem ranOn (hr : Records n p) (htick : p.view.tick = (firstTick n p.epoch + p.age) % 65536)
    {ck : Nat} {sim : Nat → Nat} (hown : p'.view.own = (p.view.report ck).own)
    (hran : p'.hist.ran = (p.hist.ranTick p.view ck sim false).ran)
    (hstamp : p'.hist.stamp = ⟨p.epoch, p.age + 1⟩) : Records n p' := by
  have hepoch : p'.epoch = p.epoch := (congrArg Stamp.epoch hstamp :)
  have hage : p'.age = p.age + 1 := (congrArg Stamp.age hstamp :)
  -- a record that is not written now is of the last lap
  have hold : ∀ t, (p.view.tick % 64 = 0 → t % 256 / 64 ≠ p.view.tick % 256 / 64) → t % 64 = 0 →
      p.view.own (t % 256 / 64 * 4) = t % 256 → p.view.own (t % 256 / 64 * 4 + 1) = t / 256 →
      ∃ r ∈ p'.hist.ran, r.stamp.epoch = p.epoch ∧ p.age + 1 ≤ r.stamp.age + 256 ∧ r.tick = t ∧
        p.view.own (t % 256 / 64 * 4 + 2) = r.cksum % 256 ∧
        p.view.own (t % 256 / 64 * 4 + 3) = r.cksum / 256 := by
    intro t hother ht hlo hhi
    obtain ⟨r, hmem, heq, hrecent, hrt, hck⟩ := hr.kept t ht hlo hhi
    obtain ⟨hrtick, -⟩ := hr.ran r hmem
    rw [heq, hrt] at hrtick
    refine ⟨r, ?_, heq, ?_, hrt, hck⟩
    · rw [hran]
      exact List.mem_append_left _ hmem
    · by_contra hlap
      have hage : p.age = r.stamp.age + 256 := by omega
      rw [hage] at htick
      have hb : p.view.tick % 64 = 0 := by omega
      have hslot := hother hb
      omega
  refine ⟨?_, fun t ht hlo hhi => ?_⟩
  · rw [hran, hepoch, hage]
    exact hr.ranTick htick ck sim false
  · rw [hown] at hlo hhi ⊢
    rw [hepoch, hage]
    unfold View.report at hlo hhi ⊢
    by_cases hb : p.view.tick % 64 = 0
    · rw [if_pos hb] at hlo hhi ⊢
      simp only [View.record] at hlo hhi ⊢
      by_cases hslot : t % 256 / 64 = p.view.tick % 256 / 64
      · -- the record is of the tick that was run
        rw [hslot] at hlo hhi ⊢
        rw [if_pos rfl] at hlo
        rw [if_neg (by omega), if_pos rfl] at hhi
        rw [if_neg (by omega), if_neg (by omega), if_pos rfl, if_neg (by omega), if_neg (by omega),
          if_neg (by omega), if_pos rfl]
        refine ⟨⟨p.hist.stamp, p.view.tick, p.view.cells 0, p.view.cells 1, sim, ck⟩, ?_, rfl,
          Nat.add_le_add_left (by decide) _, ?_, rfl, rfl⟩
        · rw [hran]
          exact List.mem_append_right _ (List.mem_singleton.mpr rfl)
        · show p.view.tick = t
          omega
      · rw [if_neg (by omega), if_neg (by omega), if_neg (by omega), if_neg (by omega)] at hlo hhi
        rw [if_neg (by omega), if_neg (by omega), if_neg (by omega), if_neg (by omega),
          if_neg (by omega), if_neg (by omega), if_neg (by omega), if_neg (by omega)]
        exact hold t (fun _ => hslot) ht hlo hhi
    · rw [if_neg hb] at hlo hhi ⊢
      exact hold t (fun hb' => absurd hb' hb) ht hlo hhi

/-- A tick is run and the push made. -/
theorem ranPush (hr : Records n p) (htick : p.view.tick = (firstTick n p.epoch + p.age) % 65536)
    {ck : Nat} {sim : Nat → Nat} (hown : p'.view.Unrecorded)
    (hran : p'.hist.ran = (p.hist.ranTick p.view ck sim true).ran)
    (hepoch : p'.epoch = p.epoch + 1) : Records n p' := by
  refine ⟨fun r hmem => ?_, fun t ht hlo => absurd hlo (hown t ht)⟩
  rw [hran] at hmem
  obtain ⟨ht, hle, -⟩ := hr.ranTick htick ck sim true r hmem
  exact ⟨ht, by omega, fun heq => by omega⟩

/-- A clash is with a tick run under the present baseline. -/
theorem clash (hr : Records n p) {t ck : Nat} (ht : t % 64 = 0)
    (hclash : p.view.clashes t ck = true) :
    ∃ r ∈ p.hist.ran, r.stamp.epoch = p.epoch ∧ r.stamp.age < p.age ∧
      p.age ≤ r.stamp.age + 256 ∧ r.tick = t ∧
      (firstTick n p.epoch + r.stamp.age) % 65536 = t ∧
      ¬ (r.cksum % 256 = ck % 256 ∧ r.cksum / 256 = ck / 256) := by
  simp only [View.clashes, decide_eq_true_eq] at hclash
  obtain ⟨-, -, hlo, hhi, hne⟩ := hclash
  obtain ⟨r, hmem, hepoch, hrecent, htick, hcklo, hckhi⟩ := hr.kept t ht hlo hhi
  obtain ⟨hrt, -, hlt⟩ := hr.ran r hmem
  rw [hcklo, hckhi] at hne
  exact ⟨r, hmem, hepoch, hlt hepoch, hrecent, htick, by rw [← hepoch, ← hrt, htick], hne⟩

end Records

/-- A report of the guest that clashes is for the tick it names, not for one a lap away. -/
theorem Upstream.clash (hu : Upstream n d front h g) (hr : Records n h) (hd : d ≤ 126)
    {st : Stamp} {ck : Nat} {rest : List (Stamp × Msg)} {t : Nat}
    (hin : h.inbox = (st, .report 1 t ck) :: rest) (hgap : h.epoch ≤ st.epoch + 10)
    (hclash : h.view.clashes t ck = true) :
    ∃ r ∈ h.hist.ran, r.stamp.epoch = h.epoch ∧ r.stamp.age < h.age ∧ r.tick = t ∧
      firstTick n h.epoch + r.stamp.age = firstTick n st.epoch + st.age ∧
      ¬ (r.cksum % 256 = ck % 256 ∧ r.cksum / 256 = ck / 256) := by
  obtain ⟨htold, -, hreach, -⟩ := hu.head hin
  dsimp only at hreach
  obtain ⟨hbase, hfront, hnear⟩ := hreach.near hgap hd
  have hpace := hu.pace
  have hcap := h.captures_le
  cases htold with
  | report _ _ hb =>
      obtain ⟨r, hmem, hepoch, hlt, hrecent, htick, hmod, hne⟩ := hr.clash (by omega) hclash
      refine ⟨r, hmem, hepoch, hlt, htick, ?_, hne⟩
      rcases hnear with ⟨hlate, -⟩ | ⟨heq, hage⟩
      · omega
      · have hsame : firstTick n st.epoch = firstTick n h.epoch := by rw [heq]
        omega

/-- A report that clashes is at most seven baselines old. -/
theorem Upstream.clash_lag (hu : Upstream n d front h g) (hr : Records n h) (hd : d ≤ 126)
    {st : Stamp} {ck : Nat} {rest : List (Stamp × Msg)} {t : Nat}
    (hin : h.inbox = (st, .report 1 t ck) :: rest) (hgap : h.epoch ≤ st.epoch + 10)
    (hclash : h.view.clashes t ck = true) : h.epoch ≤ st.epoch + 7 := by
  obtain ⟨r, -, -, -, -, heq, -⟩ := hu.clash hr hd hin hgap hclash
  obtain ⟨-, -, hreach, -⟩ := hu.head hin
  dsimp only at hreach
  have hage := hreach.age
  rcases Nat.lt_or_ge st.epoch h.epoch with hlt | hge
  · rw [if_pos hlt] at hage
    have hnext : firstTick n st.epoch + n st.epoch + 16 ≤ firstTick n (st.epoch + 1) := Nat.le_refl _
    obtain ⟨j, hj⟩ := Nat.exists_eq_add_of_le (Nat.succ_le_of_lt hlt)
    have hadd := firstTick_add n (st.epoch + 1) j
    have hsum : st.epoch.succ + j = st.epoch + 1 + j := rfl
    rw [hj, hsum] at heq
    omega
  · omega

/-! ## Requests to come -/

/-- The baseline under which a message was sent that is a request. -/
def asks : Stamp × Msg → Option Nat
  | (st, .request _) => some st.epoch
  | _ => none

/-- The requests under way to the host. -/
def asked (h : Party) : List Nat := h.inbox.filterMap asks

/-- The baselines of the guest with a request to come. -/
def owed (h g : Party) : List Nat := asked h ++ if g.view.pend = 0 then [g.epoch] else []

/-- A host that has a request will push. -/
def waiting (h : Party) : Nat := if h.view.pend = 0 then 0 else 1

/-- How far the host is, and will be, past the messages under way. -/
structure Budget (h g : Party) : Prop where
  once : (owed h g).Pairwise (· < ·)
  spent : ∀ st ∈ stamps h g,
    h.epoch + waiting h + (if st.epoch ∈ owed h g then 1 else 0) ≤ st.epoch + 9

theorem waiting_le (h : Party) : waiting h ≤ 1 := by
  unfold waiting
  split <;> omega

theorem mem_asked {i : Nat} (hi : i ∈ asked h) : ∃ e ∈ h.inbox, e.1.epoch = i := by
  obtain ⟨⟨st, x⟩, he, hask⟩ := List.mem_filterMap.mp hi
  refine ⟨_, he, ?_⟩
  cases x with
  | request t => exact Option.some.inj hask
  | _ => exact absurd hask (by simp [asks])

namespace Budget

theorem gap (hb : Budget h g) {st : Stamp} (hst : st ∈ stamps h g) : h.epoch ≤ st.epoch + 9 := by
  have hspent := hb.spent st hst
  omega

theorem congr (hb : Budget h g) (hhe : h'.epoch = h.epoch) (hhp : h'.view.pend = h.view.pend)
    (hhi : h'.inbox = h.inbox) (hgs : g'.hist.stamp = g.hist.stamp)
    (hgp : g'.view.pend = g.view.pend) : Budget h' g' := by
  have howed : owed h' g' = owed h g := by
    have hge : g'.epoch = g.epoch := congrArg Stamp.epoch hgs
    unfold owed asked
    rw [hhi, hgp, hge]
  have hstamps : stamps h' g' = stamps h g := by rw [stamps, hhi, hgs]; rfl
  have hwait : waiting h' = waiting h := by rw [waiting, hhp]; rfl
  refine ⟨?_, ?_⟩
  · rw [howed]
    exact hb.once
  · rw [hstamps, howed, hhe, hwait]
    exact hb.spent

/-- The host handles the message at the head: a request, or one that clashes in time, may make
it wait for a push. -/
theorem hostTook (hb : Budget h g) (hsorted : (stamps h g).Pairwise Stamp.Le) {e : Stamp × Msg}
    {rest : List (Stamp × Msg)} (hin : h.inbox = e :: rest) (hepoch : h'.epoch = h.epoch)
    (hrest : h'.inbox = rest)
    (hwait : waiting h' = waiting h ∨ asks e = some e.1.epoch ∨ h.epoch ≤ e.1.epoch + 7) :
    Budget h' g := by
  have hpend := waiting_le h'
  have howed : owed h g = (asks e).toList ++ owed h' g := by
    unfold owed asked
    rw [hin, hrest, List.filterMap_cons]
    cases asks e <;> rfl
  have honce := hb.once
  rw [howed] at honce
  obtain ⟨-, honce', hlater⟩ := List.pairwise_append.mp honce
  refine ⟨honce', fun st hst => ?_⟩
  have hst' : st ∈ stamps h g := by
    unfold stamps at hst ⊢
    rw [hrest] at hst
    rw [hin, List.map_cons, List.cons_append]
    exact List.mem_cons_of_mem _ hst
  have hhead : e.1 ∈ stamps h g := by
    unfold stamps
    rw [hin]
    exact List.mem_cons_self
  have hle : e.1.epoch ≤ st.epoch := by
    unfold stamps at hsorted hst
    rw [hrest] at hst
    rw [hin, List.map_cons, List.cons_append] at hsorted
    have hcmp := (List.pairwise_cons.mp hsorted).1 st hst
    unfold Stamp.Le at hcmp
    omega
  have hspent := hb.spent st hst'
  have hspent₀ := hb.spent e.1 hhead
  rw [hepoch]
  have hmore : st.epoch ∈ owed h' g → st.epoch ∈ owed h g := fun hmem => by
    rw [howed]
    exact List.mem_append_right _ hmem
  rcases hwait with hsame | hask | hlag
  · rw [hsame]
    split at hspent
    · split <;> omega
    · next hno =>
        rw [if_neg fun hmem => hno (hmore hmem)]
        omega
  · have hmem₀ : e.1.epoch ∈ owed h g := by
      rw [howed, hask]
      exact List.mem_cons_self
    rw [if_pos hmem₀] at hspent₀
    split
    · next hmem =>
        have hlt := hlater e.1.epoch (by rw [hask]; exact List.mem_cons_self) st.epoch hmem
        omega
    · omega
  · split <;> omega

/-- The host pushes. -/
theorem hostPushes (hb : Budget h g) (hpend : h.view.pend ≠ 0) (hepoch : h'.epoch = h.epoch + 1)
    (hcalm : h'.view.pend = 0) (hinbox : h'.inbox = h.inbox)
    (hgs : g'.hist.stamp = g.hist.stamp) (hgp : g'.view.pend = g.view.pend) : Budget h' g' := by
  have howed : owed h' g' = owed h g := by
    have hge : g'.epoch = g.epoch := congrArg Stamp.epoch hgs
    unfold owed asked
    rw [hinbox, hgp, hge]
  have hstamps : stamps h' g' = stamps h g := by rw [stamps, hinbox, hgs]; rfl
  refine ⟨by rw [howed]; exact hb.once, ?_⟩
  rw [hstamps, howed, hepoch]
  intro st hst
  have hspent := hb.spent st hst
  unfold waiting at hspent ⊢
  rw [if_neg hpend] at hspent
  rw [if_pos hcalm]
  exact hspent

/-- The guest sends `xs` under the same baseline. -/
theorem guestSends (hb : Budget h g) {xs : List Msg}
    (howed : owed (h.gets g.hist.stamp xs) g' = owed h g) (hepoch : g'.epoch = g.epoch) :
    Budget (h.gets g.hist.stamp xs) g' := by
  refine ⟨by rw [howed]; exact hb.once, fun st hst => ?_⟩
  rw [howed]
  have hguest := hb.spent _ (guest_mem_stamps h g)
  rcases mem_stamps.mp hst with ⟨e, he, rfl⟩ | rfl
  · rcases List.mem_append.mp (show e ∈ h.inbox ++ _ from he) with he | he
    · exact hb.spent _ (mem_stamps.mpr (.inl ⟨e, he, rfl⟩))
    · obtain ⟨x, -, rfl⟩ := List.mem_map.mp he
      exact hguest
  · have hsame : g'.hist.stamp.epoch = g.hist.stamp.epoch := hepoch
    rw [hsame]
    exact hguest

/-- The guest goes on to the next baseline. -/
theorem guestAdopts (hb : Budget h g) (hsorted : (stamps h g).Pairwise Stamp.Le)
    (hepoch : g'.epoch = g.epoch + 1) (hcalm : g'.view.pend = 0) : Budget h g' := by
  have hpast : ∀ e ∈ h.inbox, e.1.epoch ≤ g.epoch := by
    intro e he
    unfold stamps at hsorted
    have hcmp := (List.pairwise_append.mp hsorted).2.2 e.1 (List.mem_map_of_mem he) _
      (List.mem_singleton.mpr rfl)
    have hge : g.hist.stamp.epoch = g.epoch := rfl
    unfold Stamp.Le at hcmp
    omega
  have howed : owed h g' = asked h ++ [g.epoch + 1] := by
    unfold owed
    rw [if_pos hcalm, hepoch]
  have hsub : (asked h).Sublist (owed h g) := List.sublist_append_left _ _
  refine ⟨?_, fun st hst => ?_⟩
  · rw [howed]
    refine List.pairwise_append.mpr ⟨hb.once.sublist hsub, List.pairwise_singleton _ _, ?_⟩
    intro i hi j hj
    obtain ⟨e, he, rfl⟩ := mem_asked hi
    have hle := hpast e he
    rw [List.mem_singleton.mp hj]
    omega
  · have hguest := hb.spent _ (guest_mem_stamps h g)
    have hge : g.hist.stamp.epoch = g.epoch := rfl
    rcases mem_stamps.mp hst with ⟨e, he, rfl⟩ | rfl
    · have hspent := hb.spent _ (mem_stamps.mpr (.inl ⟨e, he, rfl⟩))
      have hle := hpast e he
      split
      · next hmem =>
          rw [howed] at hmem
          rcases List.mem_append.mp hmem with hmem | hmem
          · rw [if_pos (hsub.subset hmem)] at hspent
            exact hspent
          · have heq := List.mem_singleton.mp hmem
            omega
      · omega
    · have hsame : g'.hist.stamp.epoch = g.epoch + 1 := hepoch
      rw [hsame]
      split <;> omega

end Budget

end SharkNetplay.Console
