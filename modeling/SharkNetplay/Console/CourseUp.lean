import SharkNetplay.Console.CourseDown

/-!
# The guest's messages on their way

Each turn of the pair keeps `Upstream`. A message the host handles was sent under the
baseline of its stamp, however far the host has gone since; whether its watermark takes
an INPUT is decided on unbounded ticks, because the two are near.
-/

namespace SharkNetplay.Console

open Lib

variable {n n' : Nat → Nat} {d front got : Nat} {h h' g g' : Party}

/-! ## Whether an INPUT is taken -/

/-- The 16-bit difference tells which of two near ticks is ahead. -/
theorem delta_iff {t f : Nat} (hup : t ≤ f + 30000) (hlo : f ≤ t + 30000) :
    (t % 65536 + 65536 - (f + 65535) % 65536) % 65536 ≠ 0 ∧
      (t % 65536 + 65536 - (f + 65535) % 65536) % 65536 < 32768 ↔ f ≤ t := by
  omega

/-- The host takes an INPUT of the guest when it is not before the tick it waits for. -/
theorem Upstream.fresh_iff (hu : Upstream n d front h g) (hseat : h.view.seat = 0)
    (hcount : h.view.count = 2) {t : Nat} (hup : t ≤ front + 30000) (hlo : front ≤ t + 30000) :
    h.view.fresh 1 (t % 65536) = true ↔ front ≤ t := by
  rw [← delta_iff hup hlo]
  unfold View.fresh View.delta
  rw [hu.mark, hseat, hcount, decide_eq_true_eq]
  simp

/-- The first tick waited for after an INPUT for tick `t`. -/
theorem Upstream.input_eq (hu : Upstream n d front h g) (hseat : h.view.seat = 0)
    (hcount : h.view.count = 2) {t : Nat} (hup : t ≤ front + 30000) (hlo : front ≤ t + 30000)
    (c : Nat × Nat) : (h.view.onInput 1 (t % 65536) c).wm 1 = (max front (t + 1) + 65535) % 65536 := by
  have hiff := hu.fresh_iff hseat hcount hup hlo
  unfold View.onInput
  by_cases hle : front ≤ t
  · rw [if_pos (hiff.mpr hle), Nat.max_eq_right (by omega)]
    show (if 1 = 1 then t % 65536 else h.view.wm 1) = (t + 1 + 65535) % 65536
    rw [if_pos rfl]
    omega
  · rw [if_neg (fun hf => hle (hiff.mp hf)), Nat.max_eq_left (by omega)]
    exact hu.mark

namespace Upstream

/-! ## Turns of the host -/

/-- What a message from `st` leaves of a later stamp when `front` moves on. -/
theorem reach_front {e k : Nat} {st st' : Stamp} (hr : Reach n d e k front st)
    (hr' : Reach n d e k front st') (hle : st.Le st') :
    Reach n d e k (max front (firstTick n st.epoch + st.age + d + 1)) st' := by
  refine ⟨hr'.epoch, hr'.age, hr'.spans, ?_⟩
  have hage := hr.age
  have hfront := hr'.front
  unfold Stamp.Le at hle
  rcases Nat.lt_or_ge st.epoch e with hlt | hge
  · have hnext := firstTick_next (n := n) hlt
    rw [if_pos hlt] at hage
    omega
  · have heq : st.epoch = e := Nat.le_antisymm hr.epoch hge
    have hepoch := hr'.epoch
    rw [heq] at hle ⊢
    omega

/-- The message at the head of the stream. -/
theorem head (hu : Upstream n d front h g) {e : Stamp × Msg} {rest : List (Stamp × Msg)}
    (hin : h.inbox = e :: rest) : Tells n d e ∧ (∀ x ∈ rest, Tells n d x) ∧
      Reach n d h.epoch h.captures front e.1 ∧
      ∀ st ∈ rest.map Prod.fst ++ [g.hist.stamp], e.1.Le st ∧
        Reach n d h.epoch h.captures front st := by
  have htold := hu.told
  have hsorted := hu.sorted
  have hreach := hu.reach
  unfold stamps at hsorted hreach
  rw [hin] at htold hsorted hreach
  rw [List.map_cons, List.cons_append] at hsorted hreach
  obtain ⟨hfirst, -⟩ := List.pairwise_cons.mp hsorted
  exact ⟨htold e List.mem_cons_self, fun x hx => htold x (List.mem_cons_of_mem _ hx),
    hreach _ List.mem_cons_self, fun st hst => ⟨hfirst st hst, hreach st (List.mem_cons_of_mem _ hst)⟩⟩

/-- A message is handled that moves no watermark. -/
theorem hostSkips (hu : Upstream n d front h g) {e : Stamp × Msg} {rest : List (Stamp × Msg)}
    (hin : h.inbox = e :: rest) (hno : ∀ t c, e.2 ≠ .input 1 t c)
    (hmark : h'.view.wm 1 = h.view.wm 1) (hstamp : h'.hist.stamp = h.hist.stamp)
    (hcap : h'.captures = h.captures) (hrest : h'.inbox = rest) : Upstream n d front h' g := by
  obtain ⟨-, htold, -, hlater⟩ := hu.head hin
  have hepoch : h'.epoch = h.epoch := congrArg Stamp.epoch hstamp
  have hage : h'.age = h.age := congrArg Stamp.age hstamp
  have hsorted := hu.sorted
  unfold stamps at hsorted
  rw [hin, List.map_cons, List.cons_append] at hsorted
  refine ⟨?_, ?_, ?_, ?_, ?_, ?_, fun heq => ?_⟩
  · rw [hmark]
    exact hu.mark
  · rw [hepoch]
    exact hu.floor
  · rw [hepoch, hage]
    exact hu.pace
  · rw [hrest]
    exact htold
  · unfold stamps
    rw [hrest]
    exact (List.pairwise_cons.mp hsorted).2
  · unfold stamps
    rw [hrest, hepoch, hcap]
    exact fun st hst => (hlater st hst).2
  · rw [hepoch] at heq ⊢
    rcases hu.late heq with hone | hfront | ⟨a, t, c, hmem, hle⟩
    · exact .inl hone
    · exact .inr (.inl hfront)
    · rw [hin] at hmem
      rcases List.mem_cons.mp hmem with rfl | hmem
      · exact absurd rfl (hno t c)
      · exact .inr (.inr ⟨a, t, c, by rw [hrest]; exact hmem, hle⟩)

/-- An INPUT is handled. -/
theorem hostInput (hu : Upstream n d front h g) (hd : d ≤ 126) (hseat : h.view.seat = 0)
    (hcount : h.view.count = 2) {st : Stamp} {c : Nat × Nat} {rest : List (Stamp × Msg)}
    (hin : h.inbox = (st, .input 1 ((firstTick n st.epoch + st.age + d) % 65536) c) :: rest)
    (hgap : h.epoch ≤ st.epoch + 10) (hmark : h'.view.wm 1 =
      (h.view.onInput 1 ((firstTick n st.epoch + st.age + d) % 65536) c).wm 1)
    (hstamp : h'.hist.stamp = h.hist.stamp) (hcap : h'.captures = h.captures)
    (hrest : h'.inbox = rest) :
    Upstream n d (max front (firstTick n st.epoch + st.age + d + 1)) h' g := by
  obtain ⟨-, htold, hfirst, hlater⟩ := hu.head hin
  dsimp only at hfirst hlater
  have hepoch : h'.epoch = h.epoch := congrArg Stamp.epoch hstamp
  have hage : h'.age = h.age := congrArg Stamp.age hstamp
  obtain ⟨-, hlo, hnear⟩ := hfirst.near hgap hd
  have hfloor := hu.floor
  have hpace := hu.pace
  have hcapt := h.captures_le
  have hup : firstTick n st.epoch + st.age + d ≤ front + 30000 := by
    rcases hnear with ⟨hle, -⟩ | ⟨heq, hle⟩
    · omega
    · rw [heq]
      omega
  have hsorted := hu.sorted
  unfold stamps at hsorted
  rw [hin, List.map_cons, List.cons_append] at hsorted
  refine ⟨?_, ?_, ?_, ?_, ?_, ?_, fun heq => ?_⟩
  · rw [hmark, hu.input_eq hseat hcount hup (by omega)]
  · rw [hepoch]
    omega
  · rw [hepoch, hage]
    omega
  · rw [hrest]
    exact htold
  · unfold stamps
    rw [hrest]
    exact (List.pairwise_cons.mp hsorted).2
  · unfold stamps
    rw [hrest, hepoch, hcap]
    exact fun st' hst' => reach_front hfirst (hlater st' hst').2 (hlater st' hst').1
  · rw [hepoch] at heq ⊢
    rcases hu.late heq with hone | hfront | ⟨a, t, c', hmem, hle⟩
    · exact .inl hone
    · exact .inr (.inl (by omega))
    · rw [hin] at hmem
      rcases List.mem_cons.mp hmem with hhead | hmem
      · have hst : st = ⟨g.epoch, a⟩ := (congrArg Prod.fst hhead).symm
        have he : st.epoch = h.epoch := by rw [hst]; exact heq
        have ha : st.age = a := by rw [hst]
        rw [he]
        exact .inr (.inl (by omega))
      · exact .inr (.inr ⟨a, t, c', by rw [hrest]; exact hmem, hle⟩)

/-- The host captures; what it waits for is as before. -/
theorem hostCaptures (hu : Upstream n d front h g) (hmark : h'.view.wm 1 = h.view.wm 1)
    (hstamp : h'.hist.stamp = h.hist.stamp) (hcap : h.captures ≤ h'.captures)
    (hinbox : h'.inbox = h.inbox) (hgs : g'.hist.stamp = g.hist.stamp)
    (hgc : g'.captures = g.captures) : Upstream n d front h' g' := by
  have hepoch : h'.epoch = h.epoch := congrArg Stamp.epoch hstamp
  have hage : h'.age = h.age := congrArg Stamp.age hstamp
  have hge : g'.epoch = g.epoch := congrArg Stamp.epoch hgs
  have hst : stamps h' g' = stamps h g := by rw [stamps, hinbox, hgs]; rfl
  exact {
    mark := by rw [hmark]; exact hu.mark
    floor := by rw [hepoch]; exact hu.floor
    pace := by rw [hepoch, hage]; exact hu.pace
    told := by rw [hinbox]; exact hu.told
    sorted := by rw [hst]; exact hu.sorted
    reach := by
      rw [hst, hepoch]
      intro st hmem
      have hr := hu.reach st hmem
      refine ⟨hr.epoch, ?_, hr.spans, hr.front⟩
      have ha := hr.age
      split at ha
      · next hlt =>
          rw [if_pos hlt]
          exact ha
      · next hlt =>
          rw [if_neg hlt]
          omega
    late := by rw [hge, hepoch, hgc, hinbox]; exact hu.late }

/-- A tick is run under the same baseline. -/
theorem hostRuns (hu : Upstream n d front h g) (hready : firstTick n h.epoch + h.age + 1 ≤ front)
    (hmark : h'.view.wm 1 = h.view.wm 1) (hepoch : h'.epoch = h.epoch) (hage : h'.age = h.age + 1)
    (hcap : h'.captures = h.captures) (hinbox : h'.inbox = h.inbox)
    (hgs : g'.hist.stamp = g.hist.stamp) (hgc : g'.captures = g.captures) :
    Upstream n d front h' g' := by
  have hge : g'.epoch = g.epoch := congrArg Stamp.epoch hgs
  have hst : stamps h' g' = stamps h g := by rw [stamps, hinbox, hgs]; rfl
  exact {
    mark := by rw [hmark]; exact hu.mark
    floor := by rw [hepoch]; exact hu.floor
    pace := by rw [hepoch, hage]; exact hready
    told := by rw [hinbox]; exact hu.told
    sorted := by rw [hst]; exact hu.sorted
    reach := by rw [hst, hepoch, hcap]; exact hu.reach
    late := by rw [hge, hepoch, hgc, hinbox]; exact hu.late }

/-- A tick is run and the push made: the baseline has as many ticks as were run. -/
theorem hostPushes (hu : Upstream n d front h g) (hn : ∀ i < h.epoch, n' i = n i)
    (hspan : n' h.epoch = h.age + 1) (hgate : h.captures = h.age + 1)
    (hready : firstTick n h.epoch + h.age + 1 ≤ front)
    (hmark : h'.view.wm 1 = (firstTick n' (h.epoch + 1) + d + 65535) % 65536)
    (hepoch : h'.epoch = h.epoch + 1) (hage : h'.age = 0) (hinbox : h'.inbox = h.inbox)
    (hgs : g'.hist.stamp = g.hist.stamp) :
    Upstream n' d (firstTick n' (h.epoch + 1) + d) h' g' := by
  have hge : g'.epoch = g.epoch := congrArg Stamp.epoch hgs
  have hst : stamps h' g' = stamps h g := by rw [stamps, hinbox, hgs]; rfl
  have hbase : firstTick n' h.epoch = firstTick n h.epoch := firstTick_congr hn
  refine ⟨hmark, Nat.le_of_eq (by rw [hepoch]), ?_, ?_, ?_, ?_, fun heq => ?_⟩
  · rw [hepoch, hage]
    omega
  · rw [hinbox]
    intro e he
    have hr := hu.reach e.1 (mem_stamps.mpr (.inl ⟨e, he, rfl⟩))
    exact (hu.told e he).congr fun i hi => hn i (Nat.lt_of_lt_of_le hi hr.epoch)
  · rw [hst]
    exact hu.sorted
  · rw [hst, hepoch]
    intro st hmem
    have hr := hu.reach st hmem
    have hle := hr.epoch
    have hlt : st.epoch < h.epoch + 1 := Nat.lt_succ_of_le hle
    refine ⟨Nat.le_of_lt hlt, ?_, fun i hi hie => ?_, .inl (by omega)⟩
    · rw [if_pos hlt]
      have ha := hr.age
      split at ha
      · next hpast =>
          rw [hn _ hpast]
          exact ha
      · next hnow =>
          rw [show st.epoch = h.epoch by omega, hspan]
          omega
    · rcases Nat.lt_or_ge i h.epoch with hpast | hnow
      · rw [hn i hpast]
        exact hr.spans i hi hpast
      · obtain rfl : i = h.epoch := by omega
        rw [hspan]
        have hfront := hr.front
        omega
  · have hr := hu.reach _ (guest_mem_stamps h g)
    have hle : g.epoch ≤ h.epoch := hr.epoch
    rw [hge, hepoch] at heq
    omega

/-! ## Turns of the guest -/

/-- The guest moves on, and sends `xs` before it does. -/
theorem guestMoves (hu : Upstream n d front h g) {xs : List Msg}
    (hxs : ∀ x ∈ xs, Tells n d (g.hist.stamp, x)) (hle : g.hist.stamp.Le g'.hist.stamp)
    (hepoch : g'.epoch ≤ h.epoch)
    (hage : g'.age ≤ d + if g'.epoch < h.epoch then n g'.epoch else h.captures)
    (hlate : g'.captures ≤ 1 ∨ g'.epoch = g.epoch ∧ (g'.captures ≤ g.captures ∨
      ∃ t c, .input 1 t c ∈ xs ∧ g'.captures ≤ g.age + 1)) :
    Upstream n d front (h.gets g.hist.stamp xs) g' := by
  have hin : (h.gets g.hist.stamp xs).inbox = h.inbox ++ xs.map fun x => (g.hist.stamp, x) := rfl
  have hlast : ∀ st ∈ h.inbox.map Prod.fst, st.Le g.hist.stamp := by
    have hsorted := hu.sorted
    unfold stamps at hsorted
    exact fun st hst => (List.pairwise_append.mp hsorted).2.2 st hst _ (List.mem_singleton.mpr rfl)
  have hsent : ∀ st ∈ (xs.map fun x => (g.hist.stamp, x)).map Prod.fst, st = g.hist.stamp := by
    intro st hst
    rw [List.map_map] at hst
    obtain ⟨x, -, rfl⟩ := List.mem_map.mp hst
    rfl
  refine ⟨hu.mark, hu.floor, hu.pace, fun e he => ?_, ?_, fun st hst => ?_, fun heq => ?_⟩
  · rw [hin] at he
    rcases List.mem_append.mp he with he | he
    · exact hu.told e he
    · obtain ⟨x, hx, rfl⟩ := List.mem_map.mp he
      exact hxs x hx
  · have hold := (List.pairwise_append.mp (show (h.inbox.map Prod.fst ++ [g.hist.stamp]).Pairwise
      Stamp.Le from hu.sorted)).1
    unfold stamps
    rw [hin, List.map_append, List.append_assoc]
    refine List.pairwise_append.mpr ⟨hold, List.pairwise_append.mpr
      ⟨?_, List.pairwise_singleton _ _, ?_⟩, ?_⟩
    · refine List.pairwise_of_forall_mem_list fun a ha b hb => ?_
      rw [hsent a ha, hsent b hb]
      exact .refl _
    · intro a ha b hb
      rw [hsent a ha, List.mem_singleton.mp hb]
      exact hle
    · intro a ha b hb
      rcases List.mem_append.mp hb with hb | hb
      · rw [hsent b hb]
        exact hlast a ha
      · rw [List.mem_singleton.mp hb]
        exact (hlast a ha).trans hle
  · have hguest := hu.reach _ (guest_mem_stamps h g)
    rcases mem_stamps.mp hst with ⟨e, he, rfl⟩ | rfl
    · rw [hin] at he
      rcases List.mem_append.mp he with he | he
      · exact hu.reach _ (mem_stamps.mpr (.inl ⟨e, he, rfl⟩))
      · obtain ⟨x, -, rfl⟩ := List.mem_map.mp he
        exact hguest
    · exact hguest.mono hle hepoch hage
  · rw [hin]
    have heq' : g'.epoch = h.epoch := heq
    rcases hlate with hone | ⟨hsame, hcap | ⟨t, c, hx, hcap⟩⟩
    · exact .inl hone
    · rcases hu.late (hsame ▸ heq') with hone | hfront | ⟨a, t, c, hmem, ha⟩
      · exact .inl (by omega)
      · exact .inr (.inl (Nat.le_trans (Nat.add_le_add_left hcap _) hfront))
      · refine .inr (.inr ⟨a, t, c, ?_, by omega⟩)
        rw [hsame]
        exact List.mem_append_left _ hmem
    · refine .inr (.inr ⟨g.age, t, c, ?_, hcap⟩)
      rw [hsame]
      exact List.mem_append_right _ (List.mem_map.mpr ⟨_, hx, rfl⟩)

end Upstream

end SharkNetplay.Console
