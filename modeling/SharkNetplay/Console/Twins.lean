import SharkNetplay.Console.Passes

/-!
# A tick on two consoles

Two consoles in one simulation state that dispatch the same cells are in one simulation
state after the tick, with one checksum.

## Implementation notes

A tick reads scratch cells besides the simulation. Each is written before it is read, so the
cells two consoles are to agree on grow and shrink along the tick.
-/

namespace SharkNetplay.Console

open Lib Cell Machine

variable {cart : Cart} {m m' : Machine} {S T : List Nat} {a : Nat}

/-- The same simulation cells, and the same cells `S`. -/
def Alike (S : List Nat) (m m' : Machine) : Prop :=
  ∀ a, simCell a = true ∨ a ∈ S → m'.rd a = m.rd a

namespace Alike

theorem of_sim (h : m'.sim = m.sim) : Alike [] m m' := by
  intro a ha
  have hcell := ha.resolve_right List.not_mem_nil
  have hat := congrFun h a
  unfold Machine.sim at hat
  rwa [if_pos hcell, if_pos hcell] at hat

theorem sim (h : Alike S m m') : m'.sim = m.sim := sim_congr fun a ha => h a (.inl ha)

theorem mono (h : Alike S m m') (hT : ∀ a ∈ T, a ∈ S) : Alike T m m' :=
  fun a ha => h a (ha.imp_right (hT a))

/-- One value is written on both. -/
theorem wr (h : Alike S m m') (v : Nat) : Alike (a :: S) (m.wr a v) (m'.wr a v) := by
  intro b hb
  rw [rd_wr, rd_wr]
  split
  · rfl
  · next hne =>
      refine h b (hb.imp_right fun hmem => ?_)
      exact (List.mem_cons.mp hmem).resolve_left hne

/-- A scratch cell that is not read again. -/
theorem scratch (h : Alike S m m') (v : Nat) : Alike S (m.wr a v) (m'.wr a v) :=
  (h.wr v).mono fun _ => List.mem_cons_of_mem _

theorem pair (h : Alike S m m') {lo hi : Nat} (hlo : simCell lo = true) (hhi : simCell hi = true) :
    m'.pair lo hi = m.pair lo hi := by
  unfold Machine.pair
  rw [h lo (.inl hlo), h hi (.inl hhi)]

/-- The cart's code sees the simulation alone. -/
theorem runCart (h : Alike S m m') (f : (Nat → Nat) → Nat → Nat) :
    Alike S (m.runCart f) (m'.runCart f) := by
  intro b hb
  have hcell : ∀ k : Machine, (k.runCart f).rd b =
      if simCell b = true then f k.sim b % cellWidth b else k.rd b := by
    intro k
    show (if simCell b = true then f k.sim b else k.store.cells b) % cellWidth b = _
    split <;> rfl
  rw [hcell, hcell, h.sim]
  split
  · rfl
  · exact h b hb

theorem lsTblAdopt (h : Alike S m m') : Alike S (lsTblAdopt m) (lsTblAdopt m') := by
  unfold Console.lsTblAdopt
  rw [h execHtbl (.inl (by decide))]
  dsimp only
  split
  · exact h
  · exact (h.scratch _).scratch _

theorem lsVcall (h : Alike [vdTmp, vdCtrl] m m') (r0 : Nat) :
    Alike [vdTmp, vdCtrl] (lsVcall cart r0 m) (lsVcall cart r0 m') := by
  unfold Console.lsVcall
  rw [h execHtbl (.inl (by decide)), h vdTmp (.inr (by simp)), h vdCtrl (.inr (by simp))]
  dsimp only
  split
  · exact h
  · split
    · exact h
    · exact h.runCart _

/-- `LS_VCALL` with `VD_TMP` set for it. -/
theorem called (h : Alike [vdCtrl] m m') (r0 v : Nat) :
    Alike [vdCtrl] (Console.lsVcall cart r0 (m.wr vdTmp v)) (Console.lsVcall cart r0 (m'.wr vdTmp v)) :=
  ((h.wr v).lsVcall r0).mono fun _ => List.mem_cons_of_mem _

/-- One decision on both. -/
theorem ite {p : Prop} [Decidable p] {k k' : Machine} (h : Alike S m m') (hk : Alike S k k') :
    Alike S (if p then m else k) (if p then m' else k') := by
  split
  · exact h
  · exact hk

/-- One seat is dispatched the same cells. -/
theorem lsVdispatch (h : Alike [vdCtrl] m m') (hread : vdRead m' = vdRead m) :
    Alike [vdCtrl] (lsVdispatch cart m) (lsVdispatch cart m') := by
  unfold Console.lsVdispatch
  rw [hread]
  extract_lets c m₁ m₂ m₃ m₁' m₂' m₃'
  have h₁ : Alike [vdCtrl] m₁ m₁' := (((h.scratch _).scratch _).scratch _).scratch _
  have h₂ : Alike [vdCtrl] m₂ m₂' := h₁.ite (h₁.called _ _)
  have h₃ : Alike [vdCtrl] m₃ m₃' := h₂.ite (h₂.called _ _)
  exact h₃.ite ((h₃.called _ _).ite ((h₃.called _ _).ite h₃))

theorem ssInject (h : Alike [netCount] m m') : Alike [] (ssInject cart m) (ssInject cart m') := by
  unfold Console.ssInject
  extract_lets m₁ r0 m₂ m₁' r0' m₂'
  have h₁ : Alike [vdCtrl, netCount] m₁ m₁' := h.wr 0
  have hr0 : r0' = r0 := congrArg (· + 1) (h₁ ssInj (.inl (by decide)))
  have h₂ : Alike [vdCtrl, netCount] m₂ m₂' := by
    show Alike _ (m₁.wr ssInj r0) (m₁'.wr ssInj r0')
    rw [hr0]
    exact h₁.scratch r0
  have h₃ : Alike [vdCtrl] m₂ m₂' := h₂.mono (by simp)
  have hcount : m₂'.rd netCount = m₂.rd netCount := h₂ netCount (.inr (by simp))
  have hall : Alike [vdCtrl] (if r0 = 2 then Console.lsVcall cart (m₂.rd netCount) (m₂.wr vdTmp 2)
      else if r0 = 6 then Console.lsVcall cart 0x0B (m₂.wr vdTmp 2) else m₂)
      (if r0 = 2 then Console.lsVcall cart (m₂.rd netCount) (m₂'.wr vdTmp 2)
      else if r0 = 6 then Console.lsVcall cart 0x0B (m₂'.wr vdTmp 2) else m₂') :=
    (h₃.called _ _).ite ((h₃.called _ _).ite h₃)
  rw [hr0, hcount]
  exact hall.mono fun b hb => absurd hb List.not_mem_nil

theorem gameEntry (h : Alike S m m') {entry arm cnt int : Nat} (harm : simCell arm = true)
    (hcnt : simCell cnt = true) :
    Alike S (gameEntry cart entry arm cnt int m) (gameEntry cart entry arm cnt int m') := by
  unfold Console.gameEntry
  rw [h arm (.inl harm), h cnt (.inl hcnt)]
  exact h.ite ((((h.runCart _).scratch _)).ite (h.scratch _))

theorem ssGameTick (h : Alike S m m') : Alike S (ssGameTick cart m) (ssGameTick cart m') := by
  unfold Console.ssGameTick
  extract_lets m₁ m₂ m₃ m₄ m₅ quiet m₁' m₂' m₃' m₄' m₅' quiet'
  have h₁ : Alike S m₁ m₁' := h.gameEntry (by decide) (by decide)
  have h₂ : Alike S m₂ m₂' := h₁.gameEntry (by decide) (by decide)
  have h₃ : Alike S m₃ m₃' := h₂.gameEntry (by decide) (by decide)
  have h₄ : Alike S m₄ m₄' := h₃.gameEntry (by decide) (by decide)
  have h₅ : Alike S m₅ m₅' := h₄.gameEntry (by decide) (by decide)
  have hquiet : quiet' = quiet := by
    simp only [quiet, quiet']
    rw [h₅ 0x31D (.inl (by decide)), h₅ 0x325 (.inl (by decide)), h₅ 0x323 (.inl (by decide)),
      h₅ 0x32B (.inl (by decide))]
  simp only [hquiet]
  exact h₅.scratch _

end Alike

/-! ## One tick -/

/-- `VD_CTRL` is not read for the cells of a seat. -/
theorem vdRead_ctrl (v : Nat) (m : Machine) : vdRead (m.wr vdCtrl v) = vdRead m := by
  have hkeep : ∀ b, b ≠ vdCtrl → (m.wr vdCtrl v).rd b = m.rd b := fun b hb =>
    (rd_wr _ _ _ _).trans (if_neg hb)
  have hside : (m.wr vdCtrl v).rd vdSide = m.rd vdSide := hkeep _ (by decide)
  have hslot : (m.wr vdCtrl v).rd tickLo = m.rd tickLo := hkeep _ (by decide)
  have hring : ∀ i, (m.wr vdCtrl v).rd (m.rd vdSide * 256 + seatRing + i) =
      m.rd (m.rd vdSide * 256 + seatRing + i) := fun i =>
    hkeep _ (by simp only [seatRing, vdCtrl]; omega)
  have hkp : ∀ i, (m.wr vdCtrl v).rd (m.rd vdSide * 256 + seatRing + (seatKp - seatRing) + i) =
      m.rd (m.rd vdSide * 256 + seatRing + (seatKp - seatRing) + i) := fun i =>
    hkeep _ (by simp only [seatRing, seatKp, vdCtrl]; omega)
  unfold vdRead
  rw [hside, hslot]
  dsimp only
  rw [hring, hring, hkp, hkp]

/-- What the cells of a seat are when it is dispatched. -/
theorem vdRead_seat {s : Nat} (hs : s < 4) (v : Nat) (m : Machine) :
    vdRead ((m.wr vdSide s).wr vdCtrl v) = m.view.cells s := by
  rw [vdRead_ctrl, vdRead_eq hs]

/-- A tick of two consoles in one simulation state that dispatch the same. -/
theorem lsTick_alike (hsim : m'.sim = m.sim) (hcount : m'.rd netCount = m.rd netCount)
    (hcells : ∀ s < 2, m'.view.cells s = m.view.cells s) :
    (lsTick cart m').sim = (lsTick cart m).sim := by
  have h : Alike [netCount] m m' := by
    intro b hb
    rcases hb with hb | hb
    · exact Alike.of_sim hsim b (.inl hb)
    · rw [List.mem_singleton.mp hb]
      exact hcount
  have hseat : ∀ {k k' : Machine} {s : Nat} (v : Nat), s < 2 → Ticks m k → Ticks m' k' →
      vdRead ((k'.wr vdSide s).wr vdCtrl v) = vdRead ((k.wr vdSide s).wr vdCtrl v) := by
    intro k k' s v hs hk hk'
    rw [vdRead_seat (by omega), vdRead_seat (by omega), hk.view_eq, hk'.view_eq]
    exact hcells s hs
  have hside : ∀ {j k : Machine} (v w : Nat), Ticks j k → Ticks j ((k.wr vdSide v).wr vdCtrl w) :=
    fun v w hk => (hk.wr (Or.inr (Or.inl (by decide)))).wr (Or.inr (Or.inr (Or.inl rfl)))
  unfold lsTick
  extract_lets m₁' r1' m₂' m₃' m₄' m₅' m₁ r1 m₂ m₃ m₄ m₅
  have h₁ : Alike [netCount] m₁ m₁' := h.lsTblAdopt
  have hr1 : r1' = r1 := h₁.pair (by decide) (by decide)
  have h₂ : Alike [netCount] m₂ m₂' := by
    show Alike _ _ (if r1' = 0 then m₁' else m₁'.wr execHtbl r1')
    rw [hr1]
    exact h₁.ite (h₁.scratch r1)
  have hadopt : ∀ {j k : Machine} (r : Nat), Ticks j k →
      Ticks j (if r = 0 then lsTblAdopt k else (lsTblAdopt k).wr execHtbl r) := by
    intro j k r hk
    split
    · exact lsTblAdopt_ticks hk
    · exact (lsTblAdopt_ticks hk).wr (Or.inl (by decide))
  have hticks : Ticks m m₂ := hadopt r1 .refl
  have hticks' : Ticks m' m₂' := hadopt r1' .refl
  -- seat 0, then seat 1 on what seat 0 left
  have hstart : ∀ {k k' : Machine} (v w : Nat), Alike [] k k' →
      Alike [vdCtrl] ((k.wr vdSide v).wr vdCtrl w) ((k'.wr vdSide v).wr vdCtrl w) :=
    fun v w hk => (hk.scratch v).wr w
  have hnone : ∀ {k k' : Machine}, Alike [vdCtrl] k k' → Alike [] k k' := fun hk =>
    hk.mono fun b hb => absurd hb List.not_mem_nil
  have h₂' : Alike [] m₂ m₂' := h₂.mono fun b hb => absurd hb List.not_mem_nil
  have h₃ : Alike [] m₃ m₃' :=
    hnone ((hstart 0 0 h₂').lsVdispatch (hseat 0 (by decide) hticks hticks'))
  have hticks₃ : Ticks m m₃ := lsVdispatch_ticks (hside 0 0 hticks)
  have hticks₃' : Ticks m' m₃' := lsVdispatch_ticks (hside 0 0 hticks')
  have hboth : Alike [] (lsVdispatch cart ((m₃.wr vdSide 1).wr vdCtrl 1))
      (lsVdispatch cart ((m₃'.wr vdSide 1).wr vdCtrl 1)) :=
    hnone ((hstart 1 1 h₃).lsVdispatch (hseat 1 (by decide) hticks₃ hticks₃'))
  have h₄ : Alike [] m₄ m₄' := by
    simp only [m₄, m₄']
    rw [h₂ gameTblLo (.inl (by decide)), h₂ gameTblHi (.inl (by decide))]
    exact h₂.ssInject.ite hboth
  exact ((h₄.ssGameTick.lsTblAdopt).scratch _).sim

/-- What `@@ls_run` runs before its report, from one simulation state. -/
theorem lsTicked_alike (hsim : m'.sim = m.sim) (hcount : m'.rd netCount = m.rd netCount)
    (hcells : ∀ s < 2, m'.view.cells s = m.view.cells s) :
    (lsTicked cart m').sim = (lsTicked cart m).sim := by
  have hkeep : ∀ k : Machine, (lsUnfreeze k).sim = k.sim := fun k => (lsUnfreeze_quiet k).sim_eq
  have hseats : ∀ k : Machine, (lsUnfreeze k).rd netCount = k.rd netCount := fun k =>
    congrArg View.count (view_lsUnfreeze k)
  unfold lsTicked
  apply lsTick_alike
  · rw [hkeep, hkeep, hsim]
  · rw [hseats, hseats, hcount]
  · intro s hs
    rw [view_lsUnfreeze, view_lsUnfreeze]
    exact hcells s hs

/-- The checksum is one of the simulation alone. -/
theorem lsCksum_alike (hsim : m'.sim = m.sim) : lsCksum m' = lsCksum m :=
  lsCksum_congr fun b hb => Alike.of_sim hsim b (.inl hb)

end SharkNetplay.Console
