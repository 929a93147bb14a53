import SharkNetplay.Console.Duo
import SharkNetplay.Console.Twins

/-!
# What a step does to the simulation

A step of a console in its match leaves the simulation alone, handles a message, or runs a
tick. The resync image and the live table pointer are the whole simulation.
-/

namespace SharkNetplay.Console

open Lib Cell Machine

variable {cart : Cart} {p : Party} {k k' : Proc} {m m' : Machine} {wire bytes : List Nat} {v : Move}

/-! ## The image and the simulation -/

theorem image_of_sim (h : m'.sim = m.sim) : image m' = image m :=
  image_congr fun _ ha => Alike.of_sim h _ (.inl ha)

theorem table_of_sim (h : m'.sim = m.sim) : m'.rd execHtbl = m.rd execHtbl :=
  Alike.of_sim h _ (.inl (by decide))

/-- A word is its two bytes. -/
theorem word_eq {w w' : Nat} (hw : w < 65536) (hw' : w' < 65536) (hlo : w' % 256 = w % 256)
    (hhi : w' / 256 % 256 = w / 256 % 256) : w' = w := by
  omega

/-- The image and the live table pointer are the whole simulation. -/
theorem sim_of_image (himg : image m' = image m) (htable : m'.rd execHtbl = m.rd execHtbl) :
    m'.sim = m.sim := by
  have hbyte : ∀ q < imgTotal, imgByte q (m'.rd (imgCell q)) = imgByte q (m.rd (imgCell q)) := by
    intro q hq
    rw [← image_getD hq m', ← image_getD hq m, himg]
  have hwhole : ∀ q < imgTotal, q < imgS1 ∨ imgS3 ≤ q → m'.rd (imgCell q) = m.rd (imgCell q) := by
    intro q hq hsection
    have hat := hbyte q hq
    rwa [imgByte_whole hsection, imgByte_whole hsection] at hat
  have hlt : ∀ (j : Machine) (a : Nat), j.rd a < 65536 := by
    intro j a
    have hcell := j.rd_lt a
    unfold cellWidth at hcell
    split at hcell
    · omega
    · omega
  -- the two bytes of a word, at neighbouring positions
  have hhalves : ∀ q, imgS1 ≤ q → q + 1 < imgS3 → halfBase (q + 1) = halfBase q →
      (q - halfBase q) % 2 = 0 → halfBase q ≤ q → imgCell (q + 1) = imgCell q →
      m'.rd (imgCell q) = m.rd (imgCell q) := by
    intro q hlo hhi hbase heven hle hcell
    have htotal : imgS3 < imgTotal := by decide
    have hodd : ¬ (q + 1 - halfBase q) % 2 = 0 := by omega
    have h₀ := hbyte q (by omega)
    have h₁ := hbyte (q + 1) (by omega)
    rw [imgByte_half hlo (by omega), imgByte_half hlo (by omega), if_pos heven, if_pos heven] at h₀
    rw [imgByte_half (by omega) hhi, imgByte_half (by omega) hhi, hbase, if_neg hodd, if_neg hodd,
      hcell] at h₁
    exact word_eq (hlt _ _) (hlt _ _) h₀ h₁
  refine sim_congr fun a ha => ?_
  by_cases hne : a = execHtbl
  · rw [hne, htable]
  obtain ⟨q, hq, rfl⟩ := exists_imgCell ha hne
  by_cases hsection : q < imgS1 ∨ imgS3 ≤ q
  · exact hwhole q hq hsection
  -- the even position of the word
  have heven : ∀ b, halfBase q = b → b ≤ q → imgS1 ≤ b → q < imgS3 →
      (∀ i, i = b + (q - b) / 2 * 2 ∨ i = b + (q - b) / 2 * 2 + 1 →
        halfBase i = b ∧ imgCell i = imgCell q ∧ i < imgS3) → m'.rd (imgCell q) = m.rd (imgCell q) := by
    intro b hbase hle hlo hhi hboth
    obtain ⟨hb₀, hc₀, hl₀⟩ := hboth _ (.inl rfl)
    obtain ⟨hb₁, hc₁, hl₁⟩ := hboth _ (.inr rfl)
    rw [← hc₀]
    apply hhalves
    · omega
    · exact hl₁
    · rw [hb₁, hb₀]
    · rw [hb₀]
      omega
    · rw [hb₀]
      omega
    · rw [hc₁, hc₀]
  by_cases hback : q < imgS2
  · refine heven imgS1 (if_pos hback) (by omega) (Nat.le_refl _) (by omega) fun i hi => ?_
    simp only [imgS1, imgS2, imgS3] at *
    refine ⟨if_pos (by simp only [imgS2]; omega), ?_, by omega⟩
    rw [imgCell_backtab (by simp only [imgS1]; omega) (by simp only [imgS2]; omega),
      imgCell_backtab (by simp only [imgS1]; omega) (by simp only [imgS2]; omega)]
    simp only [imgS1]
    omega
  · refine heven imgS2 (if_neg hback) (by omega) (by decide) (by omega) fun i hi => ?_
    simp only [imgS1, imgS2, imgS3] at *
    refine ⟨if_neg (by simp only [imgS2]; omega), ?_, by omega⟩
    rw [imgCell_objects (by simp only [imgS2]; omega) (by simp only [imgS3]; omega),
      imgCell_objects (by simp only [imgS2]; omega) (by simp only [imgS3]; omega)]
    simp only [imgS2]
    omega

/-! ## What leaves the simulation alone -/

/-- An INPUT or a checksum. -/
def Msg.Plain : Msg → Prop
  | .input _ _ _ => True
  | .report _ _ _ => True
  | _ => False

theorem sim_pumpRecv (a : Arrival) (m : Machine) : (pumpRecv a m).sim = m.sim := by
  refine sim_congr fun b hb => (pumpRecv_writes a m).frame fun w hw => ?_
  have hrange := simCell_range hb
  simp only [RecvCell, Mail, rxWr] at hw
  omega

/-- Simulation, ticks and stamp are what they were. -/
structure Undisturbed (m m' : Machine) : Prop where
  sim : m'.sim = m.sim
  ran : m'.hist.ran = m.hist.ran
  stamp : m'.hist.stamp = m.hist.stamp

theorem Undisturbed.of_quiet (h : Writes Quiet m m') (hhist : m'.hist = m.hist) : Undisturbed m m' :=
  ⟨h.sim_eq, by rw [hhist], by rw [hhist]⟩

/-- No message is handled either. -/
structure Rests (m m' : Machine) : Prop extends Undisturbed m m' where
  handled : m'.hist.handled = m.hist.handled

theorem Rests.of_quiet (h : Writes Quiet m m') (hhist : m'.hist = m.hist) : Rests m m' :=
  ⟨.of_quiet h hhist, by rw [hhist]⟩

/-- The message `y` is handled. -/
structure Heeds (y : Msg) (m m' : Machine) : Prop where
  view : m'.view = m.view.onMsg y
  image : image m' = m.view.onImage (image m) y
  table : m'.rd execHtbl = m.rd execHtbl
  ran : m'.hist.ran = m.hist.ran
  handled : m'.hist.handled = m.hist.handled ++ [⟨m.hist.stamp, y.frame, m.view.takes y⟩]
  stamp : m'.hist.stamp = if m.view.adopts y then ⟨m.hist.stamp.epoch + 1, 0⟩ else m.hist.stamp

/-- A message that is neither data nor an END leaves the simulation alone. -/
theorem Heeds.undisturbed {y : Msg} (h : Heeds y m m') (hpiece : ∀ q, y ≠ .piece q)
    (hclosing : y ≠ .closing) : Undisturbed m m' := by
  have hkeep : m.view.onImage (Console.image m) y = Console.image m ∧ m.view.adopts y = false := by
    cases y with
    | piece q => exact absurd rfl (hpiece q)
    | closing => exact absurd rfl hclosing
    | _ => exact ⟨rfl, rfl⟩
  refine ⟨sim_of_image (h.image.trans hkeep.1) h.table, h.ran, ?_⟩
  rw [h.stamp, hkeep.2, if_neg Bool.false_ne_true]

/-- A console rests, handles the first message on its way, or runs a tick. -/
inductive Acts (cart : Cart) (p : Party) (k k' : Proc) : Prop
  | rests (h : Rests k.m k'.m)
  | heeds {y : Stamp × Msg} {rest : List (Stamp × Msg)} (hin : p.inbox = y :: rest)
      (h : Heeds y.2 k.m k'.m)
  | runs (hgate : k.pc = .gate) (hopen : gateOpen k.m = true) (h : k'.m = lsRun cart k.m)

/-- The first message is parsed and handled. -/
theorem Shown.heeds {y : Stamp × Msg} {es : List (Stamp × Msg)} {rest : List Nat} (h : Shown p k wire)
    (hcount : p.view.count ≤ 4) (hin : p.inbox = y :: es)
    (hcut : Framing.cut headOk (buffered k.m) = .frame y.2.frame rest) :
    Heeds y.2 k.m (sesOnframe (ppLoad k.m)) := by
  obtain ⟨-, hload, hview, himg⟩ := parse_msg hcut
  have hcount' : (ppLoad k.m).rd netCount ≤ 4 := by
    have hcell : (ppLoad k.m).rd netCount = (ppLoad k.m).view.count := rfl
    rw [hcell, hview, ← h.view]
    exact hcount
  have hmem : y ∈ p.inbox := by
    rw [hin]
    exact List.mem_cons_self
  obtain ⟨htook, l, -, -, hhist⟩ := took_msg hload.inBuf hcount' (h.sound y hmem)
  have hviewed := htook.view
  have himaged := htook.image
  rw [hview] at hviewed himaged hhist
  rw [himg] at himaged
  rw [hload.hist] at hhist
  exact ⟨hviewed, himaged, htook.table.trans (hload.frame _ (by decide) (by decide)), by rw [hhist],
    by rw [hhist], by rw [hhist]⟩

/-- One step of a console that keeps its match. -/
theorem Shown.acts (h : Shown p k (bytes ++ wire)) (hseat : p.view.seat ≤ 3)
    (hcount : p.view.count ≤ 4) (hread : Reads v k (k.step cart v) bytes)
    (hsteady : p.view.dropped = 0) : Acts cart p k (k.step cart v) := by
  have hdropped : k.m.view.dropped = 0 := by
    rw [← h.view]
    exact hsteady
  have hnone : ¬ (¬ k.pc.Pumps ∧ (k.step cart v).pc.Pumps) → Shown p k wire := by
    intro hno
    rw [Reads, if_neg hno] at hread
    rw [hread] at h
    exact h
  have hchange := step_change cart v k
  generalize k.step cart v = k' at *
  cases hchange with
  | still hpc hm =>
      refine .rests ?_
      rw [hm]
      exact ⟨⟨rfl, rfl, rfl⟩, rfl⟩
  | parked hpc hpc' hdrop hm => exact absurd hdropped hdrop
  | recv j hpc hj hm =>
      have hkeep : Rests k.m j := by
        rcases hj with rfl | rfl
        · exact ⟨⟨rfl, rfl, rfl⟩, rfl⟩
        · exact .of_quiet (lsFreeze_quiet _) (hist_lsFreeze _)
      refine .rests ?_
      rw [hm]
      refine ⟨⟨(sim_pumpRecv _ _).trans hkeep.sim, ?_, ?_⟩, ?_⟩
      · rw [hist_pumpRecv]
        exact hkeep.ran
      · rw [hist_pumpRecv]
        exact hkeep.stamp
      · rw [hist_pumpRecv]
        exact hkeep.handled
  | slip hpump hpc hcut hm =>
      have hs := hnone fun hno => hno.1 hpump
      rcases hs.cut with ⟨hwait, -⟩ | ⟨e, es, rest, -, hframe, -⟩
      · rw [hwait] at hcut
        exact absurd hcut (by simp)
      · rw [hframe] at hcut
        exact absurd hcut (by simp)
  | frame f rest hpump hpc hcut hm =>
      have hs := hnone fun hno => hno.1 hpump
      rcases hs.cut with ⟨hwait, -⟩ | ⟨e, es, rest', hin, hframe, -⟩
      · rw [hwait] at hcut
        exact absurd hcut (by simp)
      · refine .heeds hin ?_
        rw [hm]
        exact hs.heeds hcount hin hframe
  | held hpc hpc' hcut hm =>
      refine .rests (.of_quiet ?_ ?_)
      · rw [hm]
        exact .wr .refl (quiet_of_cell (by decide) (by decide))
      · rw [hm, hist_wr]
  | waited hpc hcut hm => exact .rests (.of_quiet hm.cells hm.hist)
  | captured hpc hpc' hcut hm =>
      have hseat' : k.m.rd netSeat ≤ 3 := by
        have hcell : k.m.rd netSeat = k.m.view.seat := rfl
        rw [hcell, ← h.view]
        exact hseat
      obtain ⟨hcells, -, l, -, -, hhist⟩ := lsCapture_captured v.input hseat'
      refine .rests ?_
      rw [hm]
      exact ⟨⟨hcells.sim_eq, by rw [hhist], by rw [hhist]⟩, by rw [hhist]⟩
  | ran hpc hpc' hopen hm => exact .runs hpc (hopen.resolve_left (not_not.mpr hdropped)) hm

/-- While only INPUTs and checksums are under way, a console runs a tick or leaves the
simulation alone. -/
theorem Shown.keeps (h : Shown p k (bytes ++ wire)) (hseat : p.view.seat ≤ 3)
    (hcount : p.view.count ≤ 4) (hread : Reads v k (k.step cart v) bytes)
    (hsteady : p.view.dropped = 0) (hplain : ∀ e ∈ p.inbox, e.2.Plain) :
    Undisturbed k.m (k.step cart v).m ∨ k.pc = .gate ∧ (k.step cart v).m = lsRun cart k.m := by
  cases h.acts hseat hcount hread hsteady with
  | rests hrest => exact .inl hrest.toUndisturbed
  | runs hgate hopen hran => exact .inr ⟨hgate, hran⟩
  | heeds hin hheeds =>
      rename_i y rest
      have hy : y.2.Plain := hplain y (by rw [hin]; exact List.mem_cons_self)
      refine .inl (hheeds.undisturbed (fun q hq => ?_) fun hclosing => ?_)
      · rw [hq] at hy
        exact hy
      · rw [hclosing] at hy
        exact hy

end SharkNetplay.Console
