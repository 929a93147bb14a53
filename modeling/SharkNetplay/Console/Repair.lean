import SharkNetplay.Console.Unbroken

/-!
# What a resync repairs

A push that the guest adopts leaves both consoles in one simulation state. From there on they
are in step: every tick both run under the new baseline leaves one state and one checksum, up to
the next push.

## Implementation notes

The image of a push is told from its chunks, so the state under which a baseline starts is a
function of the messages to the guest. Of the simulation it leaves out the live table pointer
alone, which is the null table after any tick.
-/

namespace SharkNetplay.Console

open Lib Cell Machine

variable {cart : Cart} {c : Start} {x : Side} {p p' h g : Party} {k k' l : Proc} {m m' : Machine}
  {s t : Pair} {duo duo' : Duo} {wire bytes : List Nat} {v : Move} {xs : List Msg} {r r' : Ran}
  {n : Nat → Nat} {d got : Nat} {base base' : Nat → List Nat} {heard : List (Stamp × Msg)} {e : Nat}
  {st : Stamp} {img : List Nat}

/-! ## The live table pointer -/

theorem table_rsPush (m : Machine) : (rsPush m).rd execHtbl = m.rd execHtbl := by
  have hsent : (rsSend m).rd execHtbl = m.rd execHtbl :=
    (rsSend_writes m).frame (not_sendCell_of_sim (by decide))
  have hbase : (rsRebase (rsSend m)).rd execHtbl = (rsSend m).rd execHtbl := by
    refine (rsRebase_cells _).frame fun w hw => ?_
    rcases hw with hw | hw
    · simp only [ClampCell, execHtbl, rsPend, rsPtmo, scIsrSave, isrLo, isrHi, ssPcount] at hw
      omega
    · exact not_baseCell_of_sim (by decide) w hw
  rw [rsPush_eq, rd_note, hbase, hsent]

theorem table_rsPending (m : Machine) : (rsPending m).rd execHtbl = m.rd execHtbl := by
  by_cases hidle : m.view.pend = 0 ∨ m.view.seat ≠ 0 ∨ m.view.hold ≠ 0
  · rw [rsPending_idle hidle]
  · obtain ⟨m₁, hpass, -, -, -, heq⟩ := rsPending_asked hidle
    have hkeep : m₁.rd execHtbl = m.rd execHtbl := hpass.sim_cell (by decide)
    rw [heq]
    split
    · rw [table_rsPush, hkeep]
    · exact hkeep

/-- After a tick the null table is live. -/
theorem table_lsRun (cart : Cart) (m : Machine) : (lsRun cart m).rd execHtbl = netNullTbl4 := by
  rw [lsRun_eq, table_rsPending, lsSettle_sim _ _ (by decide)]
  unfold lsTicked lsTick
  extract_lets m₁ r1 m₂ m₃ m₄ m₅
  rw [rd_wr, if_pos rfl]
  rfl

/-! ## Where the ticks of a baseline start -/

/-- The chunks of an image make it of any other. -/
theorem patchAll_chunks (himg : img.length = imgTotal) {b : List Nat} (hb : b.length = imgTotal) :
    patchAll (chunkPieces img imgTotal 0) b = img := by
  refine patchAll_eq (hb.trans himg.symm) ?_ (fun q hq => (chunkPieces_fit himg q hq).2) ?_
  · rw [himg]
    exact fun q hq => (chunkPieces_fit himg q hq).1
  · rw [himg]
    exact chunkPieces_cover himg

/-- A tick that was run from the image `img` under the null table. -/
def Starts (cart : Cart) (img : List Nat) (r : Ran) : Prop := ∃ m : Machine, image m = img ∧
  m.rd execHtbl = netNullTbl4 ∧ m.rd netCount = 2 ∧ m.view.cells 0 = r.seat0 ∧
  m.view.cells 1 = r.seat1 ∧ (lsTicked cart m).sim = r.sim

/-- The same inputs on the same image leave the same state. -/
theorem Starts.sim_eq (h : Starts cart img r) (h' : Starts cart img r') (hseat0 : r.seat0 = r'.seat0)
    (hseat1 : r.seat1 = r'.seat1) : r.sim = r'.sim := by
  obtain ⟨m, hm, htable, hcount, h0, h1, hleft⟩ := h
  obtain ⟨m', hm', htable', hcount', h0', h1', hleft'⟩ := h'
  rw [← hleft, ← hleft']
  apply lsTicked_alike
  · exact sim_of_image (by rw [hm, hm']) (by rw [htable, htable'])
  · rw [hcount, hcount']
  · intro u hu
    match u, hu with
    | 0, _ => rw [h0, h0', hseat0]
    | 1, _ => rw [h1, h1', hseat1]

/-- The ticks of a console against the images its baselines start from. -/
structure Traces (cart : Cart) (base : Nat → List Nat) (m : Machine) : Prop where
  summed : ∀ r ∈ m.hist.ran, Summed r
  starts : ∀ r ∈ m.hist.ran, r.stamp.age = 0 → r.stamp.epoch ≠ 0 →
    Starts cart (base r.stamp.epoch) r
  follows : ∀ r ∈ m.hist.ran, r.stamp.age ≠ 0 →
    ∃ r₀ ∈ m.hist.ran, r₀.stamp = ⟨r.stamp.epoch, r.stamp.age - 1⟩ ∧ Follows cart r₀ r
  table : m.hist.ran ≠ [] → m.rd execHtbl = netNullTbl4

/-- And where the console is now: at the start of a baseline, after a tick of it, or with some
chunks applied. -/
structure Rooted (cart : Cart) (base : Nat → List Nat) (heard : List (Stamp × Msg)) (m : Machine) :
    Prop extends Traces cart base m where
  fresh : chunks heard m.hist.stamp.epoch = [] → m.hist.stamp.age = 0 → m.hist.stamp.epoch ≠ 0 →
    image m = base m.hist.stamp.epoch
  last : chunks heard m.hist.stamp.epoch = [] → m.hist.stamp.age ≠ 0 → ∃ r₀ ∈ m.hist.ran,
    r₀.stamp = ⟨m.hist.stamp.epoch, m.hist.stamp.age - 1⟩ ∧ m.sim = r₀.sim
  held : ∃ b : List Nat, b.length = imgTotal ∧ image m = patchAll (chunks heard m.hist.stamp.epoch) b

theorem Traces.keep (ht : Traces cart base m) (hran : m'.hist.ran = m.hist.ran)
    (htable : m'.rd execHtbl = m.rd execHtbl) : Traces cart base m' := by
  refine ⟨?_, ?_, ?_, ?_⟩
  · rw [hran]
    exact ht.summed
  · rw [hran]
    exact ht.starts
  · rw [hran]
    exact ht.follows
  · rw [hran, htable]
    exact ht.table

namespace Rooted

/-- No chunk of the present baseline is heard. -/
theorem quiet_held (hnone : chunks heard m.hist.stamp.epoch = []) :
    ∃ b : List Nat, b.length = imgTotal ∧ image m = patchAll (chunks heard m.hist.stamp.epoch) b := by
  refine ⟨image m, image_length m, ?_⟩
  rw [hnone, patchAll_nil]

/-- A member that has just entered. -/
theorem enter (hhist : m.hist = {}) (hnone : chunks heard 0 = []) : Rooted cart base heard m := by
  have hran : m.hist.ran = [] := by rw [hhist]
  have hno : ∀ r ∈ m.hist.ran, False := fun r hr => List.not_mem_nil (hran ▸ hr)
  have hzero : m.hist.stamp = ⟨0, 0⟩ := by rw [hhist]
  refine ⟨⟨fun r hr => (hno r hr).elim, fun r hr => (hno r hr).elim,
    fun r hr => (hno r hr).elim, fun hne => absurd hran hne⟩, fun _ _ hne => ?_, fun _ hne => ?_,
    quiet_held ?_⟩
  · rw [hzero] at hne
    exact absurd rfl hne
  · rw [hzero] at hne
    exact absurd rfl hne
  · rw [hzero]
    exact hnone

/-- The baselines up to the present one are what counts. -/
theorem rebase (hr : Rooted cart base heard m)
    (hran : ∀ r ∈ m.hist.ran, r.stamp.epoch ≤ m.hist.stamp.epoch)
    (hbase : ∀ e ≤ m.hist.stamp.epoch, base' e = base e) : Rooted cart base' heard m := by
  refine ⟨⟨hr.summed, fun r hmem => ?_, hr.follows, hr.table⟩, ?_, hr.last, hr.held⟩
  · rw [hbase _ (hran r hmem)]
    exact hr.starts r hmem
  · rw [hbase _ (Nat.le_refl _)]
    exact hr.fresh

/-- Simulation, ticks and stamp are what they were. -/
theorem still (hr : Rooted cart base heard m) (hk : Undisturbed m m') {heard' : List (Stamp × Msg)}
    (hheard : chunks heard' m.hist.stamp.epoch = chunks heard m.hist.stamp.epoch) :
    Rooted cart base heard' m' := by
  refine ⟨hr.toTraces.keep hk.ran (table_of_sim hk.sim), ?_, ?_, ?_⟩
  · rw [hk.stamp, hheard, image_of_sim hk.sim]
    exact hr.fresh
  · rw [hk.stamp, hheard, hk.ran, hk.sim]
    exact hr.last
  · rw [hk.stamp, hheard, image_of_sim hk.sim]
    exact hr.held

/-! ### The messages of a push -/

/-- A message that is neither data nor an END is handled. -/
theorem plain {y : Stamp × Msg} (hr : Rooted cart base heard m) (hh : Heeds y.2 m m')
    (hnone : y.2.chunk = none) (hclosing : y.2 ≠ .closing) : Rooted cart base (heard ++ [y]) m' := by
  refine hr.still (hh.undisturbed (fun q hq => ?_) hclosing) (chunks_snoc _ hnone)
  rw [hq] at hnone
  exact absurd hnone (Option.some_ne_none q)

theorem piece {q : Piece Nat} (hr : Rooted cart base heard m) (hh : Heeds (.piece q) m m')
    (hhold : m.view.hold ≠ 0) (hsome : q.values ≠ []) (hfits : q.Fits imgTotal)
    {heard' : List (Stamp × Msg)}
    (hheard : chunks heard' m.hist.stamp.epoch = chunks heard m.hist.stamp.epoch ++ [q]) :
    Rooted cart base heard' m' := by
  have hstamp : m'.hist.stamp = m.hist.stamp := hh.stamp
  have htakes : m.view.takesPiece q = true := decide_eq_true ⟨hhold, hsome, hfits⟩
  have himg : image m' = patch q.pos q.values (image m) := hh.image.trans (if_pos htakes)
  have hnever : chunks heard' m'.hist.stamp.epoch ≠ [] := by
    rw [hstamp, hheard]
    exact List.append_ne_nil_of_right_ne_nil _ (List.cons_ne_nil _ _)
  refine ⟨hr.toTraces.keep hh.ran hh.table, fun hnone => absurd hnone hnever,
    fun hnone => absurd hnone hnever, ?_⟩
  obtain ⟨b, hlen, hpatched⟩ := hr.held
  refine ⟨b, hlen, ?_⟩
  rw [hstamp, himg, hpatched, hheard, patchAll_append]
  rfl

/-- END, with all the chunks of the push heard. -/
theorem closing (hr : Rooted cart base heard m) (hh : Heeds .closing m m') (hhold : m.view.hold ≠ 0)
    {heard' : List (Stamp × Msg)} (himg : img.length = imgTotal)
    (hall : chunks heard m.hist.stamp.epoch = chunkPieces img imgTotal 0)
    (hnone : chunks heard' (m.hist.stamp.epoch + 1) = [])
    (hbase : base (m.hist.stamp.epoch + 1) = cleanImage img) : Rooted cart base heard' m' := by
  have hadopt : m.view.adopts .closing = true := decide_eq_true hhold
  have hstamp : m'.hist.stamp = ⟨m.hist.stamp.epoch + 1, 0⟩ := by
    rw [hh.stamp, hadopt]
    rfl
  refine ⟨hr.toTraces.keep hh.ran hh.table, fun _ _ _ => ?_, fun _ hage => ?_, quiet_held ?_⟩
  · obtain ⟨b, hlen, hpatched⟩ := hr.held
    have hwhole : image m = img := by
      rw [hpatched, hall]
      exact patchAll_chunks himg hlen
    have hclean : image m' = cleanImage (image m) := hh.image.trans (if_neg hhold)
    rw [hstamp, hclean, hwhole, hbase]
  · rw [hstamp] at hage
    exact absurd rfl hage
  · rw [hstamp]
    exact hnone

/-! ### Ticks -/

/-- The ticks of a console that runs one more. -/
theorem runTraces (hr : Rooted cart base heard m) (hcount : m.rd netCount = 2)
    (hquiet : chunks heard m.hist.stamp.epoch = [])
    (hstirred : m.hist.stamp.epoch ≠ 0 → m.hist.ran ≠ []) :
    Traces cart base (lsRun cart m) ∧ ∃ r, (lsRun cart m).hist.ran = m.hist.ran ++ [r] ∧
      r.stamp = m.hist.stamp ∧ r.sim = (lsTicked cart m).sim := by
  obtain ⟨quiet, hrun⟩ := lsRun_spec cart m
  obtain ⟨frames, -, -, hhist, -⟩ := hrun.hist
  have hran : (lsRun cart m).hist.ran = m.hist.ran ++ [⟨m.hist.stamp, m.view.tick, m.view.cells 0,
      m.view.cells 1, (lsTicked cart m).sim, nextCksum cart m⟩] := by rw [hhist]
  refine ⟨⟨fun r hin => ?_, fun r hin hage hne => ?_, fun r hin hage => ?_,
    fun _ => table_lsRun cart m⟩, _, hran, rfl, rfl⟩
  · rw [hran] at hin
    rcases List.mem_append.mp hin with hin | hin
    · exact hr.summed r hin
    · rw [List.mem_singleton.mp hin]
      exact ⟨lsTicked cart m, rfl, rfl⟩
  · rw [hran] at hin
    rcases List.mem_append.mp hin with hin | hin
    · exact hr.starts r hin hage hne
    · obtain rfl := List.mem_singleton.mp hin
      exact ⟨m, hr.fresh hquiet hage hne, hr.table (hstirred hne), hcount, rfl, rfl, rfl⟩
  · rw [hran] at hin ⊢
    rcases List.mem_append.mp hin with hin | hin
    · obtain ⟨r₀, hr₀, hbefore, hfollows⟩ := hr.follows r hin hage
      exact ⟨r₀, List.mem_append_left _ hr₀, hbefore, hfollows⟩
    · obtain rfl := List.mem_singleton.mp hin
      obtain ⟨r₀, hr₀, hbefore, hleft⟩ := hr.last hquiet hage
      exact ⟨r₀, List.mem_append_left _ hr₀, hbefore, m, hleft, hcount, rfl, rfl, rfl⟩

/-- A tick that is not followed by a push. -/
theorem ran (hr : Rooted cart base heard m) (hcount : m.rd netCount = 2)
    (hquiet : chunks heard m.hist.stamp.epoch = [])
    (hstirred : m.hist.stamp.epoch ≠ 0 → m.hist.ran ≠ []) {quiet : Bool}
    (hrun : RunOf cart quiet m (lsRun cart m)) (hdue : dueAfter cart quiet m = false) :
    Rooted cart base heard (lsRun cart m) := by
  obtain ⟨htraces, r, hran, hstamp, hsim⟩ := hr.runTraces hcount hquiet hstirred
  obtain ⟨frames, -, -, hhist, -⟩ := hrun.hist
  rw [hdue, if_neg Bool.false_ne_true, if_neg Bool.false_ne_true] at hhist
  have hnext : (lsRun cart m).hist.stamp = ⟨m.hist.stamp.epoch, m.hist.stamp.age + 1⟩ := by rw [hhist]
  have hleft : (lsRun cart m).sim = (lsTicked cart m).sim := sim_congr (hrun.sim hdue)
  have hnew : r ∈ (lsRun cart m).hist.ran := by
    rw [hran]
    exact List.mem_append_right _ (List.mem_singleton.mpr rfl)
  refine ⟨htraces, fun _ hage => ?_, fun _ _ => ⟨r, hnew, ?_, ?_⟩, quiet_held ?_⟩
  · rw [hnext] at hage
    exact absurd hage (Nat.succ_ne_zero _)
  · rw [hnext, hstamp]
    rfl
  · rw [hleft, hsim]
  · rw [hnext]
    exact hquiet

/-- A tick that is followed by a push. -/
theorem pushed (hr : Rooted cart base heard m) (hcount : m.rd netCount = 2)
    (hquiet : chunks heard m.hist.stamp.epoch = [])
    (hnone : chunks heard (m.hist.stamp.epoch + 1) = [])
    (hstirred : m.hist.stamp.epoch ≠ 0 → m.hist.ran ≠ []) {quiet : Bool}
    (hrun : RunOf cart quiet m (lsRun cart m)) (hdue : dueAfter cart quiet m = true)
    (hbase : base (m.hist.stamp.epoch + 1) = cleanImage (image (lsTicked cart m))) :
    Rooted cart base heard (lsRun cart m) := by
  obtain ⟨htraces, -⟩ := hr.runTraces hcount hquiet hstirred
  obtain ⟨frames, -, -, hhist, -⟩ := hrun.hist
  rw [hdue, if_pos rfl, if_pos rfl] at hhist
  have hnext : (lsRun cart m).hist.stamp = ⟨m.hist.stamp.epoch + 1, 0⟩ := by rw [hhist]
  refine ⟨htraces, fun _ _ _ => ?_, fun _ hage => ?_, quiet_held ?_⟩
  · rw [hrun.image hdue, hnext, hbase]
  · rw [hnext] at hage
    exact absurd rfl hage
  · rw [hnext]
    exact hnone

end Rooted

/-! ## The image of a push -/

/-- The image baseline `e` starts from, told from the messages to the guest. -/
def baseImage (l : List (Stamp × Msg)) : Nat → List Nat
  | 0 => []
  | e + 1 => cleanImage (patchAll (chunks l e) zeroImage)

theorem baseImage_push {l : List (Stamp × Msg)} (himg : img.length = imgTotal)
    (hall : chunks l e = chunkPieces img imgTotal 0) : baseImage l (e + 1) = cleanImage img := by
  have hwhole : patchAll (chunks l e) zeroImage = img := by
    rw [hall]
    exact patchAll_chunks himg zeroImage_length
  exact congrArg cleanImage hwhole

/-- What is sent later does not change where a baseline started. -/
theorem baseImage_append (l : List (Stamp × Msg)) {l' : List (Stamp × Msg)}
    (hlate : ∀ y ∈ l', e ≤ y.1.epoch) : ∀ i ≤ e, baseImage (l ++ l') i = baseImage l i := by
  intro i hi
  cases i with
  | zero => rfl
  | succ i =>
      have hnone : chunks l' i = [] := chunks_other fun y hy => by
        have hle := hlate y hy
        omega
      show cleanImage (patchAll (chunks (l ++ l') i) zeroImage) = _
      rw [chunks_append, hnone, List.append_nil]
      rfl

/-- The chunk in a frame of a push. -/
def chunkOf (f : List Nat) : Option (Piece Nat) :=
  if f.getD 3 0 = 0xFF then none else some ⟨f.getD 3 0 * 256 + f.getD 2 0, f.drop 4⟩

theorem chunkOf_piece {q : Piece Nat} (hpos : q.pos < 0xFF00) : chunkOf (Msg.piece q).frame = some q := by
  have hhi : q.pos / 256 ≠ 0xFF := by omega
  have hword : q.pos / 256 * 256 + q.pos % 256 = q.pos := by omega
  show (if q.pos / 256 = 0xFF then none else some (⟨q.pos / 256 * 256 + q.pos % 256, q.values⟩ :
    Piece Nat)) = some q
  rw [if_neg hhi, hword]

/-- The frames of a push tell its image. -/
theorem pushFrames_inj {resume resume' : Nat} {img' : List Nat} (himg : img.length = imgTotal)
    (himg' : img'.length = imgTotal) (h : pushFrames resume img = pushFrames resume' img') :
    img = img' := by
  have hread : ∀ (a : Nat) (i : List Nat), i.length = imgTotal →
      (pushFrames a i).filterMap chunkOf = chunkPieces i imgTotal 0 := by
    intro a i hi
    have hpieces : ∀ qs : List (Piece Nat), (∀ q ∈ qs, q.pos < 0xFF00) →
        ((qs.map Msg.piece).map Msg.frame).filterMap chunkOf = qs := by
      intro qs
      induction qs with
      | nil => exact fun _ => rfl
      | cons q qs ih =>
          intro hqs
          have hone := chunkOf_piece (hqs q List.mem_cons_self)
          rw [List.map_cons, List.map_cons, List.filterMap_cons_some hone,
            ih fun q hq => hqs q (List.mem_cons_of_mem _ hq)]
    have hfit : ∀ q ∈ chunkPieces i imgTotal 0, q.pos < 0xFF00 := by
      intro q hq
      have hfits := (chunkPieces_fit hi q hq).1
      simp only [Piece.Fits, imgTotal] at hfits
      omega
    rw [pushFrames_eq hi]
    unfold pushMsgs
    rw [List.map_cons, List.map_append, List.filterMap_cons_none rfl, List.filterMap_append,
      hpieces _ hfit]
    exact List.append_nil _
  have hchunks : chunkPieces img imgTotal 0 = chunkPieces img' imgTotal 0 := by
    rw [← hread resume img himg, ← hread resume' img' himg', h]
  rw [← patchAll_chunks himg zeroImage_length, hchunks, patchAll_chunks himg' zeroImage_length]

/-- The messages of the turn in which a console runs a tick and pushes. -/
theorem pushed_image (hs : Shown p k wire) {wire' : List Nat} (hs' : Shown p' k' wire')
    (hturn : Turn p p' xs) {quiet : Bool} (hrun : RunOf cart quiet k.m k'.m)
    (hdue : dueAfter cart quiet k.m = true)
    (hsent : sentFrames k'.m = sentFrames k.m ++ xs.map fun y => (p.hist.stamp.epoch, y.frame)) :
    ∃ (ys : List Msg) (resume : Nat), (∀ y ∈ ys, y.chunk = none) ∧
      xs = ys ++ pushMsgs resume (image (lsTicked cart k.m)) := by
  obtain ⟨l, -, hwill, hhist, es, hnew, hes, hepochs⟩ := hrun.hist
  obtain ⟨rfl, -⟩ := hwill hs.willing
  have hframes : xs.map Msg.frame = runFrames cart quiet k.m := by
    have hgrown : sentFrames k'.m = sentFrames k.m ++ es.map fun y => (y.1.epoch, y.2) := by
      unfold sentFrames
      rw [hnew, List.map_append]
    have hsame := List.append_cancel_left (hgrown.symm.trans hsent)
    have hsnd := congrArg (List.map Prod.snd) hsame
    rw [List.map_map, List.map_map] at hsnd
    rw [← hes]
    exact hsnd.symm
  have hmore : p'.hist.ran ≠ p.hist.ran := by
    rw [hs'.hist, hs.hist]
    intro hsame
    have hlen := congrArg List.length hsame
    dsimp only at hlen
    rw [hhist, List.length_append] at hlen
    exact absurd hlen (Nat.succ_ne_self _)
  have hstamp : p'.hist.stamp.epoch = p.hist.stamp.epoch + 1 := by
    rw [hs'.hist, hs.hist]
    dsimp only
    rw [hhist, hdue]
    rfl
  cases hturn with
  | ran quiet' sim hgate hopen hck himg hbytes =>
      rename_i ck img
      have hpush : (p.view.ran ck).due quiet' = true := by
        by_contra hno
        have hkeep : (p.hist.ranTick p.view ck sim ((p.view.ran ck).due quiet')).stamp.epoch =
            p.hist.stamp.epoch := by
          rw [Bool.eq_false_iff.mpr hno]
          rfl
        rw [hkeep] at hstamp
        omega
      rw [hpush] at hframes ⊢
      rw [tickMsgs_frames himg] at hframes
      unfold runFrames reportFrames at hframes
      rw [hdue, view_lsTicked, ← hs.view, if_pos rfl, if_pos rfl] at hframes
      have hreport : ∀ ck' : Nat, (if p.view.tick % 64 = 0 then
          [crcFrame p.view.seat p.view.tick ck] else []).length =
          (if p.view.tick % 64 = 0 then [crcFrame p.view.seat p.view.tick ck'] else []).length := by
        intro ck'
        split
        · rfl
        · rfl
      have hpushed := (List.append_inj hframes (hreport _)).2
      have himage := pushFrames_inj himg (image_length _) hpushed
      refine ⟨_, _, ?_, by rw [← himage]; rfl⟩
      intro y hy
      split at hy
      · exact List.mem_singleton.mp hy ▸ rfl
      · exact absurd hy List.not_mem_nil
  | _ => exact absurd rfl hmore

/-! ## Both consoles -/

/-- What is kept of two consoles, resyncs included. -/
structure Mended (cart : Cart) (c : Start) (duo : Duo) (s : Pair) : Prop where
  based : Based s
  rooted : ∀ x k, duo.proc x = some k → Rooted cart (baseImage (mail s)) (s x).heard k.m
  seam : ∀ l, duo.proc .guest = some l → Seam (s .guest) (buffered l.m).length

/-- The ticks of a member are of baselines it has been at. -/
theorem Coursing.ran_epoch (hcourse : Coursing c s) (hsteady : s.Steady) :
    (∀ y, ∀ r ∈ (s y).hist.ran, r.stamp.epoch ≤ (s y).epoch) ∧ ∀ y, (s y).epoch ≤ (s .host).epoch := by
  obtain ⟨n, got, front, hc⟩ := hcourse.course hsteady
  have hle := hc.down.bounds.1
  refine ⟨fun y r hr => ?_, fun y => ?_⟩
  · cases y with
    | host => exact (hc.hostRecords.ran r hr).2.1
    | guest => exact (hc.guestRecords.ran r hr).2.1
  · cases y with
    | host => exact Nat.le_refl _
    | guest => exact hle

/-- The guest handles a message of the host. -/
theorem Rooted.took {y : Stamp × Msg} {rest : List (Stamp × Msg)}
    (hr : Rooted cart (baseImage (g.heard ++ g.inbox)) g.heard m) (hview : g.view = m.view)
    (hstamp : g.hist.stamp = m.hist.stamp) (hd : Downstream n d got h g)
    (hp : Posted h (g.heard ++ g.inbox)) (hg : Hearing g) (hin : g.inbox = y :: rest)
    (hh : Heeds y.2 m m') : Rooted cart (baseImage (g.heard ++ g.inbox)) (g.heard ++ [y]) m' := by
  have hepoch : g.epoch = m.hist.stamp.epoch := congrArg Stamp.epoch hstamp
  have hflow := hd.flow
  rw [hin] at hflow
  obtain ⟨q, hhears, hrest⟩ := hears_cons hflow
  generalize hplace : (⟨g.epoch, got, decide (g.view.hold ≠ 0)⟩ : Place) = a at hhears
  cases hhears with
  | input i k c => exact hr.plain hh rfl Msg.noConfusion
  | report i k ck hb => exact hr.plain hh rfl Msg.noConfusion
  | opening i k hspan => exact hr.plain hh rfl Msg.noConfusion
  | piece i k q =>
      obtain ⟨rfl, hgot, hheld⟩ := Place.mk.inj hplace
      have hhold : g.view.hold ≠ 0 := by simpa using hheld
      have hlt : g.epoch < h.epoch := hears_held hrest rfl rfl
      obtain ⟨img, himg, hwhole⟩ := hp.whole g.epoch hlt
      have hmem : q ∈ chunks (g.heard ++ g.inbox) g.epoch := by
        refine List.mem_filterMap.mpr ⟨(⟨g.epoch, k⟩, .piece q), ?_, if_pos rfl⟩
        rw [hin]
        exact List.mem_append_right _ List.mem_cons_self
      rw [hwhole] at hmem
      obtain ⟨hfits, -, hsome, -⟩ := chunkPieces_from himg _ _ q hmem
      refine hr.piece hh (hview ▸ hhold) hsome hfits ?_
      rw [← hepoch]
      exact chunks_piece _ _ _
  | closing i k hspan =>
      obtain ⟨rfl, rfl, hheld⟩ := Place.mk.inj hplace
      have hhold : g.view.hold ≠ 0 := by simpa using hheld
      obtain ⟨hle, hlate⟩ := hears_epoch hrest
      obtain ⟨img, himg, hwhole⟩ := hp.whole g.epoch hle
      have hnone : chunks ((⟨g.epoch, k⟩, Msg.closing) :: rest) g.epoch = [] := by
        refine chunks_nil_of fun z hz heq => ?_
        rcases List.mem_cons.mp hz with rfl | hz
        · rfl
        · have hnext := (hlate z hz).1
          exact absurd (heq ▸ hnext) (Nat.not_succ_le_self _)
      have hall : chunks g.heard g.epoch = chunkPieces img imgTotal 0 := by
        rw [← hwhole, hin, chunks_append, hnone, List.append_nil]
      refine hr.closing hh (hview ▸ hhold) himg (hepoch ▸ hall) ?_ ?_
      · rw [← hepoch, chunks_snoc _ rfl]
        exact chunks_other fun z hz => Nat.ne_of_lt (Nat.lt_succ_of_le (hg.past z hz))
      · rw [← hepoch]
        exact baseImage_push himg hwhole

/-! What a turn does to the messages handled. -/

theorem Turn.heard_same (hturn : Turn p p' xs) (hsame : p'.hist.handled = p.hist.handled) :
    p'.heard = p.heard := by
  cases hturn with
  | took hpump hin =>
      have hlen := congrArg List.length (show p.hist.handled ++ [_] = p.hist.handled from hsame)
      rw [List.length_append] at hlen
      exact absurd hlen (Nat.succ_ne_self _)
  | _ => rfl

theorem Turn.heard_more (hturn : Turn p p' xs) {y : Stamp × Msg} {rest : List (Stamp × Msg)}
    (hin : p.inbox = y :: rest) (hmore : p'.hist.handled ≠ p.hist.handled) :
    p'.heard = p.heard ++ [y] := by
  cases hturn with
  | took hpump hin' =>
      obtain ⟨rfl, -⟩ := List.cons.inj (hin.symm.trans hin')
      rfl
  | _ => exact absurd rfl hmore

/-- The chunks to the guest of the baseline that is left, once its push is sent. -/
theorem Posted.sent_push (hp : Posted (s .host) (mail s))
    (hguest : t .guest = (s .guest).gets (s .host).hist.stamp xs) {ys : List Msg}
    (hys : ∀ y ∈ ys, y.chunk = none) {resume : Nat} (hxs : xs = ys ++ pushMsgs resume img) :
    chunks (mail t) (s .host).hist.stamp.epoch = chunkPieces img imgTotal 0 := by
  have hnone : chunks (ys.map fun y => ((s .host).hist.stamp, y)) (s .host).hist.stamp.epoch = [] := by
    refine chunks_nil_of fun z hz _ => ?_
    obtain ⟨y, hy, rfl⟩ := List.mem_map.mp hz
    exact hys y hy
  have hpresent : chunks (mail s) (s .host).hist.stamp.epoch = [] := hp.present
  rw [mail_sent hguest, hxs, chunks_append, hpresent, List.map_append, chunks_append, hnone, chunks_push]
  rfl

/-- A console in a baseline that a push began has run a tick. -/
theorem Based.stirs (hb : Based s) (hcourse : Coursing c s) (hsteady : s.Steady)
    (hs : Shown (s x) k wire) (hne : k.m.hist.stamp.epoch ≠ 0) : k.m.hist.ran ≠ [] := by
  have hhist := hs.hist
  have hepoch : (s x).epoch = k.m.hist.stamp.epoch := by rw [Party.epoch, hhist]
  have hran : (s x).hist.ran = k.m.hist.ran := by rw [hhist]
  rw [← hepoch] at hne
  rw [← hran]
  cases x with
  | host => exact (hb.stirred.pushed hne).1
  | guest =>
      have hle := (hcourse.ran_epoch hsteady).2 .guest
      exact (hb.stirred.pushed (by omega)).2

/-- No chunk is ever sent to the host. -/
theorem Based.host_quiet (hb : Based s) (e : Nat) : chunks (s .host).heard e = [] := by
  refine chunks_nil_of fun y hy _ => ?_
  have hfrom := hb.plain y hy
  cases hx : y.2 with
  | piece q =>
      rw [hx] at hfrom
      exact hfrom.elim
  | _ => rfl

/-! ### A step -/

/-- The images the baselines so far started from are what they were. -/
theorem baseImage_step (hturn : Turn (s x) (t x) xs)
    (hpeer : t x.peer = (s x.peer).gets (s x).hist.stamp xs) :
    ∀ i ≤ (s .host).epoch, baseImage (mail t) i = baseImage (mail s) i := by
  cases x with
  | host =>
      have hguest : t .guest = (s .guest).gets (s .host).hist.stamp xs := hpeer
      rw [mail_sent hguest]
      refine baseImage_append _ fun y hy => ?_
      obtain ⟨z, -, rfl⟩ := List.mem_map.mp hy
      exact Nat.le_refl _
  | guest =>
      have hmail : mail t = mail s := hturn.mail
      rw [hmail]
      exact fun _ _ => rfl

namespace Mended

/-- No chunk of its present baseline is heard by a console that is about to run a tick. -/
theorem quiet (hk : Mended cart c duo s) (hs : Portrays c duo s) (hproc : duo.proc x = some k)
    (hgate : k.pc = .gate) (hopen : gateOpen k.m = true) :
    chunks (s x).heard k.m.hist.stamp.epoch = [] := by
  cases x with
  | host => exact hk.based.host_quiet _
  | guest =>
      have hshown := (hs.shown .guest k hproc).1
      have hepoch : (s .guest).epoch = k.m.hist.stamp.epoch := by rw [Party.epoch, hshown.hist]
      have hcount : k.m.view.count ≤ 4 := by
        rw [← hshown.view, (hs.fixed .guest).count]
        decide
      rw [← hepoch]
      apply (hk.seam k hproc).none
      refine .inr ⟨.inl (hshown.pc.trans hgate), ?_⟩
      rw [hshown.view, ← gateOpen_view hcount]
      exact hopen

/-- The bytes of a push that have arrived. -/
theorem sewn (hk : Mended cart c duo s) (hs : Portrays c duo s) (hcourse : Coursing c s)
    (hsteady : s.Steady) (hstep : Duo.Step cart c (.turn x v) duo duo')
    (hturn : Turn (s x) (t x) xs) (hpeer : t x.peer = (s x.peer).gets (s x).hist.stamp xs)
    (ht : Portrays c duo' t) (hsteady' : t.Steady) (hbased : Based t) :
    ∀ l, duo'.proc .guest = some l → Seam (t .guest) (buffered l.m).length := by
  intro l hl
  obtain ⟨n, got, front, hc⟩ := hcourse.course hsteady
  cases hstep with
  | @turn _ _ _ _ k bytes hproc hread hwire hthis hpeer' hsent =>
      cases x with
      | host =>
          have hguest : t .guest = (s .guest).gets (s .host).hist.stamp xs := hpeer
          have hproc' : duo.proc .guest = some l := hpeer' ▸ hl
          rw [hguest]
          refine (hk.seam l hproc').gets fun hnone => ?_
          have hqueue := (hs.shown .guest l hproc').1.queue
          rw [hnone] at hqueue
          rw [(List.append_eq_nil_iff.mp hqueue).1]
          rfl
      | guest =>
          obtain rfl : k.step cart v = l := Option.some.inj (hthis.symm.trans hl)
          have hshown := (hs.shown .guest k hproc).1
          rw [hwire] at hshown
          exact (hk.seam k hproc).turn (hshown.arrives (ht.shown .guest _ hthis).1 hread) hc.down
            hk.based.hearing hbased.hearing hk.based.posted hturn (hsteady' .guest)

/-- The tick of a console. -/
theorem ticked (hk : Mended cart c duo s) (hs : Portrays c duo s) (hcourse : Coursing c s)
    (hsteady : s.Steady) (hturn : Turn (s x) (t x) xs)
    (hpeer : t x.peer = (s x.peer).gets (s x).hist.stamp xs) (ht : Portrays c duo' t)
    (hproc : duo.proc x = some k) (hthis : duo'.proc x = some k')
    (hroot : Rooted cart (baseImage (mail t)) (s x).heard k.m) (hgate : k.pc = .gate)
    (hopen : gateOpen k.m = true) (hran : k'.m = lsRun cart k.m) :
    Rooted cart (baseImage (mail t)) (s x).heard k'.m := by
  have hshown := (hs.shown x k hproc).1
  have hfixed := hs.fixed x
  have hquiet := hk.quiet hs hproc hgate hopen
  have hstirred := hk.based.stirs hcourse hsteady hshown
  obtain ⟨quiet, hrun⟩ := lsRun_spec cart k.m
  have hcount : k.m.rd netCount = 2 := by
    have hcell : k.m.rd netCount = k.m.view.count := rfl
    rw [hcell, ← hshown.view]
    exact hfixed.count
  rw [hran]
  cases hdue : dueAfter cart quiet k.m with
  | false => exact hroot.ran hcount hquiet hstirred hrun hdue
  | true =>
      cases x with
      | guest =>
          have hno : dueAfter cart quiet k.m = false := by
            refine View.not_due_guest ?_ quiet
            rw [View.ran_eq, ← hshown.view]
            show (s .guest).view.seat ≠ 0
            rw [hfixed.seat]
            decide
          exact absurd (hno.symm.trans hdue) Bool.false_ne_true
      | host =>
          refine hroot.pushed hcount hquiet (hk.based.host_quiet _) hstirred hrun hdue ?_
          have hguest : t .guest = (s .guest).gets (s .host).hist.stamp xs := hpeer
          have hmail : sentFrames k.m = mailFrames (s .guest) := (hs.shown .host k hproc).2
          have hmail' : sentFrames k'.m = mailFrames (t .guest) := (ht.shown .host k' hthis).2
          rw [hguest, mailFrames_gets, ← hmail] at hmail'
          obtain ⟨ys, resume, hys, hxs⟩ := pushed_image hshown (ht.shown .host k' hthis).1 hturn
            (hran ▸ hrun) hdue hmail'
          have hepoch : (s .host).hist.stamp.epoch = k.m.hist.stamp.epoch := by rw [hshown.hist]
          refine baseImage_push (image_length _) ?_
          rw [← hepoch]
          exact hk.based.posted.sent_push hguest hys hxs

/-- A member takes a step. -/
theorem turn (hk : Mended cart c duo s) (hs : Portrays c duo s) (hcourse : Coursing c s)
    (hsteady : s.Steady) (hstep : Duo.Step cart c (.turn x v) duo duo') (hturn : Pair.Step x s t)
    (ht : Portrays c duo' t) (hsteady' : t.Steady) : Mended cart c duo' t := by
  have hbased := hk.based.step hcourse hsteady hsteady' hturn
  obtain ⟨hran, hepochs⟩ := hcourse.ran_epoch hsteady
  obtain ⟨n, got, front, hc⟩ := hcourse.course hsteady
  obtain ⟨xs, hturn, hpeer⟩ := hturn
  refine ⟨hbased, ?_, hk.sewn hs hcourse hsteady hstep hturn hpeer ht hsteady' hbased⟩
  have hbase := baseImage_step hturn hpeer
  have hrebased : ∀ y l, duo.proc y = some l → Rooted cart (baseImage (mail t)) (s y).heard l.m := by
    intro y l hl
    have hhist := (hs.shown y l hl).1.hist
    have hepoch : l.m.hist.stamp.epoch = (s y).epoch := by rw [Party.epoch, hhist]
    refine (hk.rooted y l hl).rebase (fun r hr => ?_) fun i hi => hbase i ?_
    · rw [hepoch]
      refine hran y r ?_
      rw [hhist]
      exact hr
    · exact Nat.le_trans (hepoch ▸ hi) (hepochs y)
  cases hstep with
  | @turn _ _ _ _ k bytes hproc hread hwire hthis hpeer' hsent =>
      have hshown := (hs.shown x k hproc).1
      have hshown' := (ht.shown x _ hthis).1
      have hroot := hrebased x k hproc
      have hfixed := hs.fixed x
      have hseat := x.seat_lt
      have hacts : Acts cart (s x) k (k.step cart v) := by
        have hread' := hshown
        rw [hwire] at hread'
        exact hread'.acts (by rw [hfixed.seat]; omega) (by rw [hfixed.count]; decide) hread (hsteady x)
      have hthat : Rooted cart (baseImage (mail t)) (t x).heard (k.step cart v).m := by
        generalize k.step cart v = k' at *
        have hhandled : (s x).hist.handled = k.m.hist.handled := by rw [hshown.hist]
        have hhandled' : (t x).hist.handled = k'.m.hist.handled := by rw [hshown'.hist]
        cases hacts with
        | rests hrest =>
            rw [hturn.heard_same (by rw [hhandled', hrest.handled, hhandled])]
            exact hroot.still hrest.toUndisturbed rfl
        | heeds hin hheeds =>
            rename_i y rest
            rw [hturn.heard_more hin ?_]
            · cases x with
              | host =>
                  have hfrom : y.2.FromGuest := by
                    refine hcourse.orderly.plain y.2 ?_
                    unfold Party.msgs
                    rw [hin]
                    exact List.mem_cons_self
                  refine hroot.plain hheeds ?_ fun hclosing => ?_
                  · cases hx : y.2 with
                    | piece q =>
                        rw [hx] at hfrom
                        exact hfrom.elim
                    | _ => rfl
                  · rw [hclosing] at hfrom
                    exact hfrom.elim
              | guest =>
                  have hmail : mail t = mail s := hturn.mail
                  rw [hmail]
                  exact (hk.rooted .guest k hproc).took hshown.view (by rw [hshown.hist]) hc.down
                    hk.based.posted hk.based.hearing hin hheeds
            · rw [hhandled', hheeds.handled, hhandled]
              exact fun hsame => absurd (congrArg List.length hsame) (by simp)
        | runs hgate hopen hlast =>
            obtain ⟨quiet, hrun⟩ := lsRun_spec cart k.m
            obtain ⟨frames, -, -, hran', -⟩ := hrun.hist
            have hkeep : k'.m.hist.handled = k.m.hist.handled := by rw [hlast, hran']
            rw [hturn.heard_same (by rw [hhandled', hkeep, hhandled])]
            exact hk.ticked hs hcourse hsteady hturn hpeer ht hproc hthis hroot hgate hopen hlast
      refine fun y l hl => ?_
      rcases Side.eq_or_peer x y with rfl | rfl
      · obtain rfl : k.step cart v = l := Option.some.inj (hthis.symm.trans hl)
        exact hthat
      · rw [hpeer]
        exact hrebased x.peer l (hpeer' ▸ hl)

end Mended

/-! ## In step again -/

/-- The ticks of a baseline that a push began, one after the other. -/
theorem Mended.sim_eq (hk : Mended cart c duo s) (hagreed : Agreed c.delay s) (hs : Portrays c duo s)
    (hhost : duo.proc .host = some k) (hguest : duo.proc .guest = some l) (hne : e ≠ 0) (a : Nat) :
    ∀ r ∈ k.m.hist.ran, ∀ r' ∈ l.m.hist.ran, r.stamp = ⟨e, a⟩ → r'.stamp = ⟨e, a⟩ → r.sim = r'.sim := by
  have hshown := (hs.shown .host k hhost).1
  have hshown' := (hs.shown .guest l hguest).1
  have hroot := hk.rooted .host k hhost
  have hroot' := hk.rooted .guest l hguest
  -- what both dispatch at one tick
  have hcells : ∀ r ∈ k.m.hist.ran, ∀ r' ∈ l.m.hist.ran, r.stamp = r'.stamp →
      r.seat0 = r'.seat0 ∧ r.seat1 = r'.seat1 := by
    intro r hr r' hr' heq
    have hmem : r ∈ (s .host).hist.ran := by
      rw [hshown.hist]
      exact hr
    have hmem' : r' ∈ (s .guest).hist.ran := by
      rw [hshown'.hist]
      exact hr'
    have hours := (hagreed.ran .host r hmem).1
    have htheirs := (hagreed.ran .guest r' hmem').1
    exact ⟨by rw [hours.seat0, htheirs.seat0, heq], by rw [hours.seat1, htheirs.seat1, heq]⟩
  induction a with
  | zero =>
      intro r hr r' hr' hstamp hstamp'
      obtain ⟨h0, h1⟩ := hcells r hr r' hr' (hstamp.trans hstamp'.symm)
      have hstarts := hroot.starts r hr (by rw [hstamp]) (by rw [hstamp]; exact hne)
      have hstarts' := hroot'.starts r' hr' (by rw [hstamp']) (by rw [hstamp']; exact hne)
      rw [hstamp] at hstarts
      rw [hstamp'] at hstarts'
      exact hstarts.sim_eq hstarts' h0 h1
  | succ a ih =>
      intro r hr r' hr' hstamp hstamp'
      obtain ⟨h0, h1⟩ := hcells r hr r' hr' (hstamp.trans hstamp'.symm)
      obtain ⟨r₀, hr₀, hat, hfollows⟩ := hroot.follows r hr (by rw [hstamp]; exact Nat.succ_ne_zero a)
      obtain ⟨r₀', hr₀', hat', hfollows'⟩ := hroot'.follows r' hr'
        (by rw [hstamp']; exact Nat.succ_ne_zero a)
      rw [hstamp] at hat
      rw [hstamp'] at hat'
      exact hfollows.sim_eq hfollows' (ih r₀ hr₀ r₀' hr₀' hat hat') h0 h1

/-- What is kept of two consoles and the pair that stands for them. -/
structure Tracked (cart : Cart) (c : Start) (duo : Duo) (s : Pair) : Prop where
  portrays : Portrays c duo s
  coursing : Coursing c s
  mended : s.Steady → Mended cart c duo s

theorem Tracked.init (hone : 1 ≤ c.delay) (hlap : c.delay ≤ 126) :
    Tracked cart c Duo.init (Pair.init c) :=
  ⟨.init c, .init hone hlap, fun _ => ⟨.init,
    fun x k hx => absurd hx (by simp [Duo.init]), fun l hl => absurd hl (by simp [Duo.init])⟩⟩

/-- A member enters the match. -/
theorem Tracked.start (hf : Tracked cart c duo s) (hstep : Duo.Step cart c (.start x m) duo duo') :
    Tracked cart c duo' s := by
  have ht := hf.portrays.start hstep
  refine ⟨ht, hf.coursing, fun hsteady => ?_⟩
  have hk := hf.mended hsteady
  cases hstep with
  | start hproc henter hwill hwire hthis hpeer hsent =>
      have hhist := (henter.view (c.frame_framed x) rfl).2
      refine ⟨hk.based, fun y k hy => ?_, fun l hl => ?_⟩
      · rcases Side.eq_or_peer x y with rfl | rfl
        · obtain rfl : (⟨m, .pumpSes⟩ : Proc) = k := Option.some.inj (hthis.symm.trans hy)
          refine .enter hhist (chunks_nil_of fun z hz _ => ?_)
          rw [(hf.portrays.fresh _ hproc).1] at hz
          exact absurd hz List.not_mem_nil
        · exact hk.rooted x.peer k (hpeer ▸ hy)
      · cases x with
        | host => exact hk.seam l (hpeer ▸ hl)
        | guest =>
            obtain rfl : (⟨m, .pumpSes⟩ : Proc) = l := Option.some.inj (hthis.symm.trans hl)
            exact .entered (ht.shown .guest _ hthis).1.pc

/-- A member takes a step. -/
theorem Tracked.turn (hf : Tracked cart c duo s) (hlap : c.delay ≤ 126)
    (hstep : Duo.Step cart c (.turn x v) duo duo') :
    ∃ t, Pair.Step x s t ∧ Tracked cart c duo' t := by
  obtain ⟨t, hturn, ht⟩ := hf.portrays.turn hstep
  refine ⟨t, hturn, ht, hf.coursing.step hlap hturn, fun hsteady => ?_⟩
  have hsteady' := Pair.Steady.before hturn hsteady
  exact (hf.mended hsteady').turn hf.portrays hf.coursing hsteady' hstep hturn ht hsteady

/-- What every turn of a pair preserves while nobody gives up holds at the end of a run. -/
theorem Tracked.run (hf : Tracked cart c duo s) (hlap : c.delay ≤ 126)
    {P : Pair → Prop} (hP : P s)
    (hstep : ∀ (i : Duo) (s t : Pair) (x : Side), Tracked cart c i s → s.Steady → t.Steady → P s →
      Pair.Step x s t → P t) {es : List Event} (hrun : Run (Duo.Step cart c) duo es duo') :
    ∃ t, Tracked cart c duo' t ∧ (t.Steady → s.Steady ∧ P t) := by
  refine hrun.invariant (P := fun i => ∃ t, Tracked cart c i t ∧ (t.Steady → s.Steady ∧ P t)) ?_
    ⟨s, hf, fun hsteady => ⟨hsteady, hP⟩⟩
  rintro ev i j hmove ⟨t, ht, hkept⟩
  cases ev with
  | start x m => exact ⟨t, ht.start hmove, hkept⟩
  | turn x v =>
      obtain ⟨u, hturn, hu⟩ := ht.turn hlap hmove
      refine ⟨u, hu, fun hsteady => ?_⟩
      have hbefore := Pair.Steady.before hturn hsteady
      obtain ⟨hfirst, hhere⟩ := hkept hbefore
      exact ⟨hfirst, hstep i t u x ht hbefore hsteady hhere hturn⟩

/-- What both ran under one stamp of a baseline that a push began is one tick with one simulation
state and one checksum. -/
def Duo.Repaired (duo : Duo) : Prop :=
  ∀ k l, duo.proc .host = some k → duo.proc .guest = some l →
    ∀ r ∈ k.m.hist.ran, ∀ r' ∈ l.m.hist.ran, r.stamp = r'.stamp → r.stamp.epoch ≠ 0 →
      r.tick = r'.tick ∧ r.sim = r'.sim ∧ r.cksum = r'.cksum

/-- A resync puts the two consoles in step again. -/
theorem resync_repairs (hone : 1 ≤ c.delay) (hhead : c.delay ≤ 15) {es : List Event}
    (hrun : Run (Duo.Step cart c) Duo.init es duo) (hsteady : duo.Steady) : duo.Repaired := by
  have hlap : c.delay ≤ 126 := by omega
  obtain ⟨s, hf, hkept⟩ := (Tracked.init hone hlap).run hlap (P := Agreed c.delay) (.init hone hlap)
    (fun _ _ _ _ hf hsteady hsteady' hagreed hturn =>
      hagreed.step hf.coursing hone (by omega) (.inl hhead) hsteady hsteady' hturn) hrun
  have hs := hf.portrays
  have hsteady' := hs.steady hsteady
  have hk := hf.mended hsteady'
  obtain ⟨n, hplaced⟩ := hf.coursing.placed (by omega) hsteady'
  intro k l hhost hguest r hr r' hr' heq hne
  have hran : r ∈ (s .host).hist.ran := by
    rw [(hs.shown .host k hhost).1.hist]
    exact hr
  have hran' : r' ∈ (s .guest).hist.ran := by
    rw [(hs.shown .guest l hguest).1.hist]
    exact hr'
  have htick := ((hplaced .host).records.ran r hran).1
  have htick' := ((hplaced .guest).records.ran r' hran').1
  have hsim := hk.sim_eq (hkept hsteady').2 hs hhost hguest hne r.stamp.age r hr r' hr' rfl heq.symm
  have hsummed := (hk.rooted .host k hhost).summed r hr
  have hsummed' := (hk.rooted .guest l hguest).summed r' hr'
  exact ⟨by rw [htick, htick', heq], hsim, hsummed.cksum_eq hsummed' hsim⟩

/-- After a push both ran the tick it resumed at. -/
theorem resync_repairs_pushed : ∃ es duo k l, Run (Duo.Step idleCart startOne) Duo.init es duo ∧
    duo.proc .host = some k ∧ duo.proc .guest = some l ∧
    (∃ r ∈ k.m.hist.ran, ∃ r' ∈ l.m.hist.ran, r.stamp = r'.stamp ∧ r.stamp.epoch = 1) ∧
    duo.Repaired := by
  obtain ⟨es, duo, S, hrun, hstaged, -, hhost, hguest, hstamp, hstamp', hdrop, hdrop'⟩ :=
    Staged.follow startOne rfl seat_byte (wantedCues ++ [(.host, .tick)] ++ takenCues ++ mendedCues)
      (P := fun S =>
        ((S .host).pc = .gate ∧ (S .host).view.ready = true ∧ (S .host).view.pend = 0 ∧
          (S .host).view.tick % 64 ≠ 0) ∧
        ((S .guest).pc = .gate ∧ (S .guest).view.ready = true ∧ (S .guest).view.pend = 0 ∧
          (S .guest).view.tick % 64 ≠ 0) ∧
        (S .host).hist.stamp = ⟨1, 0⟩ ∧ (S .guest).hist.stamp = ⟨1, 0⟩ ∧
        (S .host).view.dropped = 0 ∧ (S .guest).view.dropped = 0) (by decide +kernel)
  have hgate : ∀ x, (S x).pc = .gate ∧ (S x).view.ready = true ∧ (S x).view.pend = 0 ∧
      (S x).view.tick % 64 ≠ 0 := by
    intro x
    cases x with
    | host => exact hhost
    | guest => exact hguest
  obtain ⟨fs, duo', S', hrun', hstaged', hran⟩ := hstaged.both idleCart hgate
  obtain ⟨k, hk, -, hhist, -⟩ := hstaged'.console .host
  obtain ⟨l, hl, -, hhist', -⟩ := hstaged'.console .guest
  obtain ⟨hkeeps, r, hr, hat⟩ := hran .host
  obtain ⟨hkeeps', r', hr', hat'⟩ := hran .guest
  rw [← hhist] at hr
  rw [← hhist'] at hr'
  rw [hstamp] at hat
  rw [hstamp'] at hat'
  have hsteady := hstaged'.steady (hkeeps.trans hdrop) (hkeeps'.trans hdrop')
  have hepoch : r.stamp.epoch = 1 := by rw [hat]
  exact ⟨_, duo', k, l, hrun.append hrun', hk, hl, ⟨r, hr, r', hr', hat.trans hat'.symm, hepoch⟩,
    resync_repairs (by decide) (by decide) (hrun.append hrun') hsteady⟩

end SharkNetplay.Console
