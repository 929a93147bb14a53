import SharkNetplay.Lib.Run
import SharkNetplay.Console.SessionBounds

/-!
# A byte stream and the addresses it makes the console write

A console takes bytes from the peripheral, parses and handles frames, and draws
the matched screen; between these it does anything else. Every address the byte
stream makes it write is in its own areas, in a run where no roster count above 9
reaches the roster and no seat above 3 reaches a ring page.
-/

namespace SharkNetplay.Console

open Lib Lib.Framing Cell Machine

variable {m m' : Machine}

/-- What the console does while it handles a byte stream. -/
inductive Handling
  | recv (v : Arrival)
  | round
  | matched
  /-- Anything that is not the handling of the stream. -/
  | other

/-- One step of the handling. Of the rest of the console it is known that
`LOBBY_CNT` is written by the handler of LOBBY only. -/
def Handling.Step : Handling → Machine → Machine → Prop
  | .recv v, m, m' => m' = pumpRecv v m
  | .round, m, m' => ppParse m = some m'
  | .matched, m, m' => m.rd netActive ≠ 0 ∧ m' = sesGo m
  | .other, m, m' =>
    m'.store.log = m.store.log ∧ (m.rd lobbyCnt ≤ 8 → m'.rd lobbyCnt ≤ 8)

/-- No count or seat out of range is used by the step. -/
def Handling.Tamed : Handling → Machine → Prop
  | .round, m => ∀ f rest, cut headOk (buffered m) = .frame f rest → Tame (ppLoad m)
  | .matched, m => m.rd netCount ≤ 9
  | _, _ => True

/-- An area cell, and no `LOBBY_CNT` above 8. -/
def Confined (a v : Nat) : Prop := Area a v ∧ (a = lobbyCnt → v ≤ 8)

theorem confined_of_handler {a v : Nat} (h : HandlerCell a v) : Confined a v :=
  ⟨h.1, h.2.2.2.2.2⟩

theorem pumpRecv_confined (v : Arrival) (m : Machine) : Writes Confined m (pumpRecv v m) := by
  refine (pumpRecv_writes v m).mono fun a v h => ?_
  simp only [RecvCell, Mail, Confined, Area, rxWr, lobbyCnt] at *
  omega

theorem ppSlip_confined (m : Machine) : Writes Confined m (ppSlip m) :=
  diagBump_writes (by simp [Confined, Area]) (.wr .refl (by simp [Confined, Area]))

theorem ppLoad_confined {f rest : List Nat} (h : cut headOk (buffered m) = .frame f rest) :
    Writes Confined m (ppLoad m) := by
  obtain ⟨hbuf, hwf⟩ := cut_eq_frame headOk_zero h
  obtain ⟨len, ty, tail, rfl, hlen, hok⟩ := hwf.cases_eq
  have hbound := headOk_bounds hok
  have hhead : m.rd (m.rd rxRd + rxAcc) = len := buffered_head hbuf
  unfold ppLoad
  rw [hhead]
  refine (ppExtract_writes frmBuf (len + 1) m).mono fun a v ha => ?_
  simp only [Confined, Area, frmBuf, rxRd, lobbyCnt] at *
  omega

/-- One tame step writes its own areas only. -/
theorem handling_step {e : Handling} (hstep : e.Step m m') (ht : e.Tamed m)
    (hl : m.rd lobbyCnt ≤ 8) :
    (∀ p ∈ m'.store.log, p ∈ m.store.log ∨ Area p.1 p.2) ∧ m'.rd lobbyCnt ≤ 8 := by
  have hwrites : ∀ {m₁ : Machine}, Writes Confined m m₁ →
      (∀ p ∈ m₁.store.log, p ∈ m.store.log ∨ Area p.1 p.2) ∧ m₁.rd lobbyCnt ≤ 8 := by
    intro m₁ h
    constructor
    · intro p hp
      exact (Store.Writes.mem_log h hp).symm.imp_right And.left
    · exact h.keeps (P := fun v => v ≤ 8)
        (fun v hv => Nat.le_trans (Nat.mod_le _ _) (hv.2 rfl)) hl
  cases e with
  | recv v =>
      subst hstep
      exact hwrites (pumpRecv_confined v m)
  | round =>
      simp only [Handling.Step, ppParse_eq] at hstep
      cases hcut : cut headOk (buffered m) with
      | wait =>
          rw [hcut] at hstep
          exact absurd hstep (by simp)
      | slip =>
          rw [hcut, Option.some.injEq] at hstep
          subst hstep
          exact hwrites (ppSlip_confined m)
      | frame f rest =>
          rw [hcut, Option.some.injEq] at hstep
          subst hstep
          have hload := ppLoad_confined hcut
          have hcnt : (ppLoad m).rd lobbyCnt ≤ 8 := (hwrites hload).2
          exact hwrites (hload.trans ((sesOnframe_writes (ht f rest hcut) hcnt).mono
            fun _ _ => confined_of_handler))
  | matched =>
      obtain ⟨hact, rfl⟩ := hstep
      refine hwrites ((sesGo_writes hact ht).mono fun a v h => ?_)
      exact confined_of_handler (handlerCell_of_screen h)
  | other => exact ⟨fun p hp => Or.inl (hstep.1 ▸ hp), hstep.2 hl⟩

/-- A console with every cell blank. -/
def blank : Machine := ⟨⟨fun _ => 0, []⟩, [], {}⟩

/-- A ROOM frame of `n` members with an empty roster. -/
def roomOf (n : Nat) : List Nat := [34, ftRoom, n] ++ List.replicate 32 0

/-- A blank console reads one frame and cuts it. -/
theorem cut_blank {f : List Nat} (hlen : f.length ≤ 64) (hbytes : f.map (· % 256) = f)
    (hcut : cut headOk f = .frame f []) :
    cut headOk (buffered (pumpRecv (Arrival.of f) blank)) = .frame f [] := by
  rw [buffered_pumpRecv (Arrival.of_delivers hlen) (by decide), hbytes]
  exact hcut

theorem round_blank {f : List Nat}
    (hcut : cut headOk (buffered (pumpRecv (Arrival.of f) blank)) = .frame f []) :
    ppParse (pumpRecv (Arrival.of f) blank) =
      some (sesOnframe (ppLoad (pumpRecv (Arrival.of f) blank))) := by
  rw [ppParse_eq, hcut]

/-- Every address a tame byte stream makes the console write is in its areas. -/
theorem stream_writes_confined {es : List Handling} (hl : m.rd lobbyCnt ≤ 8)
    (hrun : Run (fun e m m' => Handling.Step e m m' ∧ e.Tamed m) m es m') :
    ∀ p ∈ m'.store.log, p ∈ m.store.log ∨ Area p.1 p.2 := by
  refine Run.relates
    (R := fun m m' => ∀ p ∈ m'.store.log, p ∈ m.store.log ∨ Area p.1 p.2)
    (P := fun m => m.rd lobbyCnt ≤ 8) (fun _ _ => Or.inl) ?_ ?_ hrun hl
  · intro m₁ m₂ m₃ h₁₂ h₂₃ p hp
    rcases h₂₃ p hp with h | h
    · exact h₁₂ p h
    · exact Or.inr h
  · intro e m₁ m₂ hstep hl
    exact handling_step hstep.1 hstep.2 hl

/-- A console that handles a ROOM frame of two. -/
theorem stream_writes_confined_room :
    blank.rd lobbyCnt ≤ 8 ∧
    ∀ p ∈ (sesOnframe (ppLoad (pumpRecv (Arrival.of (roomOf 2)) blank))).store.log,
      p ∈ blank.store.log ∨ Area p.1 p.2 := by
  refine ⟨by decide, ?_⟩
  have hcut := cut_blank (f := roomOf 2) (by decide) (by decide) (by decide)
  have hload := ppLoad_loaded hcut
  have htype := hload.rd (i := 1) (by decide)
  have hcnt := hload.rd (i := 2) (by decide)
  refine @stream_writes_confined _ _ [.recv (Arrival.of (roomOf 2)), .round] (by decide)
    (.cons ⟨rfl, trivial⟩ (.one ⟨round_blank hcut, fun f rest _ => ⟨?_, ?_⟩⟩))
  · intro h
    rw [htype] at h
    exact absurd h (by decide)
  · intro _ _ _
    rw [hcnt]
    decide

/-! ## A ROOM frame that leaves the screen -/

/-- Row 9 of the roster pokes its digit past BACKTAB. -/
theorem rosterRow_escapes (m : Machine) : ∃ v, (0x2F2, v) ∈ (rosterRow 9 m).store.log := by
  unfold rosterRow
  extract_lets m₁ r1 m₂ m₃ m₄
  have h₄ : m₃.store.log ⊆ m₄.store.log :=
    Store.Writes.log_subset (printCells_writes (S := fun _ _ => True) _ _ .refl (by simp))
  refine ⟨(9 + 49 - 32) * 8 ^^^ m₂.rd uiColor, ?_⟩
  have h₃ : (0x2F2, (9 + 49 - 32) * 8 ^^^ m₂.rd uiColor) ∈ m₃.store.log := List.mem_cons_self
  split
  · exact List.mem_cons_of_mem _ (h₄ h₃)
  · exact h₄ h₃

theorem rosterRow_grows (r3 : Nat) (m : Machine) :
    m.store.log ⊆ (rosterRow r3 m).store.log := by
  refine Store.Writes.log_subset (S := fun _ _ => True) ?_
  show Writes (fun _ _ => True) m (rosterRow r3 m)
  unfold rosterRow
  extract_lets m₁ r1 m₂ m₃ m₄
  have h₄ : Writes (fun _ _ => True) m m₄ :=
    printCells_writes _ _ (((Writes.refl.wr trivial).wr trivial).wr trivial) (by simp)
  split
  · exact h₄.wr trivial
  · exact h₄

theorem rosterRows_grows (n r3 : Nat) (m : Machine) :
    m.store.log ⊆ (rosterRows r3 n m).store.log := by
  induction n generalizing r3 m with
  | zero => exact fun _ h => h
  | succ n ih => exact fun _ h => ih _ _ (rosterRow_grows r3 m h)

theorem rosterRows_escapes {n r3 : Nat} (hlo : r3 ≤ 9) (hhi : 9 < r3 + n) (m : Machine) :
    ∃ v, (0x2F2, v) ∈ (rosterRows r3 n m).store.log := by
  induction n generalizing r3 m with
  | zero => omega
  | succ n ih =>
      by_cases h : r3 = 9
      · subst h
        obtain ⟨v, hv⟩ := rosterRow_escapes m
        exact ⟨v, rosterRows_grows n _ _ hv⟩
      · exact ih (by omega) (by omega) _

/-- The waiting-room screen with a count of 10 or more writes past BACKTAB. -/
theorem sesRoomscr_escapes (hact : m.rd netActive = 0) (hcnt : 10 ≤ m.rd roomCnt) :
    ∃ v, (0x2F2, v) ∈ (sesRoomscr m).store.log := by
  unfold sesRoomscr
  extract_lets m₁ m₂ m₃ m₄ m₅
  have h₄ : Writes Screen m m₄ :=
    (uiPrint_writes (by decide) (uiPrint_writes (by decide) (uiCls_writes .refl))).wr
      (by simp [Screen])
  have hact₄ := Writes.screen_frame h₄ (b := netActive) (by simp) (by simp) (by simp)
  have hcnt₄ := Writes.screen_frame h₄ (b := roomCnt) (by simp) (by simp) (by simp)
  have h₅ : ∃ v, (0x2F2, v) ∈ m₅.store.log := by
    show ∃ v, (0x2F2, v) ∈ (sesRoster m₄).store.log
    unfold sesRoster
    rw [hact₄, if_pos hact, hcnt₄]
    obtain ⟨v, hv⟩ := @rosterRows_escapes (max (m.rd roomCnt) 1) 0 (by decide)
      (by omega) m₄
    exact ⟨v, List.mem_cons_of_mem _ hv⟩
  obtain ⟨v, hv⟩ := h₅
  refine ⟨v, ?_⟩
  have hprint : ∀ off str, m₅.store.log ⊆ (uiPrint off str m₅).store.log := fun off str =>
    Store.Writes.log_subset (printFrom_writes (S := fun _ _ => True) _ _ .refl (by simp))
  split
  · exact hprint _ _ hv
  · exact hprint _ _ hv

@[simp] theorem rd_logHandled (m : Machine) (a : Nat) : (logHandled m).rd a = m.rd a := rfl

theorem buffered_logHandled (m : Machine) : buffered (logHandled m) = buffered m :=
  buffered_congr fun a _ => rd_logHandled m a

theorem sesOnframe_room (h : m.rd (frmBuf + 1) = ftRoom) :
    sesOnframe m = ofRoom (logHandled m) := by
  unfold sesOnframe
  extract_lets m₁ ty
  have hty : ty = ftRoom := h
  rw [hty]
  rfl

/-- A pre-match ROOM frame with a count of 10 or more writes past BACKTAB. -/
theorem ofRoom_escapes (hact : m.rd netActive = 0) (hlen : 34 ≤ m.rd frmBuf)
    (hcnt : 10 ≤ m.rd (frmBuf + 2)) : ∃ v, (0x2F2, v) ∈ (ofRoom m).store.log := by
  have hbyte : m.rd (frmBuf + 2) < 256 := m.rd_byte (by decide)
  unfold ofRoom
  rw [if_neg (by omega)]
  extract_lets m₁ m₂ m₃ m₄
  have hcnt₁ : m₁.rd roomCnt = m.rd (frmBuf + 2) := by
    rw [rd_wr, if_pos rfl]
    exact Nat.mod_eq_of_lt hbyte
  rw [if_pos (by omega)]
  refine sesRoomscr_escapes ?_ ?_
  · rw [rd_wr, if_neg (by decide), sesCproster_frame _ (by decide), rd_wr, if_neg (by decide)]
    exact hact
  · rw [rd_wr, if_neg (by decide), sesCproster_frame _ (by decide), hcnt₁]
    exact hcnt

theorem not_area_past_backtab (v : Nat) : ¬ Area 0x2F2 v := by
  intro h
  have himg : ¬ ∃ p < imgTotal, 0x2F2 = imgCell p := by
    rintro ⟨p, hp, h⟩
    have := simCell_imgCell hp
    rw [← h] at this
    exact absurd this (by decide)
  rcases h with h | h | h | h | h | h | h | ⟨h, -⟩ | ⟨h, -⟩ | h
  · omega
  · omega
  · omega
  · omega
  · exact himg h
  · omega
  · omega
  · exact absurd h (by decide)
  · exact absurd h (by decide)
  · omega

/-- One hostile ROOM frame makes a console write outside its areas. -/
theorem stream_not_confined : ¬ ∀ (m m' : Machine) (es : List Handling),
    m.rd lobbyCnt ≤ 8 → Run Handling.Step m es m' →
      ∀ p ∈ m'.store.log, p ∈ m.store.log ∨ Area p.1 p.2 := by
  intro hall
  have hcut := cut_blank (f := roomOf 10) (by decide) (by decide) (by decide)
  have hload := ppLoad_loaded hcut
  have hround := round_blank hcut
  generalize hm : ppLoad (pumpRecv (Arrival.of (roomOf 10)) blank) = m at hload hround
  have hlen : m.rd frmBuf = 34 := hload.rd (i := 0) (by decide)
  have htype : m.rd (frmBuf + 1) = ftRoom := hload.rd (i := 1) (by decide)
  have hcnt : m.rd (frmBuf + 2) = 10 := hload.rd (i := 2) (by decide)
  have hact : m.rd netActive = 0 := by
    rw [hload.frame _ (by decide) (by decide)]
    exact (pumpRecv_writes _ _).frame (by simp [RecvCell, Mail])
  obtain ⟨v, hv⟩ : ∃ v, (0x2F2, v) ∈ (sesOnframe m).store.log := by
    rw [sesOnframe_room htype]
    exact ofRoom_escapes hact (by rw [rd_logHandled]; omega) (by rw [rd_logHandled]; omega)
  rcases hall blank (sesOnframe m) [.recv (Arrival.of (roomOf 10)), .round] (by decide)
    (.cons rfl (.one hround)) _ hv with h | h
  · exact absurd h (by simp [blank])
  · exact not_area_past_backtab v h

end SharkNetplay.Console
