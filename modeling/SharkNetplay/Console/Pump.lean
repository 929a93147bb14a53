import SharkNetplay.Console.Lobby

/-!
# The stream parser on arbitrary bytes

Whatever arrives, a `SES_PUMP` ends, keeps at most 99 bytes back, and consumes every byte
once: as part of a frame that `SES_FLEN` admits, or by a slip. One thing can spoil this. The
handler of INPUT writes the ring page and the watermark of a seat that only `NET_COUNT`
bounds, and after a START with a large count these may be bytes of `RXACC` that are not
read yet, or the pointers of the ring.

## Implementation notes

`Spares` is the condition on one frame in `FRMBUF`. What a pump consumes is read off its
rounds: the head byte of a slip, the cells of `FRMBUF` of a frame.
-/

namespace SharkNetplay.Console

open Lib Lib.Framing Cell Machine

variable {m m' : Machine}

/-! ## What the handlers write -/

/-- The pointers of the ring, and the bytes of it that are not read yet. -/
def Unread (m : Machine) (a : Nat) : Prop :=
  a = rxWr ∨ a = rxRd ∨ ∃ i < (buffered m).length, a = (m.rd rxRd + i) % 256 + rxAcc

theorem Unread.rxCell {a : Nat} (h : Unread m a) : RxCell a := by
  rcases h with h | h | ⟨i, -, h⟩
  · exact Or.inr (Or.inl h)
  · exact Or.inr (Or.inr h)
  · left
    simp only [rxAcc] at h
    omega

/-- The queue depends on the unread cells only. -/
theorem buffered_unread (h : ∀ a, Unread m a → m'.rd a = m.rd a) : buffered m' = buffered m := by
  have hwr : m'.rd rxWr = m.rd rxWr := h _ (Or.inl rfl)
  have hrd : m'.rd rxRd = m.rd rxRd := h _ (Or.inr (Or.inl rfl))
  have hlength := buffered_length m
  unfold buffered at hlength ⊢
  rw [hwr, hrd]
  refine List.map_congr_left fun i hi => h _ (Or.inr (Or.inr ⟨i, ?_, rfl⟩))
  rw [buffered_length]
  exact List.mem_range.mp hi

/-- What the screens write whatever the counts are: cells far below cart RAM. -/
def Poked (a _v : Nat) : Prop := a < 0x1700 ∨ a = uiColor ∨ a = ppTmp

theorem poked_of_screen {a v : Nat} (h : Screen a v) : Poked a v :=
  h.imp_left fun hlow => Nat.lt_of_le_of_lt hlow.2 (by decide)

theorem uiPrintN_poked {p n : Nat} (hn : n ≤ 8) (h : Writes Poked m m') :
    Writes Poked m (uiPrintN (m'.rd ppTmp) p n m') := by
  have hlt : m'.rd ppTmp < 256 := m'.rd_byte (by decide)
  refine printCells_writes _ _ h fun i hi v => Or.inl ?_
  omega

theorem rosterRow_poked {r3 : Nat} (hr : r3 < 256) (h : Writes Poked m m') :
    Writes Poked m (rosterRow r3 m') := by
  unfold rosterRow
  extract_lets m₁ r1 m₂ m₃ m₄
  have h₃ : Writes Poked m m₃ := by
    refine ((h.wr (Or.inr (Or.inl rfl))).wr (Or.inr (Or.inr rfl))).wr (Or.inl ?_)
    simp only [r1]
    omega
  have h₄ : Writes Poked m m₄ := uiPrintN_poked (Nat.le_refl 8) h₃
  have hlt : m₄.rd ppTmp < 256 := m₄.rd_byte (by decide)
  split
  · exact h₄.wr (Or.inl (by omega))
  · exact h₄

theorem rosterRows_poked {n r3 : Nat} (hn : r3 + n ≤ 256) (h : Writes Poked m m') :
    Writes Poked m (rosterRows r3 n m') := by
  induction n generalizing r3 m' with
  | zero => exact h
  | succ n ih => exact ih (by omega) (rosterRow_poked (by omega) h)

theorem sesRoster_poked (h : Writes Poked m m') : Writes Poked m (sesRoster m') := by
  have hroom : m'.rd roomCnt < 256 := m'.rd_byte (by decide)
  have hnet : m'.rd netCount < 256 := m'.rd_byte (by decide)
  refine (rosterRows_poked ?_ h).wr (Or.inr (Or.inl rfl))
  split <;> omega

theorem uiPrint_poked {off : Nat} {str : List Nat} (hfit : off + str.length ≤ 240)
    (h : Writes Poked m m') : Writes Poked m (uiPrint off str m') :=
  h.trans ((uiPrint_writes hfit .refl).mono fun _ _ => poked_of_screen)

theorem uiCls_poked (h : Writes Poked m m') : Writes Poked m (uiCls m') :=
  h.trans ((uiCls_writes .refl).mono fun _ _ => poked_of_screen)

theorem sesRoomscr_poked (m : Machine) : Writes Poked m (sesRoomscr m) := by
  unfold sesRoomscr
  extract_lets m₁ m₂ m₃ m₄ m₅
  have h₃ : Writes Poked m m₃ :=
    uiPrint_poked (by decide) (uiPrint_poked (by decide) (uiCls_poked .refl))
  have h₅ : Writes Poked m m₅ := sesRoster_poked (h₃.wr (Or.inl (by decide)))
  split
  · exact uiPrint_poked (by decide) h₅
  · exact uiPrint_poked (by decide) h₅

theorem renderRow_poked {r3 : Nat} (h : Writes Poked m m') : Writes Poked m (renderRow r3 m') := by
  unfold renderRow
  extract_lets m₁ r2 status m₂ m₃ m₄
  have h₂ : Writes Poked m m₂ := (h.wr (Or.inr (Or.inr rfl))).wr (Or.inr (Or.inl rfl))
  have h₃ : Writes Poked m m₃ := uiPrintN_poked (Nat.le_refl 8) h₂
  have hlt₃ : m₃.rd ppTmp < 256 := m₃.rd_byte (by decide)
  have h₄ : Writes Poked m m₄ := by
    show Writes Poked m (ite _ _ _)
    split
    · exact h₃
    · exact h₃.wr (Or.inl (by omega))
  have hlt₄ : m₄.rd ppTmp < 256 := m₄.rd_byte (by decide)
  split
  · exact h₄.wr (Or.inl (by omega))
  · exact h₄

theorem renderRows_poked {n r3 : Nat} (h : Writes Poked m m') :
    Writes Poked m (renderRows r3 n m') := by
  induction n generalizing r3 m' with
  | zero => exact h
  | succ n ih => exact ih (renderRow_poked h)

theorem sesRender_poked (h : Writes Poked m m') : Writes Poked m (sesRender m') := by
  unfold sesRender
  extract_lets m₁ m₂ m₃ r2 m₄
  have h₂ : Writes Poked m m₂ := uiPrint_poked (by decide) (h.wr (Or.inr (Or.inl rfl)))
  have h₃ : Writes Poked m m₃ := h₂.fill fun i hi => Or.inl (by omega)
  exact (renderRows_poked h₃).wr (Or.inr (Or.inl rfl))

/-- No cell of the ring. -/
def OffRing (a _v : Nat) : Prop := ¬ RxCell a

theorem offRing_of_handler {a v : Nat} (h : HandlerCell a v) : OffRing a v := by
  intro hrx
  simp only [RxCell, HandlerCell, rxWr, rxRd] at *
  omega

theorem offRing_of_poked {a v : Nat} (h : Poked a v) : OffRing a v := by
  intro hrx
  simp only [RxCell, Poked, rxWr, rxRd, uiColor, ppTmp] at *
  omega

/-- A ROOM of any count leaves the ring alone. -/
theorem ofRoom_offRing (m : Machine) : Writes OffRing m (ofRoom m) := by
  unfold ofRoom
  split
  · exact .refl
  extract_lets m₁ m₂ m₃ m₄
  have h₁ : Writes OffRing m m₁ := .wr .refl (by simp [OffRing, RxCell])
  split
  · have h₃ : Writes OffRing m m₃ := by
      refine (h₁.trans ((sesCproster_writes .refl).mono fun _ _ => offRing_of_handler)).wr ?_
      simp [OffRing, RxCell]
    exact h₃.trans ((sesRoomscr_poked m₃).mono fun _ _ => offRing_of_poked)
  · have h₄ : Writes OffRing m m₄ := by
      refine (h₁.wr ?_).wr ?_ <;> simp [OffRing, RxCell]
    refine h₄.trans (.mono ?_ fun _ _ => offRing_of_poked)
    exact sesRender_poked (uiPrint_poked (by decide) (uiCls_poked .refl))

/-! ## The one handler that may not -/

/-- The cells that the INPUT in `FRMBUF` is stored in. -/
def inputCells (m : Machine) : List Nat :=
  let r3 := seatWm + m.rd (frmBuf + 2) * 2
  let r4 := (m.rd (frmBuf + 2) * 256 + m.rd (frmBuf + 3) + seatRing) % 65536
  [r4, (r4 + (seatKp - seatRing)) % 65536, r3, r3 + 1]

/-- The frame in `FRMBUF` is no INPUT that is stored over unread bytes of the ring. -/
def Spares (m : Machine) : Prop :=
  m.rd (frmBuf + 1) = ftInput → inputFresh m = true → ∀ a ∈ inputCells m, ¬ Unread m a

/-- The new writes of `SES_ONFRAME` on an INPUT that is stored. -/
theorem log_sesOnframe_input (hty : m.rd (frmBuf + 1) = ftInput) (hfresh : inputFresh m = true) :
    ∃ l, (sesOnframe m).store.log = l ++ m.store.log ∧ l.map Prod.fst = (inputCells m).reverse := by
  have hframe : sesOnframe m = ofInput (logHandled m) := sesOnframe_input hty
  have hfresh' : inputFresh (logHandled m) = true := hfresh
  rw [hframe]
  unfold ofInput
  rw [if_pos hfresh']
  extract_lets r3 r4 m₁ m₂
  exact ⟨[(r3 + 1, m₂.rd (frmBuf + 4)), (r3, m₂.rd (frmBuf + 3)),
    ((r4 + (seatKp - seatRing)) % 65536, m₁.rd (frmBuf + 6)),
    (r4, (logHandled m).rd (frmBuf + 5))], rfl, rfl⟩

theorem ofInput_cells (m : Machine) : Writes (fun a _ => a ∈ inputCells m) m (ofInput m) := by
  unfold ofInput
  split
  · extract_lets r3 r4 m₁ m₂
    have hcells : inputCells m = [r4, (r4 + (seatKp - seatRing)) % 65536, r3, r3 + 1] := rfl
    rw [hcells]
    refine (((Writes.refl.wr ?_).wr ?_).wr ?_).wr ?_
    · exact List.mem_cons_self
    · exact List.mem_cons_of_mem _ List.mem_cons_self
    · exact List.mem_cons_of_mem _ (List.mem_cons_of_mem _ List.mem_cons_self)
    · exact List.mem_cons_of_mem _ (List.mem_cons_of_mem _ (List.mem_cons_of_mem _
        List.mem_cons_self))
  · exact .refl

/-- `Spares` is exactly that the handler writes no unread byte of the ring. -/
theorem spares_iff (m : Machine) :
    Spares m ↔ Writes (fun a _ => ¬ Unread m a) m (sesOnframe m) := by
  constructor
  · intro hspares
    have hoff : ∀ {m₁ : Machine}, Writes OffRing m m₁ →
        Writes (fun a _ => ¬ Unread m a) m m₁ := fun h =>
      h.mono fun _ _ hno hunread => hno hunread.rxCell
    have hhandler : ∀ {m₁ : Machine}, Writes HandlerCell m m₁ →
        Writes (fun a _ => ¬ Unread m a) m m₁ := fun h =>
      hoff (h.mono fun _ _ => offRing_of_handler)
    unfold sesOnframe
    extract_lets m₁ ty
    have h₁ : Writes HandlerCell m m₁ := Writes.note .refl
    split_ifs with hi hlb hs hp hr hc hst hq
    · by_cases hfresh : inputFresh m = true
      · exact (hhandler h₁).trans ((ofInput_cells m₁).mono fun a _ ha => hspares hi hfresh a ha)
      · have hstale : ofInput m₁ = m₁ := if_neg hfresh
        rw [hstale]
        exact hhandler h₁
    · exact hhandler (h₁.trans (ofLobby_writes m₁))
    · exact hhandler (h₁.trans (ofStart_writes m₁))
    · exact hhandler (h₁.trans (ofPl_writes m₁))
    · exact (hhandler h₁).trans (hoff (ofRoom_offRing m₁))
    · exact hhandler (rsOnCrc_writes h₁)
    · exact hhandler (rsOnState_writes h₁)
    · exact hhandler (rsOnReq_writes h₁)
    · exact hhandler h₁
  · rintro ⟨l, hl, hoff, -⟩ hty hfresh a ha
    obtain ⟨l', hl', hcells⟩ := log_sesOnframe_input hty hfresh
    have hsame : l = l' := List.append_cancel_right (hl.symm.trans hl')
    have hmem : a ∈ l.map Prod.fst := by
      rw [hsame, hcells]
      exact List.mem_reverse.mpr ha
    obtain ⟨p, hp, rfl⟩ := List.mem_map.mp hmem
    exact hoff p hp

/-- A frame that spares the ring leaves the queue as it was. -/
theorem buffered_sesOnframe (h : Spares m) : buffered (sesOnframe m) = buffered m :=
  buffered_unread fun _ ha => ((spares_iff m).mp h).frame fun _ hno => hno ha

/-! ## What a pump reads -/

/-- The bytes that a pump appends to the queue. -/
def pumpGot (v : Arrival) (m : Machine) : List Nat :=
  let m := netStatus v.status v.avail v.code m
  if m.rd mbOk = 0 ∨ (m.rd navailHi = 0 ∧ m.rd navailLo = 0) then []
  else
    let r0 := if m.rd navailHi ≠ 0 then 64 else min (m.rd navailLo) 64
    let m := netRead v.read v.bytes.length ((m.wr nreqLo r0).wr nreqHi 0)
    (v.bytes.take (m.rd ngotLo)).map (· % 256)

/-- A prompt delivery is read whole. -/
theorem pumpGot_delivers {v : Arrival} {bytes : List Nat} (hv : v.Delivers bytes)
    (hroom : (buffered m).length + 64 < 256)
    (hgot : buffered (pumpRecv v m) = buffered m ++ pumpGot v m) :
    pumpGot v m = bytes.map (· % 256) :=
  List.append_cancel_left (hgot.symm.trans (buffered_pumpRecv hv hroom))

/-- Whatever the peripheral does, the pump appends what it got, and overwrites nothing. -/
theorem buffered_recv (v : Arrival) (hroom : (buffered m).length + v.bytes.length < 256) :
    buffered (pumpRecv v m) = buffered m ++ pumpGot v m := by
  have hstatus : buffered (netStatus v.status v.avail v.code m) = buffered m :=
    buffered_mail (netStatus_writes _ _ _ _)
  unfold pumpRecv pumpGot
  extract_lets m₁ r0 m₂ m₃
  split
  · rw [List.append_nil]
    exact hstatus
  · have hreq : buffered m₂ = buffered m₁ := by
      refine buffered_mail ((Writes.refl.wr ?_).wr ?_) <;> simp [Mail]
    have hread : buffered m₃ = buffered m := by
      rw [buffered_mail (netRead_writes _ _ _), hreq, hstatus]
    have hlength : (v.bytes.take (m₃.rd ngotLo)).length ≤ v.bytes.length := by
      rw [List.length_take]
      exact Nat.min_le_right _ _
    rw [buffered_ppCopy _ _ (by rw [hread]; omega), hread]

/-! ## The rounds of a pump -/

/-- What one round of the parser consumes. -/
inductive Eaten
  | slip (byte : Nat)
  /-- The frame in `FRMBUF` when it is dispatched. -/
  | frame (f : List Nat)
  deriving DecidableEq

/-- The bytes of it. -/
def Eaten.bytes : Eaten → List Nat
  | .slip b => [b]
  | .frame f => f

/-- What the round consumes that goes on with the machine. -/
def ppTake (m : Machine) : Eaten :=
  let r2 := m.rd (m.rd rxRd + rxAcc)
  let ty := m.rd ((m.rd rxRd + 1) % 256 + rxAcc)
  if headOk ty r2 then .frame ((ppLoad m).range frmBuf (r2 + 1)) else .slip r2

/-- What `ppRounds` consumes. -/
def ppEats : Nat → Machine → List Eaten
  | 0, _ => []
  | fuel + 1, m =>
    match ppParse m with
    | none => []
    | some m' => ppTake m :: ppEats fuel m'

/-- Every frame that the next rounds load satisfies `P` before it is handled. -/
def Loads (P : Machine → Prop) : Nat → Machine → Prop
  | 0, _ => True
  | fuel + 1, m =>
    match ppParse m with
    | none => True
    | some m' => (∀ f, ppTake m = .frame f → P (ppLoad m)) ∧ Loads P fuel m'

/-- A frame that was dispatched: admitted by `SES_FLEN`, and of 100 bytes at most. -/
structure Dispatchable (f : List Nat) : Prop where
  admitted : WellFormed headOk f
  short : f.length ≤ 100

/-- The parser waits on 99 bytes at most. -/
theorem buffered_wait (h : ppParse m = none) : (buffered m).length ≤ 99 := by
  rw [ppParse_eq] at h
  match hb : buffered m with
  | [] => exact Nat.zero_le _
  | [_] => exact Nat.le_add_left 1 98
  | len :: ty :: rest =>
      rw [hb] at h
      simp only [cut] at h
      split_ifs at h with hok hlong
      have hbound := headOk_bounds hok
      simp only [List.length_cons]
      omega

/-- The frame at the head is what the round consumes. -/
theorem ppTake_frame {f rest : List Nat} (h : cut headOk (buffered m) = .frame f rest) :
    ppTake m = .frame f := by
  obtain ⟨hbuf, hwf⟩ := cut_eq_frame headOk_zero h
  have hload := ppLoad_loaded h
  obtain ⟨len, ty, tail, rfl, hlen, hok⟩ := hwf.cases_eq
  have hhead : m.rd (m.rd rxRd + rxAcc) = len := buffered_head hbuf
  have hsecond : m.rd ((m.rd rxRd + 1) % 256 + rxAcc) = ty := buffered_second hbuf
  have hlength : len + 1 = (len :: ty :: tail).length := by
    simp only [List.length_cons]
    omega
  unfold ppTake
  dsimp only
  rw [hhead, hsecond, if_pos hok, hlength, hload.bytes]

/-- A head that `SES_FLEN` refuses is slipped. -/
theorem ppTake_slip {b c : Nat} {rest : List Nat} (hb : buffered m = b :: c :: rest)
    (hno : headOk c b = false) : ppTake m = .slip b := by
  have hlen : m.rd (m.rd rxRd + rxAcc) = b := buffered_head hb
  have hty : m.rd ((m.rd rxRd + 1) % 256 + rxAcc) = c := buffered_second hb
  unfold ppTake
  rw [hlen, hty]
  exact if_neg (Bool.eq_false_iff.mp hno)

/-- One round waits, slips, or dispatches the frame at the head. -/
theorem ppParse_round (hspares : ∀ f, ppTake m = .frame f → Spares (ppLoad m)) {m' : Machine}
    (h : ppParse m = some m') :
    buffered m = (ppTake m).bytes ++ buffered m' ∧ (ppTake m).bytes ≠ [] ∧
      ∀ f, ppTake m = .frame f → Dispatchable f := by
  rw [ppParse_eq] at h
  rcases hb : buffered m with _ | ⟨len, _ | ⟨ty, rest⟩⟩
  · rw [hb] at h
    exact absurd h (Option.some_ne_none m').symm
  · rw [hb] at h
    exact absurd h (Option.some_ne_none m').symm
  · next =>
      by_cases hok : headOk ty len = true
      · cases hcut : cut headOk (buffered m) with
        | wait =>
            rw [hcut] at h
            exact absurd h (Option.some_ne_none m').symm
        | slip =>
            rw [hb] at hcut
            simp only [cut] at hcut
            split_ifs at hcut
        | frame f tail =>
            rw [hcut] at h
            obtain rfl := Option.some.inj h
            obtain ⟨hbuf, hwf⟩ := cut_eq_frame headOk_zero hcut
            have htake := ppTake_frame hcut
            have hlong := hwf.long
            have hbound := headOk_bounds hwf.admitted
            have hlength := hwf.length_eq
            rw [htake, buffered_sesOnframe (hspares _ htake), (ppLoad_loaded hcut).queue, ← hb]
            refine ⟨hbuf, ?_, ?_⟩
            · exact List.ne_nil_of_length_pos (by show 0 < f.length; omega)
            · intro f' hf'
              obtain rfl := Eaten.frame.inj hf'
              exact ⟨hwf, by omega⟩
      · have htake : ppTake m = .slip len := ppTake_slip hb (Bool.eq_false_iff.mpr hok)
        have hcut : cut headOk (buffered m) = .slip := by
          rw [hb]
          exact if_neg hok
        rw [hcut] at h
        obtain rfl := Option.some.inj h
        rw [htake, buffered_ppSlip hb]
        exact ⟨rfl, List.cons_ne_nil _ _, fun _ hf => Eaten.noConfusion hf⟩

/-- The rounds end, and what they consume is what leaves the queue. -/
theorem ppRounds_safe (fuel : Nat) (hfuel : (buffered m).length < fuel)
    (hspares : Loads Spares fuel m) :
    buffered m = (ppEats fuel m).flatMap Eaten.bytes ++ buffered (ppRounds fuel m) ∧
      (∀ f, .frame f ∈ ppEats fuel m → Dispatchable f) ∧ ppParse (ppRounds fuel m) = none := by
  induction fuel generalizing m with
  | zero => exact absurd hfuel (Nat.not_lt_zero _)
  | succ fuel ih =>
      unfold ppEats ppRounds
      unfold Loads at hspares
      cases hround : ppParse m with
      | none => exact ⟨rfl, (fun _ hf => nomatch hf), hround⟩
      | some m' =>
          rw [hround] at hspares
          dsimp only at hspares ⊢
          obtain ⟨hbytes, hsome, hframe⟩ := ppParse_round hspares.1 hround
          have hless : (buffered m').length < fuel := by
            have hpos := List.length_pos_of_ne_nil hsome
            rw [hbytes, List.length_append] at hfuel
            omega
          obtain ⟨hrest, hframes, hdone⟩ := ih hless hspares.2
          refine ⟨?_, ?_, hdone⟩
          · rw [List.flatMap_cons, List.append_assoc, ← hrest]
            exact hbytes
          · intro f hf
            rcases List.mem_cons.mp hf with hf | hf
            · exact hframe f hf.symm
            · exact hframes f hf

/-! ## Whole streams -/

/-- Pumps on a byte stream, with anything that leaves the ring alone between them: `s` is
what was read and `es` what was consumed. `P` is asked of every frame that is dispatched. -/
inductive Feed (P : Machine → Prop) : Machine → List Nat → List Eaten → Machine → Prop
  | start (m : Machine) : Feed P m [] [] m
  | pump {m m' : Machine} {s : List Nat} {es : List Eaten} (v : Arrival) :
      Feed P m s es m' → v.bytes.length ≤ 64 → Loads P 256 (pumpRecv v m') →
      Feed P m (s ++ pumpGot v m') (es ++ ppEats 256 (pumpRecv v m')) (sesPump v m')
  | other {m m' m'' : Machine} {s : List Nat} {es : List Eaten} :
      Feed P m s es m' → (∀ a, RxCell a → m''.rd a = m'.rd a) → Feed P m s es m''

/-- The parser is safe after `s` was read and `es` consumed. -/
structure SafeAt (s : List Nat) (es : List Eaten) (m : Machine) : Prop where
  /-- Every byte is consumed once, in order, or still waits. -/
  once : s = es.flatMap Eaten.bytes ++ buffered m
  frames : ∀ f, .frame f ∈ es → Dispatchable f
  short : (buffered m).length ≤ 99

/-- In a run that spares the ring, every pump ends, appends without overwriting, and leaves
the parser safe. -/
theorem stream_safe {s : List Nat} {es : List Eaten} (hrun : Feed Spares m s es m')
    (hempty : buffered m = []) :
    SafeAt s es m' ∧ ∀ v : Arrival, v.bytes.length ≤ 64 → Loads Spares 256 (pumpRecv v m') →
      buffered (pumpRecv v m') = buffered m' ++ pumpGot v m' ∧ ppParse (sesPump v m') = none := by
  have hpump : ∀ {s : List Nat} {es : List Eaten} {m : Machine}, SafeAt s es m →
      ∀ v : Arrival, v.bytes.length ≤ 64 → Loads Spares 256 (pumpRecv v m) →
      buffered (pumpRecv v m) = buffered m ++ pumpGot v m ∧ ppParse (sesPump v m) = none ∧
        SafeAt (s ++ pumpGot v m) (es ++ ppEats 256 (pumpRecv v m)) (sesPump v m) := by
    intro s es m h v hv hspares
    have hshort := h.short
    have hgot := buffered_recv (m := m) v (by omega)
    have hfuel : (buffered (pumpRecv v m)).length < 256 := buffered_length_lt _
    obtain ⟨hbytes, hframes, hdone⟩ := ppRounds_safe 256 hfuel hspares
    refine ⟨hgot, hdone, ?_, ?_, buffered_wait hdone⟩
    · have hstream : buffered m ++ pumpGot v m =
          (ppEats 256 (pumpRecv v m)).flatMap Eaten.bytes ++ buffered (sesPump v m) :=
        hgot.symm.trans hbytes
      rw [List.flatMap_append, List.append_assoc, ← hstream, ← List.append_assoc, ← h.once]
    · intro f hf
      rcases List.mem_append.mp hf with hf | hf
      · exact h.frames f hf
      · exact hframes f hf
  have hsafe : SafeAt s es m' := by
    induction hrun with
    | start => exact ⟨by rw [hempty]; rfl, (fun _ hf => nomatch hf), by rw [hempty]; decide⟩
    | pump v _ hv hspares ih => exact (hpump ih v hv hspares).2.2
    | other _ hsame ih =>
        have hbuf := buffered_congr hsame
        exact ⟨by rw [hbuf]; exact ih.once, ih.frames, by rw [hbuf]; exact ih.short⟩
  exact ⟨hsafe, fun v hv hspares => ⟨(hpump hsafe v hv hspares).1, (hpump hsafe v hv hspares).2.1⟩⟩

/-- What the rounds of a pump come to. -/
structure Rounds (P : Machine → Prop) (fuel : Nat) (m m' : Machine) (es : List Eaten) : Prop where
  loads : Loads P fuel m
  eats : ppEats fuel m = es
  ends : ppRounds fuel m = m'

section

variable {P : Machine → Prop} {fuel : Nat} {es : List Eaten}

theorem Rounds.wait (h : cut headOk (buffered m) = .wait) : Rounds P (fuel + 1) m m [] := by
  have hround : ppParse m = none := by rw [ppParse_eq, h]
  constructor
  · unfold Loads
    rw [hround]
    trivial
  · unfold ppEats
    rw [hround]
  · unfold ppRounds
    rw [hround]

theorem Rounds.cons {m₁ : Machine} (hround : ppParse m = some m₁)
    (hP : ∀ f, ppTake m = .frame f → P (ppLoad m)) (h : Rounds P fuel m₁ m' es) :
    Rounds P (fuel + 1) m m' (ppTake m :: es) := by
  obtain ⟨hloads, heats, hends⟩ := h
  constructor
  · unfold Loads
    rw [hround]
    exact ⟨hP, hloads⟩
  · unfold ppEats
    rw [hround, ← heats]
  · unfold ppRounds
    rw [hround, ← hends]

theorem Rounds.slip {b c : Nat} {rest : List Nat} (hb : buffered m = b :: c :: rest)
    (hno : headOk c b = false) (h : Rounds P fuel (ppSlip m) m' es) :
    Rounds P (fuel + 1) m m' (.slip b :: es) := by
  have htake : ppTake m = .slip b := ppTake_slip hb hno
  have hcut : cut headOk (buffered m) = .slip := by
    rw [hb]
    exact if_neg (Bool.eq_false_iff.mp hno)
  rw [← htake]
  refine .cons (by rw [ppParse_eq, hcut]) (fun f hf => ?_) h
  exact Eaten.noConfusion (htake.symm.trans hf)

theorem Rounds.frame {f rest : List Nat} (hcut : cut headOk (buffered m) = .frame f rest)
    (hP : P (ppLoad m)) (h : Rounds P fuel (sesOnframe (ppLoad m)) m' es) :
    Rounds P (fuel + 1) m m' (.frame f :: es) := by
  rw [← ppTake_frame hcut]
  exact .cons (by rw [ppParse_eq, hcut]) (fun _ _ => hP) h

end

/-- What a blank console reads in one pump. -/
theorem buffered_blank {f : List Nat} (hlen : f.length ≤ 64) (hbytes : f.map (· % 256) = f) :
    buffered (pumpRecv (Arrival.of f) blank) = f ∧ pumpGot (Arrival.of f) blank = f := by
  have hgot := buffered_recv (m := blank) (Arrival.of f) (by
    have hempty : (buffered blank).length = 0 := rfl
    have hshort : (Arrival.of f).bytes.length ≤ 64 := hlen
    omega)
  have hall := pumpGot_delivers (Arrival.of_delivers hlen) (by decide) hgot
  rw [hbytes] at hall
  rw [hall] at hgot
  exact ⟨hgot, hall⟩

/-- One pump of a blank console. -/
theorem feed_blank {P : Machine → Prop} {f : List Nat} {es : List Eaten} (hlen : f.length ≤ 64)
    (hbytes : f.map (· % 256) = f) (h : Rounds P 256 (pumpRecv (Arrival.of f) blank) m' es) :
    Feed P blank f es m' := by
  obtain ⟨hloads, rfl, rfl⟩ := h
  have hrun := Feed.pump (Arrival.of f) (Feed.start (P := P) (m := blank)) hlen hloads
  rw [(buffered_blank hlen hbytes).2] at hrun
  exact hrun

/-- A frame that indexes nothing out of bounds spares the ring. -/
theorem Tame.spares (h : Tame m) (hlobby : m.rd lobbyCnt ≤ 8) : Spares m :=
  (spares_iff m).mpr ((sesOnframe_writes h hlobby).mono fun _ _ hv hunread =>
    offRing_of_handler hv hunread.rxCell)

/-- A START at the head: it is dispatched, and leaves the rest of the queue. -/
theorem after_start {f rest : List Nat} (hcut : cut headOk (buffered m) = .frame f rest)
    (hty : f.getD 1 0 = ftStart) (hlen : f.length = 39) :
    Spares (ppLoad m) ∧ sesOnframe (ppLoad m) = ofStart (logHandled (ppLoad m)) ∧
      buffered (sesOnframe (ppLoad m)) = rest ∧
      (sesOnframe (ppLoad m)).view = m.view.onStart (f.getD 2 0) (f.getD 3 0) (f.getD 6 0) := by
  have hload := ppLoad_loaded hcut
  have hcell : (ppLoad m).rd (frmBuf + 1) = ftStart := by
    rw [hload.inBuf.getD (by omega), hty]
  have hspares : Spares (ppLoad m) := by
    intro hinput
    rw [hcell] at hinput
    exact absurd hinput (by decide)
  have hframe := sesOnframe_start hcell
  refine ⟨hspares, hframe, ?_, ?_⟩
  · rw [buffered_sesOnframe hspares, hload.queue]
  · rw [hframe, view_ofStart hload.inBuf.logHandled hlen, view_logHandled, hload.view]

/-- A START, a byte of noise, and the first INPUT of the other seat. -/
def duelBytes : List Nat := startOf ++ 0 :: inputFrame 1 2 (17, 0)

/-- The INPUT is the first that the START leaves open. -/
theorem first_stored (v : View) : ((v.onStart 0 2 2).onInput 1 2 (17, 0)).ring 1 2 = 17 := by
  have hfresh : (v.onStart 0 2 2).fresh 1 2 = true := by
    simp [View.fresh, View.delta, View.onStart, View.markAll]
  unfold View.onInput
  rw [if_pos hfresh]
  simp [View.put, View.mark]

/-- A console that starts, slips once and stores the INPUT. -/
theorem stream_safe_stored :
    SafeAt duelBytes [.frame startOf, .slip 0, .frame (inputFrame 1 2 (17, 0))]
        (sesPump (Arrival.of duelBytes) blank) ∧
      (sesPump (Arrival.of duelBytes) blank).view.ring 1 2 = 17 := by
  have hbuf := (buffered_blank (f := duelBytes) (by decide) (by decide)).1
  have hlobby₀ : (pumpRecv (Arrival.of duelBytes) blank).rd lobbyCnt ≤ 8 := by
    rw [(pumpRecv_writes _ _).frame fun v => by simp [RecvCell, Mail]]
    decide
  generalize hm₀ : pumpRecv (Arrival.of duelBytes) blank = m₀ at hbuf hlobby₀
  have hcut₀ : cut headOk (buffered m₀) = .frame startOf (0 :: inputFrame 1 2 (17, 0)) := by
    rw [hbuf]
    decide
  obtain ⟨hspares₀, -, hbuf₁, hview₁⟩ := after_start hcut₀ rfl rfl
  have hlobby₁ : (sesOnframe (ppLoad m₀)).rd lobbyCnt ≤ 8 := by
    have hload := ppLoad_loaded hcut₀
    have hcell : (ppLoad m₀).rd (frmBuf + 1) = ftStart := hload.rd (i := 1) (by decide)
    have hkept : (ppLoad m₀).rd lobbyCnt ≤ 8 := by
      rw [hload.frame _ (by decide) (by decide)]
      exact hlobby₀
    have htame : Tame (ppLoad m₀) := by
      constructor
      · rw [hcell]
        exact fun h => absurd h (by decide)
      · rw [hcell]
        exact fun h => absurd h (by decide)
    exact lobbyCnt_keeps (sesOnframe_writes htame hkept) hkept
  generalize hm₁ : sesOnframe (ppLoad m₀) = m₁ at hbuf₁ hview₁ hlobby₁
  have hbuf₂ : buffered (ppSlip m₁) = inputFrame 1 2 (17, 0) := buffered_ppSlip hbuf₁
  have hview₂ : (ppSlip m₁).view = m₀.view.onStart 0 2 2 := by
    rw [view_ppSlip, hview₁]
    rfl
  have hlobby₂ : (ppSlip m₁).rd lobbyCnt ≤ 8 := by
    rw [(ppSlip_writes m₁).frame fun _ => by simp]
    exact hlobby₁
  generalize hm₂ : ppSlip m₁ = m₂ at hbuf₂ hview₂ hlobby₂
  have hcut₂ : cut headOk (buffered m₂) = .frame (inputFrame 1 2 (17, 0)) [] := by
    rw [hbuf₂]
    decide
  have hload := ppLoad_loaded hcut₂
  have hcount : (ppLoad m₂).view.count = 2 := by
    rw [hload.view, hview₂]
    rfl
  have hspares₂ : Spares (ppLoad m₂) := by
    refine Tame.spares ⟨fun _ _ => ?_, fun hroom => ?_⟩ ?_
    · rw [hload.rd (i := 2) (by decide)]
      decide
    · rw [hload.rd (i := 1) (by decide)] at hroom
      exact absurd hroom (by decide)
    · rw [hload.frame _ (by decide) (by decide)]
      exact hlobby₂
  have hty : (ppLoad m₂).rd (frmBuf + 1) = ftInput := hload.rd (i := 1) (by decide)
  have hring : (sesOnframe (ppLoad m₂)).view.ring 1 2 = 17 := by
    rw [sesOnframe_input hty, view_ofInput hload.inBuf.logHandled (by
      show (ppLoad m₂).view.count ≤ 4
      rw [hcount]
      decide), view_logHandled, hload.view, hview₂]
    exact first_stored m₀.view
  have hwait : cut headOk (buffered (sesOnframe (ppLoad m₂))) = .wait := by
    rw [buffered_sesOnframe hspares₂, hload.queue]
    rfl
  have hrounds : Rounds Spares 256 m₀ (sesOnframe (ppLoad m₂))
      [.frame startOf, .slip 0, .frame (inputFrame 1 2 (17, 0))] := by
    refine .frame hcut₀ hspares₀ ?_
    rw [hm₁]
    refine .slip hbuf₁ rfl ?_
    rw [hm₂]
    exact .frame hcut₂ hspares₂ (.wait hwait)
  have hpump : sesPump (Arrival.of duelBytes) blank = sesOnframe (ppLoad m₂) := by
    unfold sesPump
    rw [hm₀, hrounds.ends]
  have hrun := feed_blank (f := duelBytes) (by decide) (by decide) (by rw [hm₀]; exact hrounds)
  rw [hpump]
  exact ⟨(stream_safe hrun rfl).1, hring⟩

/-! ## An INPUT that is stored over an unread byte -/

/-- START of seat 0 in a match of 255, with an empty roster. -/
def hugeStart : List Nat := [38, ftStart, 0, 255, 1, 0, 2] ++ List.replicate 32 0

/-- INPUT of seat 254 for tick 46. -/
def farInput : List Nat := [6, ftInput, 254, 46, 0, 17, 0]

/-- The two frames and the first byte of a third. -/
def hostileBytes : List Nat := hugeStart ++ farInput ++ [1]

/-- START leaves the lobby cache alone. -/
theorem ofStart_cache (m : Machine) {b : Nat} (hb : 0x8380 ≤ b ∧ b ≤ 0x83FF) :
    (ofStart m).rd b = m.rd b := by
  have hbase : ∀ v, ¬ BaseCell b v := by
    intro v
    simp only [BaseCell, tickLo, tickHi, resyncHold, rsToLo, rsToHi, lsWaitcLo, lsWaitcHi]
    omega
  unfold ofStart
  split
  · rfl
  extract_lets m₁ m₂ m₃ m₄ m₅ m₆ m₇ m₈ m₉
  have h₅ : m₅.rd b = m.rd b := by
    have hne : b ≠ netSeat ∧ b ≠ netCount ∧ b ≠ rngLo ∧ b ≠ rngHi ∧ b ≠ netDelay := by
      simp only [netSeat, netCount, rngLo, rngHi, netDelay]
      omega
    rw [rd_wr, if_neg hne.2.2.2.2, rd_wr, if_neg hne.2.2.2.1, rd_wr, if_neg hne.2.2.1, rd_wr,
      if_neg hne.2.1, rd_wr, if_neg hne.1]
  have h₆ : m₆.rd b = m₅.rd b := sesCproster_frame m₅ (Or.inr (by simp only [nameTbl]; omega))
  have h₈ : m₈.rd b = m₆.rd b := by
    have hw : Writes BaseCell m₆ m₈ :=
      ((lsRingInit_base m₆).trans (rsClrCrc_base _)).trans
        (putWm_base (Nat.le_refl _) (by decide) _)
    exact hw.frame hbase
  have hne : b ≠ tickLo ∧ b ≠ tickHi ∧ b ≠ netActive := by
    simp only [tickLo, tickHi, netActive]
    omega
  rw [rd_wr, if_neg hne.2.2, rd_wr, if_neg hne.2.1, rd_wr, if_neg hne.1, h₈, h₆, h₅]

/-- The machine after the START of the hostile bytes. -/
theorem after_hugeStart (hcut : cut headOk (buffered m) = .frame hugeStart (farInput ++ [1])) :
    let m' := sesOnframe (ppLoad m)
    buffered m' = farInput ++ [1] ∧ m'.rd rxWr = m.rd rxWr ∧ m'.rd netSeat = 0 ∧
      m'.rd netCount = 255 ∧ ∀ b, 0x8380 ≤ b → b ≤ 0x83FF → m'.rd b = m.rd b := by
  have hload := ppLoad_loaded hcut
  obtain ⟨hspares, hframe, hbuf, hview⟩ := after_start hcut rfl rfl
  refine ⟨hbuf, ?_, congrArg View.seat hview, congrArg View.count hview, ?_⟩
  · have hkept := ((spares_iff _).mp hspares).frame (b := rxWr) fun _ hno => hno (Or.inl rfl)
    rw [hkept, hload.frame _ (by decide) (by decide)]
  · intro b hlo hhi
    rw [hframe, ofStart_cache _ ⟨hlo, hhi⟩, rd_logHandled, hload.frame]
    · simp only [rxRd]
      omega
    · omega

/-- The far INPUT is stored over the byte that waits behind it. -/
theorem after_farInput (hcut : cut headOk (buffered m) = .frame farInput [1])
    (hwr : m.rd rxWr = 47) (hseat : m.rd netSeat = 0) (hcount : m.rd netCount = 255)
    (hlo : m.rd 0x839C = 0) (hhi : m.rd 0x839D = 0) :
    buffered (sesOnframe (ppLoad m)) = [17] := by
  have hload := ppLoad_loaded hcut
  have hty : (ppLoad m).rd (frmBuf + 1) = ftInput := hload.rd (i := 1) (by decide)
  have hframe : sesOnframe (ppLoad m) = ofInput (logHandled (ppLoad m)) := sesOnframe_input hty
  rw [hframe]
  have hqueue : buffered (logHandled (ppLoad m)) = [1] := hload.queue
  have hcell : ∀ b, b ≠ rxRd → ¬ (0x8300 ≤ b ∧ b ≤ 0x837F) → (logHandled (ppLoad m)).rd b = m.rd b :=
    hload.frame
  have h0 : (logHandled (ppLoad m)).rd frmBuf = 6 := hload.rd (i := 0) (by decide)
  have h2 : (logHandled (ppLoad m)).rd (frmBuf + 2) = 254 := hload.rd (i := 2) (by decide)
  have h3 : (logHandled (ppLoad m)).rd (frmBuf + 3) = 46 := hload.rd (i := 3) (by decide)
  have h4 : (logHandled (ppLoad m)).rd (frmBuf + 4) = 0 := hload.rd (i := 4) (by decide)
  have h5 : (logHandled (ppLoad m)).rd (frmBuf + 5) = 17 := hload.rd (i := 5) (by decide)
  generalize logHandled (ppLoad m) = k at *
  have hwr' : k.rd rxWr = 47 := (hcell _ (by decide) (by decide)).trans hwr
  have hrd' : k.rd rxRd = 46 := by
    have hlength := buffered_length k
    have hlt := rxRd_lt k
    rw [hqueue, hwr', List.length_singleton] at hlength
    omega
  have hfresh : inputFresh k = true := by
    have hmark : k.rd (seatWm + 254 * 2) = 0 := (hcell _ (by decide) (by decide)).trans hlo
    have hmark' : k.rd (seatWm + 254 * 2 + 1) = 0 := (hcell _ (by decide) (by decide)).trans hhi
    have hdelta : inputDelta k = 46 := by
      unfold inputDelta
      dsimp only
      rw [h2]
      simp only [Machine.pair]
      rw [h3, h4, hmark, hmark']
    unfold inputFresh
    rw [hdelta, h0, h2, hcell netSeat (by decide) (by decide), hseat,
      hcell netCount (by decide) (by decide), hcount]
    decide
  unfold ofInput
  rw [if_pos hfresh, h2, h3]
  extract_lets r3 r4 m₁ m₂
  have hr3 : r3 = 0x839C := rfl
  have hr4 : r4 = 0x822E := rfl
  have hkept : ∀ b, b ≠ 0x839D → b ≠ 0x839C → b ≠ 0x862E →
      ((m₂.wr r3 (m₂.rd (frmBuf + 3))).wr (r3 + 1) (m₂.rd (frmBuf + 4))).rd b = m₁.rd b := by
    intro b hb₁ hb₂ hb₃
    rw [rd_wr, if_neg (by rw [hr3]; exact hb₁), rd_wr, if_neg (by rw [hr3]; exact hb₂), rd_wr,
      if_neg (by rw [hr4]; exact hb₃)]
  have hmark : ((m₂.wr r3 (m₂.rd (frmBuf + 3))).wr (r3 + 1) (m₂.rd (frmBuf + 4))).rd 0x822E = 17 := by
    rw [hkept _ (by decide) (by decide) (by decide), ← hr4, rd_wr, if_pos rfl, h5, hr4]
    rfl
  have hpointer : ∀ b, b = rxWr ∨ b = rxRd →
      ((m₂.wr r3 (m₂.rd (frmBuf + 3))).wr (r3 + 1) (m₂.rd (frmBuf + 4))).rd b = k.rd b := by
    intro b hb
    have hne : b ≠ 0x839D ∧ b ≠ 0x839C ∧ b ≠ 0x862E ∧ b ≠ 0x822E := by
      simp only [rxWr, rxRd] at hb
      omega
    rw [hkept b hne.1 hne.2.1 hne.2.2.1, rd_wr, if_neg (by rw [hr4]; exact hne.2.2.2)]
  generalize (m₂.wr r3 (m₂.rd (frmBuf + 3))).wr (r3 + 1) (m₂.rd (frmBuf + 4)) = k' at hmark hpointer ⊢
  have hlength : (buffered k').length = 1 := by
    rw [buffered_length, hpointer _ (Or.inl rfl), hpointer _ (Or.inr rfl), hwr', hrd']
  obtain ⟨b, hb⟩ := List.length_eq_one_iff.mp hlength
  have hhead := buffered_head hb
  rw [hpointer _ (Or.inr rfl), hrd'] at hhead
  rw [hb, ← hhead]
  exact congrArg (fun v => [v]) hmark

/-- The parser is not safe on every stream. -/
theorem stream_not_safe : ¬ ∀ (m m' : Machine) (s : List Nat) (es : List Eaten),
    Feed (fun _ => True) m s es m' → buffered m = [] → SafeAt s es m' := by
  intro hall
  have h47 : hostileBytes.length = 47 := by decide
  have hbuf := (buffered_blank (f := hostileBytes) (by decide) (by decide)).1
  generalize hm₀ : pumpRecv (Arrival.of hostileBytes) blank = m₀ at hbuf
  have hblank : ∀ b, (∀ v, ¬ RecvCell b v) → m₀.rd b = 0 := by
    intro b hb
    rw [← hm₀]
    exact (pumpRecv_writes _ _).frame hb
  have hrd₀ : m₀.rd rxRd = 0 := hblank _ (by simp [RecvCell, Mail])
  have hwr₀ : m₀.rd rxWr = 47 := by
    have hlength := buffered_length m₀
    have hlt := rxWr_lt m₀
    rw [hbuf, hrd₀] at hlength
    omega
  have hcut₀ : cut headOk (buffered m₀) = .frame hugeStart (farInput ++ [1]) := by
    rw [hbuf]
    decide
  obtain ⟨hbuf₁, hwr₁, hseat₁, hcount₁, hcache₁⟩ := after_hugeStart hcut₀
  generalize hm₁ : sesOnframe (ppLoad m₀) = m₁ at hbuf₁ hwr₁ hseat₁ hcount₁ hcache₁
  have hcut₁ : cut headOk (buffered m₁) = .frame farInput [1] := by
    rw [hbuf₁]
    decide
  have hcache : ∀ b, 0x8380 ≤ b → b ≤ 0x83FF → m₁.rd b = 0 := by
    intro b hlo hhi
    rw [hcache₁ b hlo hhi]
    refine hblank b fun v => ?_
    simp only [RecvCell, Mail, rxWr]
    omega
  have hbuf₂ := after_farInput hcut₁ (hwr₁.trans hwr₀) hseat₁ hcount₁
    (hcache _ (by decide) (by decide)) (hcache _ (by decide) (by decide))
  have hrounds : Rounds (fun _ => True) 256 m₀ (sesOnframe (ppLoad m₁))
      [.frame hugeStart, .frame farInput] := by
    refine .frame hcut₀ trivial ?_
    rw [hm₁]
    refine .frame hcut₁ trivial (.wait ?_)
    rw [hbuf₂]
    rfl
  have hrun := feed_blank (Nat.le_trans (Nat.le_of_eq h47) (by decide)) (by decide)
    (by rw [hm₀]; exact hrounds)
  have hempty : buffered blank = [] := rfl
  have honce := (hall _ _ _ _ hrun hempty).once
  rw [hbuf₂] at honce
  have hlast := congrArg List.getLast? honce
  rw [List.getLast?_concat] at hlast
  exact absurd hlast (by decide)

end SharkNetplay.Console
