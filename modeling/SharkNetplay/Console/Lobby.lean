import SharkNetplay.Lib.Run
import SharkNetplay.Console.Confinement
import SharkNetplay.Console.Handlers

/-!
# The frames of the server

LOBBY, ROOM, PEER_LEFT, PONG and START, and what each does to the view; then the lobby
phase of a session, from `NET_START` to START.

## Implementation notes

The lobby loop of `SES_MAIN` (menu, screens, its own requests) is any work that leaves
the cells of the match alone: it writes the screen, the menu cells and the mailbox.
-/

namespace SharkNetplay.Console

open Lib Lib.Framing Cell Machine

variable {m m' : Machine} {f : List Nat}

/-! ## LOBBY and ROOM -/

/-- What the handlers of LOBBY and ROOM write. -/
def LobbyCell (a v : Nat) : Prop :=
  Screen a v ∨ (a = lobbyCnt ∧ v ≤ 8) ∨ a = menuSel ∨ (0x8380 ≤ a ∧ a ≤ 0x83FF) ∨
    a = roomCnt ∨ a = roomHost ∨ (0x81C0 ≤ a ∧ a ≤ 0x81E3)

theorem lobby_of_screen (h : Writes Screen m m') : Writes LobbyCell m m' :=
  h.mono fun _ _ => Or.inl

theorem view_lobby (h : Writes LobbyCell m m') : m'.view = m.view := by
  refine view_writes h fun a v hv => ?_
  simp only [LobbyCell, Screen, ViewCell, uiColor, ppTmp, lobbyCnt, menuSel, roomCnt, roomHost] at *
  omega

theorem lobbyCnt_lobby (h : Writes LobbyCell m m') (hm : m.rd lobbyCnt ≤ 8) :
    m'.rd lobbyCnt ≤ 8 := by
  refine h.keeps (P := fun v => v ≤ 8) (fun v hv => ?_) hm
  rcases hv with hv | ⟨-, hv⟩ | hv | hv | hv | hv | hv
  · simp [Screen] at hv
  · exact Nat.le_trans (Nat.mod_le _ _) hv
  · exact absurd hv (by decide)
  · simp only [lobbyCnt] at hv
    omega
  · exact absurd hv (by decide)
  · exact absurd hv (by decide)
  · simp only [lobbyCnt] at hv
    omega

theorem ofLobby_lobby (m : Machine) : Writes LobbyCell m (ofLobby m) := by
  unfold ofLobby
  split
  · exact .refl
  extract_lets r2 m₁ m₂ m₃
  split
  · exact .refl
  have hr2 : r2 ≤ 8 := Nat.min_le_right _ _
  have h₁ : Writes LobbyCell m m₁ := .wr .refl (Or.inr (Or.inl ⟨rfl, hr2⟩))
  have hcnt₁ : m₁.rd lobbyCnt ≤ 8 := by
    rw [rd_wr, if_pos rfl]
    exact Nat.le_trans (Nat.mod_le _ _) hr2
  have h₂ : Writes LobbyCell m₁ m₂ := by
    show Writes LobbyCell m₁ (ite _ _ _)
    split
    · exact .refl
    · exact .wr .refl (Or.inr (Or.inr (Or.inl rfl)))
  have h₃ : Writes LobbyCell m₁ m₃ := by
    refine h₂.copy fun i hi v => ?_
    simp only [LobbyCell, lobbyCache]
    omega
  split
  · exact h₁.trans h₃
  · exact (h₁.trans h₃).trans (lobby_of_screen (sesRender_writes (lobbyCnt_lobby h₃ hcnt₁)))

theorem ofRoom_lobby (hcount : 34 ≤ m.rd frmBuf → m.rd (frmBuf + 2) ≤ 9)
    (hl : m.rd lobbyCnt ≤ 8) : Writes LobbyCell m (ofRoom m) := by
  unfold ofRoom
  split
  · exact .refl
  next hgo =>
    have hact : m.rd netActive = 0 := by omega
    have hc : m.rd (frmBuf + 2) ≤ 9 := hcount (by omega)
    extract_lets m₁ m₂ m₃ m₄
    have h₁ : Writes LobbyCell m m₁ := .wr .refl (by simp [LobbyCell])
    have hcnt₁ : m₁.rd roomCnt ≤ 9 := by
      rw [rd_wr, if_pos rfl]
      exact Nat.le_trans (Nat.mod_le _ _) hc
    split
    · have h₃ : Writes LobbyCell m m₃ := by
        refine (h₁.trans ((sesCproster_names _ m₁).mono fun a v hv => ?_)).wr (by simp [LobbyCell])
        exact Or.inr (Or.inr (Or.inr (Or.inr (Or.inr (Or.inr hv)))))
      have hcnt₃ : m₃.rd roomCnt ≤ 9 := by
        rw [rd_wr, if_neg (by decide), sesCproster_frame _ (by decide)]
        exact hcnt₁
      have hact₃ : m₃.rd netActive = 0 := by
        rw [rd_wr, if_neg (by decide), sesCproster_frame _ (by decide), rd_wr, if_neg (by decide)]
        exact hact
      exact h₃.trans (lobby_of_screen (sesRoomscr_writes hact₃ hcnt₃))
    · have h₄ : Writes LobbyCell m m₄ := by
        refine (h₁.wr ?_).wr ?_ <;> simp [LobbyCell]
      have h₅ : Writes LobbyCell m (uiPrint 0 strTitle (uiCls m₄)) :=
        h₄.trans (lobby_of_screen (uiPrint_writes (by decide) (uiCls_writes .refl)))
      exact h₅.trans (lobby_of_screen (sesRender_writes (lobbyCnt_lobby h₅ hl)))

/-! ## START and PEER_LEFT -/

namespace View

/-- START: the baseline of a match. -/
def onStart (seat count delay : Nat) (v : View) : View :=
  { (v.idle.clear).markAll ((delay + 65535) % 65536 % 256) with
    seat := seat, count := count, delay := delay, tick := 0 }

end View

theorem view_names (src : Nat) (m : Machine) : (sesCproster src m).view = m.view := by
  refine view_writes (sesCproster_names src m) fun a v hv => ?_
  simp only [ViewCell]
  omega

@[simp] theorem view_wr_seat (v : Nat) (m : Machine) :
    (m.wr netSeat v).view = { m.view with seat := v % 256 } := by
  rw [view_wr_single _ (by simp)]
  simp [Machine.view, Machine.pair, cellWidth]

@[simp] theorem view_wr_count (v : Nat) (m : Machine) :
    (m.wr netCount v).view = { m.view with count := v % 256 } := by
  rw [view_wr_single _ (by simp)]
  simp [Machine.view, Machine.pair, cellWidth]

@[simp] theorem view_wr_delay (v : Nat) (m : Machine) :
    (m.wr netDelay v).view = { m.view with delay := v % 256 } := by
  rw [view_wr_single _ (by simp)]
  simp [Machine.view, Machine.pair, cellWidth]

/-- `@@of_start`. -/
theorem view_ofStart (h : InBuf f m) (hlen : f.length = 39) :
    (ofStart m).view = m.view.onStart (f.getD 2 0) (f.getD 3 0) (f.getD 6 0) := by
  have hcell : ∀ i < 39, m.rd (frmBuf + i) = f.getD i 0 := by
    intro i hi
    rw [h.cell i (by omega), List.getD_eq_getElem]
  have hbyte : ∀ i < 39, f.getD i 0 < 256 := by
    intro i hi
    rw [← hcell i hi]
    exact m.rd_byte (cellWidth_cart (by simp only [frmBuf]; omega) (by simp only [frmBuf]; omega))
  have h0 : m.rd frmBuf = 38 := by
    have := h.len
    omega
  unfold ofStart
  rw [h0, if_neg (by decide)]
  extract_lets m₁ m₂ m₃ m₄ m₅ m₆ m₇ m₈ m₉
  have h₁ : m₁.rd (frmBuf + 3) = f.getD 3 0 := by
    rw [← hcell 3 (by decide)]
    exact (rd_wr _ _ _ _).trans (if_neg (by decide))
  have h₄ : m₄.rd (frmBuf + 6) = f.getD 6 0 := by
    rw [← hcell 6 (by decide)]
    simp [m₄, m₃, m₂, m₁]
  have hview₄ : m₄.view = { m.view with seat := f.getD 2 0, count := f.getD 3 0 } := by
    show ((m₂.wr rngLo _).wr rngHi _).view = _
    rw [view_wr (by simp [ViewCell]), view_wr (by simp [ViewCell])]
    show (m₁.wr netCount (m₁.rd (frmBuf + 3))).view = _
    rw [h₁, view_wr_count, Nat.mod_eq_of_lt (hbyte 3 (by decide))]
    have hseat : m₁.view = { m.view with seat := f.getD 2 0 } := by
      show (m.wr netSeat (m.rd (frmBuf + 2))).view = _
      rw [hcell 2 (by decide), view_wr_seat, Nat.mod_eq_of_lt (hbyte 2 (by decide))]
    rw [hseat]
  have hview₅ : m₅.view =
      { m.view with seat := f.getD 2 0, count := f.getD 3 0, delay := f.getD 6 0 } := by
    show (m₄.wr netDelay (m₄.rd (frmBuf + 6))).view = _
    rw [h₄, view_wr_delay, Nat.mod_eq_of_lt (hbyte 6 (by decide)), hview₄]
  have hview₇ : m₇.view = (m₅.view.idle).clear := by
    show (rsClrCrc (lsRingInit (sesCproster (frmBuf + 7) m₅))).view = _
    rw [view_rsClrCrc, view_lsRingInit, view_names]
  have hdelay : m₇.rd netDelay = f.getD 6 0 := by
    have h : m₇.view.delay = f.getD 6 0 := by
      rw [hview₇, hview₅]
      rfl
    exact h
  have hview₈ : m₈.view = (m₇.view).markAll ((f.getD 6 0 + 65535) % 65536 % 256) := by
    show (putWm seatWm 4 ((m₇.rd netDelay + 65535) % 65536) 0 m₇).view = _
    rw [view_putWm, hdelay, Nat.zero_mod, Nat.zero_mul, Nat.zero_add]
  have hview₉ : m₉.view = { m₈.view with tick := 0 } := by
    show ((m₈.wr tickLo 0).wr tickHi 0).view = _
    rw [view_wr_tick]
  rw [view_wr (by simp [ViewCell]), hview₉, hview₈, hview₇, hview₅]
  generalize m.view = v
  rfl

/-- `@@of_pl`. -/
theorem view_ofPl (m : Machine) : (ofPl m).view = m.view.giveUp := by
  unfold ofPl
  extract_lets m₀ m₁
  have h₁ : m₁.view = m.view := by
    show (ite _ _ _ : Machine).view = _
    split
    · rfl
    · rw [view_wr (by simp [ViewCell])]
      have hcopy : Writes (fun a _ => 0x81B0 ≤ a ∧ a ≤ 0x81B7) m₀ (m₀.copy (frmBuf + 3) leftName 8) := by
        refine .copy .refl fun i hi v => ?_
        simp only [leftName]
        omega
      rw [view_writes hcopy fun a v hv => by simp only [ViewCell]; omega]
      exact view_wr (by simp [ViewCell])
  rw [view_lsIdleRmt, view_wr_dropped, view_wr (by simp [ViewCell]), h₁]
  generalize m.view = v
  rfl

/-! ## Any frame of the server -/

theorem sesOnframe_lobby (h : m.rd (frmBuf + 1) = ftLobby) :
    sesOnframe m = ofLobby (logHandled m) := by
  unfold sesOnframe
  extract_lets m₁ ty
  have hty : ty = ftLobby := h
  rw [hty]
  rfl

theorem sesOnframe_start (h : m.rd (frmBuf + 1) = ftStart) :
    sesOnframe m = ofStart (logHandled m) := by
  unfold sesOnframe
  extract_lets m₁ ty
  have hty : ty = ftStart := h
  rw [hty]
  rfl

theorem sesOnframe_left (h : m.rd (frmBuf + 1) = ftPeerLeft) :
    sesOnframe m = ofPl (logHandled m) := by
  unfold sesOnframe
  extract_lets m₁ ty
  have hty : ty = ftPeerLeft := h
  rw [hty]
  rfl

theorem sesOnframe_pong (h : m.rd (frmBuf + 1) = ftPong) : sesOnframe m = logHandled m := by
  unfold sesOnframe
  extract_lets m₁ ty
  have hty : ty = ftPong := h
  rw [hty]
  rfl

/-- A frame the server sends a console in the lobby. -/
structure LobbyFrame (f : List Nat) : Prop where
  framed : Framed f
  kind : f.getD 1 0 ∈ [ftLobby, ftRoom, ftPeerLeft, ftPong]
  count : f.getD 1 0 = ftRoom → f.getD 2 0 ≤ 4

/-- The parser comes to the frame `f` and handles it. -/
def HandlesFrame (f : List Nat) (m m' : Machine) : Prop :=
  ∃ rest, cut headOk (buffered m) = .frame f rest ∧ ppParse m = some m'

theorem HandlesFrame.loaded (h : HandlesFrame f m m') :
    ∃ rest, Loaded f rest m (ppLoad m) ∧ InBuf f (ppLoad m) ∧ m' = sesOnframe (ppLoad m) := by
  obtain ⟨rest, hcut, hparse⟩ := h
  have hload := ppLoad_loaded hcut
  rw [ppParse_eq, hcut, Option.some.injEq] at hparse
  exact ⟨rest, hload, hload.inBuf, hparse.symm⟩

theorem InBuf.getD (h : InBuf f m) {i : Nat} (hi : i < f.length) :
    m.rd (frmBuf + i) = f.getD i 0 := by
  rw [h.cell i hi, List.getD_eq_getElem]

/-- PEER_LEFT apart, the frames of the lobby write the cells of the lobby only. -/
theorem LobbyFrame.writes (hf : LobbyFrame f) (hl : m.rd lobbyCnt ≤ 8) (h : HandlesFrame f m m') :
    ∃ rest, Loaded f rest m (ppLoad m) ∧
      (f.getD 1 0 ≠ ftPeerLeft ∧ Writes LobbyCell (ppLoad m) m' ∨
        f.getD 1 0 = ftPeerLeft ∧ m' = ofPl (logHandled (ppLoad m))) := by
  obtain ⟨rest, hload, hbuf, rfl⟩ := h.loaded
  refine ⟨rest, hload, ?_⟩
  have hlong := hf.framed.wellFormed.long
  have hty : (ppLoad m).rd (frmBuf + 1) = f.getD 1 0 := hbuf.getD (by omega)
  have hlog : Writes LobbyCell (ppLoad m) (logHandled (ppLoad m)) := Writes.refl.note
  have hkind := hf.kind
  simp only [List.mem_cons, List.not_mem_nil, or_false] at hkind
  rcases hkind with hk | hk | hk | hk
  · rw [hk] at hty
    rw [sesOnframe_lobby hty, hk]
    exact Or.inl ⟨by decide, hlog.trans (ofLobby_lobby _)⟩
  · have hcnt : (logHandled (ppLoad m)).rd lobbyCnt ≤ 8 := by
      rw [rd_logHandled, hload.frame _ (by decide) (by decide)]
      exact hl
    have hw : Writes LobbyCell (logHandled (ppLoad m)) (ofRoom (logHandled (ppLoad m))) := by
      refine ofRoom_lobby (fun h34 => ?_) hcnt
      have hlen := hload.len
      have h34' : 34 ≤ (ppLoad m).rd frmBuf := h34
      rw [rd_logHandled, hbuf.getD (by omega)]
      exact Nat.le_trans (hf.count hk) (by decide)
    rw [hk] at hty
    rw [sesOnframe_room hty, hk]
    exact Or.inl ⟨by decide, hlog.trans hw⟩
  · rw [hk] at hty
    exact Or.inr ⟨hk, sesOnframe_left hty⟩
  · rw [hk] at hty
    rw [sesOnframe_pong hty, hk]
    exact Or.inl ⟨by decide, hlog⟩

/-- Of the frames of the lobby only PEER_LEFT touches the cells of the match. -/
theorem LobbyFrame.view (hf : LobbyFrame f) (hl : m.rd lobbyCnt ≤ 8) (h : HandlesFrame f m m') :
    m'.view = (if f.getD 1 0 = ftPeerLeft then m.view.giveUp else m.view) ∧
      m'.rd lobbyCnt ≤ 8 := by
  obtain ⟨rest, hload, hkind⟩ := hf.writes hl h
  have hcnt : (ppLoad m).rd lobbyCnt ≤ 8 := by
    rw [hload.frame _ (by decide) (by decide)]
    exact hl
  rcases hkind with ⟨hk, hw⟩ | ⟨hk, rfl⟩
  · rw [if_neg hk, view_lobby hw]
    exact ⟨hload.view, lobbyCnt_lobby hw hcnt⟩
  · rw [if_pos hk, view_ofPl, view_logHandled, hload.view]
    exact ⟨rfl, lobbyCnt_keeps (ofPl_writes (logHandled (ppLoad m))) hcnt⟩

/-! ## From NET_START to START -/

/-- The clearing loop of `NET_START`. -/
def netClear (m : Machine) : Machine := m.fill 0x8080 0x180 0

/-- Every countdown starts full. -/
def seedCounts (m : Machine) : Machine :=
  ((((m.wr ssCnt1 0x10).wr ssCnt2 0x2D).wr ssCnt3 0x0A).wr ssCnt4 0x02).wr ssCnt5 0x50

/-- `NET_START` up to `SES_MAIN`: a local game is one of two seats. A build with a session has
no delay of its own, so that `DELAY_EN` stays 0. -/
def netStart (m : Machine) : Machine := (seedCounts (netClear m)).wr netCount 2

/-- What happens to a console in the lobby. -/
inductive LobbyEvent
  | frame (f : List Nat)
  /-- A pump, the menu, a screen, a request of its own. -/
  | other

/-- One step of the lobby phase. -/
def LobbyEvent.Step : LobbyEvent → Machine → Machine → Prop
  | .frame f, m, m' => LobbyFrame f ∧ HandlesFrame f m m'
  | .other, m, m' => m'.view = m.view ∧ (m.rd lobbyCnt ≤ 8 → m'.rd lobbyCnt ≤ 8)

/-- A PEER_LEFT came in the lobby. -/
def Left (es : List LobbyEvent) : Prop := ∃ f, LobbyEvent.frame f ∈ es ∧ f.getD 1 0 = ftPeerLeft

/-- The baseline a START frame gives. -/
def startView (f : List Nat) : View where
  seat := f.getD 2 0
  count := f.getD 3 0
  delay := f.getD 6 0
  tick := 0
  wm s := if s < 4 then (f.getD 6 0 + 65535) % 65536 % 256 else 0
  ring s i := if s < 4 ∧ i < 256 then 0x40 else 0
  kp _ _ := 0
  own i := if i < 32 then 0xFF else 0
  hold := 0
  pend := 0
  ptmo := 0
  dropped := 0
  peerScr := 0
  resume := 0

/-- The flags of the match are clear. -/
structure Unmarked (v : View) : Prop where
  hold : v.hold = 0
  pend : v.pend = 0
  ptmo : v.ptmo = 0
  peerScr : v.peerScr = 0
  resume : v.resume = 0

/-- A cell of the netcode RAM that is neither a countdown nor `NET_COUNT`. -/
theorem netStart_rd {a : Nat} (hlo : 0x8080 ≤ a) (hhi : a < 0x8200)
    (hcnt : a ∉ [ssCnt1, ssCnt2, ssCnt3, ssCnt4, ssCnt5, netCount]) (m : Machine) :
    (netStart m).rd a = 0 := by
  simp only [List.mem_cons, List.not_mem_nil, or_false, not_or] at hcnt
  obtain ⟨h₁, h₂, h₃, h₄, h₅, hcount⟩ := hcnt
  unfold netStart seedCounts netClear
  rw [rd_wr, if_neg hcount, rd_wr, if_neg h₅, rd_wr, if_neg h₄, rd_wr, if_neg h₃, rd_wr, if_neg h₂,
    rd_wr, if_neg h₁, rd_fill, if_pos (by omega), Nat.zero_mod]

theorem netStart_view (m : Machine) :
    Unmarked (netStart m).view ∧ (netStart m).view.dropped = 0 ∧ (netStart m).rd lobbyCnt = 0 := by
  have hcell : ∀ a ∈ [resyncHold, rsPend, rsPtmo, peerScr, rsRLo, rsRHi, netDropped, lobbyCnt],
      (netStart m).rd a = 0 := by
    intro a ha
    simp only [List.mem_cons, List.not_mem_nil, or_false] at ha
    rcases ha with rfl | rfl | rfl | rfl | rfl | rfl | rfl | rfl
    all_goals exact netStart_rd (by decide) (by decide) (by decide) m
  have hpair : (netStart m).pair rsRLo rsRHi = 0 := by
    rw [Machine.pair, hcell _ (by simp), hcell _ (by simp)]
  exact ⟨⟨hcell _ (by simp), hcell _ (by simp), hcell _ (by simp), hcell _ (by simp), hpair⟩,
    hcell _ (by simp), hcell _ (by simp)⟩

theorem Unmarked.giveUp {v : View} (h : Unmarked v) : Unmarked v.giveUp :=
  ⟨h.hold, h.pend, h.ptmo, h.peerScr, h.resume⟩

/-- One step: the flags stay clear, and `NET_DROPPED` tells whether a PEER_LEFT came. -/
theorem LobbyEvent.Step.keeps {e : LobbyEvent} (h : e.Step m m') (hm : Unmarked m.view)
    (hl : m.rd lobbyCnt ≤ 8) : Unmarked m'.view ∧ m'.rd lobbyCnt ≤ 8 ∧
      (m'.view.dropped = 0 ↔ m.view.dropped = 0 ∧ ¬ Left [e]) := by
  cases e with
  | other =>
      refine ⟨h.1 ▸ hm, h.2 hl, ?_⟩
      rw [h.1]
      refine ⟨fun h => ⟨h, ?_⟩, And.left⟩
      rintro ⟨f, hf, -⟩
      simp at hf
  | frame f =>
      obtain ⟨hview, hcnt⟩ := h.1.view hl h.2
      have hleft : Left [.frame f] ↔ f.getD 1 0 = ftPeerLeft := by
        constructor
        · rintro ⟨g, hg, hty⟩
          rw [List.mem_singleton, LobbyEvent.frame.injEq] at hg
          rw [← hg]
          exact hty
        · exact fun hty => ⟨f, by simp, hty⟩
      rw [hview, hleft]
      by_cases hpl : f.getD 1 0 = ftPeerLeft
      · rw [if_pos hpl]
        refine ⟨hm.giveUp, hcnt, ?_⟩
        constructor
        · exact fun h => absurd h (by simp [View.giveUp])
        · exact fun h => absurd hpl h.2
      · rw [if_neg hpl]
        exact ⟨hm, hcnt, fun h => ⟨h, hpl⟩, And.left⟩

theorem left_cons (e : LobbyEvent) (es : List LobbyEvent) : Left (e :: es) ↔ Left [e] ∨ Left es := by
  constructor
  · rintro ⟨f, hf, hty⟩
    rcases List.mem_cons.mp hf with rfl | hf
    · exact Or.inl ⟨f, by simp, hty⟩
    · exact Or.inr ⟨f, hf, hty⟩
  · rintro (⟨f, hf, hty⟩ | ⟨f, hf, hty⟩)
    · rw [List.mem_singleton] at hf
      exact ⟨f, by simp [hf], hty⟩
    · exact ⟨f, List.mem_cons_of_mem _ hf, hty⟩

/-- A run of the lobby phase. -/
theorem lobby_run {es : List LobbyEvent} (h : Run LobbyEvent.Step m es m') (hm : Unmarked m.view)
    (hl : m.rd lobbyCnt ≤ 8) :
    Unmarked m'.view ∧ (m'.view.dropped = 0 ↔ m.view.dropped = 0 ∧ ¬ Left es) := by
  induction h with
  | nil =>
      refine ⟨hm, fun h => ⟨h, ?_⟩, And.left⟩
      rintro ⟨f, hf, -⟩
      simp at hf
  | @cons s t u e es hstep _ ih =>
      obtain ⟨hm', hl', hdrop⟩ := hstep.keeps hm hl
      obtain ⟨hm'', hdrop'⟩ := ih hm' hl'
      refine ⟨hm'', ?_⟩
      rw [hdrop', hdrop, left_cons e es, not_or, and_assoc]

/-- What START leaves of an unmarked console. -/
theorem start_view (hf : Framed f) (hty : f.getD 1 0 = ftStart) (h : HandlesFrame f m m')
    (hm : Unmarked m.view) : m'.view = { startView f with dropped := m.view.dropped } := by
  obtain ⟨rest, hload, hbuf, rfl⟩ := h.loaded
  have hlen : f.length = 39 := by
    have hok := hf.wellFormed.admitted
    have hlen := hf.wellFormed.length_eq
    rw [hty] at hok
    simp only [headOk, ftStart, sesFlen, decide_eq_true_eq] at hok
    omega
  have hty' : (ppLoad m).rd (frmBuf + 1) = ftStart := by
    rw [hbuf.getD (by omega), hty]
  rw [sesOnframe_start hty', view_ofStart hbuf.logHandled hlen, view_logHandled, hload.view]
  obtain ⟨h₁, h₂, h₃, h₄, h₅⟩ := hm
  generalize m.view = v at *
  ext s i
  · rfl
  · rfl
  · rfl
  · rfl
  · rfl
  · rfl
  · rfl
  · rfl
  · exact h₁
  · exact h₂
  · exact h₃
  · rfl
  · exact h₄
  · exact h₅

/-- Two consoles that receive the same START, whatever they saw in the lobby, both enter the
match in the state its payload gives exactly when neither saw a PEER_LEFT there. -/
theorem start_baseline_iff {k₁ k₂ m₁ m₂ m₁' m₂' : Machine} {es₁ es₂ : List LobbyEvent}
    (hf : Framed f) (hty : f.getD 1 0 = ftStart)
    (hrun₁ : Run LobbyEvent.Step (netStart k₁) es₁ m₁) (hstart₁ : HandlesFrame f m₁ m₁')
    (hrun₂ : Run LobbyEvent.Step (netStart k₂) es₂ m₂) (hstart₂ : HandlesFrame f m₂ m₂') :
    (m₁'.view = startView f ∧ m₂'.view = startView f) ↔ ¬ Left es₁ ∧ ¬ Left es₂ := by
  have hone : ∀ {k m m' : Machine} {es : List LobbyEvent}, Run LobbyEvent.Step (netStart k) es m →
      HandlesFrame f m m' → (m'.view = startView f ↔ ¬ Left es) := by
    intro k m m' es hrun hstart
    obtain ⟨hmark, hdrop, hcnt⟩ := netStart_view k
    obtain ⟨hm, hiff⟩ := lobby_run hrun hmark (by rw [hcnt]; decide)
    rw [hdrop] at hiff
    have hview := start_view hf hty hstart hm
    rw [hview]
    constructor
    · intro h
      have hzero : m.view.dropped = 0 := congrArg View.dropped h
      exact (hiff.mp hzero).2
    · intro h
      rw [hiff.mpr ⟨rfl, h⟩]
      rfl
  rw [hone hrun₁ hstart₁, hone hrun₂ hstart₂]

/-- A START frame for seat 0 of two, delay 2. -/
def startOf : List Nat := [38, ftStart, 0, 2, 1, 0, 2] ++ List.replicate 32 0

/-- A PEER_LEFT frame of seat 1. -/
def leftOf : List Nat := [10, ftPeerLeft, 1] ++ List.replicate 8 65

theorem startOf_framed : Framed startOf := ⟨⟨by decide, by decide, by decide⟩, by decide⟩

theorem leftOf_lobby : LobbyFrame leftOf :=
  ⟨⟨⟨by decide, by decide, by decide⟩, by decide⟩, by decide, by decide⟩

/-- A console with nothing buffered reads a short frame in one pump. -/
theorem reads_short (hf : Framed f) (hlen : f.length ≤ 64) (hempty : buffered m = []) :
    cut headOk (buffered (pumpRecv (Arrival.of f) m)) = .frame f [] := by
  have hmod : f.map (· % 256) = f := by
    refine (List.map_congr_left fun b hb => ?_).trans (List.map_id f)
    exact Nat.mod_eq_of_lt (hf.bytes b hb)
  rw [buffered_pumpRecv (Arrival.of_delivers hlen) (by simp [hempty]), hempty, List.nil_append,
    hmod]
  have hcut := cut_append hf.wellFormed []
  rwa [List.append_nil] at hcut

theorem handles_short (hf : Framed f) (hlen : f.length ≤ 64) (hempty : buffered m = []) :
    HandlesFrame f (pumpRecv (Arrival.of f) m)
      (sesOnframe (ppLoad (pumpRecv (Arrival.of f) m))) := by
  have hcut := reads_short hf hlen hempty
  exact ⟨[], hcut, by rw [ppParse_eq, hcut]⟩

theorem pump_other (v : Arrival) (m : Machine) : LobbyEvent.Step .other m (pumpRecv v m) := by
  refine ⟨view_pumpRecv v m, fun h => ?_⟩
  rw [(pumpRecv_writes v m).frame (by simp [RecvCell, Mail])]
  exact h

theorem netStart_empty (m : Machine) : buffered (netStart m) = [] := by
  have h₁ : (netStart m).rd rxWr = 0 := netStart_rd (by decide) (by decide) (by decide) m
  have h₂ : (netStart m).rd rxRd = 0 := netStart_rd (by decide) (by decide) (by decide) m
  refine List.eq_nil_of_length_eq_zero ?_
  rw [buffered_length, h₁, h₂]

/-- A console that goes straight to START. -/
theorem quiet_start (hempty : buffered m = []) :
    ∃ m₁ m', Run LobbyEvent.Step m [.other] m₁ ∧ HandlesFrame startOf m₁ m' :=
  ⟨_, _, .one (pump_other _ m), handles_short startOf_framed (by decide) hempty⟩

/-- A console that is sent a PEER_LEFT before START. -/
theorem noisy_start (hempty : buffered m = []) :
    ∃ m₁ m', Run LobbyEvent.Step m [.other, .frame leftOf, .other] m₁ ∧
      HandlesFrame startOf m₁ m' := by
  have hleft := handles_short leftOf_lobby.framed (by decide) hempty
  have hload := ppLoad_loaded (reads_short leftOf_lobby.framed (by decide) hempty)
  generalize ppLoad (pumpRecv (Arrival.of leftOf) m) = m₁ at hleft hload
  have hempty' : buffered (sesOnframe m₁) = [] := by
    rw [sesOnframe_left (hload.inBuf.cell 1 (by decide)),
      buffered_writes (ofPl_writes _) fun a v hv => ?_]
    · rw [buffered_logHandled, hload.queue]
    · simp only [HandlerCell, RxCell, rxWr, rxRd] at *
      omega
  exact ⟨_, _, .cons (pump_other _ m) (.cons ⟨leftOf_lobby, hleft⟩ (.one (pump_other _ _))),
    handles_short startOf_framed (by decide) hempty'⟩

/-- One console goes straight to START, the other is sent a PEER_LEFT before it. -/
theorem start_baseline_iff_noisy : ∃ m₁ m₁' m₂ m₂' : Machine,
    Run LobbyEvent.Step (netStart blank) [.other] m₁ ∧ HandlesFrame startOf m₁ m₁' ∧
    Run LobbyEvent.Step (netStart blank) [.other, .frame leftOf, .other] m₂ ∧
    HandlesFrame startOf m₂ m₂' ∧
    ((m₁'.view = startView startOf ∧ m₂'.view = startView startOf) ↔
      ¬ Left [.other] ∧ ¬ Left [.other, .frame leftOf, .other]) := by
  obtain ⟨m₁, m₁', hquiet, hstart₁⟩ := quiet_start (netStart_empty blank)
  obtain ⟨m₂, m₂', hnoisy, hstart₂⟩ := noisy_start (netStart_empty blank)
  exact ⟨m₁, m₁', m₂, m₂', hquiet, hstart₁, hnoisy, hstart₂,
    start_baseline_iff startOf_framed rfl hquiet hstart₁ hnoisy hstart₂⟩

/-- A PEER_LEFT in the lobby outlives START. -/
theorem start_not_baseline : ¬ ∀ (f : List Nat) (k₁ k₂ m₁ m₂ m₁' m₂' : Machine)
    (es₁ es₂ : List LobbyEvent), Framed f → f.getD 1 0 = ftStart →
    Run LobbyEvent.Step (netStart k₁) es₁ m₁ → HandlesFrame f m₁ m₁' →
    Run LobbyEvent.Step (netStart k₂) es₂ m₂ → HandlesFrame f m₂ m₂' → m₁'.view = m₂'.view := by
  intro hall
  obtain ⟨m₁, m₁', hquiet, hstart₁⟩ := quiet_start (netStart_empty blank)
  obtain ⟨m₂, m₂', hnoisy, hstart₂⟩ := noisy_start (netStart_empty blank)
  have heq := hall startOf blank blank _ _ _ _ _ _ startOf_framed rfl hquiet hstart₁ hnoisy hstart₂
  -- `NET_DROPPED` is 0 in one and not in the other
  obtain ⟨hmark, hdrop, hcnt⟩ := netStart_view blank
  obtain ⟨hm₁, hiff₁⟩ := lobby_run hquiet hmark (by rw [hcnt]; decide)
  obtain ⟨hm₂, hiff₂⟩ := lobby_run hnoisy hmark (by rw [hcnt]; decide)
  rw [start_view startOf_framed rfl hstart₁ hm₁, start_view startOf_framed rfl hstart₂ hm₂] at heq
  have hsame : m₁.view.dropped = m₂.view.dropped := by
    have h := congrArg View.dropped heq
    exact h
  have hzero : m₁.view.dropped = 0 := by
    refine hiff₁.mpr ⟨hdrop, ?_⟩
    rintro ⟨f, hf, -⟩
    simp at hf
  rw [hsame] at hzero
  exact (hiff₂.mp hzero).2 ⟨leftOf, by simp, rfl⟩

end SharkNetplay.Console
