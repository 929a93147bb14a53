import SharkNetplay.Console.Hello
import SharkNetplay.Relay.PyHosts

/-!
# Who is the host

In the lobby a console keeps its name; `@@of_room` compares it with the first name of the
roster. Names tell the members of a room apart, so the comparison finds the host, in every
run of the relay with consoles that say HELLO once.

## Implementation notes

The lobby loop of `SES_MAIN` (menu, screens, its own requests) is any work that leaves the
name and `LOBBY_CNT` alone.
-/

namespace SharkNetplay.Console

open Lib Lib.Framing Cell Machine

variable {m m' : Machine} {f name : List Nat}

/-! ## NUL-terminated strings -/

/-- The string at `a`, up to its NUL. -/
def Spells (m : Machine) : Nat → List Nat → Prop
  | a, [] => m.rd a = 0
  | a, b :: u => m.rd a = b ∧ b ≠ 0 ∧ Spells m (a + 1) u

theorem spells_of {a : Nat} {u : List Nat} (h : ∀ i < u.length, m.rd (a + i) = u.getD i 0)
    (hnul : m.rd (a + u.length) = 0) (hne : ∀ b ∈ u, b ≠ 0) : Spells m a u := by
  induction u generalizing a with
  | nil => exact hnul
  | cons b u ih =>
      refine ⟨h 0 (Nat.succ_pos _), hne b List.mem_cons_self, ih (fun i hi => ?_) ?_ fun x hx =>
        hne x (List.mem_cons_of_mem _ hx)⟩
      · rw [Nat.add_assoc, Nat.add_comm 1 i]
        exact h (i + 1) (Nat.succ_lt_succ hi)
      · rw [Nat.add_assoc, Nat.add_comm 1]
        exact hnul

/-- `@@of_hc` compares the strings. -/
theorem sameName_spells {p q fuel : Nat} {u v : List Nat} (hu : Spells m p u) (hv : Spells m q v)
    (hfuel : u.length < fuel) : sameName fuel p q m = decide (u = v) := by
  induction u generalizing p q fuel v with
  | nil =>
      obtain ⟨fuel, rfl⟩ := Nat.exists_eq_succ_of_ne_zero (Nat.ne_of_gt hfuel)
      have hp : m.rd p = 0 := hu
      unfold sameName
      cases v with
      | nil =>
          have hq : m.rd q = 0 := hv
          rw [hp, hq, if_neg (fun h => h rfl), if_pos rfl]
          rfl
      | cons b v =>
          rw [hp, hv.1, if_pos hv.2.1.symm]
          rfl
  | cons a u ih =>
      obtain ⟨fuel, rfl⟩ := Nat.exists_eq_succ_of_ne_zero (Nat.ne_of_gt (Nat.zero_lt_of_lt hfuel))
      obtain ⟨hp, ha, hrest⟩ := hu
      unfold sameName
      cases v with
      | nil =>
          have hq : m.rd q = 0 := hv
          rw [hp, hq, if_pos ha]
          rfl
      | cons b v =>
          rw [hp, hv.1]
          by_cases hab : a = b
          · rw [if_neg (fun h => h hab), if_neg ha,
              ih hrest hv.2.2 (Nat.lt_of_succ_lt_succ hfuel)]
            simp [hab]
          · rw [if_pos hab]
            simp [hab]

theorem Named.spells (h : Named name m) : Spells m nameBuf name := by
  refine spells_of (fun i hi => ?_) h.nul fun b hb => (name_bytes h.toValidName b hb).2
  have hcell : (m.range nameBuf name.length).getD i 0 = m.rd (nameBuf + i) := by
    rw [List.getD_eq_getElem _ _ (by simpa [Machine.range] using hi)]
    simp [Machine.range]
  rw [← hcell, h.buf]

/-! ## ROOM -/

/-- The frame of a room of two. -/
def roomFrame (host guest : List Nat) : List Nat :=
  Relay.Py.frame Relay.tRoom
    (2 :: (Relay.Py.padName host ++ Relay.Py.padName guest ++ List.replicate 16 0))

theorem padName_length (n : List Nat) : (Relay.Py.padName n).length = 8 := by
  unfold Relay.Py.padName
  rw [List.length_append, List.length_replicate, List.length_take]
  omega

theorem padName_getD {n : List Nat} (h : n.length ≤ 8) (i : Nat) :
    (Relay.Py.padName n).getD i 0 = n.getD i 0 := by
  unfold Relay.Py.padName
  rw [List.take_of_length_le h]
  by_cases hi : i < n.length
  · exact List.getD_append _ _ _ _ hi
  · rw [List.getD_append_right _ _ _ _ (by omega), List.getD_eq_default n _ (by omega)]
    by_cases hpad : i - n.length < 8 - n.length
    · exact List.getD_replicate _ hpad
    · exact List.getD_eq_default _ _ (by rw [List.length_replicate]; omega)

theorem roomFrame_length (host guest : List Nat) : (roomFrame host guest).length = 35 := by
  simp [roomFrame, Relay.Py.frame, padName_length]

/-- The first slot of the roster. -/
theorem roomFrame_host {host : List Nat} (guest : List Nat) (h : host.length ≤ 8) {i : Nat}
    (hi : i < 8) : (roomFrame host guest).getD (3 + i) 0 = host.getD i 0 := by
  rw [← padName_getD h i, Nat.add_comm]
  show (Relay.Py.padName host ++ Relay.Py.padName guest ++ List.replicate 16 0).getD i 0 = _
  rw [List.append_assoc, List.getD_append _ _ _ _ (by rw [padName_length]; exact hi)]

/-- `SES_CPROSTER2` puts the first name of the frame in the first slot of `NAME_TBL`. -/
theorem sesCproster_spells {host guest : List Nat} (h : Relay.ValidName host)
    (hbuf : InBuf (roomFrame host guest) m) :
    Spells (sesCproster (frmBuf + 3) m) nameTbl host := by
  have hshort := h.short
  -- the three slots after the first
  have hrest : ∀ b, b < nameTbl + 9 → (sesCproster (frmBuf + 3) m).rd b =
      ((m.copy (frmBuf + 3) nameTbl 8).wr (nameTbl + 8) 0).rd b := by
    intro b hb
    refine (cprSlots_writes (frmBuf + 3 + 8) (nameTbl + 9) 3 _).frame fun v hv => ?_
    omega
  have hcell : ∀ i < 8, (sesCproster (frmBuf + 3) m).rd (nameTbl + i) = host.getD i 0 := by
    intro i hi
    have hwidth : cellWidth (nameTbl + i) = 256 :=
      cellWidth_cart (by simp only [nameTbl]; omega) (by simp only [nameTbl]; omega)
    have hbyte : m.rd (frmBuf + (3 + i)) < 256 :=
      m.rd_byte (cellWidth_cart (by simp only [frmBuf]; omega) (by simp only [frmBuf]; omega))
    rw [hrest _ (by omega), rd_wr, if_neg (by omega), rd_copy _ _ _ _ _ (Or.inr (by simp)),
      if_pos (by omega), hwidth, Nat.add_sub_cancel_left, Nat.add_assoc, Nat.mod_eq_of_lt hbyte,
      hbuf.getD (by rw [roomFrame_length]; omega), roomFrame_host guest hshort hi]
  refine spells_of (fun i hi => hcell i (by omega)) ?_ fun b hb => (name_bytes h b hb).2
  by_cases hfull : host.length < 8
  · rw [hcell _ hfull]
    exact List.getD_eq_default _ _ (Nat.le_refl _)
  · have height : host.length = 8 := by omega
    rw [height, hrest _ (by simp), rd_wr, if_pos rfl, Nat.zero_mod]

/-- `@@of_room` sets `ROOM_HOST` exactly at the console that has the first name. -/
theorem ofRoom_host {host guest : List Nat} (hname : Named name m) (h : Relay.ValidName host)
    (hbuf : InBuf (roomFrame host guest) m) (hact : m.rd netActive = 0) :
    (ofRoom m).rd roomHost = if host = name then 1 else 0 := by
  have hlen : m.rd frmBuf = 34 := by
    have := hbuf.len
    rw [roomFrame_length] at this
    omega
  have hcnt : m.rd (frmBuf + 2) = 2 := hbuf.getD (i := 2) (by rw [roomFrame_length]; decide)
  unfold ofRoom
  rw [if_neg (by omega), hcnt]
  extract_lets m₁ m₂ m₃ m₄
  have hcnt₁ : m₁.rd roomCnt = 2 := by
    rw [rd_wr, if_pos rfl]
    rfl
  rw [if_pos (by omega)]
  have hbuf₁ : InBuf (roomFrame host guest) m₁ := by
    refine ⟨hbuf.len, fun i hi => ?_⟩
    rw [roomFrame_length] at hi
    rw [rd_wr, if_neg (by simp only [frmBuf, roomCnt]; omega)]
    exact hbuf.cell i (by rw [roomFrame_length]; exact hi)
  have hname₂ : Spells m₂ nameBuf name := by
    have hwrites : Writes Nameless m m₂ := by
      refine Writes.trans (.wr .refl (by simp [Nameless])) ((sesCproster_names _ m₁).mono
        fun a v ha => ?_)
      simp only [Nameless, nameBuf, nameLen]
      omega
    exact (hname.of_nameless hwrites).spells
  have hsame : sameName 9 nameTbl nameBuf m₂ = decide (host = name) :=
    sameName_spells (sesCproster_spells h hbuf₁) hname₂ (Nat.lt_succ_of_le h.short)
  have hcnt₃ : m₃.rd roomCnt ≤ 9 := by
    rw [rd_wr, if_neg (by decide), sesCproster_frame _ (by decide), hcnt₁]
    decide
  have hact₃ : m₃.rd netActive = 0 := by
    rw [rd_wr, if_neg (by decide), sesCproster_frame _ (by decide), rd_wr, if_neg (by decide)]
    exact hact
  rw [Writes.screen_frame (sesRoomscr_writes hact₃ hcnt₃) (by decide) (by decide) (by decide),
    rd_wr, if_pos rfl, hsame]
  by_cases heq : host = name
  · simp [heq, cellWidth]
  · simp [heq]

/-! ## The lobby -/

theorem nameless_of_lobby {a v : Nat} (h : LobbyCell a v) : Nameless a v := by
  simp only [LobbyCell, Screen, Nameless, nameBuf, nameLen, uiColor, ppTmp, lobbyCnt, menuSel,
    roomCnt, roomHost] at *
  omega

theorem ofPl_nameless (m : Machine) : Writes Nameless m (ofPl m) := by
  unfold ofPl
  extract_lets m₀ m₁
  have h₁ : Writes Nameless m m₁ := by
    show Writes Nameless m (ite _ _ _)
    split
    · exact .refl
    · refine .wr (.copy (.wr .refl ?_) fun i hi v => ?_) ?_
      · simp [Nameless]
      · simp only [Nameless, leftName, nameBuf, nameLen]
        omega
      · simp [Nameless]
  have h₂ : Writes Nameless m ((m₁.wr peerWhy 1).wr netDropped 1) := by
    refine (h₁.wr ?_).wr ?_ <;> simp [Nameless]
  have h₃ : Writes Nameless m (lsRingInit ((m₁.wr peerWhy 1).wr netDropped 1)) := by
    refine h₂.trans ((lsRingInit_cells _).mono fun a v ha => ?_)
    simp only [Nameless, nameBuf, nameLen]
    omega
  refine h₃.trans ((putWm_cells seatWm 4 _ _ _).mono fun a v ha => ?_)
  simp only [Nameless, seatWm, nameBuf, nameLen] at *
  omega

/-- What happens to a console that waits in the lobby. -/
def LobbyEvent.Waits : LobbyEvent → Machine → Machine → Prop
  | .frame f, m, m' => LobbyFrame f ∧ HandlesFrame f m m'
  | .other, m, m' =>
    (∀ i ≤ 9, m'.rd (nameBuf + i) = m.rd (nameBuf + i)) ∧ (m.rd lobbyCnt ≤ 8 → m'.rd lobbyCnt ≤ 8)

theorem Loaded.named {rest : List Nat} (h : Loaded f rest m m') (hname : Named name m) :
    Named name m' := by
  refine hname.of_cells fun i hi => h.frame _ ?_ ?_
  · simp only [nameBuf, rxRd]
    omega
  · simp only [nameBuf]
    omega

/-- One step: the name stays, and so does the bound of `LOBBY_CNT`. -/
theorem LobbyEvent.Waits.named {e : LobbyEvent} (h : e.Waits m m') (hname : Named name m)
    (hl : m.rd lobbyCnt ≤ 8) : Named name m' ∧ m'.rd lobbyCnt ≤ 8 := by
  cases e with
  | other => exact ⟨hname.of_cells h.1, h.2 hl⟩
  | frame f =>
      obtain ⟨hf, hhandles⟩ := h
      refine ⟨?_, (hf.view hl hhandles).2⟩
      obtain ⟨rest, hload, ⟨-, hw⟩ | ⟨-, rfl⟩⟩ := hf.writes hl hhandles
      · exact (hload.named hname).of_nameless (hw.mono fun _ _ => nameless_of_lobby)
      · exact (hload.named hname).of_nameless (Writes.refl.note.trans (ofPl_nameless _))

theorem waits_named {es : List LobbyEvent} (h : Run LobbyEvent.Waits m es m')
    (hname : Named name m) (hl : m.rd lobbyCnt ≤ 8) : Named name m' ∧ m'.rd lobbyCnt ≤ 8 :=
  Run.invariant (P := fun m => Named name m ∧ m.rd lobbyCnt ≤ 8)
    (fun _ _ _ hstep hs => LobbyEvent.Waits.named hstep hs.1 hs.2) h ⟨hname, hl⟩

/-- A ROOM frame of two that comes in the lobby. -/
theorem handlesFrame_host {host guest : List Nat} (h : HandlesFrame (roomFrame host guest) m m')
    (hname : Named name m) (hhost : Relay.ValidName host) (hact : m.rd netActive = 0) :
    m'.rd roomHost = if host = name then 1 else 0 := by
  obtain ⟨rest, hload, hbuf, rfl⟩ := h.loaded
  have hty : (ppLoad m).rd (frmBuf + 1) = ftRoom :=
    hbuf.getD (i := 1) (by rw [roomFrame_length]; decide)
  have hlog : Named name (logHandled (ppLoad m)) :=
    (hload.named hname).of_nameless Writes.refl.note
  have hact' : (logHandled (ppLoad m)).rd netActive = 0 := by
    rw [rd_logHandled, hload.frame _ (by decide) (by decide)]
    exact hact
  rw [sesOnframe_room hty]
  exact ofRoom_host hlog hhost hbuf.logHandled hact'

/-! ## Runs of the relay with consoles -/

/-- A console that has come from `NET_START` through `SES_MAIN` to its HELLO. -/
def Greeted (m : Machine) : Prop :=
  ∃ t₁ t₂ srvSpec opened k, k.rd lobbyCnt = 0 ∧ sesMain t₁ t₂ srvSpec opened k = some m

/-- The string in `NAME_BUF`. -/
def nameIn (m : Machine) : List Nat := m.range nameBuf (m.rd nameLen)

theorem nameIn_eq (h : Named name m) : nameIn m = name := by
  unfold nameIn
  rw [h.len, h.buf]

/-- `console c` is the console of client `c` as it says HELLO, which it does once at most. -/
structure Consoles (console : Nat → Machine) (ks : List Relay.Py.Call) : Prop where
  greeted : ∀ c, Greeted (console c)
  hello : ∀ k ∈ ks, k.ftype = Relay.tHello → k.payload = 2 :: nameIn (console k.client)
  once : ∀ c, (ks.filter (Relay.Py.Call.greets c)).length ≤ 1

theorem sesMain_named {t₁ t₂ : AppkeyTry} {srvSpec : List Nat} {opened : Answer}
    (h : sesMain t₁ t₂ srvSpec opened m = some m') :
    Named (nameIn m') m' ∧ m'.hist.sent = (sesConnect t₁ t₂ srvSpec opened m).hist.sent ++
      if (nextAnswer (sesConnect t₁ t₂ srvSpec opened m)).performed then
        [((sesConnect t₁ t₂ srvSpec opened m).hist.stamp,
          Relay.Py.frame Relay.tHello (2 :: nameIn m'))]
      else [] := by
  obtain ⟨name, hname⟩ := sesConnect_named t₁ t₂ srvSpec opened m
  obtain ⟨hnamed, hsent⟩ := sesHello_spec hname
  unfold sesMain at h
  dsimp only at h
  split at h
  · exact nomatch h
  · rw [Option.some.injEq] at h
    subst h
    rw [nameIn_eq hnamed]
    exact ⟨hnamed, hsent⟩

theorem Greeted.named (h : Greeted m) : Named (nameIn m) m ∧ m.rd lobbyCnt ≤ 8 := by
  obtain ⟨t₁, t₂, srvSpec, opened, k, hcnt, hmain⟩ := h
  refine ⟨(sesMain_named hmain).1, ?_⟩
  rw [(sesMain_writes hmain).frame fun v hv => ?_, hcnt]
  · decide
  · simp [HelloCell, Mail, Screen] at hv

theorem Consoles.oneHello {console : Nat → Machine} {ks : List Relay.Py.Call}
    (h : Consoles console ks) : Relay.Py.OneHello (fun c => nameIn (console c)) ks where
  hello k hk hhello := ⟨h.hello k hk hhello, (h.greeted k.client).named.1.toValidName⟩
  once := h.once

/-- HELLO with a valid name is accepted and registers it; LIST follows. -/
theorem register_name {c : Nat} {s : Relay.Py.Server} (h : Relay.ValidName name) :
    Relay.Py.handle c Relay.tHello (2 :: name) s = (Relay.Py.register c name s, false) ∧
      ∃ t, Relay.Py.register c name s = Relay.Py.onList c t ∧ (t.client c).name = some name ∧
        Relay.Py.lookup name t = some c := by
  constructor
  · unfold Relay.Py.handle
    rw [if_neg (by decide), if_pos rfl, Relay.helloName_valid h]
  · unfold Relay.Py.register
    extract_lets s₁ s₂ s₃
    refine ⟨_, rfl, ?_, ?_⟩
    · show (s₃.client c).name = some name
      rw [Relay.Py.setName_client_name, if_pos rfl]
    · show Dict.get name (Dict.assign name c s₃.byName) = some c
      rw [Dict.get_assign, if_pos rfl]

/-- A console's name survives the way to the relay and back: the HELLO built from `NAME_BUF`
registers the string in `NAME_BUF`, and a ROOM frame makes exactly the console of the room's
first member the host. -/
theorem identity_kept :
    (∀ t₁ t₂ srvSpec opened m m', sesMain t₁ t₂ srvSpec opened m = some m' →
      (m'.hist.sent = (sesConnect t₁ t₂ srvSpec opened m).hist.sent ++
        if (nextAnswer (sesConnect t₁ t₂ srvSpec opened m)).performed then
          [((sesConnect t₁ t₂ srvSpec opened m).hist.stamp,
            Relay.Py.frame Relay.tHello (2 :: nameIn m'))]
        else []) ∧
      m'.rd (nameBuf + (nameIn m').length) = 0 ∧
      ∀ c s, Relay.Py.handle c Relay.tHello (2 :: nameIn m') s =
          (Relay.Py.register c (nameIn m') s, false) ∧
        ∃ t, Relay.Py.register c (nameIn m') s = Relay.Py.onList c t ∧
          (t.client c).name = some (nameIn m') ∧ Relay.Py.lookup (nameIn m') t = some c) ∧
    ∀ console delay autoGo outcomes seeds events,
      Consoles console (Relay.Py.calls (.init delay autoGo outcomes seeds) events) →
      ∀ c f, (c, f) ∈ ((Relay.Py.Server.init delay autoGo outcomes seeds).run events).queued →
        Relay.Py.showsRoom f = true →
        (∃ b ∈ Relay.Py.shownIn (Relay.Py.calls (.init delay autoGo outcomes seeds) events),
          b.frame = f ∧ c ∈ b.members) ∧
        ∀ b ∈ Relay.Py.shownIn (Relay.Py.calls (.init delay autoGo outcomes seeds) events),
          b.frame = f → c ∈ b.members → ∀ es m m',
            Run LobbyEvent.Waits (console c) es m → m.rd netActive = 0 → HandlesFrame f m m' →
            (m'.rd roomHost = 1 ↔ b.members.head? = some c) := by
  constructor
  · intro t₁ t₂ srvSpec opened m m' hmain
    obtain ⟨hnamed, hsent⟩ := sesMain_named hmain
    exact ⟨hsent, hnamed.nul, fun c s => register_name hnamed.toValidName⟩
  · intro console delay autoGo outcomes seeds events hconsoles c f hqueued hroom
    have htraced := (Relay.Py.init_traced delay autoGo outcomes seeds).run events
      (Relay.Py.init_registry delay autoGo outcomes seeds)
      (Relay.Py.init_settled delay autoGo outcomes seeds) hconsoles.oneHello
    rw [List.nil_append] at htraced
    refine ⟨htraced.queued _ hqueued hroom, ?_⟩
    intro b hb hframe hmem es m m' hrun hact hhandles
    obtain ⟨host, guest, htwo⟩ := htraced.rooms b hb
    obtain ⟨hnamed, hcnt⟩ := (hconsoles.greeted c).named
    have hname := (waits_named hrun hnamed hcnt).1
    have hf : f = roomFrame (nameIn (console host)) (nameIn (console guest)) :=
      hframe.symm.trans htwo.frame
    rw [hf] at hhandles
    rw [handlesFrame_host hhandles hname htwo.hostValid hact, htwo.members]
    rw [htwo.members] at hmem
    simp only [List.mem_cons, List.not_mem_nil, or_false] at hmem
    rcases hmem with rfl | rfl
    · simp
    · have hne : host ≠ c := fun h => htwo.ne (by rw [h])
      rw [if_neg htwo.ne]
      simp [hne]

/-- A key store that does not answer. -/
def noStore : AppkeyTry := ⟨⟨0, none, 0, 0, false⟩, .ack, .ack, fun _ => 0⟩

/-- GUEST00 and, for every other client, GUEST10. -/
def guests (c : Nat) : Machine :=
  sesHello (sesConnect noStore noStore [] .ack (blank.wr execRng (if c = 0 then 0 else 1)))

theorem guests_greeted (c : Nat) : Greeted (guests c) := by
  refine ⟨noStore, noStore, [], .ack, blank.wr execRng (if c = 0 then 0 else 1), ?_, ?_⟩
  · rw [rd_wr, if_neg (by decide)]
    rfl
  · unfold sesMain
    by_cases hc : c = 0
    · simp only [guests, hc, if_true]
      exact if_neg (by decide +kernel)
    · simp only [guests, hc, if_false]
      exact if_neg (by decide +kernel)

/-- GUEST10 joins GUEST00. -/
def guestsMeet : List Relay.Event :=
  [.accept 1, .accept 2, .recv 0 (Relay.Py.hello (nameIn (guests 0))),
    .recv 1 (Relay.Py.hello (nameIn (guests 1))),
    .recv 1 (Relay.Py.frame Relay.tJoin (nameIn (guests 0)))]

theorem guestsMeet_consoles :
    Consoles guests (Relay.Py.calls (.init 2 0 [] []) guestsMeet) := by
  have hcalls : (Relay.Py.calls (.init 2 0 [] []) guestsMeet).map
      (fun k => (k.client, k.ftype, k.payload)) =
        [(0, Relay.tHello, 2 :: nameIn (guests 0)), (1, Relay.tHello, 2 :: nameIn (guests 1)),
          (1, Relay.tJoin, nameIn (guests 0))] := by
    decide +kernel
  generalize Relay.Py.calls (.init 2 0 [] []) guestsMeet = ks at hcalls ⊢
  refine ⟨guests_greeted, fun k hk hhello => ?_, fun c => ?_⟩
  · have hmem := List.mem_map_of_mem (f := fun k => (k.client, k.ftype, k.payload)) hk
    rw [hcalls] at hmem
    simp only [List.mem_cons, Prod.mk.injEq, List.not_mem_nil, or_false] at hmem
    rcases hmem with ⟨hc, -, hp⟩ | ⟨hc, -, hp⟩ | ⟨-, ht, -⟩
    · rw [hp, hc]
    · rw [hp, hc]
    · rw [hhello] at ht
      exact absurd ht (by decide)
  · have hlen : (ks.filter (Relay.Py.Call.greets c)).length =
        ((ks.map fun k => (k.client, k.ftype, k.payload)).filter fun t =>
          t.2.1 == Relay.tHello && t.1 == c).length := by
      rw [List.filter_map, List.length_map]
      rfl
    rw [hlen, hcalls]
    by_cases h0 : c = 0
    · subst h0
      decide +kernel
    · by_cases h1 : c = 1
      · subst h1
        decide +kernel
      · simp [Ne.symm h0, Ne.symm h1, Relay.tHello, Relay.tJoin]

/-- Of the two guests the first is the host of the room. -/
theorem identity_kept_guests :
    (0, roomFrame (nameIn (guests 0)) (nameIn (guests 1))) ∈
        ((Relay.Py.Server.init 2 0 [] []).run guestsMeet).queued ∧
      ¬ ∃ es m m', Run LobbyEvent.Waits (guests 0) es m ∧ m.rd netActive = 0 ∧
        HandlesFrame (roomFrame (nameIn (guests 0)) (nameIn (guests 1))) m m' ∧
          m'.rd roomHost ≠ 1 := by
  have hqueued : (0, roomFrame (nameIn (guests 0)) (nameIn (guests 1))) ∈
      ((Relay.Py.Server.init 2 0 [] []).run guestsMeet).queued := by
    decide +kernel
  have hshown : (Relay.Py.shownIn (Relay.Py.calls (.init 2 0 [] []) guestsMeet)).map
      Relay.Py.Shown.members = [[0, 1]] := by
    decide +kernel
  refine ⟨hqueued, ?_⟩
  rintro ⟨es, m, m', hrun, hact, hhandles, hhost⟩
  obtain ⟨⟨b, hb, hframe, hmem⟩, hiff⟩ := identity_kept.2 guests 2 0 [] [] guestsMeet
    guestsMeet_consoles 0 _ hqueued rfl
  have hmembers : b.members = [0, 1] := by
    have hin := List.mem_map_of_mem (f := Relay.Py.Shown.members) hb
    rw [hshown] at hin
    exact List.mem_singleton.mp hin
  exact hhost ((hiff b hb hframe hmem es m m' hrun hact hhandles).mpr (by rw [hmembers]; rfl))

end SharkNetplay.Console
