import SharkNetplay.Console.Adoption
import SharkNetplay.Console.Served

/-!
# Two consoles in a match

The two consoles of a match with the two byte streams between them, and above them the
same pair with messages in place of bytes. Every run of the consoles is a run of the
pair, so that a result about messages in flight is one about the consoles.

## Implementation notes

The relay hands every byte of a member on to the other one, in order. A console enters
the match when it handles START; what its peer sent by then waits in its stream or is
already in its accumulator. The record of a console is begun at START.
-/

namespace SharkNetplay.Console

open Lib Lib.Framing Cell Machine

variable {cart : Cart}

/-- The members of a match of two; seat 0 is the host of a resync. -/
inductive Side
  | host
  | guest
  deriving Repr, DecidableEq

namespace Side

/-- The other member. -/
def peer : Side → Side
  | host => guest
  | guest => host

/-- The seat START gives. -/
def seat : Side → Nat
  | host => 0
  | guest => 1

@[simp] theorem peer_peer (x : Side) : x.peer.peer = x := by cases x <;> rfl

theorem peer_ne (x : Side) : x.peer ≠ x := by cases x <;> decide

theorem eq_or_peer (x y : Side) : y = x ∨ y = x.peer := by
  cases x <;> cases y <;> decide

theorem seat_lt (x : Side) : x.seat < 2 := by cases x <;> decide

theorem peer_seat (x : Side) : x.peer.seat = 1 - x.seat := by cases x <;> decide

end Side

/-- What the two START frames of a match share. -/
structure Start where
  seed : Nat
  delay : Nat
  names : List Nat
  seed_lt : seed < 65536
  delay_lt : delay < 256
  names_length : names.length = 32
  names_lt : ∀ b ∈ names, b < 256

namespace Start

/-- The START frame of a member. -/
def frame (g : Start) (x : Side) : List Nat :=
  [38, ftStart, x.seat, 2, g.seed % 256, g.seed / 256, g.delay] ++ g.names

theorem frame_framed (g : Start) (x : Side) : Framed (g.frame x) := by
  have hseat := x.seat_lt
  have hseed := g.seed_lt
  have hdelay := g.delay_lt
  refine ⟨⟨?_, ?_, rfl⟩, fun b hb => ?_⟩
  · simp [frame]
  · simp [frame, g.names_length]
  · rcases List.mem_append.mp hb with hb | hb
    · simp only [ftStart, List.mem_cons, List.not_mem_nil, or_false] at hb
      omega
    · exact g.names_lt b hb

end Start

/-- A console that has just handled the START frame `f`, its record begun. -/
def Enters (f : List Nat) (m : Machine) : Prop :=
  ∃ k m₀ m₁ es, Run LobbyEvent.Step (netStart k) es m₀ ∧ ¬ Left es ∧ HandlesFrame f m₀ m₁ ∧
    m = m₁.note fun _ => {}

theorem Enters.view {f : List Nat} {m : Machine} (h : Enters f m) (hf : Framed f)
    (hty : f.getD 1 0 = ftStart) : m.view = startView f ∧ m.hist = {} := by
  obtain ⟨k, m₀, m₁, es, hrun, hleft, hstart, rfl⟩ := h
  obtain ⟨hmark, hdrop, hcnt⟩ := netStart_view k
  obtain ⟨hmark', hdrop'⟩ := lobby_run hrun hmark (by omega)
  have hzero : m₀.view.dropped = 0 := hdrop'.mpr ⟨hdrop, hleft⟩
  refine ⟨?_, rfl⟩
  rw [view_note, start_view hf hty hstart hmark', hzero]
  rfl

/-! ## The consoles -/

/-- The consoles in the match so far, and the bytes on their way to each. -/
structure Duo where
  proc : Side → Option Proc
  wire : Side → List Nat

/-- Before START. -/
def Duo.init : Duo := ⟨fun _ => none, fun _ => []⟩

instance (pc : Pc) : Decidable pc.Pumps :=
  inferInstanceAs (Decidable (pc = .pumpSes ∨ pc = .pumpHold ∨ pc = .pumpGo ∨ pc = .pumpStall))

/-- A step hands `bytes` to a pump it begins, and nothing to any other step. -/
def Reads (v : Move) (p q : Proc) (bytes : List Nat) : Prop :=
  if ¬ p.pc.Pumps ∧ q.pc.Pumps then v.arrival.Delivers bytes else bytes = []

/-- What happens in a match. -/
inductive Event
  /-- A member handles START. -/
  | start (x : Side) (m : Machine)
  /-- A member takes a step. -/
  | turn (x : Side) (v : Move)

/-- One step of the match. -/
inductive Duo.Step (cart : Cart) (g : Start) : Event → Duo → Duo → Prop
  | start {s t : Duo} {x : Side} {m : Machine} (hproc : s.proc x = none)
      (henter : Enters (g.frame x) m) (hwill : Willing m)
      (hwire : s.wire x = buffered m ++ t.wire x) (hthis : t.proc x = some ⟨m, .pumpSes⟩)
      (hpeer : t.proc x.peer = s.proc x.peer) (hsent : t.wire x.peer = s.wire x.peer) :
      Step cart g (.start x m) s t
  | turn {s t : Duo} {x : Side} {v : Move} {p : Proc} {bytes : List Nat}
      (hproc : s.proc x = some p) (hread : Reads v p (p.step cart v) bytes)
      (hwire : s.wire x = bytes ++ t.wire x) (hthis : t.proc x = some (p.step cart v))
      (hpeer : t.proc x.peer = s.proc x.peer)
      (hsent : t.wire x.peer = s.wire x.peer ++ (newFrames p.m (p.step cart v).m).flatten) :
      Step cart g (.turn x v) s t

/-! ## The pair -/

/-- A member of the pair: its control point, its view, its record but for the frames it
sent, the messages it has handled, and those in flight to it. A message carries the stamp
under which it was sent. -/
structure Party where
  pc : Pc
  view : View
  hist : Record
  heard : List (Stamp × Msg)
  inbox : List (Stamp × Msg)

/-- Turns that move the control point only. -/
inductive Idles (p : Party) : Pc → Prop
  | stay : Idles p p.pc
  | session (h : p.pc = .sesHold) : Idles p .pumpSes
  | seated (h : p.pc = .pumpSes) : Idles p .sesHold
  | begun (h : p.pc = .pumpSes) : Idles p .top
  | hold (h : p.pc = .top) (hdrop : p.view.dropped = 0) (hhold : p.view.hold ≠ 0) :
      Idles p .pumpHold
  | go (h : p.pc = .top) (hdrop : p.view.dropped = 0) (hhold : p.view.hold = 0) :
      Idles p .pumpGo
  | stall (h : p.pc = .gate) (hdrop : p.view.dropped = 0) (hshut : p.view.ready = false) :
      Idles p .pumpStall
  | held (h : p.pc = .pumpHold) : Idles p .top
  | waited (h : p.pc = .pumpStall) : Idles p .gate

/-- The record after a message. -/
def Record.hear (v : View) (x : Msg) (r : Record) : Record :=
  { r with
    handled := r.handled ++ [⟨r.stamp, x.frame, v.takes x⟩]
    stamp := if v.adopts x then ⟨r.stamp.epoch + 1, 0⟩ else r.stamp }

/-- The record after a tick. -/
def Record.ranTick (v : View) (ck : Nat) (sim : Nat → Nat) (due : Bool) (r : Record) : Record :=
  { r with
    ran := r.ran ++ [⟨r.stamp, v.tick, v.cells 0, v.cells 1, sim, ck⟩]
    stamp := if due then ⟨r.stamp.epoch + 1, 0⟩ else ⟨r.stamp.epoch, r.stamp.age + 1⟩
    pushes := if due then r.pushes + 1 else r.pushes }

/-- The tick an input captured now is for. -/
def View.ahead (v : View) : Nat := (v.tick + v.delay) % 65536

/-- The messages of a tick. -/
def tickMsgs (v : View) (ck : Nat) (due : Bool) (img : List Nat) : List Msg :=
  (if v.tick % 64 = 0 then [.report v.seat v.tick ck] else []) ++
    if due then pushMsgs (((v.tick + 1) % 65536 + 16) % 65536) img else []

/-- A turn of a member, and what it sends. -/
inductive Turn (p : Party) : Party → List Msg → Prop
  | idle {pc : Pc} (h : Idles p pc) : Turn p { p with pc := pc } []
  | left (hpc : p.pc = .top) (hdrop : p.view.dropped ≠ 0) :
      Turn p { p with pc := .parked, view := { p.view with peerScr := 1 } } []
  | took {e : Stamp × Msg} {rest : List (Stamp × Msg)} (hpump : p.pc.Pumps)
      (hin : p.inbox = e :: rest) :
      Turn p { p with
        view := p.view.onMsg e.2
        hist := p.hist.hear p.view e.2
        heard := p.heard ++ [e]
        inbox := rest } (p.view.replies e.2)
  | captured {c : Nat × Nat} (hc : c.1 < 256 ∧ c.2 < 256) (hpc : p.pc = .pumpGo) :
      Turn p { p with
        pc := .gate
        view := p.view.put p.view.seat (p.view.ahead % 256) c
        hist := { p.hist with captured := p.hist.captured ++ [c] } }
        [.input p.view.seat p.view.ahead c]
  | gaveUp {pc : Pc} {h : Nat} (hpc : p.pc = .pumpHold ∧ pc = .top ∨ p.pc = .pumpStall ∧ pc = .gate)
      (hh : h = 0 ∨ h = p.view.hold) :
      Turn p { p with pc := pc, view := { p.view with hold := h }.giveUp } []
  | ran {ck : Nat} {img : List Nat} (quiet : Bool) (sim : Nat → Nat) (hpc : p.pc = .gate)
      (hopen : p.view.dropped ≠ 0 ∨ p.view.ready = true) (hck : ck < 65536)
      (himg : img.length = imgTotal) (hbytes : ∀ b ∈ img, b < 256) :
      Turn p { p with
        pc := .top
        view := (p.view.ran ck).pending quiet
        hist := p.hist.ranTick p.view ck sim ((p.view.ran ck).due quiet) }
        (tickMsgs p.view ck ((p.view.ran ck).due quiet) img)

/-- Messages sent under the stamp `st` arrive. -/
def Party.gets (p : Party) (st : Stamp) (xs : List Msg) : Party :=
  { p with inbox := p.inbox ++ xs.map fun x => (st, x) }

/-- Both members. -/
abbrev Pair := Side → Party

/-- One turn of member `x`. -/
def Pair.Step (x : Side) (s t : Pair) : Prop :=
  ∃ xs, Turn (s x) (t x) xs ∧ t x.peer = (s x.peer).gets (s x).hist.stamp xs

/-- Both members at START. -/
def Pair.init (g : Start) : Pair := fun x => ⟨.pumpSes, startView (g.frame x), {}, [], []⟩

/-! ## From bytes to messages -/

/-- The frames of messages in flight. -/
def frames (es : List (Stamp × Msg)) : List (List Nat) := es.map fun e => e.2.frame

/-- A member of the pair stands for a console with `wire` on its way to it. -/
structure Shown (p : Party) (c : Proc) (wire : List Nat) : Prop where
  pc : p.pc = c.pc
  view : p.view = c.m.view
  hist : p.hist = { c.m.hist with sent := [] }
  willing : Willing c.m
  sound : ∀ e ∈ p.inbox, e.2.Sound
  queue : buffered c.m ++ wire = (frames p.inbox).flatten
  room : ¬ c.pc.Pumps → (buffered c.m).length < 100
  heard : p.hist.handled.map Handled.frame = frames p.heard

/-- What a console put on the record as sent between two states: `xs`, under the epoch of
the first one. -/
def Sends (m m' : Machine) (xs : List Msg) : Prop :=
  ∃ es, m'.hist.sent = m.hist.sent ++ es ∧
    es.map (fun e => (e.1.epoch, e.2)) = xs.map fun x => (m.hist.stamp.epoch, x.frame)

variable {m m' : Machine} {p : Party} {c : Proc} {wire rest : List Nat}

theorem Sends.newFrames {xs : List Msg} (h : Sends m m' xs) :
    newFrames m m' = xs.map Msg.frame := by
  obtain ⟨es, hsent, hmap⟩ := h
  have hsnd := congrArg (List.map Prod.snd) hmap
  rw [List.map_map, List.map_map] at hsnd
  rw [Console.newFrames, hsent, List.drop_left]
  exact hsnd

theorem Sends.silent (h : m'.hist = m.hist) : Sends m m' [] := ⟨[], by simp [h], rfl⟩

/-- Frames that go on the record under one stamp. -/
theorem Sends.of_map {xs : List Msg} {l : List (List Nat)} (hl : l = xs.map Msg.frame)
    (h : m'.hist.sent = m.hist.sent ++ l.map fun f => (m.hist.stamp, f)) : Sends m m' xs := by
  refine ⟨_, h, ?_⟩
  rw [hl]
  simp [Function.comp_def]

theorem Shown.bytes (h : Shown p c wire) : ∀ b ∈ buffered c.m ++ wire, b < 256 := by
  intro b hb
  rw [h.queue] at hb
  obtain ⟨f, hf, hb⟩ := List.mem_flatten.mp hb
  obtain ⟨e, he, rfl⟩ := List.mem_map.mp hf
  exact (h.sound e he).framed.bytes b hb

/-- The reader waits with less than a frame, or is at the first message. -/
theorem Shown.cut (h : Shown p c wire) :
    (cut headOk (buffered c.m) = .wait ∧ (buffered c.m).length < 100) ∨
      ∃ e es rest, p.inbox = e :: es ∧ cut headOk (buffered c.m) = .frame e.2.frame rest ∧
        rest ++ wire = (frames es).flatten := by
  have hfs : ∀ f ∈ frames p.inbox, WellFormed headOk f := by
    intro f hf
    obtain ⟨e, he, rfl⟩ := List.mem_map.mp hf
    exact (h.sound e he).framed.wellFormed
  rcases cut_stream hfs h.queue with ⟨hwait, hshort⟩ | ⟨f, fs, rest, hcons, hframe, hrest⟩
  · refine Or.inl ⟨hwait, ?_⟩
    rcases hshort with hempty | ⟨f, hf, hlt⟩
    · rw [hempty]
      decide
    · obtain ⟨len, ty, tail, rfl, hlen, hok⟩ := (hfs f hf).cases_eq
      have hbound := headOk_bounds hok
      simp only [List.length_cons] at hlt
      omega
  · obtain ⟨e, es, hin, rfl, rfl⟩ := List.map_eq_cons_iff.mp hcons
    exact Or.inr ⟨e, es, rest, hin, hframe, hrest⟩

/-- A step that leaves view, record and queue alone. -/
theorem Shown.moves (h : Shown p c wire) {pc : Pc} (hview : m.view = c.m.view)
    (hhist : m.hist = c.m.hist) (hans : m.answers = c.m.answers)
    (hqueue : buffered m = buffered c.m) (hroom : ¬ pc.Pumps → (buffered m).length < 100) :
    Shown { p with pc := pc } ⟨m, pc⟩ wire where
  pc := rfl
  view := h.view.trans hview.symm
  hist := h.hist.trans (by rw [hhist])
  willing a ha := h.willing a (hans ▸ ha)
  sound := h.sound
  queue := (congrArg (· ++ wire) hqueue).trans h.queue
  room := hroom
  heard := h.heard

theorem Idles.of_pumped {pc : Pc} (h : Pumped c.m c.pc pc) (hp : Shown p c wire)
    (hcount : p.view.count ≤ 4) : Idles p pc := by
  have hpc := hp.pc
  have hview := hp.view
  generalize c.pc = pc' at h hpc
  cases h with
  | session => exact .session hpc
  | hold hdrop hhold => exact .hold hpc (hview ▸ hdrop) (hview ▸ hhold)
  | go hdrop hhold => exact .go hpc (hview ▸ hdrop) (hview ▸ hhold)
  | stall hdrop hshut =>
      refine .stall hpc (hview ▸ hdrop) ?_
      rw [hview] at hcount ⊢
      rw [← gateOpen_view hcount]
      exact hshut

theorem Pumped.pumps {pc pc' : Pc} (h : Pumped m pc pc') : ¬ pc.Pumps ∧ pc'.Pumps := by
  cases h <;> decide

theorem lsFreeze_answers (m : Machine) : (lsFreeze m).answers = m.answers := by
  unfold lsFreeze
  split <;> simp

/-- A step of a console is this turn of the member that stands for it. -/
structure Plays (p p' : Party) (xs : List Msg) (c c' : Proc) (wire : List Nat) : Prop where
  turn : Turn p p' xs
  shown : Shown p' c' wire
  sends : Sends c.m c'.m xs
  sound : ∀ x ∈ xs, x.Sound

/-- What a step of a console is for the member that stands for it. -/
def Mirrors (p : Party) (c c' : Proc) (wire : List Nat) : Prop :=
  ∃ p' xs, Plays p p' xs c c' wire

/-- A pump that begins. -/
theorem Shown.recv {v : Move} {bytes : List Nat} {k : Machine} {pc : Pc}
    (h : Shown p c (bytes ++ wire)) (hcount : p.view.count ≤ 4) (hpc : Pumped c.m c.pc pc)
    (hk : k = c.m ∨ k = lsFreeze c.m) (hread : v.arrival.Delivers bytes) :
    Plays p { p with pc := pc } [] c ⟨pumpRecv v.arrival k, pc⟩ wire := by
  obtain ⟨hstill, hpump⟩ := hpc.pumps
  have hk' : k.view = c.m.view ∧ k.hist = c.m.hist ∧ k.answers = c.m.answers ∧
      buffered k = buffered c.m := by
    rcases hk with rfl | rfl
    · exact ⟨rfl, rfl, rfl, rfl⟩
    · exact ⟨view_lsFreeze _, hist_lsFreeze _, lsFreeze_answers _,
        (lsFreeze_quiet _).quiet_apart.buffered_eq⟩
  have hroom := h.room hstill
  have hbytes : bytes.map (· % 256) = bytes := by
    have hid : ∀ b ∈ bytes, b % 256 = id b := fun b hb =>
      Nat.mod_eq_of_lt (h.bytes b (by simp [hb]))
    rw [List.map_congr_left hid, List.map_id]
  have hqueue : buffered (pumpRecv v.arrival k) = buffered c.m ++ bytes := by
    rw [buffered_pumpRecv hread (by rw [hk'.2.2.2]; omega), hbytes, hk'.2.2.2]
  refine ⟨.idle (.of_pumped hpc h hcount), ?_, .silent ?_, by simp⟩
  · exact {
      pc := rfl
      view := by rw [view_pumpRecv, hk'.1]; exact h.view
      hist := by rw [hist_pumpRecv, hk'.2.1]; exact h.hist
      willing := fun a ha => h.willing a (by rwa [answers_pumpRecv, hk'.2.2.1] at ha)
      sound := h.sound
      queue := by
        show buffered (pumpRecv v.arrival k) ++ wire = _
        rw [hqueue, List.append_assoc]
        exact h.queue
      room := fun hno => absurd hpump hno
      heard := h.heard }
  · show (pumpRecv v.arrival k).hist = _
    rw [hist_pumpRecv, hk'.2.1]

theorem crcFrame_tick_lt {s t ck : Nat} (h : Framed (crcFrame s t ck)) : t < 65536 := by
  have hb := h.bytes (t / 256) (by simp [crcFrame])
  omega

/-- Replies are sound. -/
theorem replies_sound {v : View} {x : Msg} (hx : x.Sound) : ∀ y ∈ v.replies x, y.Sound := by
  intro y hy
  cases x with
  | report s t ck =>
      simp only [View.replies] at hy
      split at hy
      · rw [List.mem_singleton] at hy
        rw [hy]
        exact ⟨reqFrame_framed (crcFrame_tick_lt hx.framed), fun q h => Msg.noConfusion h⟩
      · exact absurd hy (by simp)
  | _ => exact absurd hy (by simp [View.replies])

/-- The member after its first message, which leaves `es` in the inbox. -/
def Party.take (p : Party) (e : Stamp × Msg) (es : List (Stamp × Msg)) : Party :=
  { p with
    view := p.view.onMsg e.2
    hist := p.hist.hear p.view e.2
    heard := p.heard ++ [e]
    inbox := es }

/-- A message that is handled. -/
theorem Shown.took {e : Stamp × Msg} {es : List (Stamp × Msg)} {rest : List Nat}
    (h : Shown p c wire) (hcount : p.view.count ≤ 4) (hpump : c.pc.Pumps)
    (hin : p.inbox = e :: es) (hcut : Framing.cut headOk (buffered c.m) = .frame e.2.frame rest)
    (hrest : rest ++ wire = (frames es).flatten) :
    Plays p (p.take e es) (p.view.replies e.2) c ⟨sesOnframe (ppLoad c.m), c.pc⟩ wire := by
  have hload := ppLoad_loaded hcut
  have hsound : e.2.Sound := h.sound e (by rw [hin]; simp)
  have hcount' : (ppLoad c.m).rd netCount ≤ 4 := by
    have hcell : (ppLoad c.m).rd netCount = (ppLoad c.m).view.count := rfl
    rw [hcell, hload.view, ← h.view]
    exact hcount
  obtain ⟨htook, l, -, hwill, hhist⟩ := took_msg hload.inBuf hcount' hsound
  rw [hload.view] at hwill hhist
  rw [hload.hist] at hhist
  have hwill' := hwill fun a ha => h.willing a (hload.answers ▸ ha)
  have hview := htook.view
  have hqueue := htook.apart.buffered_eq
  rw [hload.view, ← h.view] at hview
  rw [hload.queue] at hqueue
  rw [← h.view] at hhist hwill'
  generalize sesOnframe (ppLoad c.m) = m at *
  refine ⟨.took (h.pc ▸ hpump) hin, ?_, ?_, replies_sound hsound⟩
  · exact {
      pc := h.pc
      view := hview.symm
      hist := by
        show p.hist.hear p.view e.2 = _
        rw [hhist, h.hist]
        rfl
      willing := hwill'.2
      sound := fun e' he' => h.sound e' (by rw [hin]; exact List.mem_cons_of_mem _ he')
      queue := by
        show buffered m ++ wire = _
        rw [hqueue]
        exact hrest
      room := fun hno => absurd hpump hno
      heard := by
        show (p.hist.handled ++ [_]).map Handled.frame = frames (p.heard ++ [e])
        rw [List.map_append, h.heard]
        simp [frames] }
  · exact .of_map hwill'.1 (by rw [hhist])

/-- The member after it captured `c`. -/
def Party.capture (p : Party) (c : Nat × Nat) : Party :=
  { p with
    pc := .gate
    view := p.view.put p.view.seat (p.view.ahead % 256) c
    hist := { p.hist with captured := p.hist.captured ++ [c] } }

/-- The input of a pass goes out. -/
theorem Shown.captured (h : Shown p c wire) (hseat : p.view.seat ≤ 3) (hpc : c.pc = .pumpGo)
    (hroom : (buffered c.m).length < 100) (input : Nat × Nat) :
    Plays p (p.capture (captureInput input)) [.input p.view.seat p.view.ahead (captureInput input)] c
      ⟨lsCapture input c.m, .gate⟩ wire := by
  have hseat' : c.m.rd netSeat ≤ 3 := by
    have hcell : c.m.rd netSeat = c.m.view.seat := rfl
    rw [hcell, ← h.view]
    exact hseat
  obtain ⟨hcells, hview, l, -, hwill, hhist⟩ := lsCapture_captured input hseat'
  have hwill' := hwill h.willing
  have htick : captureTick c.m = p.view.ahead := by
    rw [h.view]
    rfl
  have hqueue := hcells.quiet_apart.buffered_eq
  rw [htick, ← h.view] at hview
  rw [htick, ← h.view] at hwill'
  have hbytes : (captureInput input).1 < 256 ∧ (captureInput input).2 < 256 :=
    ⟨Nat.mod_lt _ (by decide), Nat.mod_lt _ (by decide)⟩
  have hahead : p.view.ahead < 65536 := Nat.mod_lt _ (by decide)
  generalize lsCapture input c.m = m at *
  refine ⟨.captured hbytes (h.pc.trans hpc), ?_, .of_map hwill'.1 (by rw [hhist]), ?_⟩
  · exact {
      pc := rfl
      view := hview.symm
      hist := by
        show ({ p.hist with captured := p.hist.captured ++ [captureInput input] } : Record) = _
        rw [hhist, h.hist]
      willing := hwill'.2
      sound := h.sound
      queue := (congrArg (· ++ wire) hqueue).trans h.queue
      room := fun _ => by rw [hqueue]; exact hroom
      heard := h.heard }
  · intro x hx
    rw [List.mem_singleton] at hx
    rw [hx]
    refine ⟨⟨⟨by simp [Msg.frame, inputFrame], by simp [Msg.frame, inputFrame], rfl⟩, fun b hb => ?_⟩,
      fun q hq => Msg.noConfusion hq⟩
    simp only [Msg.frame, inputFrame, ftInput, List.mem_cons, List.not_mem_nil, or_false] at hb
    omega

theorem tickMsgs_frames {v : View} {ck : Nat} {due : Bool} {img : List Nat}
    (himg : img.length = imgTotal) : (tickMsgs v ck due img).map Msg.frame =
      (if v.tick % 64 = 0 then [crcFrame v.seat v.tick ck] else []) ++
        if due then pushFrames (((v.tick + 1) % 65536 + 16) % 65536) img else [] := by
  unfold tickMsgs
  rw [List.map_append]
  cases due with
  | false => split <;> rfl
  | true =>
      rw [if_pos rfl, if_pos rfl, pushFrames_eq himg]
      split <;> rfl

theorem tickMsgs_sound {v : View} {ck : Nat} {due : Bool} {img : List Nat} (hseat : v.seat ≤ 3)
    (htick : v.tick < 65536) (hck : ck < 65536) (himg : img.length = imgTotal)
    (hbytes : ∀ b ∈ img, b < 256) : ∀ x ∈ tickMsgs v ck due img, x.Sound := by
  intro x hx
  rcases List.mem_append.mp hx with hx | hx
  · split at hx
    · rw [List.mem_singleton] at hx
      rw [hx]
      exact ⟨crcFrame_framed (by omega) htick hck, fun q hq => Msg.noConfusion hq⟩
    · exact absurd hx (by simp)
  · split at hx
    · exact pushMsgs_sound (Nat.mod_lt _ (by decide)) himg hbytes x hx
    · exact absurd hx (by simp)

/-- The member after a tick with checksum `ck` and simulation `sim`. -/
def Party.run (p : Party) (quiet : Bool) (ck : Nat) (sim : Nat → Nat) : Party :=
  { p with
    pc := .top
    view := (p.view.ran ck).pending quiet
    hist := p.hist.ranTick p.view ck sim ((p.view.ran ck).due quiet) }

/-- A tick. -/
theorem Shown.ran {quiet : Bool} (hrun : RunOf cart quiet c.m (lsRun cart c.m)) (h : Shown p c wire)
    (hseat : p.view.seat ≤ 3) (hcount : p.view.count ≤ 4) (hpc : c.pc = .gate)
    (hopen : c.m.view.dropped ≠ 0 ∨ gateOpen c.m = true) :
    Plays p (p.run quiet (nextCksum cart c.m) (lsTicked cart c.m).sim)
      (tickMsgs p.view (nextCksum cart c.m) ((p.view.ran (nextCksum cart c.m)).due quiet)
        (image (lsTicked cart c.m))) c ⟨lsRun cart c.m, .top⟩ wire := by
  obtain ⟨l, -, hwill, hhist, es, hsent, hes, hepoch⟩ := hrun.hist
  have hwill' := hwill h.willing
  have hck : nextCksum cart c.m < 65536 := lsCksum_lt _
  have hopen' : p.view.dropped ≠ 0 ∨ p.view.ready = true := by
    rw [h.view] at hcount ⊢
    rw [← gateOpen_view hcount]
    exact hopen
  have htick : p.view.tick < 65536 := h.view ▸ tick_lt c.m
  have hqueue := hrun.apart.buffered_eq
  have hview := hrun.view
  have hstill : ¬ c.pc.Pumps := by
    rw [hpc]
    decide
  have hcksum : lsCksum (lsTicked cart c.m) = nextCksum cart c.m := rfl
  have hframes : runFrames cart quiet c.m =
      (tickMsgs p.view (nextCksum cart c.m) ((p.view.ran (nextCksum cart c.m)).due quiet)
        (image (lsTicked cart c.m))).map Msg.frame := by
    rw [tickMsgs_frames (image_length _)]
    unfold runFrames reportFrames dueAfter
    rw [view_lsTicked, ← h.view, hcksum]
  have hdue : dueAfter cart quiet c.m = (p.view.ran (nextCksum cart c.m)).due quiet := by
    unfold dueAfter
    rw [← h.view]
  rw [hdue, ← h.view] at hhist
  rw [← h.view] at hview
  rw [hframes] at hwill'
  have himg := image_length (lsTicked cart c.m)
  have hbytes := image_bytes (lsTicked cart c.m)
  generalize nextCksum cart c.m = ck at *
  generalize image (lsTicked cart c.m) = img at *
  generalize (lsTicked cart c.m).sim = sim at *
  generalize lsRun cart c.m = m at *
  refine ⟨.ran quiet sim (h.pc.trans hpc) hopen' hck himg hbytes, ?_, ?_,
    tickMsgs_sound hseat htick hck himg hbytes⟩
  · exact {
      pc := rfl
      view := hview.symm
      hist := by
        show p.hist.ranTick p.view ck sim ((p.view.ran ck).due quiet) = _
        rw [hhist, h.hist]
        rfl
      willing := hwill'.2
      sound := h.sound
      queue := (congrArg (· ++ wire) hqueue).trans h.queue
      room := fun _ => by rw [hqueue]; exact h.room hstill
      heard := h.heard }
  · refine ⟨es, hsent, ?_⟩
    have hpairs : es.map (fun e => (e.1.epoch, e.2)) =
        (es.map Prod.snd).map fun f => (c.m.hist.stamp.epoch, f) := by
      rw [List.map_map]
      exact List.map_congr_left fun e he => by rw [hepoch e he]; rfl
    rw [hpairs, hes, hwill'.1, List.map_map]
    rfl

/-- One step of a console is one turn of the member that stands for it. -/
theorem Shown.step {v : Move} {bytes : List Nat} (h : Shown p c (bytes ++ wire))
    (hseat : p.view.seat ≤ 3) (hcount : p.view.count ≤ 4)
    (hread : Reads v c (c.step cart v) bytes) : Mirrors p c (c.step cart v) wire := by
  have hnone : ¬ (¬ c.pc.Pumps ∧ (c.step cart v).pc.Pumps) → bytes = [] := by
    intro hno
    rw [Reads, if_neg hno] at hread
    exact hread
  have hchange := step_change cart v c
  generalize c.step cart v = c' at *
  obtain ⟨m', pc'⟩ := c'
  -- whatever is no pump that begins reads nothing
  have hshown : ¬ (¬ c.pc.Pumps ∧ pc'.Pumps) → Shown p c wire := by
    intro hno
    have hempty := hnone hno
    rw [hempty] at h
    exact h
  cases hchange with
  | still hpc hm =>
      have hs := hshown fun hno => hno.1 (by rw [← hpc]; exact hno.2)
      cases hpc
      cases hm
      refine ⟨_, [], .idle .stay, ?_, .silent rfl, by simp⟩
      rw [show ({ p with pc := p.pc } : Party) = p from rfl]
      exact hs
  | parked hpc hpc' hdrop hm =>
      have hs := hshown fun hno => absurd hno.2 (by rw [show pc' = .parked from hpc']; decide)
      cases hpc'
      refine ⟨_, [], .left (hs.pc.trans hpc) (by rw [hs.view]; exact hdrop), ?_, .silent hm.hist,
        by simp⟩
      exact {
        pc := rfl
        view := by rw [hs.view]; exact hm.view.symm
        hist := hs.hist.trans (by rw [hm.hist])
        willing := fun a ha => hs.willing a (hm.answers ▸ ha)
        sound := hs.sound
        queue := (congrArg (· ++ wire) hm.apart.buffered_eq).trans hs.queue
        room := fun _ => by rw [hm.apart.buffered_eq]; exact hs.room (by rw [hpc]; decide)
        heard := hs.heard }
  | recv k hpc hk hm =>
      cases hm
      rw [Reads, if_pos (Pumped.pumps hpc)] at hread
      exact ⟨_, _, h.recv hcount hpc hk hread⟩
  | slip hpump hpc hcut hm =>
      have hs := hshown fun hno => hno.1 hpump
      rcases hs.cut with ⟨hwait, -⟩ | ⟨e, es, rest, -, hframe, -⟩
      · rw [hwait] at hcut
        exact absurd hcut (by simp)
      · rw [hframe] at hcut
        exact absurd hcut (by simp)
  | frame f rest hpump hpc hcut hm =>
      have hs := hshown fun hno => hno.1 hpump
      obtain rfl : pc' = c.pc := hpc
      obtain rfl : m' = sesOnframe (ppLoad c.m) := hm
      rcases hs.cut with ⟨hwait, -⟩ | ⟨e, es, rest, hin, hframe, hrest⟩
      · rw [hwait] at hcut
        exact absurd hcut (by simp)
      · exact ⟨_, _, hs.took hcount hpump hin hframe hrest⟩
  | held hpc hpc' hcut hm =>
      have hs := hshown fun hno => hno.1 (by rw [hpc]; decide)
      have hpc₀ := hs.pc.trans hpc
      have hidle : Idles p pc' := by
        rcases hpc' with rfl | rfl
        · exact .begun hpc₀
        · exact .seated hpc₀
      have hm' : m' = c.m.wr sesTmrLo ((c.m.rd sesTmrLo + 65535) % 65536) := hm
      have hquiet : Writes Quiet c.m m' := by
        rw [hm']
        exact .wr .refl (quiet_of_cell (by decide) (by decide))
      have hqueue := hquiet.quiet_apart.buffered_eq
      have hview : m'.view = c.m.view := by
        rw [hm', view_wr (by simp [ViewCell])]
      have hhist : m'.hist = c.m.hist := by rw [hm', hist_wr]
      have hans : m'.answers = c.m.answers := by rw [hm', answers_wr]
      refine ⟨_, [], .idle hidle, hs.moves hview hhist hans hqueue fun _ => ?_, .silent hhist, by simp⟩
      rw [hqueue]
      rcases hs.cut with ⟨-, hshort⟩ | ⟨e, es, rest, -, hframe, -⟩
      · exact hshort
      · rw [hframe] at hcut
        exact absurd hcut (by simp)
  | waited hpc hcut hm =>
      have hs := hshown fun hno => hno.1 (by rcases hpc with ⟨h, -⟩ | ⟨h, -⟩ <;> rw [h] <;> decide)
      have hqueue := hm.cells.quiet_apart.buffered_eq
      have hroom : (buffered m').length < 100 := by
        rw [hqueue]
        rcases hs.cut with ⟨-, hshort⟩ | ⟨e, es, rest, -, hframe, -⟩
        · exact hshort
        · rw [hframe] at hcut
          exact absurd hcut (by simp)
      have hpc₀ : p.pc = .pumpHold ∧ pc' = .top ∨ p.pc = .pumpStall ∧ pc' = .gate := by
        rw [hs.pc]
        exact hpc
      rcases hm.view with hview | ⟨hold, hh, hview⟩
      · have hidle : Idles p pc' := by
          rcases hpc₀ with ⟨h₀, rfl⟩ | ⟨h₀, rfl⟩
          · exact .held h₀
          · exact .waited h₀
        exact ⟨_, [], .idle hidle, hs.moves hview hm.hist hm.answers hqueue fun _ => hroom,
          .silent hm.hist, by simp⟩
      · refine ⟨_, [], .gaveUp hpc₀ (by rw [hs.view]; exact hh), ?_, .silent hm.hist, by simp⟩
        exact {
          pc := rfl
          view := by rw [hs.view]; exact hview.symm
          hist := hs.hist.trans (by rw [hm.hist])
          willing := fun a ha => hs.willing a (hm.answers ▸ ha)
          sound := hs.sound
          queue := (congrArg (· ++ wire) hqueue).trans hs.queue
          room := fun _ => hroom
          heard := hs.heard }
  | captured hpc hpc' hcut hm =>
      have hs := hshown fun hno => hno.1 (by rw [hpc]; decide)
      obtain rfl : pc' = .gate := hpc'
      obtain rfl : m' = lsCapture v.input c.m := hm
      refine ⟨_, _, hs.captured hseat hpc ?_ v.input⟩
      rcases hs.cut with ⟨-, hshort⟩ | ⟨e, es, rest, -, hframe, -⟩
      · exact hshort
      · rw [hframe] at hcut
        exact absurd hcut (by simp)
  | ran hpc hpc' hopen hm =>
      have hs := hshown fun hno => absurd hno.2 (by rw [show pc' = .top from hpc']; decide)
      obtain rfl : pc' = .top := hpc'
      obtain rfl : m' = lsRun cart c.m := hm
      obtain ⟨quiet, hrun⟩ := lsRun_spec cart c.m
      exact ⟨_, _, hs.ran hrun hseat hcount hpc hopen⟩

/-! ## Runs -/

/-- The cells START sets and nothing else does. -/
structure Fixed (g : Start) (x : Side) (v : View) : Prop where
  seat : v.seat = x.seat
  count : v.count = 2
  delay : v.delay = g.delay

/-- Seat, count and delay outlive any change of the other cells. -/
structure Seated (v v' : View) : Prop where
  seat : v'.seat = v.seat
  count : v'.count = v.count
  delay : v'.delay = v.delay

namespace Seated

variable {v v' v'' : View}

theorem refl : Seated v v := ⟨rfl, rfl, rfl⟩

theorem trans (h₁ : Seated v v') (h₂ : Seated v' v'') : Seated v v'' :=
  ⟨h₂.seat.trans h₁.seat, h₂.count.trans h₁.count, h₂.delay.trans h₁.delay⟩

theorem onMsg (x : Msg) (v : View) : Seated v (v.onMsg x) := by
  cases x with
  | input s t c =>
      show Seated v (v.onInput s t c)
      unfold View.onInput
      split <;> exact ⟨rfl, rfl, rfl⟩
  | report s t ck =>
      show Seated v (v.onCrc t ck)
      unfold View.onCrc
      split <;> exact ⟨rfl, rfl, rfl⟩
  | request t =>
      show Seated v v.onReq
      unfold View.onReq
      split <;> exact ⟨rfl, rfl, rfl⟩
  | opening r => exact ⟨rfl, rfl, rfl⟩
  | piece q => exact ⟨rfl, rfl, rfl⟩
  | closing =>
      show Seated v v.onEnd
      unfold View.onEnd
      split <;> exact ⟨rfl, rfl, rfl⟩

theorem ran (ck : Nat) (v : View) : Seated v (v.ran ck) := by
  unfold View.ran View.report View.advance
  split <;> exact ⟨rfl, rfl, rfl⟩

theorem enter (r : Nat) (v : View) : Seated v (v.enter r) := ⟨rfl, rfl, rfl⟩

theorem rebase (v : View) : Seated v v.rebase := ⟨rfl, rfl, rfl⟩

theorem push (v : View) : Seated v v.push := (enter _ v).trans (rebase _)

theorem pending (quiet : Bool) (v : View) : Seated v (v.pending quiet) := by
  unfold View.pending
  split
  · exact .refl
  · split
    · exact .push v
    · exact ⟨rfl, rfl, rfl⟩

end Seated

theorem Turn.seated {p' : Party} {xs : List Msg} (h : Turn p p' xs) : Seated p.view p'.view := by
  cases h with
  | idle h => exact .refl
  | left hpc hdrop => exact ⟨rfl, rfl, rfl⟩
  | took hpump hin => exact .onMsg _ _
  | captured hc hpc => exact ⟨rfl, rfl, rfl⟩
  | gaveUp hpc hh => exact ⟨rfl, rfl, rfl⟩
  | ran quiet sim hpc hopen hck himg hbytes => exact (Seated.ran _ _).trans (.pending _ _)

/-- A message moves from the inbox to those heard. -/
theorem Turn.mail {p' : Party} {xs : List Msg} (h : Turn p p' xs) :
    p'.heard ++ p'.inbox = p.heard ++ p.inbox := by
  cases h with
  | took hpump hin =>
      rw [hin]
      simp
  | _ => rfl

theorem Fixed.turn {g : Start} {x : Side} {p' : Party} {xs : List Msg} (h : Fixed g x p.view)
    (ht : Turn p p' xs) : Fixed g x p'.view :=
  ⟨ht.seated.seat.trans h.seat, ht.seated.count.trans h.count, ht.seated.delay.trans h.delay⟩

theorem startView_fixed (g : Start) (x : Side) : Fixed g x (startView (g.frame x)) := ⟨rfl, rfl, rfl⟩

/-- Epoch and frame of what a console sent. -/
def sentFrames (m : Machine) : List (Nat × List Nat) := m.hist.sent.map fun e => (e.1.epoch, e.2)

/-- Epoch and frame of what reached a member or is on its way there. -/
def mailFrames (p : Party) : List (Nat × List Nat) :=
  (p.heard ++ p.inbox).map fun e => (e.1.epoch, e.2.frame)

/-- The pair stands for the two consoles. -/
structure Portrays (g : Start) (s : Duo) (t : Pair) : Prop where
  fixed : ∀ x, Fixed g x (t x).view
  fresh : ∀ x, s.proc x = none → (t x) = { Pair.init g x with inbox := (t x).inbox } ∧
    s.wire x = (frames (t x).inbox).flatten ∧ (∀ e ∈ (t x).inbox, e.2.Sound) ∧
    mailFrames (t x.peer) = []
  shown : ∀ x c, s.proc x = some c → Shown (t x) c (s.wire x) ∧
    sentFrames c.m = mailFrames (t x.peer)

theorem Portrays.init (g : Start) : Portrays g Duo.init (Pair.init g) where
  fixed x := startView_fixed g x
  fresh _ _ := ⟨rfl, rfl, fun e he => absurd he (by simp [Pair.init]), rfl⟩
  shown x c h := absurd h (by simp [Duo.init])

/-- More messages under way. -/
theorem Shown.gets {st : Stamp} {xs : List Msg} (h : Shown p c wire) (hxs : ∀ x ∈ xs, x.Sound) :
    Shown (p.gets st xs) c (wire ++ (xs.map Msg.frame).flatten) where
  pc := h.pc
  view := h.view
  hist := h.hist
  willing := h.willing
  sound e he := by
    rcases List.mem_append.mp he with he | he
    · exact h.sound e he
    · obtain ⟨x, hx, rfl⟩ := List.mem_map.mp he
      exact hxs x hx
  queue := by
    rw [← List.append_assoc, h.queue]
    simp [Party.gets, frames, Function.comp_def]
  room := h.room
  heard := h.heard

theorem mailFrames_gets (st : Stamp) (xs : List Msg) (p : Party) : mailFrames (p.gets st xs) =
    mailFrames p ++ xs.map fun x => (st.epoch, x.frame) := by
  simp [mailFrames, Party.gets, Function.comp_def]

variable {g : Start} {s s' : Duo} {t : Pair}

/-- A member enters the match. -/
theorem Portrays.start {x : Side} {m : Machine} (h : Portrays g s t)
    (hstep : Duo.Step cart g (.start x m) s s') : Portrays g s' t := by
  cases hstep with
  | start hproc henter hwill hwire hthis hpeer hsent =>
      obtain ⟨hparty, hqueue, hsound, hmail⟩ := h.fresh x hproc
      obtain ⟨hview, hhist⟩ := henter.view (g.frame_framed x) rfl
      refine ⟨h.fixed, fun y hy => ?_, fun y c hc => ?_⟩
      · rcases Side.eq_or_peer x y with rfl | rfl
        · rw [hthis] at hy
          exact absurd hy (by simp)
        · rw [hsent]
          exact h.fresh _ (hpeer ▸ hy)
      · rcases Side.eq_or_peer x y with rfl | rfl
        · rw [hthis, Option.some.injEq] at hc
          rw [← hc, hmail]
          constructor
          · exact {
              pc := by rw [hparty]; rfl
              view := by rw [hparty]; exact hview.symm
              hist := by rw [hparty]; exact hhist ▸ rfl
              willing := hwill
              sound := hsound
              queue := by rw [← hqueue, hwire]
              room := fun hno => absurd (Or.inl rfl) hno
              heard := by rw [hparty]; rfl }
          · show m.hist.sent.map _ = []
            rw [hhist]
            rfl
        · rw [hsent]
          exact h.shown _ c (hpeer ▸ hc)

/-- The pair after member `x` becomes `p'` and sends `xs`. -/
def Pair.after (t : Pair) (x : Side) (p' : Party) (xs : List Msg) : Pair := fun y =>
  if y = x then p' else (t y).gets (t x).hist.stamp xs

theorem Pair.after_self (x : Side) (p' : Party) (xs : List Msg) : t.after x p' xs x = p' := if_pos rfl

theorem Pair.after_peer (x : Side) (p' : Party) (xs : List Msg) :
    t.after x p' xs x.peer = (t x.peer).gets (t x).hist.stamp xs := if_neg x.peer_ne

/-- A member takes a step, and the pair the turn that it is. -/
theorem Portrays.plays {x : Side} {c c' : Proc} {p' : Party} {xs : List Msg} (h : Portrays g s t)
    (hproc : s.proc x = some c) (hplays : Plays (t x) p' xs c c' (s'.wire x))
    (hthis : s'.proc x = some c') (hpeer : s'.proc x.peer = s.proc x.peer)
    (hsent : s'.wire x.peer = s.wire x.peer ++ (newFrames c.m c'.m).flatten) :
    Portrays g s' (t.after x p' xs) := by
  obtain ⟨hshown, hmail⟩ := h.shown x c hproc
  have hfixed := h.fixed x
  have hturn := hplays.turn
  have hsends := hplays.sends
  have hxs := hplays.sound
  rw [hsends.newFrames] at hsent
  have hx := Pair.after_self (t := t) x p' xs
  have hx' := Pair.after_peer (t := t) x p' xs
  refine ⟨fun y => ?_, fun y hy => ?_, fun y d hd => ?_⟩
  · rcases Side.eq_or_peer x y with rfl | rfl
    · rw [hx]
      exact hfixed.turn hturn
    · rw [hx']
      exact h.fixed x.peer
  · rcases Side.eq_or_peer x y with rfl | rfl
    · rw [hthis] at hy
      exact absurd hy (by simp)
    · obtain ⟨hparty, hqueue, hsound, hempty⟩ := h.fresh x.peer (hpeer ▸ hy)
      rw [x.peer_peer] at hempty ⊢
      rw [hx, hx']
      refine ⟨?_, ?_, fun e he => ?_, ?_⟩
      · rw [hparty]
        rfl
      · rw [hsent, hqueue]
        simp [Party.gets, frames, Function.comp_def]
      · rcases List.mem_append.mp he with he | he
        · exact hsound e he
        · obtain ⟨z, hz, rfl⟩ := List.mem_map.mp he
          exact hxs z hz
      · rw [mailFrames, hturn.mail]
        exact hempty
  · rcases Side.eq_or_peer x y with rfl | rfl
    · rw [hthis, Option.some.injEq] at hd
      rw [← hd, hx, hx']
      refine ⟨hplays.shown, ?_⟩
      obtain ⟨es, hes, hmap⟩ := hsends
      rw [mailFrames_gets, ← hmail, sentFrames, hes, List.map_append, hmap, hshown.hist]
      rfl
    · obtain ⟨hthat, hmail'⟩ := h.shown x.peer d (hpeer ▸ hd)
      rw [x.peer_peer] at hmail' ⊢
      rw [hx, hx', hsent]
      refine ⟨hthat.gets hxs, ?_⟩
      rw [hmail', mailFrames, mailFrames, hturn.mail]

/-- A member takes a step. -/
theorem Portrays.turn {x : Side} {v : Move} (h : Portrays g s t)
    (hstep : Duo.Step cart g (.turn x v) s s') : ∃ t', Pair.Step x t t' ∧ Portrays g s' t' := by
  cases hstep with
  | @turn _ _ _ _ c bytes hproc hread hwire hthis hpeer hsent =>
      have hshown := (h.shown x c hproc).1
      have hfixed := h.fixed x
      have hseat := x.seat_lt
      rw [hwire] at hshown
      obtain ⟨p', xs, hplays⟩ := hshown.step
        (by rw [hfixed.seat]; omega) (by rw [hfixed.count]; decide) hread
      refine ⟨t.after x p' xs, ⟨xs, ?_, Pair.after_peer x p' xs⟩,
        h.plays hproc hplays hthis hpeer hsent⟩
      rw [Pair.after_self]
      exact hplays.turn

/-- Every run of the consoles is one of the pair. -/
theorem Portrays.run {es : List Event} (h : Portrays g s t) (hrun : Run (Duo.Step cart g) s es s') :
    ∃ xs t', Run Pair.Step t xs t' ∧ Portrays g s' t' := by
  induction hrun generalizing t with
  | nil s => exact ⟨[], t, .nil t, h⟩
  | @cons s u s' e es hstep _ ih =>
      cases e with
      | start x m => exact ih (h.start hstep)
      | turn x v =>
          obtain ⟨t₁, hturn, h₁⟩ := h.turn hstep
          obtain ⟨xs, t', hrun', h'⟩ := ih h₁
          exact ⟨x :: xs, t', .cons hturn hrun', h'⟩

end SharkNetplay.Console
