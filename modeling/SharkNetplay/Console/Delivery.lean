import SharkNetplay.Console.Adoption
import SharkNetplay.Console.Pump
import SharkNetplay.Console.Served
import SharkNetplay.Relay.CFrames
import SharkNetplay.Relay.PyFrames

/-!
# From the relay to the console

The frames a relay queues to a console pass `SES_FLEN`, so the parser never slips and hands
every one of them to `SES_ONFRAME`, however the stream is split.

## Implementation notes

Of the frames that are relayed it is asked that a console sent them. `NET_COUNT` bounds the
seats that INPUT is stored for, so its bound is part of the invariant.
-/

namespace SharkNetplay.Console

open Lib Lib.Framing Cell Machine

variable {m m' : Machine} {f : List Nat}

/-! ## What a console can be sent -/

/-- A message for every frame that a console sends. -/
theorem ConsoleFrame.msg (h : ConsoleFrame f) : ∃ x : Msg, x.frame = f ∧ x.Sound := by
  have hframed := h.framed
  have hplain : ∀ x : Msg, (∀ q, x ≠ .piece q) → x.frame = f → ∃ x : Msg, x.frame = f ∧ x.Sound :=
    fun x hx hf => ⟨x, hf, hf ▸ hframed, fun q hq => absurd hq (hx q)⟩
  cases h with
  | input m input h =>
      unfold lsCapture at h
      extract_lets m₁ r2 r3 m₂ m₃ m₄ at h
      have hemits : Emits ([] ++ [_]) m m₄ := .trans
        (show Emits [] m m₃ from .silent (by simp [m₃, m₂, m₁]) (by simp [m₃, m₂, m₁]))
        (sendFrame_emits (by simp) m₃)
      rw [List.nil_append] at hemits
      have hf := List.mem_singleton.mp (hemits.newFrames rfl h)
      refine hplain (.input (m₃.rd netSeat % 256) (r2 % 256 % 256 + r2 / 256 % 256 * 256)
        (m₃.rd lsTmpb % 256, m₃.rd lsTmpb2 % 256)) (fun _ => Msg.noConfusion) ?_
      rw [hf]
      simp only [Msg.frame, inputFrame, List.map_cons, List.map_nil, ftInput, List.cons.injEq,
        true_and, and_true]
      omega
  | report m h =>
      have hf := (lsReport_emits m).newFrames rfl h
      split at hf
      · exact hplain (.report _ _ _) (fun _ => Msg.noConfusion) (List.mem_singleton.mp hf).symm
      · exact absurd hf List.not_mem_nil
  | request m h =>
      have hf := (rsOnCrc_emits m).newFrames rfl h
      split at hf
      · exact hplain (.request _) (fun _ => Msg.noConfusion) (List.mem_singleton.mp hf).symm
      · exact absurd hf List.not_mem_nil
  | push m h =>
      have hsent : (rsPush m).hist.sent = (rsSend m).hist.sent := by
        rw [rsPush_eq]
        simp
      have hf := (rsSend_emits m).newFrames hsent h
      rw [pushFrames_eq (image_length m)] at hf
      obtain ⟨x, hx, rfl⟩ := List.mem_map.mp hf
      exact ⟨x, rfl, pushMsgs_sound (Nat.mod_lt _ (by decide)) (image_length m) (image_bytes m) x hx⟩

theorem Msg.frame_type (x : Msg) : x.frame.getD 1 0 ∈ Relay.relayTypes := by
  cases x <;> simp [Msg.frame, inputFrame, crcFrame, reqFrame, beginFrame, endFrame,
    Relay.relayTypes]

/-- A frame of the relay's own, or of a console. -/
inductive Sendable (f : List Nat) : Prop
  | server (h : Relay.ServerFrame f)
  | console (x : Msg) (hx : x.Sound) (hf : x.frame = f)

theorem sendable_of_queueable (h : Relay.Queueable f)
    (hpeer : f.getD 1 0 ∈ Relay.relayTypes → ConsoleFrame f) : Sendable f := by
  rcases h with h | h
  · exact .server h
  · obtain ⟨x, hf, hx⟩ := (hpeer h).msg
    exact .console x hx hf

/-- The relay's own frames pass `SES_FLEN`. -/
theorem serverFrame_framed (h : Relay.ServerFrame f) : Framed f := by
  have hshape := h.shape
  refine ⟨⟨?_, h.length, ?_⟩, h.bytes⟩
  · have hlen := h.length
    rcases hshape with h | h | h | h | h <;> omega
  · rcases hshape with ⟨hty, hlo, hhi⟩ | ⟨hty, hlen, -⟩ | ⟨hty, hlen, -⟩ | ⟨hty, hlen⟩ | ⟨hty, hlen⟩
    · rw [hty]
      simp only [headOk, sesFlen, Relay.tLobby, decide_eq_true_eq]
      rintro (h | h | h)
      · exact absurd h (by decide)
      · omega
      · omega
    · rw [hty, hlen]
      rfl
    · rw [hty, hlen]
      rfl
    · rw [hty, hlen]
      rfl
    · rw [hty, hlen]
      rfl

theorem Sendable.framed (h : Sendable f) : Framed f := by
  cases h with
  | server h => exact serverFrame_framed h
  | console x hx hf => exact hf ▸ hx.framed

/-! ## One frame -/

/-- The counts are in range. -/
structure Ranged (m : Machine) : Prop where
  count : m.rd netCount ≤ 4
  lobby : m.rd lobbyCnt ≤ 8

theorem Ranged.of_eq (h : Ranged m) (hcount : m'.rd netCount = m.rd netCount)
    (hlobby : m'.rd lobbyCnt = m.rd lobbyCnt) : Ranged m' :=
  ⟨hcount ▸ h.count, hlobby ▸ h.lobby⟩

theorem Loaded.ranged {rest : List Nat} (h : Loaded f rest m m') (hm : Ranged m) : Ranged m' :=
  hm.of_eq (h.frame _ (by decide) (by decide)) (h.frame _ (by decide) (by decide))

/-- A sendable frame in `FRMBUF` uses no count or seat out of range. -/
theorem Sendable.tame (h : Sendable f) (hbuf : InBuf f m) (hm : Ranged m) : Tame m := by
  have hlong := h.framed.wellFormed.long
  have hty : m.rd (frmBuf + 1) = f.getD 1 0 := hbuf.getD (by omega)
  refine ⟨fun _ hfresh => ?_, fun hroom _ hlen => ?_⟩
  · simp only [inputFresh, decide_eq_true_eq] at hfresh
    have := hm.count
    omega
  · have hcell : m.rd (frmBuf + 2) = f.getD 2 0 := hbuf.getD (by have := hbuf.len; omega)
    rw [hcell]
    rw [hty] at hroom
    cases h with
    | server h =>
        rcases h.shape with h | h | h | h | h
        · exact absurd (h.1.symm.trans hroom) (by decide)
        · exact absurd (h.1.symm.trans hroom) (by decide)
        · exact Nat.le_trans h.2.2 (by decide)
        · exact absurd (h.1.symm.trans hroom) (by decide)
        · exact absurd (h.1.symm.trans hroom) (by decide)
    | console x hx hf =>
        have hrelay := x.frame_type
        rw [hf, hroom] at hrelay
        exact absurd hrelay (by decide)

/-- `NET_COUNT` after a frame: only START sets it. -/
theorem Sendable.count (h : Sendable f) (hm : Ranged m) (hhandles : HandlesFrame f m m') :
    m'.rd netCount ≤ 4 := by
  have hframed := h.framed
  obtain ⟨rest, hload, hbuf, hm'⟩ := hhandles.loaded
  have hsame : ∀ {m₁ : Machine}, m₁.view.count = m.view.count → m₁.rd netCount ≤ 4 :=
    fun hcount => Nat.le_trans (Nat.le_of_eq hcount) hm.count
  cases h with
  | console x hx hf =>
      subst hf hm'
      have hcount : (ppLoad m).rd netCount ≤ 4 := (hload.ranged hm).count
      refine hsame ?_
      rw [(took_msg hbuf hcount hx).1.view, (Keeps.onMsg x _).count, hload.view]
  | server h =>
      by_cases hstart : f.getD 1 0 = ftStart
      · obtain ⟨hlen, hcount⟩ : f.headD 0 = 38 ∧ f.getD 3 0 ≤ 4 := by
          rcases h.shape with hk | hk | hk | hk | hk
          · exact absurd (hk.1.symm.trans hstart) (by decide)
          · exact hk.2
          · exact absurd (hk.1.symm.trans hstart) (by decide)
          · exact absurd (hk.1.symm.trans hstart) (by decide)
          · exact absurd (hk.1.symm.trans hstart) (by decide)
        have hlength : f.length = 39 := by
          rw [h.length, hlen]
        have hty : (ppLoad m).rd (frmBuf + 1) = ftStart := by
          rw [hbuf.getD (by omega), hstart]
        have hview := view_ofStart hbuf.logHandled hlength
        rw [hm', sesOnframe_start hty]
        have hfield : (ofStart (logHandled (ppLoad m))).rd netCount = f.getD 3 0 :=
          congrArg View.count hview
        rw [hfield]
        exact hcount
      · have hlobby : LobbyFrame f := by
          refine ⟨hframed, ?_, fun hroom => ?_⟩
          · rcases h.shape with hk | hk | hk | hk | hk
            · rw [hk.1]
              decide
            · exact absurd hk.1 hstart
            · rw [hk.1]
              decide
            · rw [hk.1]
              decide
            · rw [hk.1]
              decide
          · rcases h.shape with hk | hk | hk | hk | hk
            · exact absurd (hk.1.symm.trans hroom) (by decide)
            · exact absurd hk.1 hstart
            · exact hk.2.2
            · exact absurd (hk.1.symm.trans hroom) (by decide)
            · exact absurd (hk.1.symm.trans hroom) (by decide)
        refine hsame ?_
        rw [(hlobby.view hm.lobby hhandles).1]
        split
        · rfl
        · rfl

/-- A round with a sendable frame at the head dispatches it, and nothing else. -/
theorem Sendable.round {rest : List Nat} (h : Sendable f) (hm : Ranged m)
    (hcut : cut headOk (buffered m) = .frame f rest) :
    ∃ m', ppParse m = some m' ∧ ppTake m = .frame f ∧ buffered m' = rest ∧ Ranged m' ∧
      m'.rd diagSlip = m.rd diagSlip := by
  have hload := ppLoad_loaded hcut
  have hparse : ppParse m = some (sesOnframe (ppLoad m)) := by rw [ppParse_eq, hcut]
  have hhandles : HandlesFrame f m (sesOnframe (ppLoad m)) := ⟨rest, hcut, hparse⟩
  have hranged := hload.ranged hm
  have hw := sesOnframe_writes (h.tame hload.inBuf hranged) hranged.lobby
  refine ⟨_, hparse, ppTake_frame hcut, ?_,
    ⟨h.count hm hhandles, lobbyCnt_keeps hw hranged.lobby⟩, ?_⟩
  · rw [buffered_writes hw fun a v hv => offRing_of_handler hv]
    exact hload.queue
  · rw [hw.frame fun v hv => hv.2.2.2.2.1 rfl]
    exact hload.frame _ (by decide) (by decide)

/-! ## A pump -/

theorem pumpRecv_ranged (v : Arrival) (hm : Ranged m) :
    Ranged (pumpRecv v m) ∧ (pumpRecv v m).rd diagSlip = m.rd diagSlip := by
  have hw := pumpRecv_writes v m
  refine ⟨hm.of_eq (hw.frame ?_) (hw.frame ?_), hw.frame ?_⟩ <;> simp [RecvCell, Mail]

/-- The rounds of a pump on a stream of sendable frames dispatch those at the head, in order,
and wait on the rest. -/
theorem rounds_deliver (fuel : Nat) {fs : List (List Nat)} {wire : List Nat}
    (hfs : ∀ f ∈ fs, Sendable f) (hm : Ranged m) (hfuel : (buffered m).length < fuel)
    (hstream : buffered m ++ wire = fs.flatten) :
    ∃ taken rest, fs = taken ++ rest ∧ ppEats fuel m = taken.map .frame ∧
      buffered (ppRounds fuel m) ++ wire = rest.flatten ∧
      cut headOk (buffered (ppRounds fuel m)) = .wait ∧ Ranged (ppRounds fuel m) ∧
      (ppRounds fuel m).rd diagSlip = m.rd diagSlip := by
  induction fuel generalizing m fs with
  | zero => exact absurd hfuel (Nat.not_lt_zero _)
  | succ fuel ih =>
      unfold ppEats ppRounds
      rcases cut_stream (fun f hf => (hfs f hf).framed.wellFormed) hstream with
        ⟨hwait, -⟩ | ⟨f, fs', rest, rfl, hcut, hrest⟩
      · have hnone : ppParse m = none := by rw [ppParse_eq, hwait]
        rw [hnone]
        exact ⟨[], fs, rfl, rfl, hstream, hwait, hm, rfl⟩
      · obtain ⟨m', hparse, htake, hbuf, hm', hslip⟩ :=
          (hfs f List.mem_cons_self).round hm hcut
        have hless : (buffered m').length < fuel := by
          obtain ⟨hsplit, hwf⟩ := cut_eq_frame headOk_zero hcut
          have hlong := hwf.long
          rw [hsplit, List.length_append] at hfuel
          rw [hbuf]
          omega
        obtain ⟨taken, rest', hfs', heats, hflat, hwait, hranged, hslip'⟩ :=
          ih (fun g hg => hfs g (List.mem_cons_of_mem _ hg)) hm' hless (by rw [hbuf]; exact hrest)
        rw [hparse]
        refine ⟨f :: taken, rest', by rw [hfs']; rfl, ?_, hflat, hwait, hranged,
          hslip'.trans hslip⟩
        dsimp only
        rw [heats, htake, List.map_cons]

/-! ## Whole streams -/

/-- A console on a byte stream: `s` is what was read, `es` what was consumed. The rest of the
console leaves the ring, the counts and `DIAG_SLIP` alone. -/
inductive Delivery : Machine → List Nat → List Eaten → Machine → Prop
  | start (m : Machine) : Delivery m [] [] m
  | pump {m m' : Machine} {s : List Nat} {es : List Eaten} (v : Arrival) :
      Delivery m s es m' → v.bytes.length ≤ 64 →
      Delivery m (s ++ pumpGot v m') (es ++ ppEats 256 (pumpRecv v m')) (sesPump v m')
  | other {m m' m'' : Machine} {s : List Nat} {es : List Eaten} :
      Delivery m s es m' → (∀ a, RxCell a → m''.rd a = m'.rd a) →
      m''.rd netCount = m'.rd netCount → (m'.rd lobbyCnt ≤ 8 → m''.rd lobbyCnt ≤ 8) →
      m''.rd diagSlip = m'.rd diagSlip → Delivery m s es m''

/-- A frame that a v2 relay queued to a console in some run; one that it relayed was sent by a
console. -/
structure RelayFrame (f : List Nat) : Prop where
  queued : (∃ delay autoGo outcomes seeds events c,
      (c, f) ∈ ((Relay.Py.Server.init delay autoGo outcomes seeds).run events).queued) ∨
    ∃ maxSeats delay autoGo outcomes seeds events e, maxSeats ≤ 4 ∧
      e ∈ ((Relay.C.Server.init .v2 maxSeats delay autoGo outcomes seeds).run events).queued ∧
      e.frame = f
  peer : f.getD 1 0 ∈ Relay.relayTypes → ConsoleFrame f

theorem RelayFrame.sendable (h : RelayFrame f) : Sendable f := by
  refine sendable_of_queueable ?_ h.peer
  rcases h.queued with ⟨delay, autoGo, outcomes, seeds, events, c, hq⟩ |
    ⟨maxSeats, delay, autoGo, outcomes, seeds, events, e, hseats, hq, rfl⟩
  · exact Relay.Py.queued_frames delay autoGo outcomes seeds events _ hq
  · exact Relay.C.queued_frames hseats delay autoGo outcomes seeds events e hq

/-- The console is at a frame boundary but for what it has of the next frame. -/
structure Abreast (fs : List (List Nat)) (s : List Nat) (es : List Eaten) (m m' : Machine) :
    Prop where
  taken : ∃ taken rest, fs = taken ++ rest ∧ es = taken.map .frame ∧
    s = taken.flatten ++ buffered m'
  wait : cut headOk (buffered m') = .wait
  ranged : Ranged m'
  slip : m'.rd diagSlip = m.rd diagSlip

/-- Every step keeps the console abreast of the stream. -/
theorem delivery_abreast {fs : List (List Nat)} {s : List Nat} {es : List Eaten}
    (hfs : ∀ f ∈ fs, Sendable f) (hrun : Delivery m s es m') (hempty : buffered m = [])
    (hm : Ranged m) (hs : s <+: fs.flatten) : Abreast fs s es m m' := by
  induction hrun with
  | start => exact ⟨⟨[], fs, rfl, rfl, hempty.symm⟩, by rw [hempty]; rfl, hm, rfl⟩
  | other _ hring hcount hlobby hslip ih =>
      obtain ⟨htaken, hwait, hranged, hslip'⟩ := ih hs
      have hbuf := buffered_congr hring
      exact ⟨by rw [hbuf]; exact htaken, by rw [hbuf]; exact hwait,
        ⟨hcount ▸ hranged.count, hlobby hranged.lobby⟩, hslip.trans hslip'⟩
  | @pump m' s es v _ hv ih =>
      obtain ⟨⟨taken, rest, rfl, rfl, rfl⟩, hwait, hranged, hslip⟩ :=
        ih ((List.prefix_append _ _).trans hs)
      have hshort := buffered_wait (m := m') (by rw [ppParse_eq, hwait])
      have hgot := buffered_recv (m := m') v (by omega)
      obtain ⟨wire, hwire⟩ := hs
      have hstream : buffered (pumpRecv v m') ++ wire = rest.flatten := by
        rw [hgot]
        rw [List.flatten_append, List.append_assoc, List.append_assoc] at hwire
        rw [List.append_assoc]
        exact List.append_cancel_left hwire
      obtain ⟨hranged', hslip'⟩ := pumpRecv_ranged v hranged
      obtain ⟨taken', rest', rfl, heats, hflat, hwait', hranged'', hslip''⟩ :=
        rounds_deliver 256 (fun f hf => hfs f (List.mem_append_right _ hf)) hranged'
          (buffered_length_lt _) hstream
      refine ⟨⟨taken ++ taken', rest', by rw [List.append_assoc], ?_, ?_⟩, hwait', hranged'',
        hslip''.trans (hslip'.trans hslip)⟩
      · rw [heats, List.map_append]
      · rw [List.flatten_append, List.append_assoc, List.append_assoc, ← hgot]
        have hall : buffered (pumpRecv v m') =
            taken'.flatten ++ buffered (ppRounds 256 (pumpRecv v m')) := by
          rw [List.flatten_append, ← hflat, ← List.append_assoc] at hstream
          exact List.append_cancel_right hstream
        rw [hall]
        rfl

/-- A console hands every frame the relay queued to it to `SES_ONFRAME`, whole and in order, as
soon as its last byte is read, and never slips. -/
theorem frames_delivered {fs : List (List Nat)} {s : List Nat} {es : List Eaten}
    (hfs : ∀ f ∈ fs, RelayFrame f) (hrun : Delivery m s es m') (hempty : buffered m = [])
    (hcount : m.rd netCount ≤ 4) (hlobby : m.rd lobbyCnt ≤ 8) (hs : s <+: fs.flatten) :
    es = (wholeWithin fs s.length).map .frame ∧ (s = fs.flatten → es = fs.map .frame) ∧
      m'.rd diagSlip = m.rd diagSlip := by
  have hsend : ∀ f ∈ fs, Sendable f := fun f hf => (hfs f hf).sendable
  obtain ⟨⟨taken, rest, rfl, rfl, rfl⟩, hwait, -, hslip⟩ :=
    delivery_abreast hsend hrun hempty ⟨hcount, hlobby⟩ hs
  obtain ⟨wire, hwire⟩ := hs
  rw [List.flatten_append, List.append_assoc] at hwire
  have hwhole : wholeWithin (taken ++ rest) (taken.flatten ++ buffered m').length = taken :=
    wholeWithin_taken (fun f hf => (hsend f (List.mem_append_right _ hf)).framed.wellFormed) hwait
      (List.append_cancel_left hwire)
  refine ⟨?_, fun hall => ?_, hslip⟩
  · rw [hwhole]
  · rw [hall, wholeWithin_total] at hwhole
    exact congrArg (List.map Eaten.frame) hwhole.symm

/-- `BB` joins `AA`, who starts the match and sends its first INPUT. -/
def joined : List Relay.Event :=
  [.accept 1, .accept 2, .recv 0 (Relay.Py.frame Relay.tHello [2, 65, 65]), .recv 1 (Relay.Py.frame Relay.tHello [2, 66, 66]),
    .recv 1 (Relay.Py.frame Relay.tJoin [65, 65]), .recv 0 (Relay.Py.frame Relay.tGo []),
    .recv 0 (inputFrame 0 2 (17, 0))]

/-- A lobby of `AA`, the room of both, the START of seat 1 and the INPUT of seat 0. -/
def joinerFrames : List (List Nat) :=
  let roster := [65, 65, 0, 0, 0, 0, 0, 0, 66, 66] ++ List.replicate 22 0
  [[11, Relay.tLobby, 1, 65, 65, 0, 0, 0, 0, 0, 0, 1], [34, Relay.tRoom, 2] ++ roster,
    [38, Relay.tStart, 1, 2, 1, 0, 2] ++ roster, inputFrame 0 2 (17, 0)]

theorem consoleFrame_input : ConsoleFrame (inputFrame 0 2 (17, 0)) := by
  refine .input (blank.wr netDelay 2) (17, 0) ?_
  decide +kernel

theorem joinerFrames_relayed : ∀ f ∈ joinerFrames, RelayFrame f := by
  have hqueued : ∀ f ∈ joinerFrames, (1, f) ∈ ((Relay.Py.Server.init 2 0 [] []).run joined).queued := by
    decide +kernel
  have hpeer : ∀ f ∈ joinerFrames, f.getD 1 0 ∈ Relay.relayTypes → f = inputFrame 0 2 (17, 0) := by
    decide
  exact fun f hf => ⟨.inl ⟨2, 0, [], [], joined, 1, hqueued f hf⟩,
    fun hty => hpeer f hf hty ▸ consoleFrame_input⟩

/-- The first 64 bytes end inside the START. -/
theorem frames_delivered_joiner :
    let v₁ := Arrival.of (joinerFrames.flatten.take 64)
    let v₂ := Arrival.of (joinerFrames.flatten.drop 64)
    ppEats 256 (pumpRecv v₁ blank) = (joinerFrames.take 2).map .frame ∧
      ppEats 256 (pumpRecv v₂ (sesPump v₁ blank)) = (joinerFrames.drop 2).map .frame ∧
      (sesPump v₂ (sesPump v₁ blank)).rd diagSlip = 0 := by
  intro v₁ v₂
  have hempty : buffered blank = [] := rfl
  have hrun₁ := Delivery.pump v₁ (.start blank) (by decide)
  rw [(buffered_blank (f := joinerFrames.flatten.take 64) (by decide) (by decide)).2,
    List.nil_append, List.nil_append] at hrun₁
  have hprefix : joinerFrames.flatten.take 64 <+: joinerFrames.flatten := List.take_prefix _ _
  have hwait := (delivery_abreast (fun f hf => (joinerFrames_relayed f hf).sendable) hrun₁ hempty
    ⟨by decide, by decide⟩ hprefix).wait
  obtain ⟨hfirst, -, -⟩ := frames_delivered joinerFrames_relayed hrun₁ hempty (by decide)
    (by decide) hprefix
  have hwhole : wholeWithin joinerFrames (joinerFrames.flatten.take 64).length =
      joinerFrames.take 2 := by decide
  rw [hwhole] at hfirst
  generalize sesPump v₁ blank = m₁ at hrun₁ hwait ⊢
  have hshort : (buffered m₁).length ≤ 99 := buffered_wait (by rw [ppParse_eq, hwait])
  have hlen : v₂.bytes.length ≤ 64 := by decide
  have hgot : pumpGot v₂ m₁ = joinerFrames.flatten.drop 64 := by
    have hrest : v₂.Delivers (joinerFrames.flatten.drop 64) := Arrival.of_delivers hlen
    have hall := pumpGot_delivers (m := m₁) hrest (by omega) (buffered_recv v₂ (by omega))
    rw [hall]
    decide
  have hrun₂ := Delivery.pump v₂ hrun₁ hlen
  rw [hgot, List.take_append_drop] at hrun₂
  obtain ⟨-, hall, hslip⟩ := frames_delivered joinerFrames_relayed hrun₂ hempty (by decide)
    (by decide) (List.prefix_refl _)
  have heats := hall rfl
  rw [hfirst, ← List.take_append_drop 2 joinerFrames, List.map_append] at heats
  exact ⟨hfirst, List.append_cancel_left heats, hslip⟩

end SharkNetplay.Console
