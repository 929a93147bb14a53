import SharkNetplay.Console.Bases

/-!
# No tick inside a push

A pass of the guest that is on its way to a tick hears nothing of a push but its BEGIN: the pump
of a pass that is out of the hold reads at most 64 bytes, so the first chunk is not whole before
the tick is over, and a pass in the hold waits for the END.

## Implementation notes

Only how many bytes of the messages have arrived matters, not which.
-/

namespace SharkNetplay.Console

open Lib Framing

variable {n : Nat → Nat} {d got i j : Nat} {h p p' : Party} {k : Proc} {cart : Cart} {v : Move}
  {xs : List Msg} {wire bytes img : List Nat} {st : Stamp} {y : Stamp × Msg}
  {rest : List (Stamp × Msg)} {q : Piece Nat} {qs : List (Piece Nat)}

theorem frame_pos (x : Msg) : 0 < x.frame.length := by
  cases x with
  | _ => exact Nat.succ_pos _

/-- What the first chunk is cut from. -/
theorem chunkPieces_cons {fuel at₀ : Nat} (h : chunkPieces img fuel at₀ = q :: qs) :
    q.values = (img.drop at₀).take (min (imgTotal - at₀) rsChunk) := by
  cases fuel with
  | zero => exact absurd h (List.cons_ne_nil _ _).symm
  | succ fuel =>
      simp only [chunkPieces] at h
      split at h
      · exact absurd h (List.cons_ne_nil _ _).symm
      · exact (congrArg Piece.values (List.cons.inj h).1).symm

/-- The frame of the first chunk of a push is a whole one. -/
theorem first_chunk (himg : img.length = imgTotal) (h : chunkPieces img imgTotal 0 = q :: qs) :
    (Msg.piece q).frame.length = rsChunk + 4 := by
  have hvalues : q.values.length = rsChunk := by
    rw [chunkPieces_cons h, List.drop_zero, List.length_take, himg]
    decide
  show (q.values).length + 4 = rsChunk + 4
  rw [hvalues]

/-! ## The bytes that have arrived -/

/-- The reader waits for the rest of the first message. -/
theorem Shown.waits (hs : Shown p k wire) (hwait : Framing.cut headOk (buffered k.m) = .wait)
    (hin : p.inbox = y :: rest) : (buffered k.m).length < y.2.frame.length := by
  by_contra hge
  have hqueue := hs.queue
  rw [hin] at hqueue
  have hprefix : y.2.frame <+: buffered k.m := List.prefix_of_prefix_length_le
    ⟨(frames rest).flatten, hqueue.symm⟩ (List.prefix_append _ _) (Nat.le_of_not_lt hge)
  obtain ⟨tail, htail⟩ := hprefix
  have hframed : WellFormed headOk y.2.frame :=
    (hs.sound y (by rw [hin]; exact List.mem_cons_self)).framed.wellFormed
  rw [← htail, cut_append hframed] at hwait
  exact nomatch hwait

/-- How many bytes a turn leaves arrived, of `i`. -/
structure Arrives (p p' : Party) (i j : Nat) : Prop where
  begins : ¬ p.pc.Pumps → p'.pc.Pumps → p'.inbox = p.inbox → j ≤ i + 64
  stays : p.pc.Pumps ∨ ¬ p'.pc.Pumps → p'.inbox = p.inbox → j = i
  cuts : p.pc.Pumps → ∀ y, p.inbox = y :: p'.inbox → i = y.2.frame.length + j
  ends : p.pc.Pumps → ¬ p'.pc.Pumps → ∀ y rest, p.inbox = y :: rest → i < y.2.frame.length

theorem Shown.arrives (hs : Shown p k (bytes ++ wire)) (hs' : Shown p' (k.step cart v) wire)
    (hread : Reads v k (k.step cart v) bytes) :
    Arrives p p' (buffered k.m).length (buffered (k.step cart v).m).length := by
  have hqueue := congrArg List.length hs.queue
  have hqueue' := congrArg List.length hs'.queue
  rw [List.length_append, List.length_append] at hqueue
  rw [List.length_append] at hqueue'
  have hnone : p.pc.Pumps ∨ ¬ p'.pc.Pumps → bytes = [] := by
    intro hno
    rw [hs.pc, hs'.pc] at hno
    have hneg : ¬ (¬ k.pc.Pumps ∧ (k.step cart v).pc.Pumps) := fun hboth =>
      hno.elim hboth.1 fun hend => hend hboth.2
    rw [Reads, if_neg hneg] at hread
    exact hread
  refine ⟨fun hpump hpump' hin => ?_, fun hno hin => ?_, fun hpump y hin => ?_,
    fun hpump hpump' y rest hin => ?_⟩
  · rw [hs.pc] at hpump
    rw [hs'.pc] at hpump'
    rw [Reads, if_pos ⟨hpump, hpump'⟩] at hread
    have hshort := hread.short
    rw [hin] at hqueue'
    omega
  · rw [hnone hno, List.length_nil] at hqueue
    rw [hin] at hqueue'
    omega
  · rw [hnone (.inl hpump), List.length_nil, hin] at hqueue
    have hflat : (frames (y :: p'.inbox)).flatten.length =
        y.2.frame.length + (frames p'.inbox).flatten.length := List.length_append
    omega
  · rw [hnone (.inl hpump)] at hs
    refine hs.waits ?_ hin
    rw [hs.pc] at hpump
    rw [hs'.pc] at hpump'
    cases step_change cart v k with
    | still hpc hm => exact absurd (hpc ▸ hpump) hpump'
    | parked hpc hpc' hdrop hm => exact absurd (hpc ▸ hpump) (by decide)
    | recv m hpc hm hrecv => exact absurd hpump hpc.pumps.1
    | slip hpump₀ hpc hcut hm => exact absurd (hpc ▸ hpump) hpump'
    | frame f tail hpump₀ hpc hcut hm => exact absurd (hpc ▸ hpump) hpump'
    | held hpc hpc' hcut hm => exact hcut
    | waited hpc hcut hm => exact hcut
    | captured hpc hpc' hcut hm => exact hcut
    | ran hpc hpc' hopen hm => exact absurd (hpc ▸ hpump) (by decide)

/-! ## On the way to a tick -/

/-- The pass is on its way to a tick. -/
def Party.Bound (p : Party) : Prop :=
  p.pc = .pumpGo ∨ (p.pc = .gate ∨ p.pc = .pumpStall) ∧ p.view.ready = true

/-- Where no tick is near. -/
theorem Party.unbound (pc : Pc) (hpc : p.pc = pc)
    (hfar : pc ≠ .pumpGo ∧ pc ≠ .gate ∧ pc ≠ .pumpStall) : ¬ p.Bound := by
  subst hpc
  rintro (hgo | ⟨hgate | hstall, -⟩)
  · exact hfar.1 hgo
  · exact hfar.2.1 hgate
  · exact hfar.2.2 hstall

/-- What a guest of whose messages `i` bytes have arrived may have heard of a push. -/
structure Seam (p : Party) (i : Nat) : Prop where
  wait : ¬ p.pc.Pumps → ∀ y rest, p.inbox = y :: rest → i < y.2.frame.length
  room : p.pc = .pumpGo ∨ p.pc = .pumpStall → ∀ y rest, p.inbox = y :: rest →
    i ≤ y.2.frame.length + 63
  short : p.pc.Pumps → p.Bound → p.view.hold ≠ 0 → i ≤ 63
  none : p.Bound → chunks p.heard p.epoch = []

namespace Seam

/-- A member that has just entered. -/
theorem entered (hpc : p.pc = .pumpSes) : Seam p i := by
  have hpump : p.pc.Pumps := hpc ▸ (by decide : Pc.pumpSes.Pumps)
  have hno : ¬ p.Bound := Party.unbound .pumpSes hpc (by decide)
  refine ⟨fun hstill => absurd hpump hstill, fun hother => ?_, fun _ hbound => absurd hbound hno,
    fun hbound => absurd hbound hno⟩
  rw [hpc] at hother
  exact absurd hother (by decide)

/-- More messages are sent to the guest. -/
theorem gets (hs : Seam p i) (hempty : p.inbox = [] → i = 0) : Seam (p.gets st xs) i := by
  have hfirst : ∀ y rest, (p.gets st xs).inbox = y :: rest → p.inbox = [] ∨ ∃ l, p.inbox = y :: l := by
    intro y rest hin
    cases hold : p.inbox with
    | nil => exact .inl rfl
    | cons z l =>
        have hsame : z :: l ++ xs.map (fun x => (st, x)) = y :: rest := hold ▸ hin
        obtain ⟨rfl, -⟩ := List.cons.inj hsame
        exact .inr ⟨l, rfl⟩
  refine ⟨fun hpump y rest hin => ?_, fun hpump y rest hin => ?_, hs.short, hs.none⟩
  · rcases hfirst y rest hin with hnil | ⟨l, hl⟩
    · rw [hempty hnil]
      exact frame_pos y.2
    · exact hs.wait hpump y l hl
  · rcases hfirst y rest hin with hnil | ⟨l, hl⟩
    · rw [hempty hnil]
      exact Nat.zero_le _
    · exact hs.room hpump y l hl

/-- A message is handled. -/
theorem took (hs : Seam p i) (hd : Downstream n d got h p) (hg : Hearing p)
    (hp : Posted h (p.heard ++ p.inbox)) (hpump : p.pc.Pumps) (hin : p.inbox = y :: rest)
    (hcut : i = y.2.frame.length + j) : Seam { p with
      view := p.view.onMsg y.2
      hist := p.hist.hear p.view y.2
      heard := p.heard ++ [y]
      inbox := rest } j := by
  have hleft : p.pc = .pumpGo ∨ p.pc = .pumpStall → j ≤ 63 := by
    intro hpc
    have hroom := hs.room hpc y rest hin
    omega
  refine ⟨fun hno => absurd hpump hno, fun hpc z l hz => ?_, fun _ hbound _ => hleft ?_, fun hbound => ?_⟩
  · have hle := hleft hpc
    omega
  · rcases hbound with hgo | ⟨hgate | hstall, -⟩
    · exact .inl hgo
    · exact absurd (hgate ▸ hpump) (by decide)
    · exact .inr hstall
  · by_cases hfree : (p.view.onMsg y.2).hold = 0
    · exact (hg.took hd hin).idle hfree
    have hflow := hd.flow
    rw [hin] at hflow
    obtain ⟨place, hhears, hrest⟩ := hears_cons hflow
    generalize hplace : (⟨p.epoch, got, decide (p.view.hold ≠ 0)⟩ : Place) = a at hhears
    cases hhears with
    | input e k c =>
        obtain ⟨rfl, rfl, hheld⟩ := Place.mk.inj hplace
        have hnone := hg.idle (by simpa using hheld)
        exact (chunks_snoc _ rfl).trans hnone
    | report e k ck hb =>
        obtain ⟨rfl, hgot, hheld⟩ := Place.mk.inj hplace
        have hnone := hg.idle (by simpa using hheld)
        exact (chunks_snoc _ rfl).trans hnone
    | opening e k hspan =>
        obtain ⟨rfl, rfl, hheld⟩ := Place.mk.inj hplace
        have hnone := hg.idle (by simpa using hheld)
        exact (chunks_snoc _ rfl).trans hnone
    | closing e k hspan =>
        obtain ⟨rfl, rfl, hheld⟩ := Place.mk.inj hplace
        have hhold : p.view.hold ≠ 0 := by simpa using hheld
        refine absurd ?_ hfree
        show p.view.onEnd.hold = 0
        rw [View.onEnd, if_neg hhold]
        rfl
    | piece e k q =>
        -- the first chunk of a push is longer than what has arrived
        obtain ⟨rfl, hgot, hheld⟩ := Place.mk.inj hplace
        have hhold : p.view.hold ≠ 0 := by simpa using hheld
        have hbefore : p.Bound := hbound
        have hnone := hs.none hbefore
        have hshort := hs.short hpump hbefore hhold
        obtain ⟨img, himg, hwhole⟩ := hp.whole p.epoch (hears_held hrest rfl rfl)
        have hnext : under Msg.chunk ((⟨p.epoch, k⟩, Msg.piece q) :: rest) p.epoch =
            q :: under Msg.chunk rest p.epoch := List.filterMap_cons_some (if_pos rfl)
        rw [chunks_append, hnone, hin, chunks, hnext] at hwhole
        have hlen := first_chunk himg hwhole.symm
        have hlong : i = (Msg.piece q).frame.length + j := hcut
        rw [hlen, rsChunk] at hlong
        omega

/-- A pump ends. -/
theorem ended (ha : Arrives p p' i j) (hpump : p.pc.Pumps) (hend : ¬ p'.pc.Pumps)
    (hin : p'.inbox = p.inbox) (hquiet : p'.Bound → chunks p'.heard p'.epoch = []) : Seam p' j := by
  obtain rfl := ha.stays (.inl hpump) hin
  refine ⟨fun _ => ?_, fun hother => ?_, fun hother => absurd hother hend, hquiet⟩
  · rw [hin]
    exact ha.ends hpump hend
  · refine absurd ?_ hend
    rcases hother with hgo | hstall
    · rw [hgo]
      decide
    · rw [hstall]
      decide

/-- A pump begins. -/
theorem begun (hs : Seam p i) (ha : Arrives p p' i j) (hstill : ¬ p.pc.Pumps) (hpump : p'.pc.Pumps)
    (hin : p'.inbox = p.inbox) (hg : Hearing p') (hfree : p'.Bound → p'.view.hold = 0) :
    Seam p' j := by
  have hmore := ha.begins hstill hpump hin
  refine ⟨fun hno => absurd hpump hno, fun _ y rest hfirst => ?_,
    fun _ hbound hhold => absurd (hfree hbound) hhold, fun hbound => hg.idle (hfree hbound)⟩
  have hlt := hs.wait hstill y rest (hin ▸ hfirst)
  omega

/-- The pass is over. -/
theorem ran (hs : Seam p i) (ha : Arrives p p' i j) (hstill : ¬ p.pc.Pumps) (hpc : p'.pc = .top)
    (hin : p'.inbox = p.inbox) : Seam p' j := by
  have hstill' : ¬ p'.pc.Pumps := by
    rw [hpc]
    decide
  obtain rfl := ha.stays (.inr hstill') hin
  have hno : ¬ p'.Bound := Party.unbound .top hpc (by decide)
  refine ⟨fun _ => ?_, fun hother => ?_, fun hother => absurd hother hstill',
    fun hbound => absurd hbound hno⟩
  · rw [hin]
    exact hs.wait hstill
  · rw [hpc] at hother
    exact absurd hother (by decide)

/-- A turn of the guest. -/
theorem turn (hs : Seam p i) (ha : Arrives p p' i j) (hd : Downstream n d got h p)
    (hg : Hearing p) (hg' : Hearing p') (hp : Posted h (p.heard ++ p.inbox)) (hturn : Turn p p' xs)
    (hsteady : p'.view.dropped = 0) : Seam p' j := by
  have hbefore := hturn.given_up hsteady
  cases hturn with
  | left hpc hdrop => exact absurd hbefore hdrop
  | gaveUp hpc hh => exact absurd hsteady Nat.one_ne_zero
  | took hpump hin => exact hs.took hd hg hp hpump hin (ha.cuts hpump _ hin)
  | captured hi hpc =>
      have hpump : p.pc.Pumps := hpc ▸ (by decide : Pc.pumpGo.Pumps)
      exact ended ha hpump (by decide : ¬ Pc.gate.Pumps) rfl fun _ => hs.none (.inl hpc)
  | ran quiet sim hpc hopen hck himg hbytes =>
      exact hs.ran ha (hpc ▸ (by decide : ¬ Pc.gate.Pumps)) rfl rfl
  | idle hidle =>
      cases hidle with
      | stay =>
          obtain rfl := ha.stays (Decidable.em _) rfl
          exact hs
      | session hpc =>
          exact hs.begun ha (hpc ▸ (by decide : ¬ Pc.sesHold.Pumps)) (by decide : Pc.pumpSes.Pumps) rfl
            hg' fun hbound => absurd hbound (Party.unbound .pumpSes rfl (by decide))
      | seated hpc =>
          exact ended ha (hpc ▸ (by decide : Pc.pumpSes.Pumps)) (by decide : ¬ Pc.sesHold.Pumps) rfl
            fun hbound => absurd hbound (Party.unbound .sesHold rfl (by decide))
      | begun hpc =>
          exact ended ha (hpc ▸ (by decide : Pc.pumpSes.Pumps)) (by decide : ¬ Pc.top.Pumps) rfl
            fun hbound => absurd hbound (Party.unbound .top rfl (by decide))
      | hold hpc hdrop hhold =>
          exact hs.begun ha (hpc ▸ (by decide : ¬ Pc.top.Pumps)) (by decide : Pc.pumpHold.Pumps) rfl
            hg' fun hbound => absurd hbound (Party.unbound .pumpHold rfl (by decide))
      | go hpc hdrop hfree =>
          exact hs.begun ha (hpc ▸ (by decide : ¬ Pc.top.Pumps)) (by decide : Pc.pumpGo.Pumps) rfl
            hg' fun _ => hfree
      | stall hpc hdrop hshut =>
          refine hs.begun ha (hpc ▸ (by decide : ¬ Pc.gate.Pumps)) (by decide : Pc.pumpStall.Pumps) rfl
            hg' fun hbound => ?_
          rcases hbound with hgo | ⟨-, hready⟩
          · exact absurd hgo Pc.noConfusion
          · exact absurd (hshut.symm.trans hready) Bool.false_ne_true
      | held hpc =>
          exact ended ha (hpc ▸ (by decide : Pc.pumpHold.Pumps)) (by decide : ¬ Pc.top.Pumps) rfl
            fun hbound => absurd hbound (Party.unbound .top rfl (by decide))
      | waited hpc =>
          refine ended ha (hpc ▸ (by decide : Pc.pumpStall.Pumps)) (by decide : ¬ Pc.gate.Pumps) rfl
            fun hbound => hs.none ?_
          rcases hbound with hgo | ⟨-, hready⟩
          · exact absurd hgo Pc.noConfusion
          · exact .inr ⟨.inr hpc, hready⟩

end Seam

end SharkNetplay.Console
