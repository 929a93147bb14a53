import SharkNetplay.Console.Baselines

/-!
# The course of a match

What holds of the pair in every run in which nobody gives up: how far each member is,
which messages may still be under way, and which unbounded numbers the 16-bit cells
stand for. The delay is any that the input rings allow.

## Implementation notes

`front` is the first tick whose INPUT of the guest the host waits for, `got` the number of
INPUTs of its own baseline that the guest has. The guest is always exactly as far as
the stream to it says; the host may have stored INPUTs of an earlier baseline, and is
bounded by what can still be on its way.
-/

namespace SharkNetplay.Console

open Lib

/-- In order, baseline first. -/
def Stamp.Le (a b : Stamp) : Prop := a.epoch < b.epoch ∨ a.epoch = b.epoch ∧ a.age ≤ b.age

namespace Stamp.Le

variable {a b c : Stamp}

theorem refl (a : Stamp) : a.Le a := .inr ⟨rfl, Nat.le_refl _⟩

theorem trans (h₁ : a.Le b) (h₂ : b.Le c) : a.Le c := by
  unfold Stamp.Le at *
  omega

end Stamp.Le

namespace Party

/-- The baseline of a member. -/
def epoch (p : Party) : Nat := p.hist.stamp.epoch

/-- The ticks a member has run under its baseline. -/
def age (p : Party) : Nat := p.hist.stamp.age

/-- The captures of a member under its baseline, were none skipped. -/
def captures (p : Party) : Nat := p.age + if p.pc = .gate ∨ p.pc = .pumpStall then 1 else 0

theorem captures_le (p : Party) : p.age ≤ p.captures ∧ p.captures ≤ p.age + 1 := by
  unfold captures
  split <;> omega

theorem captures_gate {p : Party} (h : p.pc = .gate) : p.captures = p.age + 1 := by
  unfold captures
  rw [if_pos (.inl h)]

end Party

/-- Turns that move the control point only are no captures. -/
theorem Idles.captures {p : Party} {pc : Pc} (h : Idles p pc) :
    ({ p with pc := pc } : Party).captures = p.captures := by
  have hiff : (pc = .gate ∨ pc = .pumpStall) ↔ (p.pc = .gate ∨ p.pc = .pumpStall) := by
    cases h <;> simp_all
  show p.age + (if pc = .gate ∨ pc = .pumpStall then 1 else 0) = p.captures
  unfold Party.captures
  simp only [hiff]

variable {n n' : Nat → Nat} {d front got : Nat} {h h' g g' : Party}

/-! ## From the host to the guest -/

/-- The guest follows the host's messages. -/
structure Downstream (n : Nat → Nat) (d got : Nat) (h g : Party) : Prop where
  hostTick : h.view.tick = (firstTick n h.epoch + h.age) % 65536
  guestTick : g.view.tick = (firstTick n g.epoch + g.age) % 65536
  mark : g.view.wm 0 = (firstTick n g.epoch + d + got + 65535) % 65536
  pace : g.age ≤ d + got
  free : h.view.hold = 0
  flow : Run (Hears n d) ⟨g.epoch, got, decide (g.view.hold ≠ 0)⟩ g.inbox
    ⟨h.epoch, h.captures, false⟩
  resume : g.view.hold ≠ 0 → g.view.resume = firstTick n (g.epoch + 1) % 65536

namespace Downstream

theorem congr (hd : Downstream n d got h g) (hht : h'.view.tick = h.view.tick)
    (hhs : h'.hist.stamp = h.hist.stamp) (hhc : h'.captures = h.captures)
    (hhh : h'.view.hold = h.view.hold) (hgt : g'.view.tick = g.view.tick)
    (hgs : g'.hist.stamp = g.hist.stamp) (hgw : g'.view.wm 0 = g.view.wm 0)
    (hgh : g'.view.hold = g.view.hold) (hgr : g'.view.resume = g.view.resume)
    (hgi : g'.inbox = g.inbox) : Downstream n d got h' g' := by
  have hhe : h'.epoch = h.epoch := congrArg Stamp.epoch hhs
  have hha : h'.age = h.age := congrArg Stamp.age hhs
  have hge : g'.epoch = g.epoch := congrArg Stamp.epoch hgs
  have hga : g'.age = g.age := congrArg Stamp.age hgs
  exact {
    hostTick := by rw [hht, hhe, hha]; exact hd.hostTick
    guestTick := by rw [hgt, hge, hga]; exact hd.guestTick
    mark := by rw [hgw, hge]; exact hd.mark
    pace := by rw [hga]; exact hd.pace
    free := by rw [hhh]; exact hd.free
    flow := by rw [hge, hgh, hgi, hhe, hhc]; exact hd.flow
    resume := by rw [hge, hgh, hgr]; exact hd.resume }

/-- The guest is not past the host. -/
theorem behind (hd : Downstream n d got h g) :
    g.epoch = h.epoch ∧ got ≤ h.captures ∨ g.epoch < h.epoch ∧ got ≤ n g.epoch :=
  hears_le hd.flow

end Downstream

/-! ## From the guest to the host -/

/-- The messages of a guest. -/
inductive Tells (n : Nat → Nat) (d : Nat) : Stamp × Msg → Prop
  | input (st : Stamp) (c : Nat × Nat) :
    Tells n d (st, .input 1 ((firstTick n st.epoch + st.age + d) % 65536) c)
  | report (st : Stamp) (ck : Nat) (hb : (firstTick n st.epoch + st.age) % 64 = 0) :
    Tells n d (st, .report 1 ((firstTick n st.epoch + st.age) % 65536) ck)
  | request (st : Stamp) (t : Nat) : Tells n d (st, .request t)

theorem Tells.congr {e : Stamp × Msg} (ht : Tells n d e)
    (hn : ∀ i < e.1.epoch, n' i = n i) : Tells n' d e := by
  cases ht with
  | input st c =>
      rw [← firstTick_congr hn]
      exact .input st c
  | report st ck hb =>
      rw [← firstTick_congr hn] at hb ⊢
      exact .report st ck hb
  | request st t => exact .request st t

/-- Under baseline `e`, with `k` captures of the host made, `front` the first tick it waits for:
what may be said of a message sent at `st` that is not handled yet. -/
structure Reach (n : Nat → Nat) (d e k front : Nat) (st : Stamp) : Prop where
  epoch : st.epoch ≤ e
  age : st.age ≤ d + if st.epoch < e then n st.epoch else k
  spans : ∀ i, st.epoch ≤ i → i < e → n i ≤ 2 * d + 2 ∨ i = st.epoch ∧ n i ≤ d + st.age + 1
  front : front ≤ firstTick n e + (2 * d + 2) ∨
    st.epoch = e ∧ front ≤ firstTick n e + (d + st.age + 1)

namespace Reach

variable {e k : Nat} {st st' : Stamp}

/-- What is sent later may be said more of. -/
theorem mono (hr : Reach n d e k front st) (hle : st.Le st') (hepoch : st'.epoch ≤ e)
    (hage : st'.age ≤ d + if st'.epoch < e then n st'.epoch else k) :
    Reach n d e k front st' := by
  refine ⟨hepoch, hage, fun i hi hie => ?_, ?_⟩
  · unfold Stamp.Le at hle
    have hspan := hr.spans i (by omega) hie
    omega
  · unfold Stamp.Le at hle
    have hfront := hr.front
    omega

/-- The host is at most ten baselines ahead: its ticks and the message's are near. -/
theorem near (hr : Reach n d e k front st) (hgap : e ≤ st.epoch + 10) (hd : d ≤ 126) :
    firstTick n e ≤ firstTick n st.epoch + st.age + 2700 ∧
      front ≤ firstTick n st.epoch + st.age + 3000 ∧
      (firstTick n st.epoch + st.age + 16 ≤ firstTick n e + d ∧ st.epoch < e ∨
        st.epoch = e ∧ st.age ≤ d + k) := by
  obtain ⟨j, rfl⟩ := Nat.exists_eq_add_of_le hr.epoch
  have hfirst := firstTick_le (n := n) (e := st.epoch) (a := st.age) (k := 2 * d + 2) j
    fun i hi => by
      rcases hr.spans (st.epoch + i) (by omega) (by omega) with hspan | ⟨hi₀, hspan⟩
      · exact .inl hspan
      · refine .inr ⟨by omega, ?_⟩
        rw [show st.epoch + i = st.epoch by omega] at hspan
        omega
  have hten : j * (2 * d + 2 + 16) ≤ 10 * (2 * d + 2 + 16) := Nat.mul_le_mul_right _ (by omega)
  have hbase : firstTick n (st.epoch + j) ≤ firstTick n st.epoch + st.age + 2700 := by omega
  have hage := hr.age
  refine ⟨hbase, ?_, ?_⟩
  · rcases hr.front with hfront | ⟨heq, hfront⟩
    · omega
    · have hj : j = 0 := by omega
      subst hj
      simp only [Nat.add_zero] at hfront
      omega
  · by_cases hlt : st.epoch < st.epoch + j
    · rw [if_pos hlt] at hage
      have hnext := firstTick_next (n := n) hlt
      exact .inl ⟨by omega, hlt⟩
    · rw [if_neg hlt] at hage
      exact .inr ⟨by omega, hage⟩

end Reach

/-- The stamps of the guest's messages under way, and the one of its next. -/
def stamps (h g : Party) : List Stamp := h.inbox.map Prod.fst ++ [g.hist.stamp]

theorem mem_stamps {st : Stamp} : st ∈ stamps h g ↔ (∃ e ∈ h.inbox, e.1 = st) ∨ st = g.hist.stamp := by
  unfold stamps
  rw [List.mem_append, List.mem_map, List.mem_singleton]

theorem guest_mem_stamps (h g : Party) : g.hist.stamp ∈ stamps h g := mem_stamps.mpr (.inr rfl)

/-- The host has what the guest sent, or it is under way. -/
structure Upstream (n : Nat → Nat) (d front : Nat) (h g : Party) : Prop where
  mark : h.view.wm 1 = (front + 65535) % 65536
  floor : firstTick n h.epoch + d ≤ front
  pace : firstTick n h.epoch + h.age ≤ front
  told : ∀ e ∈ h.inbox, Tells n d e
  sorted : (stamps h g).Pairwise Stamp.Le
  reach : ∀ st ∈ stamps h g, Reach n d h.epoch h.captures front st
  late : g.epoch = h.epoch → g.captures ≤ 1 ∨ firstTick n h.epoch + d + g.captures ≤ front ∨
    ∃ a t c, (⟨g.epoch, a⟩, Msg.input 1 t c) ∈ h.inbox ∧ g.captures ≤ a + 1

namespace Upstream

theorem congr (hu : Upstream n d front h g) (hhw : h'.view.wm 1 = h.view.wm 1)
    (hhs : h'.hist.stamp = h.hist.stamp) (hhc : h'.captures = h.captures)
    (hhi : h'.inbox = h.inbox) (hgs : g'.hist.stamp = g.hist.stamp)
    (hgc : g'.captures = g.captures) : Upstream n d front h' g' := by
  have hhe : h'.epoch = h.epoch := congrArg Stamp.epoch hhs
  have hha : h'.age = h.age := congrArg Stamp.age hhs
  have hge : g'.epoch = g.epoch := congrArg Stamp.epoch hgs
  have hst : stamps h' g' = stamps h g := by rw [stamps, hhi, hgs]; rfl
  exact {
    mark := by rw [hhw]; exact hu.mark
    floor := by rw [hhe]; exact hu.floor
    pace := by rw [hhe, hha]; exact hu.pace
    told := by rw [hhi]; exact hu.told
    sorted := by rw [hst]; exact hu.sorted
    reach := by rw [hst, hhe, hhc]; exact hu.reach
    late := by rw [hge, hhe, hgc, hhi]; exact hu.late }

/-- The host is not far past what it waits for. -/
theorem ahead (hu : Upstream n d front h g) (hd : Downstream n d got h g) :
    front ≤ firstTick n h.epoch + h.age + (2 * d + 2) := by
  have hguest := hu.reach _ (guest_mem_stamps h g)
  have hcap := h.captures_le
  have hpace : g.hist.stamp.age ≤ d + got := hd.pace
  have hbehind := hd.behind
  have hepoch : g.hist.stamp.epoch = g.epoch := rfl
  rcases hguest.front with hfront | ⟨heq, hfront⟩ <;> omega

/-- The guest is not far behind what it has. -/
theorem lead (hu : Upstream n d front h g) (hd : Downstream n d got h g) :
    d + got ≤ g.age + (3 * d + 3) := by
  have hguest := hu.reach _ (guest_mem_stamps h g)
  have hcap := h.captures_le
  have hpace := hu.pace
  have hepoch : g.hist.stamp.epoch = g.epoch := rfl
  have hage : g.hist.stamp.age = g.age := rfl
  rcases hd.behind with ⟨heq, hle⟩ | ⟨hlt, hle⟩
  · rcases hguest.front with hfront | ⟨-, hfront⟩ <;> omega
  · rcases hguest.spans g.epoch (Nat.le_refl _) hlt with hspan | ⟨-, hspan⟩ <;> omega

end Upstream

/-! ## Gates -/

variable {c : Start} {x : Side}

/-- A gate looks at the peer's watermark. -/
theorem Fixed.ready {v : View} (hf : Fixed c x v) :
    v.ready = decide ((v.wm x.peer.seat + 65536 - v.tick) % 65536 < 32768) := by
  unfold View.ready
  rw [hf.count, hf.seat]
  cases x
  · simp [List.range_succ, Side.seat, Side.peer]
    rfl
  · simp [List.range_succ, Side.seat, Side.peer]
    rfl

/-- The watermark as an unbounded number that is less than half a lap ahead. -/
theorem ready_iff {u f : Nat} (hle : u ≤ f) (hnear : f ≤ u + 32768) :
    ((f + 65535) % 65536 + 65536 - u % 65536) % 65536 < 32768 ↔ u + 1 ≤ f := by
  omega

end SharkNetplay.Console
