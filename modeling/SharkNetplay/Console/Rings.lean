import SharkNetplay.Console.Checks

/-!
# The input rings

Slot for slot, what the rings of a member hold around its tick: what it captured itself and
what it has of its peer, idle where nothing was captured. Each change of a view keeps that.

## Implementation notes

Slots are counted from the one before the present tick, `u` counts the ticks of a baseline
from one. A slot is written again after 256 ticks, and the rings never hold that many.
-/

namespace SharkNetplay.Console

open Lib Cell Machine

/-! ## What was captured -/

/-- The input of a message, with the stamp it was captured under. -/
def played : Stamp × Msg → Option (Stamp × (Nat × Nat))
  | (st, .input _ _ i) => some (st, i)
  | _ => none

/-- The inputs among the messages of a member. -/
def inputsOf (l : List (Stamp × Msg)) : List (Stamp × (Nat × Nat)) := l.filterMap played

/-- What was captured under a stamp. -/
def inputAt (l : List (Stamp × (Nat × Nat))) (st : Stamp) : Nat × Nat :=
  ((l.find? fun a => a.1 = st).map Prod.snd).getD idleCells

/-- What is to be dispatched at tick `u` of baseline `e`. -/
def play (l : List (Stamp × (Nat × Nat))) (d e u : Nat) : Nat × Nat :=
  if u ≤ d then idleCells else inputAt l ⟨e, u - 1 - d⟩

variable {l xs : List (Stamp × (Nat × Nat))} {d e u : Nat} {st : Stamp} {i : Nat × Nat}

theorem inputAt_none (h : ∀ a ∈ l, a.1 ≠ st) : inputAt l st = idleCells := by
  unfold inputAt
  rw [List.find?_eq_none.mpr fun a ha => by simpa using h a ha]
  rfl

theorem inputAt_append (h : ∀ a ∈ xs, a.1 ≠ st) : inputAt (l ++ xs) st = inputAt l st := by
  unfold inputAt
  rw [List.find?_append, List.find?_eq_none (l := xs).mpr fun a ha => by simpa using h a ha, Option.or_none]

theorem inputAt_new (h : ∀ a ∈ l, a.1 ≠ st) : inputAt (l ++ [(st, i)]) st = i := by
  unfold inputAt
  rw [List.find?_append, List.find?_eq_none.mpr fun a ha => by simpa using h a ha]
  simp

/-- In order, and different. -/
def Stamp.Lt (a b : Stamp) : Prop := a.epoch < b.epoch ∨ a.epoch = b.epoch ∧ a.age < b.age

theorem Stamp.Lt.ne {a b : Stamp} (h : a.Lt b) : a ≠ b := by
  rintro rfl
  unfold Stamp.Lt at h
  omega

/-- Inputs in order: there is one for a stamp. -/
theorem inputAt_mem (hsorted : l.Pairwise fun a b => a.1.Lt b.1) (hmem : (st, i) ∈ l) :
    inputAt l st = i := by
  induction l with
  | nil => exact absurd hmem List.not_mem_nil
  | cons a l ih =>
      obtain ⟨hfirst, hrest⟩ := List.pairwise_cons.mp hsorted
      rcases List.mem_cons.mp hmem with rfl | hmem
      · simp [inputAt]
      · have hne := (hfirst _ hmem).ne
        have hskip : inputAt (a :: l) st = inputAt l st := by
          unfold inputAt
          rw [List.find?_cons_of_neg (by simpa using hne)]
        rw [hskip]
        exact ih hrest hmem

/-- An input that is captured later does not change what is to be dispatched. -/
theorem play_append (h : ∀ a ∈ xs, a.1.epoch = e → d < u → a.1.age + d + 1 ≠ u) :
    play (l ++ xs) d e u = play l d e u := by
  unfold play
  split
  · rfl
  · next hlt =>
      refine inputAt_append fun a ha heq => ?_
      have hepoch := congrArg Stamp.epoch heq
      have hage := congrArg Stamp.age heq
      dsimp only at hepoch hage
      exact h a ha hepoch (by omega) (by omega)

theorem play_early (h : u ≤ d) : play l d e u = idleCells := if_pos h

/-- Under a baseline in which nothing was captured. -/
theorem play_fresh (h : ∀ a ∈ l, a.1.epoch ≠ e) : play l d e u = idleCells := by
  unfold play
  split
  · rfl
  · exact inputAt_none fun a ha heq => h a ha (congrArg Stamp.epoch heq)

/-! ## The slots around the present tick -/

namespace View

variable {v v' : View} {s k j : Nat}

/-- Slot `k` of a seat, from the one before the present tick on. -/
def spot (s k : Nat) (v : View) : Nat × Nat := v.slot s (v.tick + k + 255)

theorem spot_congr (hring : v'.ring s = v.ring s) (hkp : v'.kp s = v.kp s)
    (htick : v'.tick = v.tick) : v'.spot s k = v.spot s k := by
  unfold spot slot
  rw [hring, hkp, htick]

/-- A tick on, the slots are counted from one further. -/
theorem spot_next (hring : v'.ring s = v.ring s) (hkp : v'.kp s = v.kp s)
    (htick : v'.tick = (v.tick + 1) % 65536) : v'.spot s k = v.spot s (k + 1) := by
  have hslot : ((v.tick + 1) % 65536 + k + 255) % 256 = (v.tick + (k + 1) + 255) % 256 := by omega
  unfold spot slot
  rw [hring, hkp, htick, hslot]

/-- The input in a slot. -/
theorem spot_put (hk : (v.tick + k + 255) % 256 = j) : (v.put s j i).spot s k = i := by
  unfold spot slot
  show ((if s = s ∧ (v.tick + k + 255) % 256 = j then i.1 else _),
    (if s = s ∧ (v.tick + k + 255) % 256 = j then i.2 else _)) = i
  rw [if_pos ⟨rfl, hk⟩, if_pos ⟨rfl, hk⟩]

/-- The other slots. -/
theorem spot_put_ne {s' : Nat} (hk : s' = s → (v.tick + k + 255) % 256 ≠ j) :
    (v.put s j i).spot s' k = v.spot s' k := by
  unfold spot slot
  show ((if s' = s ∧ (v.tick + k + 255) % 256 = j then i.1 else _),
    (if s' = s ∧ (v.tick + k + 255) % 256 = j then i.2 else _)) = _
  rw [if_neg fun h => hk h.1 h.2, if_neg fun h => hk h.1 h.2]
  rfl

/-- The slots of idle rings. -/
theorem spot_idle (hs : s < 4) (hring : v.ring = v'.idle.ring) (hkp : v.kp = v'.idle.kp) :
    v.spot s k = idleCells := by
  unfold spot slot
  rw [hring, hkp]
  show ((if s < 4 ∧ _ < 256 then 0x40 else 0), 0) = idleCells
  rw [if_pos ⟨hs, Nat.mod_lt _ (by decide)⟩]
  rfl

/-- The cells a tick dispatches for a seat are its slots 0 and 1. -/
theorem cells_spots (s : Nat) (v : View) :
    v.cells s = ⟨(v.spot s 1).1, (v.spot s 0).1, (v.spot s 1).2, (v.spot s 0).2⟩ := by
  have hnow : (v.tick + 1 + 255) % 256 = v.tick % 256 := by omega
  have hprev : (v.tick + 0 + 255) % 256 = prevSlot v.tick := by
    unfold prevSlot
    split <;> omega
  unfold cells spot slot
  rw [hnow, hprev]

end View

/-! ## The rings of a member -/

/-- The rings of a member in seat `σ` with its peer in seat `τ`, against what the two captured. -/
structure Rings (d σ τ : Nat) (ours theirs : List (Stamp × (Nat × Nat))) (p : Party) : Prop where
  own : ∀ k, k + p.age ≤ d + p.captures → p.view.spot σ k = play ours d p.epoch (p.age + k)
  peer : ∀ k ≤ p.view.lead τ, p.view.spot τ k = play theirs d p.epoch (p.age + k)
  /-- Nothing of the peer is in under this baseline. -/
  blank : p.view.lead τ + p.age = d → ∀ k, p.view.spot τ k = idleCells

namespace Rings

variable {σ τ : Nat} {ours theirs : List (Stamp × (Nat × Nat))} {p p' : Party}

theorem congr (hr : Rings d σ τ ours theirs p) (hring : p'.view.ring = p.view.ring)
    (hkp : p'.view.kp = p.view.kp) (htick : p'.view.tick = p.view.tick)
    (hwm : p'.view.wm = p.view.wm) (hstamp : p'.hist.stamp = p.hist.stamp)
    (hcap : p'.captures = p.captures) : Rings d σ τ ours theirs p' := by
  have hepoch : p'.epoch = p.epoch := congrArg Stamp.epoch hstamp
  have hage : p'.age = p.age := congrArg Stamp.age hstamp
  have hslot : ∀ s k, p'.view.spot s k = p.view.spot s k := fun s k =>
    View.spot_congr (by rw [hring]) (by rw [hkp]) htick
  have hlead : p'.view.lead τ = p.view.lead τ := by
    unfold View.lead
    rw [hwm, htick]
  refine ⟨fun k hk => ?_, fun k hk => ?_, fun hd k => ?_⟩
  · rw [hslot, hepoch, hage]
    exact hr.own k (by rw [← hage, ← hcap]; exact hk)
  · rw [hslot, hepoch, hage]
    exact hr.peer k (hlead ▸ hk)
  · rw [hslot]
    exact hr.blank (by rw [← hlead, ← hage]; exact hd) k

/-- The peer captures an input that is not in yet. -/
theorem more (hr : Rings d σ τ ours theirs p) {a : Stamp × (Nat × Nat)}
    (hlater : a.1.epoch = p.epoch → p.age + p.view.lead τ ≤ d + a.1.age) :
    Rings d σ τ ours (theirs ++ [a]) p := by
  refine ⟨hr.own, fun k hk => ?_, hr.blank⟩
  rw [hr.peer k hk]
  refine (play_append fun b hb hepoch hlt => ?_).symm
  rw [List.mem_singleton.mp hb] at hepoch ⊢
  have hle := hlater hepoch
  omega

/-- An input is captured and sent. -/
theorem captured (hr : Rings d σ τ ours theirs p) (hd : d ≤ 126) (hne : σ ≠ τ)
    (hbefore : ∀ a ∈ ours, a.1 ≠ p.hist.stamp) (hcap : p.captures = p.age) {j : Nat}
    (hj : j = (p.view.tick + d) % 65536 % 256) (hring : p'.view = p.view.put σ j i)
    (hstamp : p'.hist.stamp = p.hist.stamp) (hcap' : p'.captures = p.age + 1) :
    Rings d σ τ (ours ++ [(p.hist.stamp, i)]) theirs p' := by
  have hepoch : p'.epoch = p.epoch := congrArg Stamp.epoch hstamp
  have hage : p'.age = p.age := congrArg Stamp.age hstamp
  refine ⟨fun k hk => ?_, fun k hk => ?_, fun hdone k => ?_⟩
  · rw [hepoch, hage, hring]
    rw [hage, hcap'] at hk
    by_cases hlast : k = d + 1
    · subst hlast
      have hplay : play (ours ++ [(p.hist.stamp, i)]) d p.epoch (p.age + (d + 1)) = i := by
        unfold play
        rw [if_neg (by omega), show p.age + (d + 1) - 1 - d = p.age by omega]
        exact inputAt_new hbefore
      rw [hplay]
      exact View.spot_put (by omega)
    · rw [View.spot_put_ne fun _ => by omega, hr.own k (by omega)]
      refine (play_append fun a ha _ _ => ?_).symm
      rw [List.mem_singleton.mp ha]
      show p.age + d + 1 ≠ p.age + k
      omega
  · rw [hepoch, hage, hring, View.spot_put_ne fun heq => absurd heq.symm hne]
    rw [hring] at hk
    exact hr.peer k hk
  · rw [hring, View.spot_put_ne fun heq => absurd heq.symm hne]
    rw [hring, hage] at hdone
    exact hr.blank hdone k

/-- A tick is run. -/
theorem ranOn (hr : Rings d σ τ ours theirs p) (hring : p'.view.ring = p.view.ring)
    (hkp : p'.view.kp = p.view.kp) (htick : p'.view.tick = (p.view.tick + 1) % 65536)
    (hlead : p'.view.lead τ + 1 = p.view.lead τ) (hstamp : p'.hist.stamp = ⟨p.epoch, p.age + 1⟩)
    (hcap : p'.captures = p.captures) : Rings d σ τ ours theirs p' := by
  have hepoch : p'.epoch = p.epoch := (congrArg Stamp.epoch hstamp :)
  have hage : p'.age = p.age + 1 := (congrArg Stamp.age hstamp :)
  have hslot : ∀ s k, p'.view.spot s k = p.view.spot s (k + 1) := fun s k =>
    View.spot_next (by rw [hring]) (by rw [hkp]) htick
  have hnext : ∀ k, p'.age + k = p.age + (k + 1) := fun k => by omega
  refine ⟨fun k hk => ?_, fun k hk => ?_, fun hd k => ?_⟩
  · rw [hslot, hepoch, hnext]
    exact hr.own (k + 1) (by omega)
  · rw [hslot, hepoch, hnext]
    exact hr.peer (k + 1) (by omega)
  · rw [hslot]
    exact hr.blank (by omega) (k + 1)

/-- A new baseline. -/
theorem rebased (hσ : σ < 4) (hτ : τ < 4) {v : View} (hring : p'.view.ring = v.idle.ring)
    (hkp : p'.view.kp = v.idle.kp) (hlead : p'.view.lead τ = d) (hage : p'.age = 0)
    (hfresh : ∀ a ∈ ours, a.1.epoch ≠ p'.epoch) : Rings d σ τ ours theirs p' := by
  refine ⟨fun k hk => ?_, fun k hk => ?_, fun hd k => ?_⟩
  · rw [View.spot_idle hσ hring hkp, play_fresh hfresh]
  · rw [View.spot_idle hτ hring hkp, play_early (by omega)]
  · exact View.spot_idle hτ hring hkp

/-- An INPUT of the peer is stored: the next one, or the first one when one was skipped. -/
theorem stored (hr : Rings d σ τ ours theirs p) (hne : σ ≠ τ) {age j : Nat}
    (hlead : p'.view.lead τ + p.age = age + d + 1) (hlap : p'.view.lead τ ≤ 255)
    (hskip : p.view.lead τ + p.age = age + d ∨ age = 1 ∧ p.view.lead τ + p.age = d ∧
      inputAt theirs ⟨p.epoch, 0⟩ = idleCells)
    (hmem : inputAt theirs ⟨p.epoch, age⟩ = i)
    (hj : j = (p.view.tick + p'.view.lead τ + 255) % 256)
    (hring : p'.view.ring = (p.view.put τ j i).ring) (hkp : p'.view.kp = (p.view.put τ j i).kp)
    (htick : p'.view.tick = p.view.tick) (hstamp : p'.hist.stamp = p.hist.stamp)
    (hcap : p'.captures = p.captures) : Rings d σ τ ours theirs p' := by
  have hepoch : p'.epoch = p.epoch := congrArg Stamp.epoch hstamp
  have hage : p'.age = p.age := congrArg Stamp.age hstamp
  have hslot : ∀ s k, p'.view.spot s k = (p.view.put τ j i).spot s k := fun s k =>
    View.spot_congr (by rw [hring]) (by rw [hkp]) htick
  refine ⟨fun k hk => ?_, fun k hk => ?_, fun hd k => ?_⟩
  · rw [hslot, hepoch, hage, View.spot_put_ne fun heq => absurd heq hne]
    exact hr.own k (by rw [← hage, ← hcap]; exact hk)
  · rw [hslot, hepoch, hage]
    by_cases hlast : k = p'.view.lead τ
    · have hplay : play theirs d p.epoch (p.age + k) = i := by
        unfold play
        rw [if_neg (by omega), show p.age + k - 1 - d = age by omega]
        exact hmem
      rw [hplay]
      exact View.spot_put (by rw [hj, hlast])
    · rw [View.spot_put_ne fun _ => by omega]
      by_cases hold : k ≤ p.view.lead τ
      · exact hr.peer k hold
      · -- one tick was skipped
        rcases hskip with heq | ⟨hone, hnone, hidle⟩
        · omega
        · have hplay : play theirs d p.epoch (p.age + k) = idleCells := by
            unfold play
            rw [if_neg (by omega), show p.age + k - 1 - d = 0 by omega]
            exact hidle
          rw [hplay]
          exact hr.blank hnone k
  · omega

/-- What a tick dispatches. -/
theorem dispatched (hr : Rings d σ τ ours theirs p) (hcap : p.age ≤ p.captures) (hd : 1 ≤ d)
    (hlead : 1 ≤ p.view.lead τ) :
    p.view.cells σ = ⟨(play ours d p.epoch (p.age + 1)).1, (play ours d p.epoch p.age).1,
        (play ours d p.epoch (p.age + 1)).2, (play ours d p.epoch p.age).2⟩ ∧
      p.view.cells τ = ⟨(play theirs d p.epoch (p.age + 1)).1, (play theirs d p.epoch p.age).1,
        (play theirs d p.epoch (p.age + 1)).2, (play theirs d p.epoch p.age).2⟩ := by
  constructor
  · rw [View.cells_spots, hr.own 1 (by omega), hr.own 0 (by omega)]
    rfl
  · rw [View.cells_spots, hr.peer 1 hlead, hr.peer 0 (by omega)]
    rfl

end Rings

end SharkNetplay.Console
