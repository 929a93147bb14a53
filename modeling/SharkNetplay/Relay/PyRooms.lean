import SharkNetplay.Relay.PyDrop

/-!
# Clients and rooms of the Python relay

The two-way link between clients and rooms, and what each client was last told,
across every event and whatever the sockets do. `Inv X` is the invariant in the
middle of a handler: the clients in `X` are still to be told.
-/

namespace SharkNetplay.Relay.Py

open Server

variable {s : Server} {X : Nat → Prop}

/-- What a membership frame, or none so far, says of a client. -/
def Fits (f : Option (List Nat)) (c : Nat) (s : Server) : Prop :=
  match f with
  | none => (s.client c).room = none
  | some f =>
    if f.getD 1 0 = tStart then
      ∃ r, (s.client c).room = some r ∧ (s.room r).started = true
    else if f.getD 1 0 = tRoom ∧ 2 ≤ f.getD 2 0 then
      ∃ r, (s.client c).room = some r ∧ (s.room r).started = false ∧
        (s.room r).members.length = f.getD 2 0
    else (s.client c).room = none

/-- The last membership frame queued to `c` is true of it. -/
def Agrees (c : Nat) (s : Server) : Prop := Fits (told c s.queued) c s

/-- The relay's state inside a handler; the clients in `X` are still to be told. -/
structure Inv (X : Nat → Prop) (s : Server) : Prop extends Counted s where
  link : ∀ m r, m ∈ (s.room r).members ↔ (s.client m).room = some r
  pair : ∀ r, (s.room r).members = [] ∨ ∃ a b, a ≠ b ∧ (s.room r).members = [a, b]
  named : ∀ m, (s.client m).room ≠ none → (s.client m).name.isSome = true
  newcomer : ∀ m, s.nextClient ≤ m → (s.client m).room = none ∧ (s.client m).dead = false
  vacant : ∀ r, s.nextRoom ≤ r → (s.room r).members = []
  keyed : ∀ e ∈ s.byName, e.2 < s.nextClient
  sane : s.crashed = false
  agrees : ∀ m, (s.client m).dead = false → ¬ X m → Agrees m s

theorem Fits.congr {f : Option (List Nat)} {c : Nat} {s s' : Server} (h : Fits f c s)
    (hclient : (s'.client c).room = (s.client c).room)
    (hroom : ∀ r, (s.client c).room = some r → s'.room r = s.room r) : Fits f c s' := by
  have hex : ∀ {P : Room → Prop}, (∃ r, (s.client c).room = some r ∧ P (s.room r)) →
      ∃ r, (s'.client c).room = some r ∧ P (s'.room r) := by
    rintro P ⟨r, hr, hP⟩
    exact ⟨r, by rw [hclient, hr], by rw [hroom r hr]; exact hP⟩
  cases f with
  | none => exact hclient.trans h
  | some f =>
      simp only [Fits] at h ⊢
      split_ifs with h₁ h₂
      · rw [if_pos h₁] at h
        exact hex (P := fun R => R.started = true) h
      · rw [if_neg h₁, if_pos h₂] at h
        exact hex (P := fun R => R.started = false ∧ R.members.length = f.getD 2 0) h
      · rw [if_neg h₁, if_neg h₂] at h
        exact hclient.trans h

/-- The client that left and its mate need no further telling. -/
def Elsewhere (c : Nat) (s : Server) (m : Nat) : Prop :=
  m ≠ c ∧ ∀ r, (s.client c).room = some r → m ∉ (s.room r).members

namespace Inv

theorem mono {Y : Nat → Prop} (h : Inv X s) (hXY : ∀ m, X m → Y m) : Inv Y s :=
  { h with agrees := fun m hm hY => h.agrees m hm fun hX => hY (hXY m hX) }

/-- A client that is dead needs no telling. -/
theorem settle {Y : Nat → Prop} (h : Inv X s)
    (hXY : ∀ m, (s.client m).dead = false → X m → Y m) : Inv Y s :=
  { h with agrees := fun m hm hY => h.agrees m hm fun hX => hY (hXY m hm hX) }

theorem lt_of_room {c r : Nat} (h : Inv X s) (hroom : (s.client c).room = some r) :
    c < s.nextClient := by
  by_contra hc
  rw [(h.newcomer c (by omega)).1] at hroom
  exact absurd hroom (by simp)

/-- Whoever is in a room has one mate there. -/
theorem mates {c r : Nat} (h : Inv X s) (hroom : (s.client c).room = some r) :
    ∃ o, Mates c o r s ∧ (s.client o).room = some r := by
  have hc : c ∈ (s.room r).members := (h.link c r).mpr hroom
  rcases h.pair r with hnil | ⟨a, b, hab, hm⟩
  · rw [hnil] at hc
    exact absurd hc (by simp)
  · have hin : ∀ m, m = a ∨ m = b → (s.client m).room = some r := by
      intro m hm'
      refine (h.link m r).mp ?_
      rw [hm]
      simpa using hm'
    rw [hm] at hc
    rcases List.mem_cons.mp hc with rfl | hc
    · exact ⟨b, ⟨hab, Or.inl hm⟩, hin b (Or.inr rfl)⟩
    · rw [List.mem_singleton] at hc
      subst hc
      exact ⟨a, ⟨hab.symm, Or.inr hm⟩, hin a (Or.inl rfl)⟩

/-- A frame goes into a client's buffer. -/
theorem staged {c : Nat} {data : List Nat} (h : Inv X s)
    (hfits : isMembership data = true → Fits (some data) c s) :
    Inv (fun m => X m ∧ (isMembership data = false ∨ m ≠ c)) (staged c data s) where
  present m := by
    rw [staged_client_dead]
    exact h.present m
  nodup := h.nodup
  link m r := by
    rw [staged_client_room]
    exact h.link m r
  pair := h.pair
  named m := by
    rw [staged_client_room, staged_client_name]
    exact h.named m
  newcomer m hm := by
    rw [staged_client_room, staged_client_dead]
    exact h.newcomer m hm
  vacant := h.vacant
  keyed := h.keyed
  sane := h.sane
  agrees m hm hX := by
    have hcongr : ∀ {f}, Fits f m s → Fits f m (Py.staged c data s) := fun hf =>
      hf.congr (staged_client_room c m data s) fun _ _ => rfl
    rw [staged_client_dead] at hm
    unfold Agrees
    rw [staged_queued, told_append]
    split
    · next hc =>
        obtain ⟨rfl, hmem⟩ := hc
        exact hcongr (hfits hmem)
    · next hc =>
        refine hcongr (h.agrees m hm fun hXm => hX ⟨hXm, ?_⟩)
        cases hmem : isMembership data with
        | false => exact Or.inl rfl
        | true =>
            right
            rintro rfl
            exact hc ⟨rfl, hmem⟩

/-- A client without a room is buried. -/
theorem bury {c : Nat} (h : Inv X s) (hc : c < s.nextClient) (hroom : (s.client c).room = none) :
    Inv (fun m => X m ∧ m ≠ c) (bury c s) where
  present m := by
    rw [bury_client_dead, bury_present, bury_nextClient]
    by_cases hm : m = c
    · subst hm
      simp [h.nodup.not_mem_erase]
    · rw [List.mem_erase_of_ne hm, h.present, if_neg hm]
  nodup := h.nodup.erase c
  link m r := by
    rw [bury_client_room]
    exact h.link m r
  pair := h.pair
  named m := by
    rw [bury_client_room, bury_client_name]
    exact h.named m
  newcomer m hm := by
    rw [bury_nextClient] at hm
    rw [bury_client_room, bury_client_dead, if_neg (by omega)]
    exact h.newcomer m hm
  vacant := h.vacant
  keyed e he := h.keyed e (List.mem_of_mem_filter he)
  sane := h.sane
  agrees m hm hX := by
    rw [bury_client_dead] at hm
    by_cases hmc : m = c
    · rw [if_pos hmc] at hm
      exact absurd hm (by simp)
    · rw [if_neg hmc] at hm
      exact (h.agrees m hm fun hXm => hX ⟨hXm, hmc⟩).congr (bury_client_room c m s)
        fun _ _ => rfl

/-- Two room-mates part. -/
theorem parted {c o r : Nat} (h : Inv X s) (hroom : (s.client c).room = some r)
    (hmates : Mates c o r s) :
    Inv (fun m => (X m ∧ m ≠ c) ∨ m = o) (parted c o r s) where
  toCounted := parted_counted h.toCounted
  link m q := by
    rw [parted_client_room]
    simp only [Py.parted, seat_members, link_room, bury_room]
    by_cases hq : q = r
    · subst hq
      have hiff := hmates.mem_iff m
      rw [if_pos rfl]
      by_cases hm : m = c ∨ m = o
      · simp [hm]
      · rw [if_neg hm]
        have hout : m ∉ (s.room q).members := fun h' => hm (hiff.mp h')
        rw [h.link] at hout
        simp [hout]
    · rw [if_neg hq, h.link]
      by_cases hm : m = c ∨ m = o
      · have hr : (s.client m).room = some r := (h.link m r).mp ((hmates.mem_iff m).mpr hm)
        rw [if_pos hm, hr]
        simp [Ne.symm hq]
      · rw [if_neg hm]
  pair q := by
    simp only [Py.parted, seat_members, link_room, bury_room]
    by_cases hq : q = r
    · exact Or.inl (if_pos hq)
    · rw [if_neg hq]
      exact h.pair q
  named m hm := by
    rw [parted_client_room] at hm
    have hname : ((Py.parted c o r s).client m).name = (s.client m).name := by
      simp [Py.parted]
    rw [hname]
    refine h.named m fun hnone => hm ?_
    rw [hnone, ite_self]
  newcomer m hm := by
    have hm' : s.nextClient ≤ m := hm
    have hc := h.lt_of_room hroom
    rw [parted_client_room, parted_client_dead, if_neg (show m ≠ c by omega),
      (h.newcomer m hm').1, ite_self]
    exact ⟨rfl, (h.newcomer m hm').2⟩
  vacant q hq := by
    simp only [Py.parted, seat_members, link_room, bury_room]
    rw [h.vacant q hq, ite_self]
  keyed e he := h.keyed e (List.mem_of_mem_filter he)
  sane := h.sane
  agrees m hm hX := by
    rw [parted_client_dead] at hm
    have hmc : m ≠ c := by
      rintro rfl
      rw [if_pos rfl] at hm
      exact absurd hm (by simp)
    have hmo : m ≠ o := fun h' => hX (Or.inr h')
    rw [if_neg hmc] at hm
    have hout : (s.client m).room ≠ some r := fun h' =>
      ((hmates.mem_iff m).mp ((h.link m r).mpr h')).elim hmc hmo
    refine (h.agrees m hm fun hXm => hX (Or.inl ⟨hXm, hmc⟩)).congr ?_ ?_
    · rw [parted_client_room, if_neg (by rintro (h' | h') <;> contradiction)]
    · intro q hq
      have hqr : q ≠ r := by
        rintro rfl
        exact hout hq
      simp [Py.parted, seat, hqr]

/-- Sending to a client without a room. -/
theorem send_solo {c : Nat} {data : List Nat} (h : Inv X s) (hc : c < s.nextClient)
    (hroom : (s.client c).room = none)
    (hfits : isMembership data = true → Fits (some data) c s) :
    Inv (fun m => X m ∧ (isMembership data = false ∨ m ≠ c)) (send drop c data s) ∧
      (send drop c data s).room = s.room := by
  rw [send_eq]
  split_ifs with hdead hover hok
  · refine ⟨h.settle fun m hm hX => ⟨hX, Or.inr ?_⟩, rfl⟩
    rintro rfl
    rw [hdead] at hm
    exact absurd hm (by simp)
  · rw [drop_solo h.toCounted hc (by simpa using hdead) hroom]
    exact ⟨(h.bury hc hroom).mono fun m hm => ⟨hm.1, Or.inr hm.2⟩, rfl⟩
  · exact ⟨h.staged hfits, rfl⟩
  · have hst := h.staged hfits
    have hdead' : ((Py.staged c data s).client c).dead = false := by simpa using hdead
    have hroom' : ((Py.staged c data s).client c).room = none := by simpa using hroom
    rw [drop_solo hst.toCounted hc hdead' hroom']
    exact ⟨(hst.bury hc hroom').mono fun m hm => ⟨hm.1.1, Or.inr hm.2⟩, rfl⟩

/-- Dropping a client. Its room, if it had one, is empty afterwards. -/
theorem drop {c : Nat} (h : Inv X s) (hc : c < s.nextClient)
    (hlive : (s.client c).dead = false) :
    Inv (fun m => X m ∧ Elsewhere c s m) (drop c s) ∧
      ∀ q, ((drop c s).room q).members =
        if (s.client c).room = some q then [] else (s.room q).members := by
  cases hroom : (s.client c).room with
  | none =>
      rw [drop_solo h.toCounted hc hlive hroom]
      refine ⟨(h.bury hc hroom).mono fun m hm => ⟨hm.1, hm.2, fun r hr => ?_⟩, fun q => ?_⟩
      · rw [hroom] at hr
        exact absurd hr (by simp)
      · rw [if_neg (by simp)]
        rfl
  | some r =>
      obtain ⟨o, hmates, ho⟩ := h.mates hroom
      have hoNone : ((Py.parted c o r s).client o).room = none := by
        simp [parted_client_room]
      have hfits : isMembership (notice c r s) = true →
          Fits (some (notice c r s)) o (Py.parted c o r s) := by
        intro _
        unfold notice
        split
        · simpa [Fits, frame] using hoNone
        · simpa [Fits, frame] using hoNone
      have hmem : isMembership (notice c r s) = true := by
        unfold notice
        split <;> simp [isMembership, frame]
      rw [drop_pair h.toCounted hc (h.lt_of_room ho) hlive hroom hmates
        (h.named c (by rw [hroom]; simp))]
      obtain ⟨hinv, hrooms⟩ := send_solo (h.parted hroom hmates) (h.lt_of_room ho) hoNone hfits
      constructor
      · refine hinv.mono fun m hm => ?_
        rw [hmem] at hm
        have hmo : m ≠ o := hm.2.elim (fun h' => absurd h' (by simp)) id
        obtain ⟨hX, hmc⟩ := hm.1.elim id fun h' => absurd h' hmo
        refine ⟨hX, hmc, fun q hq => ?_⟩
        rw [hroom, Option.some.injEq] at hq
        subst hq
        rw [hmates.mem_iff]
        exact fun h' => h'.elim hmc hmo
      · intro q
        rw [hrooms]
        simp only [Py.parted, seat_members, link_room, bury_room, Option.some.injEq]
        by_cases hq : q = r
        · rw [if_pos hq, if_pos hq.symm]
        · rw [if_neg hq, if_neg (Ne.symm hq)]

/-- Rooms only ever empty, and an emptied room settles its members. -/
theorem send {c : Nat} {data : List Nat} (h : Inv X s) (hc : c < s.nextClient)
    (hfits : isMembership data = true → Fits (some data) c s) :
    (Inv (fun m => X m ∧ (isMembership data = false ∨ m ≠ c)) (send Py.drop c data s) ∧
        (send Py.drop c data s).room = s.room ∧
        ∀ m, ((send Py.drop c data s).client m).room = (s.client m).room ∧
          ((send Py.drop c data s).client m).dead = (s.client m).dead) ∨
      (Inv (fun m => X m ∧ Elsewhere c s m) (send Py.drop c data s) ∧
        ∀ q, ((send Py.drop c data s).room q).members =
          if (s.client c).room = some q then [] else (s.room q).members) := by
  rw [send_eq]
  split_ifs with hdead hover hok
  · refine Or.inl ⟨h.settle fun m hm hX => ⟨hX, Or.inr ?_⟩, rfl, fun _ => ⟨rfl, rfl⟩⟩
    rintro rfl
    rw [hdead] at hm
    exact absurd hm (by simp)
  · exact Or.inr (h.drop hc (by simpa using hdead))
  · exact Or.inl ⟨h.staged hfits, rfl, fun m => ⟨by simp, by simp⟩⟩
  · right
    obtain ⟨hinv, hrooms⟩ := (h.staged hfits).drop hc (by simpa using hdead)
    refine ⟨hinv.mono fun m hm => ⟨hm.1.1, hm.2.1, fun r hr => hm.2.2 r (by simpa using hr)⟩,
      fun q => ?_⟩
    rw [hrooms, staged_client_room, staged_room]

end Inv

end SharkNetplay.Relay.Py
