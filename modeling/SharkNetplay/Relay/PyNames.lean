import Mathlib.Data.List.Induction
import SharkNetplay.Relay.PyInvariant

/-!
# The name registry of the Python relay

`by_name` lists the live named clients, one entry each, in every state a run
reaches unless a HELLO takes the name of the sender's own room-mate and the notice
that this sends to the sender fails: the sender is then dropped and registered all
the same.
-/

namespace SharkNetplay.Relay.Py

open Lib Server

variable {s : Server} {c : Nat}

/-- The registry inside a handler, with whatever notices still to be queued. -/
structure Registry (s : Server) : Prop extends Inv (fun _ => True) s where
  entries : ∀ e ∈ s.byName, (s.client e.2).dead = false ∧ (s.client e.2).name = some e.1
  keys : Dict.Keyed s.byName
  complete : ∀ m n, m < s.nextClient → (s.client m).dead = false →
    (s.client m).name = some n → (n, m) ∈ s.byName
  roomless : ∀ m, (s.client m).dead = true → (s.client m).room = none

namespace Registry

theorem staged (h : Registry s) (c : Nat) (data : List Nat) : Registry (staged c data s) where
  present m := by
    rw [staged_client_dead]
    exact h.present m
  nodup := h.nodup
  link m r := by
    rw [staged_client_room]
    exact h.link m r
  pair := h.pair
  named m := by
    rw [staged_client_room, staged_client_name]
    exact h.named m
  newcomer m hm := by
    rw [staged_client_room, staged_client_dead]
    exact h.newcomer m hm
  vacant := h.vacant
  keyed := h.keyed
  sane := h.sane
  agrees _ _ hX := absurd trivial hX
  entries e he := by
    rw [staged_client_dead, staged_client_name]
    exact h.entries e he
  keys := h.keys
  complete m n hm := by
    rw [staged_client_dead, staged_client_name]
    exact h.complete m n hm
  roomless m := by
    rw [staged_client_dead, staged_client_room]
    exact h.roomless m

theorem mem_filter_ne {d : List (Name × Nat)} {e : Name × Nat} :
    e ∈ d.filter (fun e => e.2 != c) ↔ e ∈ d ∧ e.2 ≠ c := by
  rw [List.mem_filter]
  simp

theorem bury (h : Registry s) (hc : c < s.nextClient) (hroom : (s.client c).room = none) :
    Registry (bury c s) where
  toInv := (h.toInv.bury hc hroom).mono fun _ _ => trivial
  entries e he := by
    obtain ⟨he, hne⟩ := mem_filter_ne.mp he
    rw [bury_client_dead, bury_client_name, if_neg hne]
    exact h.entries e he
  keys := h.keys.filter _
  complete m n hm := by
    rw [bury_client_dead, bury_client_name]
    by_cases hmc : m = c
    · simp [hmc]
    · rw [if_neg hmc]
      exact fun hd hn => mem_filter_ne.mpr ⟨h.complete m n hm hd hn, hmc⟩
  roomless m := by
    rw [bury_client_dead, bury_client_room]
    by_cases hmc : m = c
    · subst hmc
      exact fun _ => hroom
    · rw [if_neg hmc]
      exact h.roomless m

theorem parted {o r : Nat} (h : Registry s) (hroom : (s.client c).room = some r)
    (hmates : Mates c o r s) : Registry (parted c o r s) where
  toInv := (h.toInv.parted hroom hmates).mono fun _ _ => trivial
  entries e he := by
    obtain ⟨he, hne⟩ := mem_filter_ne.mp he
    rw [parted_client_dead, if_neg hne]
    simpa [Py.parted] using h.entries e he
  keys := h.keys.filter _
  complete m n hm := by
    rw [parted_client_dead]
    by_cases hmc : m = c
    · simp [hmc]
    · rw [if_neg hmc]
      intro hd hn
      refine mem_filter_ne.mpr ⟨h.complete m n hm hd ?_, hmc⟩
      simpa [Py.parted] using hn
  roomless m := by
    rw [parted_client_dead, parted_client_room]
    by_cases hm : m = c ∨ m = o
    · simp [hm]
    · have hmc : m ≠ c := fun h' => hm (Or.inl h')
      rw [if_neg hmc, if_neg hm]
      exact h.roomless m

theorem send_solo (h : Registry s) (hc : c < s.nextClient) (hroom : (s.client c).room = none)
    (data : List Nat) : Registry (send drop c data s) := by
  rw [send_eq]
  split_ifs with hdead hover hok
  · exact h
  · rw [drop_solo h.toCounted hc (by simpa using hdead) hroom]
    exact h.bury hc hroom
  · exact h.staged c data
  · rw [drop_solo (h.staged c data).toCounted hc (by simpa using hdead) (by simpa using hroom)]
    exact (h.staged c data).bury hc (by simpa using hroom)

theorem drop (h : Registry s) (hc : c < s.nextClient) : Registry (drop c s) := by
  cases hlive : (s.client c).dead with
  | true =>
      rw [drop_dead hlive]
      exact h
  | false =>
      cases hroom : (s.client c).room with
      | none =>
          rw [drop_solo h.toCounted hc hlive hroom]
          exact h.bury hc hroom
      | some r =>
          obtain ⟨o, hmates, ho⟩ := h.toInv.mates hroom
          rw [drop_pair h.toCounted hc (h.lt_of_room ho) hlive hroom hmates
            (h.named c (by rw [hroom]; simp))]
          exact (h.parted hroom hmates).send_solo (h.lt_of_room ho)
            (by simp [parted_client_room]) _

theorem send (h : Registry s) (hc : c < s.nextClient) (data : List Nat) :
    Registry (send Py.drop c data s) := by
  rw [send_eq]
  split_ifs
  · exact h
  · exact h.drop hc
  · exact h.staged c data
  · exact (h.staged c data).drop hc

/-- A round over the members. -/
theorem forMembers {r : Nat} {body : Nat → Nat → Server → Server} (h : Registry s)
    (hbody : ∀ i m s, Registry s → m < s.nextClient → Registry (body i m s)) :
    Registry (forMembers r body (s.room r).members.length 0 s) := by
  rcases h.pair r with hnil | ⟨a, b, -, hpair⟩
  · rw [forMembers_none (by rw [hnil]; rfl)]
    exact h
  · refine forMembers_inv (k := 2) (fun s hs => ?_) (fun i m s hs hm => ?_) _ 0
      (by rw [hpair]; simp) h
    · rcases hs.pair r with hnil | ⟨a, b, -, hpair⟩
      · simp [hnil]
      · simp [hpair]
    · exact hbody i m s hs (hs.lt_of_room ((hs.link m r).mp hm))

theorem roomBroadcast {r : Nat} (h : Registry s) : Registry (roomBroadcast Py.drop r s) := by
  simp only [Py.roomBroadcast, expect_pos (allNamed_members h.toInv r)]
  exact h.forMembers fun _ _ _ hs hm => hs.send hm _

theorem start {r seed : Nat} (h : Registry s) : Registry (s.start r seed) where
  present := h.present
  nodup := h.nodup
  link m q := by
    rw [start_members]
    exact h.link m q
  pair q := by
    rw [start_members]
    exact h.pair q
  named := h.named
  newcomer := h.newcomer
  vacant q hq := by
    rw [start_members]
    exact h.vacant q hq
  keyed := h.keyed
  sane := h.sane
  agrees _ _ hX := absurd trivial hX
  entries := h.entries
  keys := h.keys
  complete := h.complete
  roomless := h.roomless

theorem startRoom {r : Nat} (h : Registry s) : Registry (startRoom r s).1 := by
  unfold Py.startRoom
  extract_lets seed s₁ s₂ s₃ common
  have h₁ : Registry s₁ := { h with }
  have h₂ : Registry s₂ := h₁.start
  split
  · exact h₂
  · have hnamed : s₃ = s₂ := expect_pos (allNamed_members h₂.toInv r) s₂
    rw [hnamed]
    exact h₂.forMembers fun _ _ _ hs hm => hs.send hm _

theorem setRx (h : Registry s) (c : Nat) (rx : List Nat) : Registry (s.setRx c rx) where
  toInv := h.toInv.setRx c rx
  entries e he := by
    rw [setRx_client_dead, setRx_client_name]
    exact h.entries e he
  keys := h.keys
  complete m n hm := by
    rw [setRx_client_dead, setRx_client_name]
    exact h.complete m n hm
  roomless m := by
    rw [setRx_client_dead, setRx_client_room]
    exact h.roomless m

/-- A new room for two live clients that have a name and no room. -/
theorem joined {target : Nat} {name : Name} (h : Registry s) (hset : Settled s)
    (hc : c < s.nextClient) (hlive : (s.client c).dead = false)
    (hname : (s.client c).name.isSome = true) (hroom : (s.client c).room = none)
    (htarget : lookup name s = some target) (hjoin : unjoinable c target s = false) :
    Registry (joined c target s) := by
  have htentry := h.entries _ (Dict.mem_of_get htarget)
  have hinv := joined_inv hset (ne_of_joinable hjoin) hc (lookup_lt h.toInv htarget) hroom
    (roomless_of_joinable hset hjoin) hname (by rw [htentry.2]; rfl)
  have hdeadEq : ∀ m, ((Py.joined c target s).client m).dead = (s.client m).dead := by
    intro m
    simp [Py.joined]
  have hnameEq : ∀ m, ((Py.joined c target s).client m).name = (s.client m).name := by
    intro m
    simp [Py.joined]
  refine ⟨hinv.mono fun _ _ => trivial, fun e he => ?_, h.keys, fun m n hm => ?_, fun m hm => ?_⟩
  · rw [hdeadEq, hnameEq]
    exact h.entries e he
  · rw [hdeadEq, hnameEq]
    exact h.complete m n hm
  · rw [hdeadEq] at hm
    have hmc : m ≠ c := by
      rintro rfl
      rw [hlive] at hm
      exact absurd hm (by simp)
    have hmt : m ≠ target := by
      rintro rfl
      rw [htentry.1] at hm
      exact absurd hm (by simp)
    have hmroom := h.roomless m hm
    simpa [Py.joined, hmc, hmt] using hmroom

/-- `on_join`. -/
theorem onJoin (h : Registry s) (hset : Settled s) (hc : c < s.nextClient)
    (hlive : (s.client c).dead = false) (payload : List Nat) :
    Registry (onJoin c payload s).1 := by
  rw [Py.onJoin_eq]
  split
  · exact h
  next hcname =>
  split
  · exact h
  next hcroom =>
  split
  · exact h.send hc _
  next target htarget =>
  split
  · exact h.send hc _
  next hjoin =>
  have hjoin' : unjoinable c target s = false := by simpa using hjoin
  have hjoined := h.joined hset hc hlive (by simpa [Option.isNone_iff_eq_none,
    Option.isSome_iff_ne_none] using hcname) (by simpa using hcroom) htarget hjoin'
  extract_lets p r s₁ s₂
  have hs₁ : s₁ = Py.joined c target s := (roomFor_joined hset hjoin').2
  have h₂ : Registry s₂ := by
    simp only [s₂]
    rw [hs₁]
    exact hjoined.roomBroadcast
  split
  · exact h₂.startRoom
  · exact h₂

/-- `on_go`. -/
theorem onGo (h : Registry s) : Registry (onGo c s).1 := by
  unfold Py.onGo
  split
  · exact h
  next r hroom =>
  have hcontains : ((s.room r).members.contains c) = true := by
    simpa using (h.link c r).mpr hroom
  split
  · exact h
  simp only [expect_pos hcontains]
  split_ifs
  · exact h
  · exact h.startRoom
  · exact h

theorem relay {ftype : Nat} (h : Registry s) (payload : List Nat) :
    Registry (relay c ftype payload s) := by
  unfold Py.relay
  split
  · exact h
  next r _ =>
  split
  · refine h.forMembers fun _ m s' hs hm => ?_
    split
    · exact hs
    · exact hs.send hm _
  · exact h

end Registry

/-! ## HELLO -/

/-- The name's other holder, if `on_hello` is to replace one. -/
def replaced (c : Nat) (name : Name) (s : Server) : Option Nat :=
  (lookup name s).filter fun old => old != c

/-- The name a HELLO asks for is held by the sender's room-mate, and the notice
that ends the room does not get through to the sender. -/
def mateTaken (c : Nat) (name : Name) (s : Server) : Bool :=
  match replaced c name s with
  | none => false
  | some old =>
    match (s.client old).room with
    | none => false
    | some r => (s.client c).room == some r && sendFails c (notice old r s) s

theorem replaced_eq_some {name : Name} {old : Nat} :
    replaced c name s = some old ↔ lookup name s = some old ∧ old ≠ c := by
  rw [replaced, Option.filter_eq_some_iff]
  simp

/-- Sending to a client without a room kills it exactly if the send fails, and
nobody else. -/
theorem dead_send_solo {o m : Nat} {data : List Nat} (h : Registry s) (ho : o < s.nextClient)
    (hroom : (s.client o).room = none) :
    ((send drop o data s).client m).dead =
      ((s.client m).dead || (m == o && sendFails o data s)) := by
  rw [send_eq]
  cases hdead : (s.client o).dead with
  | true =>
      by_cases hm : m = o
      · subst hm
        simp [hdead]
      · simp [hm]
  | false =>
      simp only [Bool.false_eq_true, if_false, sendFails]
      cases hover : overruns o data s with
      | true =>
          simp only [if_true, Bool.true_or, Bool.and_true]
          rw [drop_solo h.toCounted ho hdead hroom, bury_client_dead]
          by_cases hm : m = o <;> simp [hm]
      | false =>
          cases hok : (flushed o data s).ok with
          | true => simp
          | false =>
              simp only [Bool.false_eq_true, if_false, Bool.not_false, Bool.or_true,
                Bool.and_true]
              rw [drop_solo (h.staged o data).toCounted ho (by simpa using hdead)
                (by simpa using hroom), bury_client_dead, staged_client_dead]
              by_cases hm : m = o <;> simp [hm]

/-- Replacing the old holder drops the sender exactly in the case `mateTaken`
singles out. -/
theorem dead_replaced {name : Name} {old : Nat} (h : Registry s)
    (hold : replaced c name s = some old) (hlive : (s.client c).dead = false) :
    ((drop old s).client c).dead = mateTaken c name s := by
  obtain ⟨hget, hne⟩ := replaced_eq_some.mp hold
  have holdLive := (h.entries _ (Dict.mem_of_get hget)).1
  have holdLt : old < s.nextClient := lookup_lt h.toInv hget
  simp only [mateTaken, hold]
  cases hroom : (s.client old).room with
  | none =>
      rw [drop_solo h.toCounted holdLt holdLive hroom, bury_client_dead, if_neg hne.symm]
      exact hlive
  | some r =>
      obtain ⟨o, hmates, ho⟩ := h.toInv.mates hroom
      have hoLt := h.lt_of_room ho
      rw [drop_pair h.toCounted holdLt hoLt holdLive hroom hmates
        (h.named old (by rw [hroom]; simp)),
        dead_send_solo (h.parted hroom hmates) hoLt (by simp [parted_client_room]),
        parted_client_dead, if_neg hne.symm, hlive, Bool.false_or]
      by_cases hco : c = o
      · subst hco
        have htx : ((parted old c r s).client c).tx = (s.client c).tx := by
          simp [parted, link, bury, setClient, seat, setRoom, hne.symm]
        have hfails : sendFails c (notice old r s) (parted old c r s) =
            sendFails c (notice old r s) s := by
          simp only [sendFails, overruns, flushed, htx]
          rfl
        simp [ho, hfails]
      · have hcr : (s.client c).room ≠ some r := by
          intro hcr
          rcases (hmates.mem_iff c).mp ((h.link c r).mpr hcr) with h' | h'
          · exact hne h'.symm
          · exact hco h'
        have h₁ : (c == o) = false := by simpa using hco
        have h₂ : ((s.client c).room == some r) = false := by simpa using hcr
        show (c == o && _) = ((s.client c).room == some r && _)
        rw [h₁, h₂]
        rfl

/-- Dropping only removes entries, the dropped client's among them. -/
theorem byName_drop {o : Nat} (h : Registry s) (ho : o < s.nextClient)
    (hlive : (s.client o).dead = false) {e : Name × Nat} (he : e ∈ (drop o s).byName) :
    e ∈ s.byName ∧ e.2 ≠ o := by
  have hreg := h.drop ho
  have hsub : Steady fun s' => s'.byName ⊆ s.byName :=
    ⟨fun _ _ h' _ he' => h' (List.mem_of_mem_filter he'), fun _ _ _ _ h' => h', fun _ _ h' => h',
      fun _ _ _ h' => h', fun p s' h' => by unfold expect; split <;> exact h'⟩
  refine ⟨hsub.drop o s (List.Subset.refl _) he, ?_⟩
  rintro rfl
  have hdead : ((drop e.2 s).client e.2).dead = true := by
    have hpos : 0 < s.present.length :=
      List.length_pos_of_mem ((h.present _).mpr ⟨ho, hlive⟩)
    obtain ⟨n, hn⟩ := Nat.exists_eq_add_of_le' hpos
    rw [drop, hn]
    exact dead_dropN _ _ _
  rw [(hreg.entries e he).1] at hdead
  exact absurd hdead (by simp)

/-- The registry without the entry the sender had under another name. -/
theorem register_live {name : Name} {s₂ : Server} (h : Registry s) (hc : c < s.nextClient)
    (hlive : (s.client c).dead = false) (hown : ∀ e ∈ s.byName, e.1 = name → e.2 = c)
    (hs₂ : s₂ = match (s.client c).name with
      | some prev =>
        if prev ≠ name ∧ lookup prev s = some c then
          { s with byName := s.byName.filter fun e => e.1 != prev }
        else s
      | none => s) :
    Registry { s₂.setName c name with byName := Dict.assign name c (s₂.setName c name).byName } := by
  -- in `s₂` only a key equal to `name` may still point to `c`
  have hbase : s₂ = { s with byName := s₂.byName } ∧ s₂.byName.Sublist s.byName ∧
      (∀ e ∈ s₂.byName, e.1 ≠ name → e.2 ≠ c) ∧
      (∀ e ∈ s.byName, e.2 ≠ c → e ∈ s₂.byName) := by
    cases hname : (s.client c).name with
    | none =>
        rw [hname] at hs₂
        subst hs₂
        refine ⟨rfl, List.Sublist.refl _, fun e he _ hec => ?_, fun e he _ => he⟩
        have := (h.entries e he).2
        rw [hec, hname] at this
        exact absurd this (by simp)
    | some prev =>
        rw [hname] at hs₂
        have hentry : (prev, c) ∈ s.byName := h.complete c prev hc hlive hname
        have hget : lookup prev s = some c := (Dict.get_iff_mem h.keys).mpr hentry
        have hkey : ∀ e ∈ s.byName, e.2 = c → e.1 = prev := by
          intro e he hec
          have := (h.entries e he).2
          rw [hec, hname, Option.some.injEq] at this
          exact this.symm
        by_cases hprev : prev = name
        · subst hprev
          simp only [ne_eq, not_true_eq_false, false_and, if_false] at hs₂
          subst hs₂
          exact ⟨rfl, List.Sublist.refl _, fun e he hne hec => hne (hkey e he hec),
            fun e he _ => he⟩
        · simp only [ne_eq, hprev, not_false_eq_true, hget, and_self, if_true] at hs₂
          subst hs₂
          refine ⟨rfl, List.filter_sublist, fun e he _ hec => ?_, fun e he hec => ?_⟩
          · rw [List.mem_filter] at he
            exact absurd he.2 (by simp [hkey e he.1 hec])
          · refine List.mem_filter.mpr ⟨he, ?_⟩
            have hne : e.1 ≠ prev := by
              intro he₁
              have h₁ := (Dict.get_iff_mem h.keys).mpr (show (prev, e.2) ∈ s.byName by
                rw [← he₁]; exact he)
              have h₂ := (Dict.get_iff_mem h.keys).mpr hentry
              rw [h₁, Option.some.injEq] at h₂
              exact hec h₂
            simpa using hne
  obtain ⟨hs, hsub, hother, hkept⟩ := hbase
  have hclient : s₂.client = s.client := by rw [hs]
  have hkeys : Dict.Keyed s₂.byName := List.Nodup.sublist (hsub.map _) h.keys
  have hnext : s₂.nextClient = s.nextClient := by rw [hs]
  have hinv₂ : Inv (fun _ => True) s₂ := by
    rw [hs]
    exact h.toInv.withByName fun e he => h.keyed e (hsub.subset he)
  have hname : ∀ m, ((s₂.setName c name).client m).name =
      if m = c then some name else (s.client m).name := by
    intro m
    rw [setName_client_name, hclient]
  have hdead : ∀ m, ((s₂.setName c name).client m).dead = (s.client m).dead := by
    intro m
    rw [setName_client_dead, hclient]
  refine ⟨(hinv₂.setName c name).withByName fun e he => ?_, fun e he => ?_, hkeys.assign name c,
    fun m n hm hd hn => ?_, fun m hm => ?_⟩
  · rcases Dict.mem_assign he with rfl | ⟨he', -⟩
    · show c < s₂.nextClient
      rw [hnext]
      exact hc
    · exact hinv₂.keyed e he'
  · show ((s₂.setName c name).client e.2).dead = false ∧
      ((s₂.setName c name).client e.2).name = some e.1
    rw [hdead, hname]
    rcases Dict.mem_assign he with rfl | ⟨he', hne⟩
    · exact ⟨hlive, if_pos rfl⟩
    · have hec := hother e he' (hne hkeys)
      rw [if_neg hec]
      exact h.entries e (hsub.subset he')
  · have hd' : (s.client m).dead = false := (hdead m).symm.trans hd
    have hn' : (if m = c then some name else (s.client m).name) = some n :=
      (hname m).symm.trans hn
    show (n, m) ∈ Dict.assign name c s₂.byName
    by_cases hmc : m = c
    · rw [if_pos hmc, Option.some.injEq] at hn'
      subst hmc hn'
      exact Dict.assign_mem _ _ _
    · rw [if_neg hmc] at hn'
      have hm' : m < s.nextClient := by
        rw [← hnext]
        exact hm
      have hentry := h.complete m n hm' hd' hn'
      exact Dict.mem_assign_of_ne (hkept _ hentry hmc) fun hnn => hmc (hown _ hentry hnn)
  · have hm' : (s.client m).dead = true := (hdead m).symm.trans hm
    show ((s₂.setName c name).client m).room = none
    rw [setName_client_room, hclient]
    exact h.roomless m hm'

/-- `on_hello` keeps the registry, unless it goes on for a sender it just dropped;
then it registers a dead client. -/
theorem register_registry {name : Name} (h : Registry s) (hc : c < s.nextClient)
    (hlive : (s.client c).dead = false) :
    (mateTaken c name s = false → Registry (register c name s)) ∧
      (mateTaken c name s = true → ((register c name s).client c).dead = true ∧
        (name, c) ∈ (register c name s).byName) := by
  unfold register
  extract_lets s₁ s₂ s₃
  have hs₁ : s₁ = (replaced c name s).elim s fun old => drop old s := by
    simp only [s₁, replaced]
    cases hget : lookup name s with
    | none => rfl
    | some old =>
        by_cases hne : old = c
        · simp [Option.filter, hne]
        · simp [Option.filter, hne]
  clear_value s₁
  have h₁ : Registry s₁ ∧ s₁.nextClient = s.nextClient ∧
      (s₁.client c).dead = mateTaken c name s ∧
      (mateTaken c name s = false → ∀ e ∈ s₁.byName, e.1 = name → e.2 = c) := by
    cases hrep : replaced c name s with
    | none =>
        rw [hrep] at hs₁
        subst hs₁
        have hmate : mateTaken c name s₁ = false := by simp only [mateTaken, hrep]
        refine ⟨h, rfl, by rw [hmate]; exact hlive, fun _ e he hen => ?_⟩
        have hget := (Dict.get_iff_mem h.keys).mpr (show (name, e.2) ∈ s₁.byName by
          rw [← hen]; exact he)
        by_contra hne
        have := replaced_eq_some.mpr ⟨hget, hne⟩
        rw [hrep] at this
        exact absurd this (by simp)
    | some old =>
        rw [hrep] at hs₁
        subst hs₁
        obtain ⟨hget, hne⟩ := replaced_eq_some.mp hrep
        have hlt := lookup_lt h.toInv hget
        have hreg := h.drop hlt
        refine ⟨hreg, (steady_nextClient s.nextClient).drop old s rfl,
          dead_replaced h hrep hlive, fun _ e he hen => ?_⟩
        -- the entry the replaced client had is gone with it
        have hsub : ∀ e ∈ (drop old s).byName, e ∈ s.byName ∧ e.2 ≠ old := by
          intro e he
          exact byName_drop h hlt (h.entries _ (Dict.mem_of_get hget)).1 he
        have h₁ := (Dict.get_iff_mem h.keys).mpr (show (name, e.2) ∈ s.byName by
          rw [← hen]; exact (hsub e he).1)
        have h₂ : Dict.get name s.byName = some old := hget
        rw [h₁, Option.some.injEq] at h₂
        exact absurd h₂ (hsub e he).2
  obtain ⟨hreg, hnext, hdead, hown⟩ := h₁
  constructor
  · intro hmate
    rw [hmate] at hdead
    have hlive₁ := @register_live _ c name s₂ hreg (by rw [hnext]; exact hc) hdead
      (hown hmate) rfl
    refine hlive₁.send ?_ _
    show c < s₂.nextClient
    have hn₂ : s₂.nextClient = s₁.nextClient := by
      simp only [s₂]
      split
      · split <;> rfl
      · rfl
    rw [hn₂, hnext]
    exact hc
  · intro hmate
    rw [hmate] at hdead
    have hdead₃ : (s₃.client c).dead = true := by
      have hn₂ : s₂.client = s₁.client := by
        simp only [s₂]
        split
        · split <;> rfl
        · rfl
      rw [setName_client_dead, hn₂]
      exact hdead
    have hsend : onList c { s₃ with byName := Dict.assign name c s₃.byName } =
        { s₃ with byName := Dict.assign name c s₃.byName } := by
      unfold onList
      rw [send_eq, if_pos hdead₃]
    rw [hsend]
    exact ⟨hdead₃, Dict.assign_mem _ _ _⟩

/-! ## Runs -/

/-- A dead client is registered. -/
def Haunted (s : Server) : Prop := ∃ e ∈ s.byName, (s.client e.2).dead = true

/-- The frame is a HELLO for the name of the sender's room-mate, and the notice to
the sender fails. -/
def clash (c ftype : Nat) (payload : List Nat) (s : Server) : Bool :=
  ftype == tHello && match helloName payload with
    | none => false
    | some name => mateTaken c name s

theorem handle_registry (h : Registry s) (hset : Settled s) (hc : c < s.nextClient)
    (hlive : (s.client c).dead = false) (ftype : Nat) (payload : List Nat) :
    (clash c ftype payload s = false → Registry (handle c ftype payload s).1) ∧
      (clash c ftype payload s = true → (handle c ftype payload s).2 = false ∧
        ((handle c ftype payload s).1.client c).dead = true ∧
        Haunted (handle c ftype payload s).1) := by
  unfold handle
  by_cases hrel : ftype ∈ relayTypes
  · have hno : clash c ftype payload s = false := by
      have hne : (ftype == tHello) = false := beq_eq_false_iff_ne.mpr fun h' => by
        rw [h'] at hrel
        exact absurd hrel (by decide)
      rw [clash, hne, Bool.false_and]
    rw [if_pos hrel, hno]
    exact ⟨fun _ => h.relay payload, fun h' => absurd h' (by simp)⟩
  rw [if_neg hrel]
  by_cases hhello : ftype = tHello
  · rw [if_pos hhello]
    cases hname : helloName payload with
    | none =>
        have hno : clash c ftype payload s = false := by simp [clash, hname]
        rw [hno]
        exact ⟨fun _ => h, fun h' => absurd h' (by simp)⟩
    | some name =>
        have hclash : clash c ftype payload s = mateTaken c name s := by
          simp [clash, hname, hhello]
        rw [hclash]
        obtain ⟨hkeep, hbreak⟩ := @register_registry _ _ name h hc hlive
        exact ⟨hkeep, fun h' => ⟨rfl, (hbreak h').1, _, (hbreak h').2, (hbreak h').1⟩⟩
  · have hno : clash c ftype payload s = false := by
      rw [clash, beq_eq_false_iff_ne.mpr hhello, Bool.false_and]
    rw [if_neg hhello, hno]
    refine ⟨fun _ => ?_, fun h' => absurd h' (by simp)⟩
    split_ifs
    · exact h.send hc _
    · exact h.onJoin hset hc hlive payload
    · exact h.onGo
    · exact h.drop hc
    · exact h.send hc _
    · exact h

/-- The frames `feed` handles, each with the state it is handled in. -/
def handledIn : Nat → Nat → Server → List (Nat × List Nat × Server)
  | 0, _, _ => []
  | fuel + 1, c, s =>
    match (s.client c).rx with
    | [] => []
    | len :: rest =>
      if len = 0 ∨ 200 < len then []
      else if rest.length < len then []
      else
        let s := s.setRx c (rest.drop len)
        let p := handle c (rest.headD 0) ((rest.take len).tail) s
        (rest.headD 0, (rest.take len).tail, s) ::
          if p.2 ∨ (p.1.client c).dead then [] else handledIn fuel c p.1

/-- Some frame of the batch clashes. -/
def batchClash (fuel c : Nat) (s : Server) : Prop :=
  ∃ f ∈ handledIn fuel c s, clash c f.1 f.2.1 f.2.2 = true

theorem not_batchClash {fuel : Nat} (h : handledIn fuel c s = []) : ¬ batchClash fuel c s := by
  rintro ⟨f, hf, -⟩
  rw [h] at hf
  exact absurd hf List.not_mem_nil

theorem feed_registry (fuel : Nat) (h : Registry s) (hset : Settled s) (hc : c < s.nextClient)
    (hlive : (s.client c).dead = false) (hfuel : (s.client c).rx.length ≤ fuel) :
    (¬ batchClash fuel c s → Registry (feed fuel c s)) ∧
      (batchClash fuel c s → Haunted (feed fuel c s)) := by
  induction fuel generalizing s with
  | zero =>
      have hrx : (s.client c).rx = [] := List.eq_nil_of_length_eq_zero (by omega)
      unfold feed
      rw [expect_pos (by rw [hrx]; rfl)]
      exact ⟨fun _ => h, fun h' => absurd h' (not_batchClash rfl)⟩
  | succ fuel ih =>
      have hnone : handledIn (fuel + 1) c s = [] → ∀ {s'}, Registry s' →
          (¬ batchClash (fuel + 1) c s → Registry s') ∧
            (batchClash (fuel + 1) c s → Haunted s') := by
        intro hnil s' hs'
        exact ⟨fun _ => hs', fun h' => absurd h' (not_batchClash hnil)⟩
      unfold feed
      split
      · next hrx => exact hnone (by simp [handledIn, hrx]) h
      next len rest hrx =>
      split
      · next hbad => exact hnone (by simp only [handledIn, hrx, if_pos hbad]) (h.drop hc)
      next hlen =>
      split
      · next hshort =>
          exact hnone (by simp only [handledIn, hrx, if_neg hlen, if_pos hshort]) h
      next hwhole =>
      extract_lets s₁ p
      have hlive₁ : (s₁.client c).dead = false := by
        rw [setRx_client_dead]
        exact hlive
      have hset₁ : Settled s₁ := hset.setRx c (rest.drop len)
      have hout : Outcome c s₁ p := handle_outcome hset₁ hc hlive₁ _ _
      have hnext : p.1.nextClient = s.nextClient := hout.nextClient
      obtain ⟨hkeep, hbreak⟩ := handle_registry (h.setRx c (rest.drop len)) hset₁ hc hlive₁
        (rest.headD 0) ((rest.take len).tail)
      have hhandled : handledIn (fuel + 1) c s = (rest.headD 0, (rest.take len).tail, s₁) ::
          if p.2 ∨ (p.1.client c).dead then [] else handledIn fuel c p.1 := by
        simp only [handledIn, hrx, if_neg hlen, if_neg hwhole]
        rfl
      cases hclash : clash c (rest.headD 0) ((rest.take len).tail) s₁ with
      | true =>
          obtain ⟨hquiet, hdead, hhaunt⟩ := hbreak hclash
          have hraise : ¬ p.2 = true := by
            rw [show p.2 = false from hquiet]
            exact Bool.false_ne_true
          have hmem : (rest.headD 0, (rest.take len).tail, s₁) ∈ handledIn (fuel + 1) c s := by
            rw [hhandled]
            exact List.mem_cons_self
          rw [if_neg hraise, if_pos hdead]
          exact ⟨fun hno => absurd ⟨_, hmem, hclash⟩ hno, fun _ => hhaunt⟩
      | false =>
          have hreg : Registry p.1 := hkeep hclash
          by_cases hraise : p.2 = true
          · rw [if_pos hraise]
            have hnil : ¬ batchClash (fuel + 1) c s := by
              rintro ⟨f, hf, hfc⟩
              rw [hhandled, if_pos (Or.inl hraise), List.mem_singleton] at hf
              subst hf
              rw [hclash] at hfc
              exact absurd hfc (by simp)
            exact ⟨fun _ => hreg.drop (by rw [hnext]; exact hc), fun h' => absurd h' hnil⟩
          · rw [if_neg hraise]
            by_cases hdead : (p.1.client c).dead = true
            · rw [if_pos hdead]
              have hnil : ¬ batchClash (fuel + 1) c s := by
                rintro ⟨f, hf, hfc⟩
                rw [hhandled, if_pos (Or.inr hdead), List.mem_singleton] at hf
                subst hf
                rw [hclash] at hfc
                exact absurd hfc (by simp)
              exact ⟨fun _ => hreg, fun h' => absurd h' hnil⟩
            · rw [if_neg hdead]
              have hrx₁ : (p.1.client c).rx = rest.drop len :=
                (lasting_rx c (rest.drop len)).handle c _ _ s₁ (by simp [s₁])
              have hiff : batchClash (fuel + 1) c s ↔ batchClash fuel c p.1 := by
                unfold batchClash
                rw [hhandled, if_neg (by simp [hraise, hdead])]
                constructor
                · rintro ⟨f, hf, hfc⟩
                  rcases List.mem_cons.mp hf with rfl | hf
                  · rw [hclash] at hfc
                    exact absurd hfc (by simp)
                  · exact ⟨f, hf, hfc⟩
                · rintro ⟨f, hf, hfc⟩
                  exact ⟨f, List.mem_cons_of_mem _ hf, hfc⟩
              rw [hiff]
              refine ih hreg (hout.quiet (by simpa using hraise)) (by rw [hnext]; exact hc)
                (by simpa using hdead) ?_
              rw [hrx, List.length_cons] at hfuel
              rw [hrx₁, List.length_drop]
              omega

/-- The event is a batch of frames one of which clashes. -/
def Clashes (s : Server) : Event → Prop
  | .recv c data =>
    serving c s = true ∧ batchClash ((s.client c).rx ++ data).length c
      (s.setRx c ((s.client c).rx ++ data))
  | _ => False

namespace Registry

theorem enroll (h : Registry s) (hset : Settled s) (ip : Nat) : Registry (enroll ip s) where
  toInv := (admit_settled hset ip).mono fun _ hm => hm.elim
  entries e he := by
    rw [admit_client_ne s ip (Nat.ne_of_lt (h.keyed e he))]
    exact h.entries e he
  keys := h.keys
  complete m n hm := by
    have hm₁ : m < s.nextClient + 1 := hm
    by_cases hnew : m = s.nextClient
    · rw [hnew, admit_client_new]
      simp
    · rw [admit_client_ne s ip hnew]
      exact h.complete m n (by omega)
  roomless m := by
    by_cases hnew : m = s.nextClient
    · rw [hnew, admit_client_new]
      simp
    · rw [admit_client_ne s ip hnew]
      exact h.roomless m

theorem withTx_client (s : Server) (c m : Nat) (outcomes : List SendResult) (tx : List Nat) :
    let s' := { s with outcomes := outcomes }.setClient c { s.client c with tx := tx }
    (s'.client m).dead = (s.client m).dead ∧ (s'.client m).name = (s.client m).name ∧
      (s'.client m).room = (s.client m).room := by
  dsimp only
  rw [client_setClient]
  split
  · next hm => simp [hm]
  · exact ⟨rfl, rfl, rfl⟩

theorem withTx (h : Registry s) (hset : Settled s) (c : Nat) (outcomes : List SendResult)
    (tx : List Nat) :
    Registry ({ s with outcomes := outcomes }.setClient c { s.client c with tx := tx }) := by
  have hclient := fun m => withTx_client s c m outcomes tx
  refine ⟨(withTx_settled hset c outcomes tx).mono fun _ hm => hm.elim, fun e he => ?_, h.keys,
    fun m n hm => ?_, fun m => ?_⟩
  · rw [(hclient e.2).1, (hclient e.2).2.1]
    exact h.entries e he
  · rw [(hclient m).1, (hclient m).2.1]
    exact h.complete m n hm
  · rw [(hclient m).1, (hclient m).2.2]
    exact h.roomless m

theorem flush (h : Registry s) (hset : Settled s) (hc : c < s.nextClient) :
    Registry (flush Py.drop c s) := by
  unfold Py.flush
  extract_lets f v s₁
  have h₁ : Registry s₁ := h.withTx hset c f.rest f.tx
  split
  · exact h₁
  · exact h₁.drop hc

theorem sweep (late : List Nat) (h : Registry s) (hlate : ∀ c ∈ late, c < s.nextClient) :
    Registry (sweep late s) := by
  induction late generalizing s with
  | nil => exact h
  | cons c late ih =>
      have hc := hlate c (by simp)
      have hnext := (steady_nextClient s.nextClient).drop c s rfl
      have htail : ∀ m ∈ late, m < s.nextClient := fun m hm => hlate m (List.mem_cons_of_mem _ hm)
      unfold Py.sweep at ih ⊢
      rw [List.foldl_cons]
      split
      · exact ih (h.drop hc) (by rw [hnext]; exact htail)
      · exact ih h htail

end Registry

/-- One event. -/
theorem step_registry (h : Registry s) (hset : Settled s) (e : Event) :
    (¬ Clashes s e → Registry (s.step e)) ∧ (Clashes s e → Haunted (s.step e)) := by
  have hserving : ∀ {c}, serving c s = true → c < s.nextClient ∧ (s.client c).dead = false := by
    intro c hc
    simpa [serving] using hc
  cases e with
  | accept ip =>
      refine ⟨fun _ => ?_, fun h' => h'.elim⟩
      simp only [Server.step, accept]
      split_ifs
      · exact h
      · exact h
      · exact h.enroll hset ip
  | recv c data =>
      simp only [Server.step, Clashes]
      split
      · next hc =>
          obtain ⟨hlt, hlive⟩ := hserving hc
          have hfeed := feed_registry ((s.client c).rx ++ data).length (h.setRx c _)
            (hset.setRx c ((s.client c).rx ++ data)) hlt (by simpa using hlive) (by simp)
          have hrx : ((s.setRx c ((s.client c).rx ++ data)).client c).rx.length =
              ((s.client c).rx ++ data).length := by simp
          unfold service
          simp only [hrx]
          exact ⟨fun hno => hfeed.1 fun hb => hno ⟨hc, hb⟩, fun hb => hfeed.2 hb.2⟩
      · next hc => exact ⟨fun _ => h, fun hb => absurd hb.1 hc⟩
  | eof c =>
      refine ⟨fun _ => ?_, fun h' => h'.elim⟩
      simp only [Server.step]
      split
      · next hc => exact h.drop (hserving hc).1
      · exact h
  | writable c =>
      refine ⟨fun _ => ?_, fun h' => h'.elim⟩
      simp only [Server.step]
      split
      · next hc => exact h.flush hset (hserving hc).1
      · exact h
  | sweep late =>
      refine ⟨fun _ => Registry.sweep _ h fun c hc => ?_, fun h' => h'.elim⟩
      have hpresent := (List.mem_filter.mp hc).2
      exact ((h.present c).mp (by simpa using hpresent)).1

/-- Every entry is a live client under its own name, every live client with a name
has one entry, and rooms have live members only. -/
structure NameRegistry (s : Server) : Prop where
  entries : ∀ e ∈ s.byName,
    (s.client e.2).dead = false ∧ e.2 ∈ s.present ∧ (s.client e.2).name = some e.1
  once : ∀ c ∈ s.present, ∀ n, (s.client c).name = some n →
    s.byName.filter (fun e => e.2 == c) = [(n, c)]
  keys : (s.byName.map Prod.fst).Nodup
  live : ∀ r, ∀ m ∈ (s.room r).members, (s.client m).dead = false

theorem NameRegistry.not_haunted (h : NameRegistry s) : ¬ Haunted s := by
  rintro ⟨e, he, hdead⟩
  rw [(h.entries e he).1] at hdead
  exact absurd hdead (by simp)

theorem Registry.nameRegistry (h : Registry s) : NameRegistry s where
  entries e he := by
    obtain ⟨hlive, hname⟩ := h.entries e he
    exact ⟨hlive, (h.present e.2).mpr ⟨h.keyed e he, hlive⟩, hname⟩
  once c hc n hn := by
    obtain ⟨hlt, hlive⟩ := (h.present c).mp hc
    refine h.keys.filter_eq_singleton (h.complete c n hlt hlive hn) fun e he hec => ?_
    have hname := (h.entries e he).2
    rw [hec, hn, Option.some.injEq] at hname
    exact hname.symm
  keys := h.keys
  live r m hm := by
    cases hdead : (s.client m).dead with
    | false => rfl
    | true =>
        have hroom := (h.link m r).mp hm
        rw [h.roomless m hdead] at hroom
        exact absurd hroom (by simp)

theorem init_registry (delay autoGo : Int) (outcomes : List SendResult) (seeds : List Seed) :
    Registry (Server.init delay autoGo outcomes seeds) where
  toInv := (init_settled delay autoGo outcomes seeds).mono fun _ hm => hm.elim
  entries e he := absurd he (by simp [Server.init])
  keys := List.nodup_nil
  complete m n hm := absurd hm (by simp [Server.init])
  roomless m hm := absurd hm (by simp [Server.init])

/-- A run that keeps the registry up to each event keeps it, event by event. -/
theorem run_registry {s₀ : Server} (h₀ : Registry s₀) (hset : Settled s₀) (events : List Event)
    (hstep : ∀ es e, es ++ [e] <+: events → Registry (s₀.run es) → ¬ Clashes (s₀.run es) e) :
    Registry (s₀.run events) := by
  induction events using List.reverseRecOn with
  | nil => exact h₀
  | append_singleton es e ih =>
      have hreg : Registry (s₀.run es) := ih fun es' e' hpre hreg =>
        hstep es' e' (hpre.trans (List.prefix_append _ _)) hreg
      have hrun : s₀.run (es ++ [e]) = (s₀.run es).step e := by
        simp [Server.run, List.foldl_append]
      rw [hrun]
      exact (step_registry hreg (run_settled hset es) e).1
        (hstep es e (List.prefix_refl _) hreg)

/-- The registry is right between all events of a run exactly if no HELLO of the
run takes the name of the sender's room-mate while the notice to the sender fails. -/
theorem name_registry_iff (delay autoGo : Int) (outcomes : List SendResult) (seeds : List Seed)
    (events : List Event) :
    (∀ es, es <+: events → NameRegistry ((Server.init delay autoGo outcomes seeds).run es)) ↔
      ∀ es e, es ++ [e] <+: events →
        ¬ Clashes ((Server.init delay autoGo outcomes seeds).run es) e := by
  have h₀ := init_registry delay autoGo outcomes seeds
  have hset := init_settled delay autoGo outcomes seeds
  generalize Server.init delay autoGo outcomes seeds = s₀ at h₀ hset ⊢
  constructor
  · intro hreg
    have hstep : ∀ es e, es ++ [e] <+: events → Registry (s₀.run es) →
        ¬ Clashes (s₀.run es) e := by
      intro es e hpre hes hclash
      have hrun : s₀.run (es ++ [e]) = (s₀.run es).step e := by
        simp [Server.run, List.foldl_append]
      have hhaunt := (step_registry hes (run_settled hset es) e).2 hclash
      rw [← hrun] at hhaunt
      exact (hreg (es ++ [e]) hpre).not_haunted hhaunt
    intro es e hpre
    refine hstep es e hpre (run_registry h₀ hset es fun es' e' hpre' => ?_)
    exact hstep es' e' (hpre'.trans ((List.prefix_append es [e]).trans hpre))
  · intro hquiet es hpre
    exact (run_registry h₀ hset es fun es' e' hpre' _ =>
      hquiet es' e' (hpre'.trans hpre)).nameRegistry

/-- The bytes of a HELLO for `name`. -/
def hello (name : Name) : List Nat := frame tHello (2 :: name)

/-- `BB` joins `AA`, then asks for its name. -/
def stolen : List Event :=
  [.accept 1, .accept 2, .recv 0 (hello [65, 65]), .recv 1 (hello [66, 66]),
    .recv 1 (frame tJoin [65, 65]), .recv 1 (hello [65, 65])]

/-- Two lobbies and two ROOM frames go out, the notice of the ended room does not. -/
def lastFails : List SendResult :=
  [.wrote 400, .wrote 400, .wrote 400, .wrote 400, .failed]

/-- The dead `BB` holds the name `AA`. -/
theorem name_registry_broken : ¬ NameRegistry ((Server.init 2 0 lastFails []).run stolen) := by
  have hentry : ([65, 65], 1) ∈ ((Server.init 2 0 lastFails []).run stolen).byName := by
    decide +kernel
  have hdead : (((Server.init 2 0 lastFails []).run stolen).client 1).dead = true := by
    decide +kernel
  intro h
  have hlive := (h.entries _ hentry).1
  rw [hdead] at hlive
  exact absurd hlive (by simp)

end SharkNetplay.Relay.Py
