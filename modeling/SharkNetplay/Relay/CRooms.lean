import SharkNetplay.Relay.CSend

/-!
# Rooms of the C relay under failing sends

The invariant that links clients, rooms and what was queued to whom, and what
`drop` does to it. `X` names the clients who are still to be told of a change.
-/

namespace SharkNetplay.Relay.C

open Server

variable {s : Server} {X : Nat → Prop} {c r : Nat}

/-- An accepted connection that was not dropped. -/
structure Live (m : Nat) (s : Server) : Prop where
  inUse : (s.client m).inUse = true
  alive : (s.client m).dead = false

/-- The frames queued, with their connections. -/
def wire (s : Server) : List (Nat × List Nat) := s.queued.map fun e => (e.conn, e.frame)

/-- The frame tells that a room is over: PEER_LEFT, or ROOM with count 0. -/
def ends (f : List Nat) : Bool :=
  f.getD 1 0 == tPeerLeft || (f.getD 1 0 == tRoom && f.getD 2 0 == 0)

/-- Members of a started room as its START tells. A v1 START is for a pair. -/
def startCount (proto : Proto) (f : List Nat) : Nat :=
  match proto with
  | .v1 => 2
  | .v2 => f.getD 3 0

/-- What `m` was last told, if anything, is true of it: START, that it is in a
started room of that size; ROOM `n`, in a forming room of `n`; ROOM 0 and PEER_LEFT,
in none. -/
def Fits : Option (List Nat) → Nat → Server → Prop
  | none, _, _ => True
  | some f, m, s =>
    if f.getD 1 0 = tStart then
      ∃ r, (s.client m).room = some r ∧ (s.room r).started = true ∧
        (s.room r).members.length = startCount s.proto f
    else if f.getD 1 0 = tRoom ∧ f.getD 2 0 ≠ 0 then
      ∃ r, (s.client m).room = some r ∧ (s.room r).started = false ∧
        (s.room r).members.length = f.getD 2 0
    else (s.client m).room = none

theorem Fits.congr {s' : Server} {f : Option (List Nat)} {m : Nat} (h : Fits f m s)
    (hproto : s'.proto = s.proto) (hlink : (s'.client m).room = (s.client m).room)
    (hroom : ∀ r, (s.client m).room = some r → (s'.room r).started = (s.room r).started ∧
      (s'.room r).members = (s.room r).members) : Fits f m s' := by
  cases f with
  | none => trivial
  | some f =>
      simp only [Fits] at h ⊢
      rw [hlink, hproto]
      split_ifs at h ⊢
      · obtain ⟨r, hr, hstarted, hlen⟩ := h
        exact ⟨r, hr, (hroom r hr).1.trans hstarted, by rw [(hroom r hr).2]; exact hlen⟩
      · obtain ⟨r, hr, hforming, hlen⟩ := h
        exact ⟨r, hr, (hroom r hr).1.trans hforming, by rw [(hroom r hr).2]; exact hlen⟩
      · exact h

theorem ends_iff {f : List Nat} :
    ends f = true ↔ f.getD 1 0 = tPeerLeft ∨ (f.getD 1 0 = tRoom ∧ f.getD 2 0 = 0) := by
  simp [ends]

theorem isMembership_of_ends {f : List Nat} (hf : ends f = true) : isMembership f = true := by
  unfold isMembership
  rcases ends_iff.mp hf with h | ⟨h, -⟩
  · rw [h]
    rfl
  · rw [h]
    rfl

/-- A frame that ends a room is true of a client in none. -/
theorem Fits.of_ends {f : List Nat} {m : Nat} (hf : ends f = true)
    (hroom : (s.client m).room = none) : Fits (some f) m s := by
  simp only [Fits]
  rcases ends_iff.mp hf with h | ⟨h, h₀⟩
  · rw [if_neg (by rw [h]; decide), if_neg (by rw [h]; simp)]
    exact hroom
  · rw [if_neg (by rw [h]; decide), if_neg (by rw [h₀]; simp)]
    exact hroom

/-- Clients, rooms and names refer to each other as they should. -/
structure Shape (s : Server) : Prop where
  link : ∀ m r, m ∈ (s.room r).members ↔ (s.client m).room = some r
  nodup : ∀ r, (s.room r).members.Nodup
  size : ∀ r, (s.room r).members = [] ∨
    2 ≤ (s.room r).members.length ∧ (s.room r).members.length ≤ s.maxSeats
  vacant : ∀ r, (s.room r).used = false → (s.room r).members = []
  lively : ∀ m, (s.client m).room ≠ none → Live m s
  slot : ∀ m, (s.client m).inUse = true → m < maxClients
  fresh : ∀ m, (s.client m).inUse = true → (s.client m).conn < s.conns
  distinct : ∀ m n, (s.client m).inUse = true → (s.client n).inUse = true →
    (s.client m).conn = (s.client n).conn → m = n
  keyed : ∀ e ∈ s.byName, Live e.2 s
  alloc : ∀ r, (s.room r).members ≠ [] → (s.room r).alloc < s.allocs
  apart : ∀ q r, (s.room q).members ≠ [] → (s.room r).members ≠ [] →
    (s.room q).alloc = (s.room r).alloc → q = r
  seats : 2 ≤ s.maxSeats ∧ s.maxSeats ≤ 4
  pairs : s.proto = .v1 → s.maxSeats = 2
  sane : s.crashed = false

/-- The invariant, but for what the clients in `X` were told. -/
structure Inv (X : Nat → Prop) (s : Server) : Prop extends Shape s where
  told : ∀ m, Live m s → ¬ X m → Fits (told (s.client m).conn (wire s)) m s
  sent : ∀ e ∈ s.queued, e.conn < s.conns ∧ ∀ k, e.alloc = some k → k < s.allocs
  /-- Nobody is in a room that somebody was told is over. -/
  closed : ∀ e ∈ s.queued, ends e.frame = true → ∀ k, e.alloc = some k →
    ∀ r, (s.room r).members ≠ [] → (s.room r).alloc ≠ k
  final : s.queued.Pairwise fun e e' => e'.alloc = e.alloc → e.alloc ≠ none →
    ends e.frame = true → ends e'.frame = true

theorem Inv.mono {Y : Nat → Prop} (h : Inv X s) (hXY : ∀ m, X m → Y m) : Inv Y s :=
  { h with told := fun m hm hY => h.told m hm fun hX => hY (hXY m hX) }

/-- Everything the invariant reads is the same. -/
structure Same (s s' : Server) : Prop where
  proto : s'.proto = s.proto
  maxSeats : s'.maxSeats = s.maxSeats
  room : s'.room = s.room
  link : ∀ m, (s'.client m).room = (s.client m).room
  dead : ∀ m, (s'.client m).dead = (s.client m).dead
  inUse : ∀ m, (s'.client m).inUse = (s.client m).inUse
  conn : ∀ m, (s'.client m).conn = (s.client m).conn
  byName : s'.byName = s.byName
  conns : s'.conns = s.conns
  allocs : s'.allocs = s.allocs
  crashed : s'.crashed = s.crashed

theorem Same.live {s' : Server} (h : Same s s') {m : Nat} : Live m s' ↔ Live m s :=
  ⟨fun ⟨h₁, h₂⟩ => ⟨(h.inUse m).symm.trans h₁, (h.dead m).symm.trans h₂⟩,
    fun ⟨h₁, h₂⟩ => ⟨(h.inUse m).trans h₁, (h.dead m).trans h₂⟩⟩

theorem Shape.same {s' : Server} (h : Shape s) (hs : Same s s') : Shape s' where
  link m r := by
    rw [hs.room, hs.link]
    exact h.link m r
  nodup := hs.room ▸ h.nodup
  size r := by
    rw [hs.room, hs.maxSeats]
    exact h.size r
  vacant := hs.room ▸ h.vacant
  lively m hm := hs.live.mpr (h.lively m (by rw [← hs.link]; exact hm))
  slot m hm := h.slot m ((hs.inUse m).symm.trans hm)
  fresh m hm := by
    rw [hs.conn, hs.conns]
    exact h.fresh m ((hs.inUse m).symm.trans hm)
  distinct m n hm hn heq := h.distinct m n ((hs.inUse m).symm.trans hm)
    ((hs.inUse n).symm.trans hn) (by rw [← hs.conn, ← hs.conn]; exact heq)
  keyed e he := hs.live.mpr (h.keyed e (hs.byName ▸ he))
  alloc r hr := by
    rw [hs.room, hs.allocs]
    exact h.alloc r (hs.room ▸ hr)
  apart := hs.room ▸ h.apart
  seats := hs.maxSeats ▸ h.seats
  pairs hp := hs.maxSeats.trans (h.pairs (hs.proto.symm.trans hp))
  sane := hs.crashed.trans h.sane

theorem Inv.same {s' : Server} (h : Inv X s) (hs : Same s s') (hqueued : s'.queued = s.queued) :
    Inv X s' where
  toShape := h.toShape.same hs
  told m hm hX := by
    have hfits := h.told m (hs.live.mp hm) hX
    rw [hs.conn, wire, hqueued]
    exact hfits.congr hs.proto (hs.link m) fun r _ => by rw [hs.room]; exact ⟨rfl, rfl⟩
  sent := by
    rw [hqueued, hs.conns, hs.allocs]
    exact h.sent
  closed e he := by
    rw [hs.room]
    exact h.closed e (hqueued ▸ he)
  final := hqueued ▸ h.final

/-- The conditions under which a frame can be queued: what it tells is true, and a
frame about a room is for a member, unless it ends the room. -/
structure Sendable (c : Nat) (alloc : Option Nat) (data : List Nat) (s : Server) : Prop where
  live : Live c s
  fits : isMembership data = true → Fits (some data) c s
  bound : ∀ k, alloc = some k → k < s.allocs
  out : ∀ k, alloc = some k → ends data = true →
    ∀ r, (s.room r).members ≠ [] → (s.room r).alloc ≠ k
  inside : ∀ k, alloc = some k → ends data = false →
    ∃ r, (s.client c).room = some r ∧ (s.room r).alloc = k

theorem staged_same (c : Nat) (alloc : Option Nat) (data : List Nat) (s : Server) :
    Same s (staged c alloc data s) :=
  ⟨rfl, rfl, rfl, fun m => by simp, fun m => by simp, fun m => by simp, fun m => by simp,
    rfl, rfl, rfl, rfl⟩

theorem wire_staged (c : Nat) (alloc : Option Nat) (data : List Nat) (s : Server) :
    wire (staged c alloc data s) = wire s ++ [((s.client c).conn, data)] := by
  show (s.queued ++ [sentTo c alloc data s]).map _ = _
  rw [List.map_append]
  rfl

theorem Inv.staged {alloc : Option Nat} {data : List Nat} (h : Inv X s)
    (hc : Sendable c alloc data s) :
    Inv (fun m => X m ∧ (isMembership data = true → m ≠ c)) (staged c alloc data s) where
  toShape := h.toShape.same (staged_same c alloc data s)
  told m hm hX := by
    have hs := staged_same c alloc data s
    have hm' := hs.live.mp hm
    rw [hs.conn, wire_staged, told_append]
    have hroom : ∀ r, (s.client m).room = some r →
        ((C.staged c alloc data s).room r).started = (s.room r).started ∧
          ((C.staged c alloc data s).room r).members = (s.room r).members :=
      fun _ _ => ⟨rfl, rfl⟩
    split
    · next hnew =>
        have hmc : c = m := h.distinct c m hc.live.inUse hm'.inUse hnew.1
        subst hmc
        exact (hc.fits hnew.2).congr rfl (hs.link c) hroom
    · next hold =>
        refine (h.told m hm' fun hXm => hX ⟨hXm, fun hmem hmc => ?_⟩).congr rfl (hs.link m) hroom
        exact hold ⟨by rw [hmc], hmem⟩
  sent e he := by
    rcases List.mem_append.mp he with he | he
    · exact h.sent e he
    · rw [List.mem_singleton.mp he]
      exact ⟨h.fresh c hc.live.inUse, hc.bound⟩
  closed e he hends k hk r hr := by
    rcases List.mem_append.mp he with he | he
    · exact h.closed e he hends k hk r hr
    · rw [List.mem_singleton.mp he] at hends hk
      exact hc.out k hk hends r hr
  final := by
    show (s.queued ++ [sentTo c alloc data s]).Pairwise _
    refine List.pairwise_append.mpr ⟨h.final, List.pairwise_singleton _ _, ?_⟩
    intro e he e' he' halloc hsome hends
    rw [List.mem_singleton.mp he'] at halloc ⊢
    obtain ⟨k, hk⟩ := Option.ne_none_iff_exists'.mp hsome
    by_contra hno
    have hno' : ends data = false := by simpa [sentTo] using hno
    obtain ⟨r, hr, hrk⟩ := hc.inside k (halloc.trans hk) hno'
    exact h.closed e he hends k hk r (List.ne_nil_of_mem ((h.link c r).mpr hr)) hrk

theorem Inv.tried {alloc : Option Nat} {data : List Nat} (h : Inv X s)
    (hc : Sendable c alloc data s) : Inv X (tried c alloc data s) := by
  unfold C.tried
  split
  · exact h.same ⟨rfl, rfl, rfl, fun _ => rfl, fun _ => rfl, fun _ => rfl, fun _ => rfl, rfl, rfl,
      rfl, rfl⟩ rfl
  · exact (h.staged hc).mono fun _ hm => hm.1

theorem tried_same (c : Nat) (alloc : Option Nat) (data : List Nat) (s : Server) :
    Same s (tried c alloc data s) := by
  unfold tried
  split
  · exact ⟨rfl, rfl, rfl, fun _ => rfl, fun _ => rfl, fun _ => rfl, fun _ => rfl, rfl, rfl, rfl,
      rfl⟩
  · exact staged_same c alloc data s

/-! ## Dropping -/

/-- The change that drops `c` and leaves `ms` of the members of its room `r` in it. -/
structure Parted (c r : Nat) (ms : List Nat) (s s' : Server) : Prop where
  proto : s'.proto = s.proto
  maxSeats : s'.maxSeats = s.maxSeats
  queued : s'.queued = s.queued
  byName : s'.byName = s.byName.filter fun e => e.2 != c
  conns : s'.conns = s.conns
  allocs : s'.allocs = s.allocs
  crashed : s'.crashed = s.crashed
  link : ∀ m, (s'.client m).room =
    if m ∈ (s.room r).members ∧ m ∉ ms then none else (s.client m).room
  dead : ∀ m, (s'.client m).dead = if m = c then true else (s.client m).dead
  inUse : ∀ m, (s'.client m).inUse = (s.client m).inUse
  conn : ∀ m, (s'.client m).conn = (s.client m).conn
  rooms : ∀ q, q ≠ r → s'.room q = s.room q
  members : (s'.room r).members = ms
  alloc : (s'.room r).alloc = (s.room r).alloc
  used : (s'.room r).used = false → ms = []

namespace Parted

variable {ms : List Nat} {s' : Server}

theorem live (h : Parted c r ms s s') {m : Nat} : Live m s' ↔ Live m s ∧ m ≠ c := by
  constructor
  · rintro ⟨h₁, h₂⟩
    rw [h.inUse] at h₁
    rw [h.dead] at h₂
    by_cases hm : m = c
    · rw [if_pos hm] at h₂
      exact absurd h₂ (by simp)
    · rw [if_neg hm] at h₂
      exact ⟨⟨h₁, h₂⟩, hm⟩
  · rintro ⟨⟨h₁, h₂⟩, hm⟩
    exact ⟨(h.inUse m).trans h₁, by rw [h.dead, if_neg hm]; exact h₂⟩

/-- Rooms in use were in use, from the same allocation. -/
theorem room_of_members (h : Parted c r ms s s') (hc : c ∈ (s.room r).members) (q : Nat)
    (hq : (s'.room q).members ≠ []) :
    (s.room q).members ≠ [] ∧ (s'.room q).alloc = (s.room q).alloc := by
  by_cases hqr : q = r
  · rw [hqr]
    exact ⟨List.ne_nil_of_mem hc, h.alloc⟩
  · rw [h.rooms q hqr] at hq ⊢
    exact ⟨hq, rfl⟩

theorem shape (h : Parted c r ms s s') (hs : Shape s) (hsub : ∀ m ∈ ms, m ∈ (s.room r).members)
    (hnodup : ms.Nodup) (hc : c ∈ (s.room r).members) (hcms : c ∉ ms)
    (hsize : ms = [] ∨ 2 ≤ ms.length) : Shape s' where
  link m q := by
    rw [h.link]
    by_cases hq : q = r
    · subst hq
      rw [h.members]
      by_cases hm : m ∈ ms
      · rw [if_neg fun h' => h'.2 hm]
        exact iff_of_true hm ((hs.link m q).mp (hsub m hm))
      · refine iff_of_false hm ?_
        split
        · simp
        · next hout =>
            intro hr
            exact hout ⟨(hs.link m q).mpr hr, hm⟩
    · rw [h.rooms q hq, hs.link]
      split
      · next hm =>
          rw [(hs.link m r).mp hm.1]
          simp [Ne.symm hq]
      · rfl
  nodup q := by
    by_cases hq : q = r
    · rw [hq, h.members]
      exact hnodup
    · rw [h.rooms q hq]
      exact hs.nodup q
  size q := by
    rw [h.maxSeats]
    by_cases hq : q = r
    · rw [hq, h.members]
      refine hsize.imp_right fun h₂ => ⟨h₂, ?_⟩
      have hle : ms.length ≤ (s.room r).members.length :=
        (List.subperm_of_subset hnodup hsub).length_le
      rcases hs.size r with h₀ | h₀
      · rw [h₀] at hc
        exact absurd hc (by simp)
      · exact hle.trans h₀.2
    · rw [h.rooms q hq]
      exact hs.size q
  vacant q hu := by
    by_cases hq : q = r
    · rw [hq] at hu ⊢
      rw [h.members]
      exact h.used hu
    · rw [h.rooms q hq] at hu ⊢
      exact hs.vacant q hu
  lively m hm := by
    rw [h.link] at hm
    split at hm
    · exact absurd rfl hm
    · next hout =>
        refine h.live.mpr ⟨hs.lively m hm, ?_⟩
        rintro rfl
        exact hout ⟨hc, hcms⟩
  slot m hm := hs.slot m ((h.inUse m).symm.trans hm)
  fresh m hm := by
    rw [h.conn, h.conns]
    exact hs.fresh m ((h.inUse m).symm.trans hm)
  distinct m n hm hn heq := hs.distinct m n ((h.inUse m).symm.trans hm)
    ((h.inUse n).symm.trans hn) (by rw [← h.conn, ← h.conn]; exact heq)
  keyed e he := by
    rw [h.byName, List.mem_filter] at he
    exact h.live.mpr ⟨hs.keyed e he.1, by simpa using he.2⟩
  alloc q hq := by
    rw [h.allocs]
    by_cases hqr : q = r
    · rw [hqr, h.alloc]
      exact hs.alloc r (List.ne_nil_of_mem hc)
    · rw [h.rooms q hqr] at hq ⊢
      exact hs.alloc q hq
  apart p q hp hq heq := by
    have hin := h.room_of_members hc
    exact hs.apart p q (hin p hp).1 (hin q hq).1 (by rw [← (hin p hp).2, ← (hin q hq).2, heq])
  seats := h.maxSeats ▸ hs.seats
  pairs hp := h.maxSeats.trans (hs.pairs (h.proto.symm.trans hp))
  sane := h.crashed.trans hs.sane

/-- Who was in the room is still to be told. -/
theorem inv (h : Parted c r ms s s') (hs : Inv X s) (hsub : ∀ m ∈ ms, m ∈ (s.room r).members)
    (hnodup : ms.Nodup) (hc : c ∈ (s.room r).members) (hcms : c ∉ ms)
    (hsize : ms = [] ∨ 2 ≤ ms.length) :
    Inv (fun m => m ≠ c ∧ (X m ∨ m ∈ (s.room r).members)) s' where
  toShape := h.shape hs.toShape hsub hnodup hc hcms hsize
  told m hm hX := by
    obtain ⟨hm', hmc⟩ := h.live.mp hm
    have hout : ¬ X m ∧ m ∉ (s.room r).members :=
      ⟨fun h' => hX ⟨hmc, Or.inl h'⟩, fun h' => hX ⟨hmc, Or.inr h'⟩⟩
    have hlink : (s'.client m).room = (s.client m).room := by
      rw [h.link, if_neg fun h' => hout.2 h'.1]
    rw [h.conn, wire, h.queued]
    refine (hs.told m hm' hout.1).congr h.proto hlink fun q hq => ?_
    have hqr : q ≠ r := by
      rintro rfl
      exact hout.2 ((hs.link m q).mpr hq)
    rw [h.rooms q hqr]
    exact ⟨rfl, rfl⟩
  sent := by
    rw [h.queued, h.conns, h.allocs]
    exact hs.sent
  closed e he hends k hk q hq := by
    obtain ⟨hq', halloc⟩ := h.room_of_members hc q hq
    rw [halloc]
    exact hs.closed e (h.queued ▸ he) hends k hk q hq'
  final := h.queued ▸ hs.final

end Parted

theorem bury_live {m : Nat} : Live m (bury c s) ↔ Live m s ∧ m ≠ c := by
  constructor
  · rintro ⟨h₁, h₂⟩
    rw [bury_client_inUse] at h₁
    rw [bury_client_dead] at h₂
    by_cases hm : m = c
    · rw [if_pos hm] at h₂
      exact absurd h₂ (by simp)
    · rw [if_neg hm] at h₂
      exact ⟨⟨h₁, h₂⟩, hm⟩
  · rintro ⟨⟨h₁, h₂⟩, hm⟩
    exact ⟨by simpa using h₁, by rw [bury_client_dead, if_neg hm]; exact h₂⟩

/-- Burying a client that is in no room. -/
theorem Shape.bury (h : Shape s) (hroom : (s.client c).room = none) : Shape (bury c s) where
  link m r := by
    rw [bury_client_room]
    exact h.link m r
  nodup := h.nodup
  size := h.size
  vacant := h.vacant
  lively m hm := by
    rw [bury_client_room] at hm
    refine bury_live.mpr ⟨h.lively m hm, ?_⟩
    rintro rfl
    exact hm hroom
  slot m hm := h.slot m (by simpa using hm)
  fresh m hm := by
    rw [bury_client_conn]
    exact h.fresh m (by simpa using hm)
  distinct m n hm hn heq := h.distinct m n (by simpa using hm) (by simpa using hn)
    (by simpa using heq)
  keyed e he := by
    obtain ⟨he, hne⟩ := List.mem_filter.mp he
    exact bury_live.mpr ⟨h.keyed e he, by simpa using hne⟩
  alloc := h.alloc
  apart := h.apart
  seats := h.seats
  pairs := h.pairs
  sane := h.sane

theorem Inv.bury (h : Inv X s) (hroom : (s.client c).room = none) :
    Inv (fun m => X m ∧ m ≠ c) (bury c s) where
  toShape := h.toShape.bury hroom
  told m hm hX := by
    obtain ⟨hm, hmc⟩ := bury_live.mp hm
    rw [bury_client_conn]
    exact (h.told m hm fun hXm => hX ⟨hXm, hmc⟩).congr rfl (bury_client_room c m s)
      fun _ _ => ⟨rfl, rfl⟩
  sent := h.sent
  closed := h.closed
  final := h.final

theorem clientFree_live {m : Nat} (hdead : (s.client c).dead = true) :
    Live m (clientFree c s) ↔ Live m s := by
  constructor
  · rintro ⟨h₁, h₂⟩
    rw [clientFree_client_inUse] at h₁
    split at h₁
    · exact absurd h₁ (by simp)
    · exact ⟨h₁, by simpa using h₂⟩
  · rintro ⟨h₁, h₂⟩
    have hmc : m ≠ c := by
      rintro rfl
      rw [hdead] at h₂
      exact absurd h₂ (by simp)
    exact ⟨by rw [clientFree_client_inUse, if_neg hmc]; exact h₁, by simpa using h₂⟩

/-- Freeing the slot of a dead client. -/
theorem Shape.clientFree (h : Shape s) (hdead : (s.client c).dead = true) :
    Shape (clientFree c s) := by
  have hin : ∀ m, ((C.clientFree c s).client m).inUse = true → (s.client m).inUse = true := by
    intro m hm
    rw [clientFree_client_inUse] at hm
    split at hm
    · exact absurd hm (by simp)
    · exact hm
  exact
    { link := fun m r => by
        rw [clientFree_client_room]
        exact h.link m r
      nodup := h.nodup
      size := h.size
      vacant := h.vacant
      lively := fun m hm => (clientFree_live hdead).mpr (h.lively m (by simpa using hm))
      slot := fun m hm => h.slot m (hin m hm)
      fresh := fun m hm => by
        rw [clientFree_client_conn]
        exact h.fresh m (hin m hm)
      distinct := fun m n hm hn heq => h.distinct m n (hin m hm) (hin n hn) (by simpa using heq)
      keyed := fun e he => (clientFree_live hdead).mpr (h.keyed e he)
      alloc := h.alloc
      apart := h.apart
      seats := h.seats
      pairs := h.pairs
      sane := h.sane }

theorem Inv.clientFree (h : Inv X s) (hdead : (s.client c).dead = true) :
    Inv X (clientFree c s) where
  toShape := h.toShape.clientFree hdead
  told m hm hX := by
    rw [clientFree_client_conn]
    exact (h.told m ((clientFree_live hdead).mp hm) hX).congr rfl
      (clientFree_client_room c m s) fun _ _ => ⟨rfl, rfl⟩
  sent := h.sent
  closed := h.closed
  final := h.final

/-- A dropped client is dead. -/
theorem dead_dropN (n c : Nat) (s : Server) : ((dropN (n + 1) c s).client c).dead = true := by
  have hst := steady_dead c
  have hbury : ((bury c s).client c).dead = true := by simp
  unfold dropN
  split
  · next h => exact h
  dsimp only
  split
  · exact hst.clientFree c _ hbury hbury
  · rw [clientFree_client_dead]
    split
    · exact hst.unpair (fun d s hs => hst.dropN n d s hs) _ _
        (hst.seat _ _ _ (hst.link _ _ (hst.expect _ _ hbury)))
    · exact hst.leave (fun d s hs => hst.dropN n d s hs) _ _ _ _
        (hst.seat _ _ _ (hst.link _ _ (hst.expect _ _ hbury)))

/-! ## Notices -/

/-- A client in no room is buried and its slot freed, and nothing else happens. -/
theorem dropN_solo {n : Nat} (hlive : (s.client c).dead = false)
    (hroom : (s.client c).room = none) : dropN (n + 1) c s = clientFree c (bury c s) := by
  unfold dropN
  simp [hlive, hroom]

/-- A send to a client in no room. -/
theorem sendRaw_solo {n : Nat} {alloc : Option Nat} {data : List Nat}
    (hroom : (s.client c).room = none) (hfuel : (s.client c).dead = false → 1 ≤ n) :
    sendRaw (dropN n) c alloc data s =
      if (s.client c).dead then s
      else if sendFails c data s then clientFree c (bury c (tried c alloc data s))
      else staged c alloc data s := by
  rw [sendRaw_eq]
  split
  · rfl
  next hdead =>
  split
  · have hsame := tried_same c alloc data s
    obtain ⟨k, rfl⟩ := Nat.exists_eq_add_of_le' (hfuel (by simpa using hdead))
    exact dropN_solo (by rw [hsame.dead]; simpa using hdead) (by rw [hsame.link]; exact hroom)
  · rfl

/-- Such a send does not read any room. -/
theorem sendRaw_solo_onRoom {n : Nat} {alloc : Option Nat} {data : List Nat}
    (hroom : (s.client c).room = none) (hfuel : (s.client c).dead = false → 1 ≤ n)
    (f : Room → Room) :
    (sendRaw (dropN n) c alloc data s).onRoom r f =
      sendRaw (dropN n) c alloc data (s.onRoom r f) := by
  have hclient : ((s.onRoom r f).client c) = s.client c := rfl
  have hfails : sendFails c data (s.onRoom r f) = sendFails c data s := rfl
  have htried : tried c alloc data (s.onRoom r f) = (tried c alloc data s).onRoom r f := by
    unfold tried
    rw [show overruns c data (s.onRoom r f) = overruns c data s from rfl]
    split <;> rfl
  rw [sendRaw_solo hroom hfuel, sendRaw_solo (by rw [hclient]; exact hroom)
    (by rw [hclient]; exact hfuel), hclient, hfails, htried]
  split_ifs <;> rfl

/-- A client that could be notified: in no room, and dead unless it is connected. -/
structure Loose (m : Nat) (s : Server) : Prop where
  room : (s.client m).room = none
  live : (s.client m).dead = false → Live m s

theorem Loose.of_same {s' : Server} {m : Nat} (h : Loose m s) (hs : Same s s') : Loose m s' :=
  ⟨(hs.link m).trans h.room, fun hd => hs.live.mpr (h.live ((hs.dead m).symm.trans hd))⟩

theorem Loose.sendRaw {n m : Nat} {alloc : Option Nat} {data : List Nat} (h : Loose m s)
    (hc : (s.client c).room = none) (hfuel : (s.client c).dead = false → 1 ≤ n) :
    Loose m (sendRaw (dropN n) c alloc data s) := by
  rw [sendRaw_solo hc hfuel]
  split_ifs
  · exact h
  · have h' := h.of_same (tried_same c alloc data s)
    have hburied : ((C.bury c (C.tried c alloc data s)).client c).dead = true := by simp
    refine ⟨by simpa using h'.room, fun hd => (clientFree_live hburied).mpr ?_⟩
    rw [clientFree_client_dead, bury_client_dead] at hd
    by_cases hmc : m = c
    · rw [if_pos hmc] at hd
      exact absurd hd (by simp)
    · rw [if_neg hmc] at hd
      exact bury_live.mpr ⟨h'.live hd, hmc⟩
  · exact h.of_same (staged_same c alloc data s)

theorem lives_pos {n : Nat} (hslot : ∀ m, (s.client m).inUse = true → m < maxClients)
    (hc : Live c s) (hfuel : (lives s).card ≤ n) : 1 ≤ n := by
  have hmem : c ∈ lives s := Finset.mem_filter.mpr
    ⟨Finset.mem_range.mpr (hslot c hc.inUse), hc.alive⟩
  exact (Finset.card_pos.mpr ⟨c, hmem⟩).trans_le hfuel

/-- The room a frame is about was there once and is vacant. -/
def Gone (alloc : Option Nat) (s : Server) : Prop :=
  ∀ k, alloc = some k → k < s.allocs ∧ ∀ r, (s.room r).members ≠ [] → (s.room r).alloc ≠ k

/-- A send to a client in no room leaves the rooms alone. -/
theorem sendRaw_solo_rooms {n : Nat} {alloc : Option Nat} {data : List Nat}
    (hroom : (s.client c).room = none) (hfuel : (s.client c).dead = false → 1 ≤ n) :
    (sendRaw (dropN n) c alloc data s).room = s.room ∧
      (sendRaw (dropN n) c alloc data s).allocs = s.allocs := by
  have htried := tried_same c alloc data s
  rw [sendRaw_solo hroom hfuel]
  split_ifs
  · exact ⟨rfl, rfl⟩
  · exact ⟨htried.room, htried.allocs⟩
  · exact ⟨rfl, rfl⟩

/-- Once notified, or dead, a client has nothing more to be told. -/
theorem Inv.notify {n : Nat} {alloc : Option Nat} {data : List Nat} (h : Inv X s)
    (hc : Loose c s) (hends : ends data = true) (hgone : Gone alloc s)
    (hfuel : (lives s).card ≤ n) :
    Inv (fun m => X m ∧ m ≠ c) (sendRaw (dropN n) c alloc data s) := by
  have hmem := isMembership_of_ends hends
  rw [sendRaw_solo hc.room (fun hlive => lives_pos h.slot (hc.live hlive) hfuel)]
  split
  · next hdead =>
      refine { h with told := fun m hm hX => h.told m hm fun hXm => hX ⟨hXm, ?_⟩ }
      rintro rfl
      rw [hm.alive] at hdead
      exact absurd hdead (by simp)
  next hdead =>
  have hsend : Sendable c alloc data s :=
    ⟨hc.live (by simpa using hdead), fun _ => Fits.of_ends hends hc.room,
      fun k hk => (hgone k hk).1, fun k hk _ => (hgone k hk).2, fun k _ hno => by rw [hends] at hno; exact absurd hno (by simp)⟩
  split
  · have hroom := (tried_same c alloc data s).link c
    exact ((h.tried hsend).bury (hroom.trans hc.room)).clientFree (by simp)
  · exact (h.staged hsend).mono fun m hm => ⟨hm.1, hm.2 hmem⟩

/-- A loop over clients in no room. -/
theorem Inv.notifyAll {n : Nat} {alloc : Option Nat} {data : List Nat} (cs : List Nat)
    (h : Inv X s) (hcs : ∀ m ∈ cs, Loose m s) (hends : ends data = true)
    (hgone : Gone alloc s) (hfuel : (lives s).card ≤ n) :
    Inv (fun m => X m ∧ m ∉ cs) (notifyAll (dropN n) cs alloc data s) := by
  induction cs generalizing s X with
  | nil => exact h.mono fun m hm => ⟨hm, by simp⟩
  | cons c cs ih =>
      have hc := hcs c (by simp)
      have hpos : (s.client c).dead = false → 1 ≤ n := fun hlive =>
        lives_pos h.slot (hc.live hlive) hfuel
      have hrooms := @sendRaw_solo_rooms _ _ _ alloc data hc.room hpos
      have hnext := ih (h.notify hc hends hgone hfuel)
        (fun m hm => (hcs m (List.mem_cons_of_mem _ hm)).sendRaw hc.room hpos)
        (fun k hk => by rw [hrooms.1, hrooms.2]; exact hgone k hk)
        ((lives_mono fun m hm => (steady_dead m).sendRaw
          (fun c s hs => (steady_dead m).dropN n c s hs) c alloc data s hm).trans hfuel)
      refine hnext.mono fun m hm => ⟨hm.1.1, fun hmem => ?_⟩
      rcases List.mem_cons.mp hmem with rfl | hmem
      · exact hm.1.2 rfl
      · exact hm.2 hmem

theorem notifyAll_onRoom {n : Nat} {alloc : Option Nat} {data : List Nat} (cs : List Nat)
    (hcs : ∀ m ∈ cs, Loose m s) (hfuel : ∀ m ∈ cs, (s.client m).dead = false → 1 ≤ n)
    (f : Room → Room) :
    (notifyAll (dropN n) cs alloc data s).onRoom r f =
      notifyAll (dropN n) cs alloc data (s.onRoom r f) := by
  induction cs generalizing s with
  | nil => rfl
  | cons c cs ih =>
      have hc := (hcs c (by simp)).room
      have hc₁ := hfuel c (by simp)
      have hnext := ih (s := sendRaw (dropN n) c alloc data s)
        (fun m hm => (hcs m (List.mem_cons_of_mem _ hm)).sendRaw hc hc₁) fun m hm hlive => by
          refine hfuel m (List.mem_cons_of_mem _ hm) ?_
          cases hdead : (s.client m).dead with
          | false => rfl
          | true =>
              have hst := steady_dead m
              have := hst.sendRaw (fun c s hs => hst.dropN n c s hs) c alloc data s hdead
              rw [this] at hlive
              exact absurd hlive (by simp)
      have hstep : ∀ s', notifyAll (dropN n) (c :: cs) alloc data s' =
          notifyAll (dropN n) cs alloc data (sendRaw (dropN n) c alloc data s') := fun _ => rfl
      rw [hstep, hstep, hnext, sendRaw_solo_onRoom hc hc₁]

/-! ## Broadcasts -/

/-- Dropping a client, with what it or its room-mates are still to be told, leaves
nothing untold, if no loop went wrong. -/
def DropSound (n : Nat) : Prop :=
  ∀ (s : Server) (c : Nat) (X : Nat → Prop), Inv X s →
    (∀ m, X m → m = c ∨ ∃ r, (s.client c).room = some r ∧ m ∈ (s.room r).members) →
    Live c s → (lives s).card ≤ n → (dropN n c s).torn = false →
    Inv (fun _ => False) (dropN n c s)

theorem tear_false (s : Server) : { s with torn := s.torn || false } = s := by
  simp

theorem sendEach_cons {d : Nat → Server → Server} {alloc : Option Nat} {data : Nat → List Nat}
    (i : Nat) (failed : Bool) (m : Nat) (rest : List Nat) (s : Server) :
    sendEach d alloc data i failed (m :: rest) s =
      sendEach d alloc data (i + 1)
        (failed || (!(s.client m).dead && ((sendRaw d m alloc (data i)
          { s with torn := s.torn || (failed && !(s.client m).dead) }).client m).dead)) rest
        (sendRaw d m alloc (data i)
          { s with torn := s.torn || (failed && !(s.client m).dead) }) := rfl

theorem torn_of_sendEach {n i : Nat} {failed : Bool} {alloc : Option Nat} {data : Nat → List Nat}
    {mm : List Nat} (h : (sendEach (dropN n) alloc data i failed mm s).torn = false) :
    s.torn = false := by
  cases ht : s.torn with
  | false => rfl
  | true =>
      have hst := lasting_torn.toSteady
      rw [hst.sendEach (fun c s hs => hst.dropN n c s hs) alloc data mm i failed s ht] at h
      exact absurd h (by simp)

/-- If nothing goes wrong, only dead clients follow a failed send. -/
theorem sendEach_failed {n i : Nat} {alloc : Option Nat} {data : Nat → List Nat}
    (mm : List Nat) (htorn : (sendEach (dropN n) alloc data i true mm s).torn = false) :
    sendEach (dropN n) alloc data i true mm s = s := by
  induction mm generalizing i s with
  | nil => rfl
  | cons m rest ih =>
      rw [sendEach_cons] at htorn ⊢
      by_cases hdead : (s.client m).dead = true
      · have hsame : sendRaw (dropN n) m alloc (data i)
            { s with torn := s.torn || (true && !(s.client m).dead) } = s := by
          rw [hdead, Bool.not_true, Bool.and_false, tear_false, sendRaw_eq, if_pos hdead]
        rw [hsame, Bool.true_or] at htorn ⊢
        exact ih htorn
      · have h₁ := torn_of_sendEach htorn
        have hst := lasting_torn.toSteady
        rw [hst.sendRaw (fun c s hs => hst.dropN n c s hs) m alloc _ _ (by simp [hdead])] at h₁
        exact absurd h₁ (by simp)

/-- A loop over members of a room. What is still to be told is told by it. -/
theorem sendEach_inv {n : Nat} (hd : DropSound n) {data : Nat → List Nat} (mm : List Nat)
    {i : Nat} (h : Inv X s) (hmm : ∀ m ∈ mm, (s.client m).room = some r)
    (hfuel : (lives s).card ≤ n)
    (hX : ∀ m, X m → m ∈ mm ∧ ∀ j, isMembership (data j) = true)
    (hfits : ∀ j, ∀ m ∈ mm, isMembership (data j) = true → Fits (some (data j)) m s)
    (hends : ∀ j, ends (data j) = false)
    (htorn : (sendEach (dropN n) (allocOf r s) data i false mm s).torn = false) :
    Inv (fun _ => False) (sendEach (dropN n) (allocOf r s) data i false mm s) := by
  induction mm generalizing i s X with
  | nil => exact h.mono fun m hm => absurd (hX m hm).1 (by simp)
  | cons m rest ih =>
      have hroom := hmm m (by simp)
      have hlive := h.lively m (by rw [hroom]; simp)
      have hne : (s.room r).members ≠ [] := List.ne_nil_of_mem ((h.link m r).mpr hroom)
      have hsend : Sendable m (allocOf r s) (data i) s :=
        ⟨hlive, fun hmem => hfits i m (by simp) hmem,
          fun k hk => by rw [← Option.some.inj hk]; exact h.alloc r hne,
          fun _ _ hyes => by rw [hends] at hyes; exact absurd hyes (by simp),
          fun k hk _ => ⟨r, hroom, Option.some.inj hk⟩⟩
      rw [sendEach_cons, Bool.false_and, tear_false, Bool.false_or, hlive.alive, Bool.not_false,
        Bool.true_and] at htorn ⊢
      rw [sendRaw_eq, if_neg (by rw [hlive.alive]; simp)] at htorn ⊢
      by_cases hfails : sendFails m (data i) s = true
      · rw [if_pos hfails] at htorn ⊢
        have hsame := tried_same m (allocOf r s) (data i) s
        have hlive' : Live m (tried m (allocOf r s) (data i) s) := hsame.live.mpr hlive
        have hfuel' : (lives (tried m (allocOf r s) (data i) s)).card ≤ n :=
          (lives_mono fun q hq => (hsame.dead q).trans hq).trans hfuel
        have hX' : ∀ q, X q → q = m ∨ ∃ p,
            ((tried m (allocOf r s) (data i) s).client m).room = some p ∧
              q ∈ ((tried m (allocOf r s) (data i) s).room p).members := by
          intro q hq
          refine Or.inr ⟨r, (hsame.link m).trans hroom, ?_⟩
          rw [hsame.room]
          exact (h.link q r).mpr (hmm q (hX q hq).1)
        have hdrop := hd _ m X (h.tried hsend) hX' hlive' hfuel' (torn_of_sendEach htorn)
        have hpos : 1 ≤ n := lives_pos h.slot hlive hfuel
        obtain ⟨k, rfl⟩ := Nat.exists_eq_add_of_le' hpos
        rw [dead_dropN] at htorn ⊢
        rw [sendEach_failed rest htorn]
        exact hdrop
      · rw [if_neg hfails, staged_client_dead, hlive.alive] at htorn ⊢
        have hsame := staged_same m (allocOf r s) (data i) s
        refine ih (h.staged hsend) (fun q hq => ?_) ?_ (fun q hq => ?_) (fun j q hq hmem => ?_)
          htorn
        · rw [hsame.link]
          exact hmm q (List.mem_cons_of_mem _ hq)
        · exact (lives_mono fun q hq => (hsame.dead q).trans hq).trans hfuel
        · have hmem := (hX q hq.1).2
          refine ⟨?_, hmem⟩
          rcases List.mem_cons.mp (hX q hq.1).1 with rfl | hrest
          · exact absurd rfl (hq.2 (hmem i))
          · exact hrest
        · exact (hfits j q (List.mem_cons_of_mem _ hq) hmem).congr rfl (hsame.link q)
            fun _ _ => ⟨rfl, rfl⟩

end SharkNetplay.Relay.C
