import SharkNetplay.Relay.CDrop

/-!
# What clients of the C relay were last told

Every handler and every event keeps the invariant, unless a loop over a copied
member list goes on to a live client after one of its sends has failed.
-/

namespace SharkNetplay.Relay.C

open Server

variable {s : Server} {X : Nat → Prop} {c r : Nat}

/-- The invariant between handlers: nothing is left untold. -/
abbrev Sound (s : Server) : Prop := Inv (fun _ => False) s

theorem untorn {s s' : Server} (hkeep : s.torn = true → s'.torn = true)
    (h : s'.torn = false) : s.torn = false := by
  cases ht : s.torn with
  | false => rfl
  | true =>
      rw [hkeep ht] at h
      exact absurd h (by simp)

theorem lasting_proto (p : Proto) : Lasting fun s => s.proto = p where
  bury _ _ h := h
  staged _ _ _ _ _ h := h
  overran _ _ h := h
  tear _ _ h := h
  link _ _ h := h
  seat _ _ _ h := h
  vacate _ _ h := h
  clientFree _ _ _ h := h
  expect p s h := by
    unfold expect
    split <;> exact h
  setName _ _ _ h := h
  byName _ _ h := h
  seeds _ _ h := h
  start _ _ _ h := h
  opened _ _ _ _ h := h
  linked _ _ _ h := h

/-- No handler touches a receive buffer. -/
theorem lasting_rx (c : Nat) (rx : List Nat) : Lasting fun s => (s.client c).rx = rx where
  bury d s h := (onClient_proj Client.rx rfl c).trans h
  staged d a f s _ h := (onClient_proj Client.rx rfl c).trans h
  overran _ _ h := h
  tear _ _ h := h
  link d s h := (onClient_proj Client.rx rfl c).trans h
  seat _ _ _ h := h
  vacate _ _ h := h
  clientFree d s _ h := (onClient_proj Client.rx rfl c).trans h
  expect p s h := by
    unfold expect
    split <;> exact h
  setName d name s h := (onClient_proj Client.rx rfl c).trans h
  byName _ _ h := h
  seeds _ _ h := h
  start _ _ _ h := h
  opened _ _ _ _ h := h
  linked d r s h := (onClient_proj Client.rx rfl c).trans h

theorem dropN_dead {n : Nat} (hdead : (s.client c).dead = true) : dropN n c s = s := by
  cases n with
  | zero => simp [dropN, hdead, expect]
  | succ n => simp [dropN, hdead]

theorem drop_sound (h : Sound s) (hc : (s.client c).dead = false → Live c s)
    (htorn : (drop c s).torn = false) : Sound (drop c s) := by
  cases hdead : (s.client c).dead with
  | true =>
      unfold drop
      rw [dropN_dead hdead]
      exact h
  | false =>
      exact dropN_sound maxClients s c _ h (fun _ hm => hm.elim) (hc hdead) (lives_le s) htorn

/-- A frame about no room and no membership. -/
theorem sendRaw_sound {data : List Nat} (h : Sound s) (hc : Live c s)
    (hdata : isMembership data = false) (htorn : (sendRaw drop c none data s).torn = false) :
    Sound (sendRaw drop c none data s) := by
  have hsend : Sendable c none data s :=
    ⟨hc, fun hmem => by rw [hdata] at hmem; exact absurd hmem (by simp),
      fun k hk => absurd hk (by simp), fun k hk => absurd hk (by simp),
      fun k hk => absurd hk (by simp)⟩
  rw [sendRaw_eq, if_neg (by simp [hc.alive])] at htorn ⊢
  split_ifs at htorn ⊢
  · exact drop_sound (h.tried hsend) (fun _ => (tried_same c none data s).live.mpr hc) htorn
  · exact (h.staged hsend).mono fun _ hm => hm.1

theorem onList_sound (h : Sound s) (hc : Live c s) (htorn : (onList c s).torn = false) :
    Sound (onList c s) := sendRaw_sound h hc (by simp [isMembership, frameBuild]) htorn

/-! ## HELLO -/

theorem Shape.withNames (h : Shape s) {d : List (Name × Nat)} (hd : ∀ e ∈ d, Live e.2 s) :
    Shape { s with byName := d } :=
  { h with
    lively := fun m hm => ⟨(h.lively m hm).inUse, (h.lively m hm).alive⟩
    keyed := fun e he => ⟨(hd e he).inUse, (hd e he).alive⟩ }

theorem Inv.withNames (h : Inv X s) {d : List (Name × Nat)} (hd : ∀ e ∈ d, Live e.2 s) :
    Inv X { s with byName := d } :=
  { h with
    toShape := h.toShape.withNames hd
    told := fun m hm hX =>
      (h.told m ⟨hm.inUse, hm.alive⟩ hX).congr rfl rfl fun _ _ => ⟨rfl, rfl⟩ }

theorem rename_sound {name : Name} (h : Sound s) (hc : Live c s)
    (htorn : (rename c name s).torn = false) : Sound (rename c name s) := by
  unfold rename
  extract_lets prev s₁
  have h₁ : Sound s₁ ∧ s₁.client = s.client := by
    simp only [s₁]
    split
    · exact ⟨h.withNames fun e he => h.keyed e (List.mem_of_mem_eraseP he), rfl⟩
    · exact ⟨h, rfl⟩
  have hlive₁ : ∀ {m}, Live m s → Live m s₁ := fun hm =>
    ⟨by rw [h₁.2]; exact hm.inUse, by rw [h₁.2]; exact hm.alive⟩
  have hs₂ : Same s₁ (s₁.setName c name) :=
    ⟨rfl, rfl, rfl, fun _ => by simp, fun _ => by simp, fun _ => by simp, fun _ => by simp,
      rfl, rfl, rfl, rfl⟩
  have h₂ : Sound (s₁.setName c name) := h₁.1.same hs₂ rfl
  have hlive₂ : Live c (s₁.setName c name) := hs₂.live.mpr (hlive₁ hc)
  have h₃ : Sound (nameSet name c (s₁.setName c name)) ∧
      Live c (nameSet name c (s₁.setName c name)) := by
    unfold nameSet
    split
    · exact ⟨h₂, hlive₂⟩
    · refine ⟨h₂.withNames fun e he => ?_, ⟨hlive₂.inUse, hlive₂.alive⟩⟩
      rcases Lib.Dict.mem_assign he with rfl | he
      · exact hlive₂
      · exact h₂.keyed e he.1
  exact onList_sound h₃.1 h₃.2 htorn

theorem onHello_sound (h : Sound s) (hc : Live c s) (payload : List Nat)
    (htorn : (onHello c payload s).torn = false) : Sound (onHello c payload s) := by
  unfold onHello register at htorn ⊢
  split at htorn
  · exact drop_sound h (fun _ => hc) htorn
  split at htorn
  · exact rename_sound h hc htorn
  next old hold =>
  split at htorn
  · next heq =>
      rw [if_pos heq]
      exact rename_sound h hc htorn
  next hne =>
  rw [if_neg hne]
  have hold' := h.keyed _ (Lib.Dict.mem_of_get hold)
  dsimp only at htorn ⊢
  split at htorn
  next hdead =>
    rw [if_pos hdead]
    exact drop_sound h (fun _ => hold') htorn
  next halive =>
    rw [if_neg halive]
    have htorn' := untorn (lasting_torn.handled.rename c _ _) htorn
    have hlive : Live c (drop old s) := by
      rcases (lasting_connected c).drop old s (Or.inl hc.inUse) with hin | hdead
      · exact ⟨hin, by simpa using halive⟩
      · exact absurd hdead halive
    exact rename_sound (drop_sound h (fun _ => hold') htorn') hlive htorn

/-! ## Rooms -/

theorem Shape.start (h : Shape s) (r seed : Nat) : Shape (s.start r seed) where
  link m q := by
    rw [start_members]
    exact h.link m q
  nodup q := by
    rw [start_members]
    exact h.nodup q
  size q := by
    rw [start_members]
    exact h.size q
  vacant q hq := by
    rw [start_members]
    exact h.vacant q (by simpa using hq)
  lively m hm := ⟨(h.lively m hm).inUse, (h.lively m hm).alive⟩
  slot := h.slot
  fresh := h.fresh
  distinct := h.distinct
  keyed e he := ⟨(h.keyed e he).inUse, (h.keyed e he).alive⟩
  alloc q hq := by
    rw [start_alloc]
    exact h.alloc q (by simpa using hq)
  apart p q hp hq heq := h.apart p q (by simpa using hp) (by simpa using hq) (by simpa using heq)
  seats := h.seats
  pairs := h.pairs
  sane := h.sane

/-- Starting a room, its members are to be told. -/
theorem Inv.start (h : Inv X s) (r seed : Nat) :
    Inv (fun m => X m ∨ m ∈ (s.room r).members) (s.start r seed) where
  toShape := h.toShape.start r seed
  told m hm hX := by
    refine (h.told m ⟨hm.inUse, hm.alive⟩ fun h' => hX (Or.inl h')).congr rfl rfl fun q hq => ?_
    have hne : q ≠ r := by
      rintro rfl
      exact hX (Or.inr ((h.link m q).mpr hq))
    simp [hne]
  sent := h.sent
  closed e he hends k hk q hq := by
    rw [start_alloc]
    exact h.closed e he hends k hk q (by simpa using hq)
  final := h.final

theorem Inv.withSeeds (h : Inv X s) (seeds : List Seed) : Inv X { s with seeds := seeds } :=
  h.same ⟨rfl, rfl, rfl, fun _ => rfl, fun _ => rfl, fun _ => rfl, fun _ => rfl, rfl, rfl, rfl,
    rfl⟩ rfl

theorem startRoom_sound (h : Sound s) (hproto : s.proto = .v2)
    (htorn : (startRoom r s).torn = false) : Sound (startRoom r s) := by
  unfold startRoom
  extract_lets nm seed s₁ common
  have h₁ : Inv (fun m => m ∈ (s.room r).members) s₁ :=
    ((h.withSeeds s.seeds.tail).start r seed).mono fun m hm => hm.resolve_left id
  have hmembers : (s₁.room r).members = (s.room r).members := start_members r _ r seed
  have hnm : (s₁.room r).members ≠ [] → nm % 256 = (s₁.room r).members.length := by
    intro hne
    rw [hmembers] at hne ⊢
    have hseats := h.seats.2
    rcases h.size r with hnil | hsize
    · exact absurd hnil hne
    · exact Nat.mod_eq_of_lt (by simp only [nm]; omega)
  refine sendEach_inv (dropN_sound maxClients) _ h₁ (fun m hm => (h₁.link m r).mp hm) (lives_le s₁)
    (fun m hm => ⟨by rw [hmembers]; exact hm, fun _ => rfl⟩) (fun j m hm _ => ?_) (fun _ => ?_) htorn
  · simp only [Fits, frameBuild, List.getD_cons_succ, List.getD_cons_zero, if_true]
    refine ⟨r, (h₁.link m r).mp hm, by simp [s₁], ?_⟩
    have hproto₁ : s₁.proto = .v2 := hproto
    rw [hproto₁]
    exact (hnm (List.ne_nil_of_mem hm)).symm
  · simp [ends, frameBuild]

/-- The change that makes `ms` the members of room `r`, which was theirs as far as
they had one, or vacant. -/
structure Joined (r : Nat) (ms : List Nat) (s s' : Server) : Prop where
  proto : s'.proto = s.proto
  maxSeats : s'.maxSeats = s.maxSeats
  queued : s'.queued = s.queued
  byName : s'.byName = s.byName
  conns : s'.conns = s.conns
  allocs : s.allocs ≤ s'.allocs
  crashed : s'.crashed = s.crashed
  link : ∀ m, (s'.client m).room = if m ∈ ms then some r else (s.client m).room
  dead : ∀ m, (s'.client m).dead = (s.client m).dead
  inUse : ∀ m, (s'.client m).inUse = (s.client m).inUse
  conn : ∀ m, (s'.client m).conn = (s.client m).conn
  rooms : ∀ q, q ≠ r → s'.room q = s.room q
  members : (s'.room r).members = ms
  used : (s'.room r).used = true
  alloc : ((s.room r).members ≠ [] ∧ (s'.room r).alloc = (s.room r).alloc) ∨
    ((s'.room r).alloc = s.allocs ∧ s.allocs < s'.allocs)

namespace Joined

variable {ms : List Nat} {s' : Server}

theorem live (h : Joined r ms s s') {m : Nat} : Live m s' ↔ Live m s :=
  ⟨fun ⟨h₁, h₂⟩ => ⟨(h.inUse m).symm.trans h₁, (h.dead m).symm.trans h₂⟩,
    fun ⟨h₁, h₂⟩ => ⟨(h.inUse m).trans h₁, (h.dead m).trans h₂⟩⟩

/-- A room in use now is an old one, or the new one. -/
theorem alloc_or (h : Joined r ms s s') (q : Nat) (hq : (s'.room q).members ≠ []) :
    ((s.room q).members ≠ [] ∧ (s'.room q).alloc = (s.room q).alloc) ∨
      (q = r ∧ (s'.room q).alloc = s.allocs ∧ s.allocs < s'.allocs) := by
  by_cases hqr : q = r
  · subst hqr
    exact h.alloc.imp_right fun h' => ⟨rfl, h'⟩
  · rw [h.rooms q hqr] at hq ⊢
    exact Or.inl ⟨hq, rfl⟩

theorem shape (h : Joined r ms s s') (hs : Shape s) (hsub : ∀ m ∈ (s.room r).members, m ∈ ms)
    (hnodup : ms.Nodup) (hsize : 2 ≤ ms.length ∧ ms.length ≤ s.maxSeats)
    (hlive : ∀ m ∈ ms, Live m s)
    (hnew : ∀ m ∈ ms, m ∈ (s.room r).members ∨ (s.client m).room = none) : Shape s' where
  link m q := by
    rw [h.link]
    by_cases hq : q = r
    · subst hq
      rw [h.members]
      by_cases hm : m ∈ ms
      · rw [if_pos hm]
        exact iff_of_true hm rfl
      · rw [if_neg hm]
        exact iff_of_false hm fun hr => hm (hsub m ((hs.link m q).mpr hr))
    · rw [h.rooms q hq, hs.link]
      by_cases hm : m ∈ ms
      · rw [if_pos hm]
        refine iff_of_false (fun hr => ?_) (by simpa using Ne.symm hq)
        rcases hnew m hm with hin | hnone
        · rw [(hs.link m r).mp hin, Option.some.injEq] at hr
          exact hq hr.symm
        · rw [hnone] at hr
          exact absurd hr (by simp)
      · rw [if_neg hm]
  nodup q := by
    by_cases hq : q = r
    · rw [hq, h.members]
      exact hnodup
    · rw [h.rooms q hq]
      exact hs.nodup q
  size q := by
    rw [h.maxSeats]
    by_cases hq : q = r
    · rw [hq, h.members]
      exact Or.inr hsize
    · rw [h.rooms q hq]
      exact hs.size q
  vacant q hu := by
    by_cases hq : q = r
    · rw [hq, h.used] at hu
      exact absurd hu (by simp)
    · rw [h.rooms q hq] at hu ⊢
      exact hs.vacant q hu
  lively m hm := by
    rw [h.link] at hm
    split at hm
    · next hin => exact h.live.mpr (hlive m hin)
    · exact h.live.mpr (hs.lively m hm)
  slot m hm := hs.slot m ((h.inUse m).symm.trans hm)
  fresh m hm := by
    rw [h.conn, h.conns]
    exact hs.fresh m ((h.inUse m).symm.trans hm)
  distinct m n hm hn heq := hs.distinct m n ((h.inUse m).symm.trans hm)
    ((h.inUse n).symm.trans hn) (by rw [← h.conn, ← h.conn]; exact heq)
  keyed e he := h.live.mpr (hs.keyed e (h.byName ▸ he))
  alloc q hq := by
    rcases h.alloc_or q hq with ⟨hq', heq⟩ | ⟨-, heq, hlt⟩
    · rw [heq]
      exact (hs.alloc q hq').trans_le h.allocs
    · rw [heq]
      exact hlt
  apart p q hp hq heq := by
    rcases h.alloc_or p hp with ⟨hp', hpa⟩ | ⟨hpr, hpa, -⟩
    · rcases h.alloc_or q hq with ⟨hq', hqa⟩ | ⟨hqr, hqa, -⟩
      · exact hs.apart p q hp' hq' (by rw [← hpa, ← hqa, heq])
      · have := hs.alloc p hp'
        omega
    · rcases h.alloc_or q hq with ⟨hq', hqa⟩ | ⟨hqr, hqa, -⟩
      · have := hs.alloc q hq'
        omega
      · rw [hpr, hqr]
  seats := h.maxSeats ▸ hs.seats
  pairs hp := h.maxSeats.trans (hs.pairs (h.proto.symm.trans hp))
  sane := h.crashed.trans hs.sane

theorem inv (h : Joined r ms s s') (hs : Inv X s) (hsub : ∀ m ∈ (s.room r).members, m ∈ ms)
    (hnodup : ms.Nodup) (hsize : 2 ≤ ms.length ∧ ms.length ≤ s.maxSeats)
    (hlive : ∀ m ∈ ms, Live m s)
    (hnew : ∀ m ∈ ms, m ∈ (s.room r).members ∨ (s.client m).room = none) :
    Inv (fun m => X m ∨ m ∈ ms) s' where
  toShape := h.shape hs.toShape hsub hnodup hsize hlive hnew
  told m hm hX := by
    have hout : ¬ X m ∧ m ∉ ms := ⟨fun h' => hX (Or.inl h'), fun h' => hX (Or.inr h')⟩
    rw [h.conn, wire, h.queued]
    refine (hs.told m (h.live.mp hm) hout.1).congr h.proto (by rw [h.link, if_neg hout.2])
      fun q hq => ?_
    have hqr : q ≠ r := by
      rintro rfl
      exact hout.2 (hsub m ((hs.link m q).mpr hq))
    rw [h.rooms q hqr]
    exact ⟨rfl, rfl⟩
  sent e he := by
    rw [h.queued] at he
    rw [h.conns]
    exact ⟨(hs.sent e he).1, fun k hk => ((hs.sent e he).2 k hk).trans_le h.allocs⟩
  closed e he hends k hk q hq := by
    rw [h.queued] at he
    rcases h.alloc_or q hq with ⟨hq', heq⟩ | ⟨-, heq, -⟩
    · rw [heq]
      exact hs.closed e he hends k hk q hq'
    · have := (hs.sent e he).2 k hk
      omega
  final := h.queued ▸ hs.final

end Joined

theorem roomAlloc_eq {host : Nat} {s₁ : Server} (h : roomAlloc host s = some (r, s₁)) :
    (s.room r).used = false ∧ s₁ = { s with allocs := s.allocs + 1 }.onRoom r fun _ =>
      { used := true, members := [host], alloc := s.allocs } := by
  obtain ⟨i, hi, heq⟩ := Option.map_eq_some_iff.mp h
  obtain ⟨rfl, rfl⟩ := Prod.mk.inj heq
  have hfree := List.find?_some hi
  exact ⟨by simpa using hfree, rfl⟩

/-- Two clients in room `r`. -/
def paired (host guest r : Nat) (s : Server) : Server :=
  ((s.link host (some r)).link guest (some r)).seat r [host, guest]

/-- Two clients in a newly allocated room. -/
theorem paired_joined {host guest : Nat} {s₁ : Server}
    (halloc : roomAlloc host s = some (r, s₁)) :
    Joined r [host, guest] s (paired host guest r s₁) := by
  obtain ⟨-, rfl⟩ := roomAlloc_eq halloc
  exact
    { proto := rfl
      maxSeats := rfl
      queued := rfl
      byName := rfl
      conns := rfl
      allocs := Nat.le_succ _
      crashed := rfl
      link := fun m => by
        simp only [paired, seat_client, link_client_room, client_onRoom]
        by_cases h₁ : m = guest
        · simp [h₁]
        · by_cases h₂ : m = host
          · simp [h₂]
          · simp [h₁, h₂]
      dead := fun m => by simp [paired]
      inUse := fun m => by simp [paired]
      conn := fun m => by simp [paired]
      rooms := fun q hq => by
        simp only [paired, seat, room_onRoom, link_room, if_neg hq]
      members := by simp [paired]
      used := by simp [paired]
      alloc := Or.inr ⟨by simp [paired], Nat.lt_succ_self _⟩ }

/-- A client enters a room in use. -/
theorem entered_joined (hs : Shape s) (hne : (s.room r).members ≠ []) :
    Joined r ((s.room r).members ++ [c]) s
      ((s.seat r ((s.room r).members ++ [c])).link c (some r)) where
  proto := rfl
  maxSeats := rfl
  queued := rfl
  byName := rfl
  conns := rfl
  allocs := Nat.le_refl _
  crashed := rfl
  link m := by
    rw [link_client_room, seat_client]
    by_cases h₁ : m = c
    · simp [h₁]
    · by_cases h₂ : m ∈ (s.room r).members
      · simp [h₁, h₂, (hs.link m r).mp h₂]
      · simp [h₁, h₂]
  dead m := by simp
  inUse m := by simp
  conn m := by simp
  rooms q hq := by simp only [link_room, seat, room_onRoom, if_neg hq]
  members := by simp
  used := by
    cases hu : (s.room r).used with
    | true => simpa using hu
    | false => exact absurd (hs.vacant r hu) hne
  alloc := Or.inl ⟨hne, by simp⟩

/-! ## JOIN -/

theorem startPair_sound {host guest : Nat} (h : Sound s) (hne : host ≠ guest)
    (hhost : Live host s) (hguest : Live guest s) (hrh : (s.client host).room = none)
    (hrg : (s.client guest).room = none) (hproto : s.proto = .v1)
    (htorn : (startPair host guest s).torn = false) : Sound (startPair host guest s) := by
  unfold startPair at htorn ⊢
  dsimp only at htorn ⊢
  have h₀ := h.withSeeds s.seeds.tail
  split at htorn
  next => exact onList_sound h₀ ⟨hguest.inUse, hguest.alive⟩ htorn
  next r s₁ halloc =>
  have hvacant : (s.room r).members = [] := h.vacant r (roomAlloc_eq halloc).1
  have hmax := h.pairs hproto
  have hjoin := @paired_joined _ _ _ guest _ halloc
  have hpair : Inv (fun m => m ∈ [host, guest]) (paired host guest r s₁) := by
    refine (hjoin.inv h₀ (fun m hm => ?_) ?_ ?_ (fun m hm => ?_) fun m hm => ?_).mono
      fun m hm => hm.resolve_left id
    · have hm' : m ∈ (s.room r).members := hm
      rw [hvacant] at hm'
      exact absurd hm' (by simp)
    · simpa using hne
    · exact ⟨Nat.le_refl _, hmax.ge⟩
    · rcases List.mem_pair.mp hm with rfl | rfl
      · exact ⟨hhost.inUse, hhost.alive⟩
      · exact ⟨hguest.inUse, hguest.alive⟩
    · rcases List.mem_pair.mp hm with rfl | rfl
      · exact Or.inr hrh
      · exact Or.inr hrg
  have hmembers : ∀ seed, (((paired host guest r s₁).start r seed).room r).members =
      [host, guest] := fun seed => (start_members r _ r seed).trans hjoin.members
  have hstart : ∀ seed, Inv (fun m => m ∈ [host, guest])
      ((paired host guest r s₁).start r seed) := fun seed =>
    (hpair.start r seed).mono fun m hm => hm.elim id fun hm' => by
      rw [hjoin.members] at hm'
      exact hm'
  have hstart := hstart (s.seeds.headD default).val
  have hmembers := hmembers (s.seeds.headD default).val
  refine sendEach_inv (dropN_sound maxClients) [host, guest] hstart (fun m hm => ?_) (lives_le _)
    (fun m hm => ⟨hm, fun _ => rfl⟩) (fun j m hm _ => ?_) (fun _ => ?_) htorn
  · exact (hstart.link m r).mp (by rw [hmembers]; exact hm)
  · simp only [Fits, frameBuild, List.getD_cons_succ, List.getD_cons_zero, if_true]
    refine ⟨r, (hstart.link m r).mp (by rw [hmembers]; exact hm), by simp, ?_⟩
    have hproto₁ : ((paired host guest r s₁).start r (s.seeds.headD default).val).proto = .v1 :=
      hjoin.proto.trans hproto
    exact (congrArg List.length hmembers).trans
      (congrArg (fun p => startCount p _) hproto₁).symm
  · simp [ends, frameBuild]

theorem enter_sound {target : Nat} (h : Sound s) (hc : Live c s) (ht : Live target s)
    (hroom : (s.client c).room = none) (hjoin : unjoinable c target s = false)
    (hproto : s.proto = .v2) (htorn : (enter c target s).torn = false) :
    Sound (enter c target s) := by
  have hne : target ≠ c := by
    rintro rfl
    simp [unjoinable] at hjoin
  -- what follows once the client is in a forming room
  have hrest : ∀ (s₁ : Server) (q : Nat) (ms : List Nat), Inv (fun m => m ∈ ms) s₁ →
      (s₁.room q).members = ms → (s₁.room q).started = false → s₁.proto = .v2 →
      ∀ s₂, s₂ = roomBroadcast drop q s₁ →
      (if s₂.autoGo ≠ 0 ∧ s₂.autoGo ≤ (s₂.room q).members.length then startRoom q s₂
        else s₂).torn = false →
      Sound (if s₂.autoGo ≠ 0 ∧ s₂.autoGo ≤ (s₂.room q).members.length then startRoom q s₂
        else s₂) := by
    rintro s₁ q ms h₁ hms hforming hproto₁ s₂ rfl htorn₂
    have hbroad : ∀ ht : (roomBroadcast drop q s₁).torn = false,
        Sound (roomBroadcast drop q s₁) := fun ht =>
      roomBroadcast_inv (dropN_sound maxClients) h₁ (fun m hm => by rw [hms]; exact hm) hforming
        (lives_le s₁) ht
    split at htorn₂
    next hgo =>
      rw [if_pos hgo]
      exact startRoom_sound (hbroad (untorn (lasting_torn.handled.startRoom q _) htorn₂))
        ((lasting_proto .v2).roomBroadcast (lasting_proto .v2).drop q s₁ hproto₁) htorn₂
    next hgo =>
      rw [if_neg hgo]
      exact hbroad htorn₂
  unfold enter at htorn ⊢
  split at htorn
  next => exact onList_sound h hc htorn
  next r s₁ hfound =>
  unfold roomFor at hfound
  split at hfound
  next q htroom =>
    -- the room of the target
    obtain ⟨rfl, rfl⟩ := Prod.mk.inj (Option.some.inj hfound)
    have hmem : target ∈ (s.room q).members := (h.link target q).mpr htroom
    have hopen : (s.room q).started = false ∧ (s.room q).members.length < s.maxSeats := by
      have : (s.client target).name.isEmpty = false ∧ (s.room q).started = false ∧
          (s.room q).members.length < s.maxSeats := by
        simpa [unjoinable, htroom, hne] using hjoin
      exact this.2
    have hout : c ∉ (s.room q).members := fun hin => by
      have := (h.link c q).mp hin
      rw [hroom] at this
      exact absurd this (by simp)
    have hge : 1 ≤ (s.room q).members.length := List.length_pos_of_mem hmem
    have hjoined := entered_joined (c := c) h.toShape (List.ne_nil_of_mem hmem)
    refine hrest _ q _ ((hjoined.inv h (fun m hm => by simp [hm]) ?_ ?_ (fun m hm => ?_)
      fun m hm => ?_).mono fun m hm => hm.resolve_left id) hjoined.members (by simpa using hopen.1)
      hproto _ rfl htorn
    · exact List.nodup_append.mpr ⟨h.nodup q, List.nodup_singleton c, fun a ha b hb hab => by
        rw [List.mem_singleton] at hb
        exact hout (hb ▸ hab ▸ ha)⟩
    · rw [List.length_append, List.length_singleton]
      omega
    · rcases List.mem_append.mp hm with hm | hm
      · exact h.lively m (by rw [(h.link m q).mp hm]; simp)
      · rw [List.mem_singleton.mp hm]
        exact hc
    · rcases List.mem_append.mp hm with hm | hm
      · exact Or.inl hm
      · rw [List.mem_singleton.mp hm]
        exact Or.inr hroom
  next htroom =>
    -- a new room
    split at hfound
    next => exact absurd hfound (by simp)
    next q s₀ halloc =>
    obtain ⟨rfl, rfl⟩ := Prod.mk.inj (Option.some.inj hfound)
    have hvacant : (s.room q).members = [] := h.vacant q (roomAlloc_eq halloc).1
    have hmax := h.seats.1
    have hjoined := @paired_joined _ _ _ c _ halloc
    have hmembers : ((s₀.link target (some q)).room q).members = [target] := by
      obtain ⟨-, rfl⟩ := roomAlloc_eq halloc
      simp
    have hforming : ((paired target c q s₀).room q).started = false := by
      obtain ⟨-, rfl⟩ := roomAlloc_eq halloc
      simp [paired]
    have hstate : ((s₀.link target (some q)).seat q
        (((s₀.link target (some q)).room q).members ++ [c])).link c (some q) =
          paired target c q s₀ := by
      rw [hmembers]
      rfl
    dsimp only at htorn ⊢
    rw [hstate] at htorn ⊢
    refine hrest _ q _ ((hjoined.inv h (fun m hm => ?_) ?_ ?_ (fun m hm => ?_)
      fun m hm => ?_).mono fun m hm => hm.resolve_left id) hjoined.members hforming
      (hjoined.proto.trans hproto) _ rfl htorn
    · rw [hvacant] at hm
      exact absurd hm (by simp)
    · simpa using hne
    · exact ⟨Nat.le_refl _, hmax⟩
    · rcases List.mem_pair.mp hm with rfl | rfl
      · exact ht
      · exact hc
    · rcases List.mem_pair.mp hm with rfl | rfl
      · exact Or.inr htroom
      · exact Or.inr hroom

theorem onJoin_sound (h : Sound s) (hc : Live c s) (payload : List Nat)
    (htorn : (onJoin c payload s).torn = false) : Sound (onJoin c payload s) := by
  unfold onJoin at htorn ⊢
  split at htorn
  next hname =>
    rw [if_pos hname]
    exact drop_sound h (fun _ => hc) htorn
  next hname =>
  rw [if_neg hname]
  split at htorn
  next hin =>
    rw [if_pos hin]
    exact h
  next hin =>
  rw [if_neg hin]
  have hroom : (s.client c).room = none := by
    cases hr : (s.client c).room with
    | none => rfl
    | some _ => simp [hr] at hin
  dsimp only at htorn ⊢
  split at htorn
  next hlong =>
    rw [if_pos hlong]
    exact onList_sound h hc htorn
  next hlong =>
  rw [if_neg hlong]
  split at htorn
  next => exact onList_sound h hc htorn
  next target htarget =>
  have ht := h.keyed _ (Lib.Dict.mem_of_get htarget)
  split at htorn
  next hproto =>
    split at htorn
    next hbusy =>
      rw [if_pos hbusy]
      exact onList_sound h hc htorn
    next hidle =>
      rw [if_neg hidle]
      have hidle' : target ≠ c ∧ (s.client target).room = none := by
        refine ⟨fun h' => hidle (Or.inl h'), ?_⟩
        cases hr : (s.client target).room with
        | none => rfl
        | some _ => exact absurd (Or.inr (Or.inr (by rw [hr]; rfl))) hidle
      exact startPair_sound h hidle'.1 ht hc hidle'.2 hroom hproto htorn
  next hproto =>
    split at htorn
    next hbusy =>
      rw [if_pos hbusy]
      exact onList_sound h hc htorn
    next hopen =>
      rw [if_neg hopen]
      exact enter_sound h hc ht hroom (by simpa using hopen) hproto htorn

theorem onGo_sound (h : Sound s) (hproto : s.proto = .v2) (htorn : (onGo c s).torn = false) :
    Sound (onGo c s) := by
  unfold onGo at htorn ⊢
  split at htorn
  · exact h
  split at htorn
  next hno =>
    rw [if_pos hno]
    exact h
  next hno =>
  rw [if_neg hno]
  split at htorn
  next hsize =>
    rw [if_pos hsize]
    exact h
  next hsize =>
    rw [if_neg hsize]
    exact startRoom_sound h hproto htorn

/-- The relay branch of `handle`. -/
theorem relay_sound {ftype : Nat} (h : Sound s) (htype : ftype ∈ relayTypes) (payload : List Nat)
    (htorn : (relay c ftype payload s).torn = false) : Sound (relay c ftype payload s) := by
  have hdata : isMembership (frameBuild ftype payload) = false ∧
      ends (frameBuild ftype payload) = false := by
    simp only [relayTypes, List.mem_cons, List.not_mem_nil, or_false] at htype
    rcases htype with rfl | rfl | rfl | rfl <;> simp [isMembership, ends, frameBuild]
  unfold relay at htorn ⊢
  split at htorn
  · exact h
  next r _ =>
  split at htorn
  next hstarted =>
    rw [if_pos hstarted]
    refine sendEach_inv (dropN_sound maxClients) _ h (fun m hm => ?_) (lives_le s)
      (fun _ hm => hm.elim) (fun _ _ _ hmem => ?_) (fun _ => hdata.2) htorn
    · exact (h.link m r).mp (List.mem_of_mem_filter hm)
    · rw [hdata.1] at hmem
      exact absurd hmem (by simp)
  next hforming =>
    rw [if_neg hforming]
    exact h

/-- `handle`. -/
theorem handle_sound (h : Sound s) (hc : Live c s) (ftype : Nat) (payload : List Nat)
    (htorn : (handle c ftype payload s).torn = false) : Sound (handle c ftype payload s) := by
  unfold handle at htorn ⊢
  split_ifs at htorn ⊢ with hrelay hhello hlist hjoin hgo hbye hping
  · exact relay_sound h hrelay payload htorn
  · exact onHello_sound h hc payload htorn
  · exact onList_sound h hc htorn
  · exact onJoin_sound h hc payload htorn
  · exact onGo_sound h hgo.2 htorn
  · exact drop_sound h (fun _ => hc) htorn
  · exact sendRaw_sound h hc (by simp [isMembership, frameBuild]) htorn
  · exact drop_sound h (fun _ => hc) htorn

/-! ## Events -/

theorem setRx_same (c : Nat) (rx : List Nat) (s : Server) : Same s (s.setRx c rx) :=
  ⟨rfl, rfl, rfl, fun _ => by simp, fun _ => by simp, fun _ => by simp, fun _ => by simp, rfl, rfl,
    rfl, rfl⟩

theorem Handled.drain {P : Server → Prop} (hP : Handled P)
    (hrx : ∀ c rx s, P s → P (s.setRx c rx)) (fuel : Nat) (hs : P s) : P (drain fuel c s) := by
  induction fuel generalizing s with
  | zero => exact hP.expect _ _ hs
  | succ fuel ih =>
      unfold C.drain
      split
      · exact hs
      split
      · exact hP.drop c s hs
      split
      · exact hs
      dsimp only
      split
      · exact hP.handle _ _ _ _ (hrx _ _ _ hs)
      · exact ih (hP.handle _ _ _ _ (hrx _ _ _ hs))

theorem Handled.feed {P : Server → Prop} (hP : Handled P)
    (hrx : ∀ c rx s, P s → P (s.setRx c rx)) (fuel : Nat) (data : List Nat) (hs : P s) :
    P (feed fuel c data s) := by
  induction fuel generalizing s data with
  | zero =>
      cases data with
      | nil => exact hs
      | cons b data => exact hP.expect _ _ hs
  | succ fuel ih =>
      cases data with
      | nil => exact hs
      | cons b data =>
          unfold C.feed
          dsimp only
          split
          · exact hP.drop c s hs
          split
          · exact hP.drain hrx _ (hrx _ _ _ hs)
          · exact ih _ (hP.drain hrx _ (hrx _ _ _ hs))

theorem Lasting.drain {P : Server → Prop} (hP : Lasting P)
    (hrx : ∀ c rx s, P s → P (s.setRx c rx)) (fuel : Nat) (hs : P s) : P (drain fuel c s) :=
  hP.handled.drain hrx fuel hs

theorem Lasting.feed {P : Server → Prop} (hP : Lasting P)
    (hrx : ∀ c rx s, P s → P (s.setRx c rx)) (fuel : Nat) (data : List Nat) (hs : P s) :
    P (feed fuel c data s) := hP.handled.feed hrx fuel data hs

/-- A live client is live after its frames were handled, unless it is dead. -/
theorem live_of_handle {s' : Server} (h : (s'.client c).inUse = true ∨ (s'.client c).dead = true)
    (halive : ¬ (s'.client c).dead = true) : Live c s' :=
  ⟨h.resolve_right halive, by simpa using halive⟩

theorem connected_setRx (c d : Nat) (rx : List Nat) (s : Server)
    (h : (s.client c).inUse = true ∨ (s.client c).dead = true) :
    ((s.setRx d rx).client c).inUse = true ∨ ((s.setRx d rx).client c).dead = true := by
  rw [setRx_client_inUse, setRx_client_dead]
  exact h

/-- The inner loop of `feed`. -/
theorem drain_sound (fuel : Nat) (h : Sound s) (hc : Live c s)
    (hfuel : (s.client c).rx.length ≤ fuel) (htorn : (drain fuel c s).torn = false) :
    Sound (drain fuel c s) := by
  induction fuel generalizing s with
  | zero =>
      have hrx : (s.client c).rx = [] := List.eq_nil_of_length_eq_zero (by omega)
      unfold drain
      rw [expect_pos (by rw [hrx]; rfl)]
      exact h
  | succ fuel ih =>
      unfold drain at htorn ⊢
      split at htorn
      · exact h
      next len rest hrx =>
      split at htorn
      next hbad =>
        rw [if_pos hbad]
        exact drop_sound h (fun _ => hc) htorn
      next hlen =>
      rw [if_neg hlen]
      split at htorn
      next hshort =>
        rw [if_pos hshort]
        exact h
      next hwhole =>
      rw [if_neg hwhole]
      have hs₁ := setRx_same c (rest.drop len) s
      have h₁ : Sound (s.setRx c (rest.drop len)) := h.same hs₁ rfl
      have hlive₁ := hs₁.live.mpr hc
      dsimp only at htorn ⊢
      split at htorn
      next hdead =>
        rw [if_pos hdead]
        exact handle_sound h₁ hlive₁ _ _ htorn
      next halive =>
        rw [if_neg halive]
        have htorn₁ := untorn (fun ht => lasting_torn.drain (fun _ _ _ h => h) fuel ht) htorn
        have hrx₁ := (lasting_rx c (rest.drop len)).handle c (rest.headD 0) (rest.take len).tail
          (s.setRx c (rest.drop len)) (by simp)
        refine ih (handle_sound h₁ hlive₁ _ _ htorn₁)
          (live_of_handle ((lasting_connected c).handle _ _ _ _ (Or.inl hlive₁.inUse)) halive) ?_
          htorn
        rw [hrx, List.length_cons] at hfuel
        rw [hrx₁, List.length_drop]
        omega

/-- `feed`. -/
theorem feed_sound (fuel : Nat) (data : List Nat) (h : Sound s) (hc : Live c s)
    (hfuel : data.length ≤ fuel) (htorn : (feed fuel c data s).torn = false) :
    Sound (feed fuel c data s) := by
  induction fuel generalizing s data with
  | zero =>
      rw [List.eq_nil_of_length_eq_zero (Nat.le_zero.mp hfuel)]
      exact h
  | succ fuel ih =>
      cases data with
      | nil => exact h
      | cons b data =>
          unfold feed at htorn ⊢
          dsimp only at htorn ⊢
          split at htorn
          next hfull =>
            rw [if_pos hfull]
            exact drop_sound h (fun _ => hc) htorn
          next hspace =>
          rw [if_neg hspace]
          have hs₁ := setRx_same c
            ((s.client c).rx ++ (b :: data).take (rxCap - (s.client c).rx.length)) s
          have hlive₁ := hs₁.live.mpr hc
          have hkeep := fun ht => drain_sound _ (h.same hs₁ rfl) hlive₁ (Nat.le_refl _) ht
          split at htorn
          next hdead =>
            rw [if_pos hdead]
            exact hkeep htorn
          next halive =>
            rw [if_neg halive]
            have htorn₁ := untorn (fun ht => lasting_torn.feed (fun _ _ _ h => h) fuel _ ht) htorn
            refine ih _ (hkeep htorn₁) (live_of_handle ((lasting_connected c).drain
              (fun d rx s h => connected_setRx c d rx s h) _ (Or.inl hlive₁.inUse)) halive) ?_ htorn
            rw [List.length_drop]
            rw [List.length_cons] at hfuel ⊢
            omega

/-- A new connection in slot `i`. -/
def admitted (i ip : Nat) (s : Server) : Server :=
  { s with conns := s.conns + 1, nClients := s.nClients + 1 }.onClient i fun v =>
    { inUse := true, conn := s.conns, gen := v.gen, ip := ip }

theorem admitted_client (i ip m : Nat) (s : Server) :
    (admitted i ip s).client m =
      if m = i then { inUse := true, conn := s.conns, gen := (s.client i).gen, ip := ip }
      else s.client m :=
  client_onClient i _ _ m

theorem told_fresh {conn : Nat} {queued : List (Nat × List Nat)}
    (h : ∀ e ∈ queued, e.1 ≠ conn) : told conn queued = none := by
  have hnil : queued.filter (fun e => e.1 == conn && isMembership e.2) = [] := by
    refine List.filter_eq_nil_iff.mpr fun e he => ?_
    simp [h e he]
  unfold told
  rw [hnil]
  rfl

/-- A free slot is in no room, and neither is a new connection. -/
theorem Shape.admitted_room {i ip : Nat} (h : Shape s) (hfree : (s.client i).inUse = false)
    (m : Nat) : ((admitted i ip s).client m).room = (s.client m).room := by
  rw [admitted_client]
  split
  · next hm =>
      cases hr : (s.client i).room with
      | none => rw [hm, hr]
      | some r =>
          have hin := (h.lively i (by rw [hr]; simp)).inUse
          rw [hfree] at hin
          exact absurd hin (by simp)
  · rfl

theorem Shape.admitted {i ip : Nat} (h : Shape s) (hfree : (s.client i).inUse = false)
    (hslot : i < maxClients) : Shape (C.admitted i ip s) := by
  have hnotLive : ¬ Live i s := fun hl => by
    have := hl.inUse
    rw [hfree] at this
    exact absurd this (by simp)
  have hlink := @Shape.admitted_room _ _ ip h hfree
  have hold : ∀ {m}, m ≠ i → (C.admitted i ip s).client m = s.client m := fun hm => by
    rw [admitted_client, if_neg hm]
  have hnew : (C.admitted i ip s).client i =
      { inUse := true, conn := s.conns, gen := (s.client i).gen, ip := ip } := by
    rw [admitted_client, if_pos rfl]
  have hlive : ∀ {m}, Live m s → Live m (C.admitted i ip s) := by
    intro m hm
    have hmi : m ≠ i := by
      rintro rfl
      exact hnotLive hm
    exact ⟨by rw [hold hmi]; exact hm.inUse, by rw [hold hmi]; exact hm.alive⟩
  exact
    { link := fun m r => by
        rw [hlink]
        exact h.link m r
      nodup := h.nodup
      size := h.size
      vacant := h.vacant
      lively := fun m hm => hlive (h.lively m (by rw [← hlink]; exact hm))
      slot := fun m hm => by
        by_cases hmi : m = i
        · rw [hmi]
          exact hslot
        · rw [hold hmi] at hm
          exact h.slot m hm
      fresh := fun m hm => by
        show _ < s.conns + 1
        by_cases hmi : m = i
        · rw [hmi, hnew]
          exact Nat.lt_succ_self _
        · rw [hold hmi] at hm ⊢
          exact Nat.lt_succ_of_lt (h.fresh m hm)
      distinct := fun m n hm hn heq => by
        by_cases hmi : m = i
        · by_cases hni : n = i
          · rw [hmi, hni]
          · rw [hold hni] at hn heq
            rw [hmi, hnew] at heq
            have := h.fresh n hn
            have heq' : s.conns = (s.client n).conn := heq
            omega
        · rw [hold hmi] at hm heq
          by_cases hni : n = i
          · rw [hni, hnew] at heq
            have := h.fresh m hm
            have heq' : (s.client m).conn = s.conns := heq
            omega
          · rw [hold hni] at hn heq
            exact h.distinct m n hm hn heq
      keyed := fun e he => hlive (h.keyed e he)
      alloc := h.alloc
      apart := h.apart
      seats := h.seats
      pairs := h.pairs
      sane := h.sane }

theorem admitted_sound {i ip : Nat} (h : Sound s) (hfree : (s.client i).inUse = false)
    (hslot : i < maxClients) : Sound (admitted i ip s) where
  toShape := h.toShape.admitted hfree hslot
  told m hm _ := by
    by_cases hmi : m = i
    · have hnone : Relay.told s.conns (wire s) = none := told_fresh fun e he => by
        obtain ⟨e', he', rfl⟩ := List.mem_map.mp he
        exact Nat.ne_of_lt (h.sent e' he').1
      rw [hmi, admitted_client, if_pos rfl]
      show Fits (Relay.told s.conns (wire s)) i _
      rw [hnone]
      trivial
    · have hold : (admitted i ip s).client m = s.client m := by
        rw [admitted_client, if_neg hmi]
      have hm' : Live m s := ⟨by rw [← hold]; exact hm.inUse, by rw [← hold]; exact hm.alive⟩
      rw [hold]
      exact (h.told m hm' fun hf => hf).congr rfl (h.admitted_room hfree m)
        fun _ _ => ⟨rfl, rfl⟩
  sent e he := ⟨Nat.lt_succ_of_lt (h.sent e he).1, (h.sent e he).2⟩
  closed := h.closed
  final := h.final

theorem acceptClient_sound (h : Sound s) (ip : Nat) : Sound (acceptClient ip s) := by
  unfold acceptClient
  split
  · exact h
  split
  · exact h
  cases halloc : clientAlloc ip s with
  | none => exact h
  | some s' =>
      obtain ⟨i, hi, rfl⟩ := Option.map_eq_some_iff.mp halloc
      exact admitted_sound h (by simpa using List.find?_some hi)
        (List.mem_range.mp (List.mem_of_find?_eq_some hi))

theorem flush_sound (h : Sound s) (hc : Live c s) (htorn : (flush drop c s).torn = false) :
    Sound (flush drop c s) := by
  unfold flush at htorn ⊢
  dsimp only at htorn ⊢
  have hs₁ : Same s ({ s with outcomes := (flushLoop s.outcomes (s.client c).tx).rest }.onClient c
      fun v => { v with tx := (flushLoop s.outcomes (s.client c).tx).tx }) :=
    ⟨rfl, rfl, rfl, fun m => onClient_proj Client.room rfl m,
      fun m => onClient_proj Client.dead rfl m, fun m => onClient_proj Client.inUse rfl m,
      fun m => onClient_proj Client.conn rfl m, rfl, rfl, rfl, rfl⟩
  have h₁ := h.same hs₁ rfl
  split at htorn
  next hok =>
    rw [if_pos hok]
    exact h₁
  next hno =>
    rw [if_neg hno]
    exact drop_sound h₁ (fun _ => hs₁.live.mpr hc) htorn

theorem Handled.sweepSlot {P : Server → Prop} (hP : Handled P) (late : List Nat) (s : Server)
    (i : Nat) (hs : P s) : P (sweepSlot late s i) := by
  unfold C.sweepSlot
  split
  · exact hP.drop i s hs
  · exact hs

theorem Lasting.sweepSlot {P : Server → Prop} (hP : Lasting P) (late : List Nat) (s : Server)
    (i : Nat) (hs : P s) : P (sweepSlot late s i) := hP.handled.sweepSlot late s i hs

/-- The loop of `sweep`. -/
theorem sweep_sound (late slots : List Nat) (h : Sound s)
    (htorn : (slots.foldl (sweepSlot late) s).torn = false) :
    Sound (slots.foldl (sweepSlot late) s) := by
  induction slots generalizing s with
  | nil => exact h
  | cons i slots ih =>
      rw [List.foldl_cons] at htorn ⊢
      have htorn₁ : (sweepSlot late s i).torn = false := untorn (fun ht =>
        Steady.foldl (P := fun s => s.torn = true) (lasting_torn.sweepSlot late) slots _ ht) htorn
      refine ih ?_ htorn
      unfold sweepSlot at htorn₁ ⊢
      split at htorn₁
      next hlate =>
        rw [if_pos hlate]
        refine drop_sound h (fun halive => ⟨?_, halive⟩) htorn₁
        simp only [Bool.and_eq_true] at hlate
        exact hlate.1.1.1
      next hno =>
        rw [if_neg hno]
        exact h

theorem slotOf_inUse {conn : Nat} (h : slotOf conn s = some c) :
    (s.client c).inUse = true ∧ (s.client c).conn = conn := by
  have hfound := List.find?_some h
  simpa using hfound

theorem onSlot_sound {conn : Nat} {act : Nat → Server → Server} (h : Sound s)
    (hact : ∀ c, Live c s → (act c s).torn = false → Sound (act c s))
    (htorn : (onSlot conn act s).torn = false) : Sound (onSlot conn act s) := by
  unfold onSlot at htorn ⊢
  split at htorn
  · exact h
  next c hc =>
  split at htorn
  next hdead =>
    rw [if_pos hdead]
    exact h
  next halive =>
    rw [if_neg halive]
    exact hact c ⟨(slotOf_inUse hc).1, by simpa using halive⟩ htorn

/-- One event. -/
theorem step_sound (h : Sound s) (e : Event) (htorn : (s.step e).torn = false) :
    Sound (s.step e) := by
  cases e with
  | accept ip => exact acceptClient_sound h ip
  | recv conn data =>
      exact onSlot_sound h (fun c hc ht => feed_sound _ data h hc (Nat.le_refl _) ht) htorn
  | eof conn => exact onSlot_sound h (fun c hc ht => drop_sound h (fun _ => hc) ht) htorn
  | writable conn => exact onSlot_sound h (fun c hc ht => flush_sound h hc ht) htorn
  | sweep late => exact sweep_sound late _ h htorn

/-- What the steps of every event keep. -/
structure Enduring (P : Server → Prop) : Prop extends Lasting P where
  setRx : ∀ c rx s, P s → P (s.setRx c rx)
  setTx : ∀ c tx outcomes s, P s →
    P ({ s with outcomes := outcomes }.onClient c fun v => { v with tx := tx })
  admitted : ∀ i ip s, P s → P (admitted i ip s)

namespace Enduring

variable {P : Server → Prop}

theorem onSlot {conn : Nat} {act : Nat → Server → Server} (hact : ∀ c, P (act c s)) (hs : P s) :
    P (onSlot conn act s) := by
  unfold C.onSlot
  split
  · exact hs
  split
  · exact hs
  · exact hact _

theorem step (hP : Enduring P) (e : Event) (hs : P s) : P (s.step e) := by
  cases e with
  | accept ip =>
      simp only [Server.step, acceptClient]
      split
      · exact hs
      split
      · exact hs
      cases halloc : clientAlloc ip s with
      | none => exact hs
      | some s' =>
          obtain ⟨i, -, rfl⟩ := Option.map_eq_some_iff.mp halloc
          exact hP.admitted i ip s hs
  | recv conn data => exact onSlot (fun c => hP.toLasting.feed hP.setRx _ _ hs) hs
  | eof conn => exact onSlot (fun c => hP.toLasting.drop c s hs) hs
  | writable conn =>
      refine onSlot (fun c => ?_) hs
      unfold flush
      dsimp only
      split
      · exact hP.setTx c _ _ s hs
      · exact hP.toLasting.drop c _ (hP.setTx c _ _ s hs)
  | sweep late => exact Steady.foldl (hP.toLasting.sweepSlot late) _ s hs

theorem run (hP : Enduring P) (events : List Event) (hs : P s) : P (s.run events) := by
  induction events generalizing s with
  | nil => exact hs
  | cons e events ih => exact ih (hP.step e hs)

end Enduring

theorem enduring_torn : Enduring fun s => s.torn = true :=
  { lasting_torn with
    setRx := fun _ _ _ h => h
    setTx := fun _ _ _ _ h => h
    admitted := fun _ _ _ h => h }

/-- `--max-seats` does not change. -/
theorem enduring_maxSeats (k : Nat) : Enduring fun s => s.maxSeats = k where
  bury _ _ h := h
  staged _ _ _ _ _ h := h
  overran _ _ h := h
  tear _ _ h := h
  link _ _ h := h
  seat _ _ _ h := h
  vacate _ _ h := h
  clientFree _ _ _ h := h
  expect p s h := by
    unfold expect
    split <;> exact h
  setName _ _ _ h := h
  byName _ _ h := h
  seeds _ _ h := h
  start _ _ _ h := h
  opened _ _ _ _ h := h
  linked _ _ _ h := h
  setRx _ _ _ h := h
  setTx _ _ _ _ h := h
  admitted _ _ _ h := h

theorem run_sound (h : Sound s) (events : List Event) (htorn : (s.run events).torn = false) :
    Sound (s.run events) := by
  induction events generalizing s with
  | nil => exact h
  | cons e events ih =>
      have htorn₁ : (s.step e).torn = false := untorn (fun ht => enduring_torn.run events ht) htorn
      exact ih (step_sound h e htorn₁) htorn

theorem init_sound {proto : Proto} {maxSeats : Nat} (delay : Int) (autoGo : Nat)
    (outcomes : List SendResult) (seeds : List Seed) (hseats : 2 ≤ maxSeats ∧ maxSeats ≤ 4)
    (hproto : proto = .v1 → maxSeats = 2) :
    Sound (Server.init proto maxSeats delay autoGo outcomes seeds) where
  link m r := by simp [Server.init]
  nodup _ := List.nodup_nil
  size _ := Or.inl rfl
  vacant _ _ := rfl
  lively m hm := absurd rfl hm
  slot m hm := absurd hm (by simp [Server.init])
  fresh m hm := absurd hm (by simp [Server.init])
  distinct m n hm := absurd hm (by simp [Server.init])
  keyed e he := absurd he (by simp [Server.init])
  alloc r hr := absurd rfl hr
  apart q r hq := absurd rfl hq
  seats := hseats
  pairs := hproto
  sane := rfl
  told m hm := absurd hm.inUse (by simp [Server.init])
  sent e he := absurd he (by simp [Server.init])
  closed e he := absurd he (by simp [Server.init])
  final := List.Pairwise.nil

/-- Every live client was last told the truth, and once a client was told that a room
is over it is queued nothing of that room but, if anything, another ROOM 0 or PEER_LEFT. No
bound of the model was reached. -/
structure Truthful (s : Server) : Prop where
  told : ∀ m, Live m s → Fits (told (s.client m).conn (wire s)) m s
  final : s.queued.Pairwise fun e e' => e'.conn = e.conn → e'.alloc = e.alloc →
    e.alloc ≠ none → ends e.frame = true → ends e'.frame = true
  sane : s.crashed = false

theorem Inv.truthful (h : Sound s) : Truthful s where
  told m hm := h.told m hm fun hf => hf
  final := List.Pairwise.imp (fun hee _ halloc hsome hends => hee halloc hsome hends) h.final
  sane := h.sane

/-- Whatever the sockets do, clients were told the truth after every event of a run in
which no loop over a copied member list went on to a live client after one of its
sends had dropped its target. -/
theorem truthful_of_untorn {proto : Proto} {maxSeats : Nat} (delay : Int) (autoGo : Nat)
    (outcomes : List SendResult) (seeds : List Seed) (events : List Event)
    (hseats : 2 ≤ maxSeats ∧ maxSeats ≤ 4) (hproto : proto = .v1 → maxSeats = 2)
    (htorn : ((Server.init proto maxSeats delay autoGo outcomes seeds).run events).torn = false) :
    ∀ es, es <+: events →
      Truthful ((Server.init proto maxSeats delay autoGo outcomes seeds).run es) := by
  rintro es ⟨rest, rfl⟩
  have hrun : (Server.init proto maxSeats delay autoGo outcomes seeds).run (es ++ rest) =
      ((Server.init proto maxSeats delay autoGo outcomes seeds).run es).run rest :=
    List.foldl_append
  rw [hrun] at htorn
  exact (run_sound (init_sound delay autoGo outcomes seeds hseats hproto) es
    (untorn (fun ht => enduring_torn.run rest ht) htorn)).truthful

/-- The bytes of a HELLO for `name`. -/
def hello (name : Name) : List Nat := frameBuild tHello (2 :: name)

/-- `BB` joins `AA`. -/
def joining : List Event :=
  [.accept 1, .accept 2, .recv 0 (hello [65, 65]), .recv 1 (hello [66, 66]),
    .recv 1 (frameBuild tJoin [65, 65])]

/-- The second ROOM frame cannot be sent; nobody comes after its target. -/
theorem truthful_of_untorn_joining :
    ((Server.init .v2 4 2 0 [.wrote 400, .wrote 400, .wrote 400, .failed] []).run
      joining).torn = false ∧
    ∀ es, es <+: joining → Truthful ((Server.init .v2 4 2 0
      [.wrote 400, .wrote 400, .wrote 400, .failed] []).run es) :=
  ⟨by decide +kernel,
    truthful_of_untorn 2 0 _ _ joining (by decide) (by decide) (by decide +kernel)⟩

/-- The first ROOM frame cannot be sent: `BB` is told that the room is over, and then
that it has two members. -/
theorem not_truthful : ¬ Truthful ((Server.init .v2 2 2 0
    [.wrote 400, .wrote 400, .failed] []).run joining) := by
  intro h
  have hroom : (((Server.init .v2 2 2 0 [.wrote 400, .wrote 400, .failed] []).run joining).client
      1).room = none := by decide +kernel
  have htold : told (((Server.init .v2 2 2 0 [.wrote 400, .wrote 400, .failed] []).run
      joining).client 1).conn (wire ((Server.init .v2 2 2 0
        [.wrote 400, .wrote 400, .failed] []).run joining)) =
      some ([34, 14, 2, 65, 65, 0, 0, 0, 0, 0, 0, 66, 66] ++ List.replicate 22 0) := by
    decide +kernel
  have hfits := h.told 1 ⟨by decide +kernel, by decide +kernel⟩
  rw [htold] at hfits
  simp only [Fits] at hfits
  rw [if_neg (by decide), if_pos (by decide), hroom] at hfits
  obtain ⟨r, hr, -⟩ := hfits
  exact absurd hr (by simp)

end SharkNetplay.Relay.C
