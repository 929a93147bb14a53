import SharkNetplay.Relay.CRooms

/-!
# Dropping in the C relay

By induction on the bound of nested calls: `drop` leaves nothing untold that it or
its caller had to tell.
-/

namespace SharkNetplay.Relay.C

open Server

variable {s : Server} {X : Nat → Prop} {c r : Nat}

/-- `room_broadcast` tells the members of a forming room their number. -/
theorem roomBroadcast_inv {n : Nat} (hd : DropSound n) (h : Inv X s)
    (hX : ∀ m, X m → m ∈ (s.room r).members) (hforming : (s.room r).started = false)
    (hfuel : (lives s).card ≤ n) (htorn : (roomBroadcast (dropN n) r s).torn = false) :
    Inv (fun _ => False) (roomBroadcast (dropN n) r s) := by
  rcases h.size r with hnil | ⟨hle, hmax⟩
  · have hsame : roomBroadcast (dropN n) r s = s := by
      unfold roomBroadcast
      rw [hnil]
      rfl
    rw [hsame]
    exact h.mono fun m hm => by
      have := hX m hm
      rw [hnil] at this
      exact absurd this (by simp)
  · have hseats := h.seats.2
    have hcount : (s.room r).members.length % 256 = (s.room r).members.length :=
      Nat.mod_eq_of_lt (by omega)
    unfold roomBroadcast at htorn ⊢
    rw [hcount] at htorn ⊢
    refine sendEach_inv hd _ h (fun m hm => (h.link m r).mp hm) hfuel
      (fun m hm => ⟨hX m hm, fun _ => rfl⟩) (fun _ m hm _ => ?_) (fun _ => ?_) htorn
    · simp only [Fits, frameBuild, List.getD_cons_succ, List.getD_cons_zero]
      rw [if_neg (by decide), if_pos ⟨trivial, by omega⟩]
      exact ⟨r, (h.link m r).mp hm, hforming, rfl⟩
    · have : ¬ (s.room r).members.length = 0 := by omega
      simp [ends, frameBuild, this]

/-! ## Leaving a room -/

/-- A loop that unlinks clients. -/
theorem foldl_link (ms : List Nat) (s : Server) :
    ms.foldl (fun s m => s.link m none) s =
      { s with client := fun m =>
          if m ∈ ms then { s.client m with room := none } else s.client m } := by
  induction ms generalizing s with
  | nil => simp
  | cons m ms ih =>
      rw [List.foldl_cons, ih]
      have hclient : ∀ q, (s.link m none).client q =
          if q = m then { s.client q with room := none } else s.client q := by
        intro q
        simp only [link, client_onClient]
        split
        · next hq => rw [hq]
        · rfl
      simp only [link, onClient, Server.mk.injEq, true_and, and_true]
      funext q
      have hq := hclient q
      simp only [link, onClient] at hq
      rw [hq]
      by_cases h₁ : q = m
      · simp [h₁]
      · by_cases h₂ : q ∈ ms <;> simp [h₁, h₂]

/-- `c` is out of its room `r`, the others are still in it. -/
def removed (c r : Nat) (s : Server) : Server :=
  ((bury c s).link c none).seat r ((s.room r).members.erase c)

/-- `c` is out of its room `r`, and so is everybody else. -/
def disbanded (c r : Nat) (s : Server) : Server :=
  (((s.room r).members.erase c).foldl (fun s m => s.link m none) (removed c r s)).vacate r

theorem removed_parted (hs : Shape s) (hroom : (s.client c).room = some r) :
    Parted c r ((s.room r).members.erase c) s (removed c r s) where
  proto := rfl
  maxSeats := rfl
  queued := rfl
  byName := rfl
  conns := rfl
  allocs := rfl
  crashed := rfl
  link m := by
    simp only [removed, seat_client, link_client_room, bury_client_room, (hs.nodup r).mem_erase_iff]
    by_cases hm : m = c
    · rw [if_pos hm, if_pos]
      rw [hm]
      exact ⟨(hs.link c r).mpr hroom, by simp⟩
    · rw [if_neg hm, if_neg]
      rintro ⟨h₁, h₂⟩
      exact h₂ ⟨hm, h₁⟩
  dead m := by simp [removed]
  inUse m := by simp [removed]
  conn m := by simp [removed]
  rooms q hq := by
    simp only [removed, seat, room_onRoom, if_neg hq]
    rfl
  members := by simp [removed]
  alloc := by simp [removed]
  used hu := by
    have hmem := (hs.link c r).mpr hroom
    rw [hs.vacant r (by simpa [removed] using hu)] at hmem
    exact absurd hmem (by simp)

theorem disbanded_parted (hs : Shape s) (hroom : (s.client c).room = some r) :
    Parted c r [] s (disbanded c r s) where
  proto := by rw [disbanded, foldl_link]; rfl
  maxSeats := by rw [disbanded, foldl_link]; rfl
  queued := by rw [disbanded, foldl_link]; rfl
  byName := by rw [disbanded, foldl_link]; rfl
  conns := by rw [disbanded, foldl_link]; rfl
  allocs := by rw [disbanded, foldl_link]; rfl
  crashed := by rw [disbanded, foldl_link]; rfl
  link m := by
    rw [disbanded, foldl_link, vacate_client]
    have hrem := (removed_parted hs hroom).link m
    by_cases hm : m ∈ (s.room r).members.erase c
    · simp only [hm, if_true]
      rw [if_pos ⟨List.mem_of_mem_erase hm, by simp⟩]
    · simp only [hm, if_false]
      rw [hrem]
      by_cases hin : m ∈ (s.room r).members
      · rw [if_pos ⟨hin, hm⟩, if_pos ⟨hin, by simp⟩]
      · rw [if_neg fun h' => hin h'.1, if_neg fun h' => hin h'.1]
  dead m := by
    rw [disbanded, foldl_link, vacate_client]
    have hrem := (removed_parted hs hroom).dead m
    by_cases hm : m ∈ (s.room r).members.erase c
    · simp only [hm, if_true]
      exact hrem
    · simp only [hm, if_false]
      exact hrem
  inUse m := by
    rw [disbanded, foldl_link, vacate_client]
    have hrem := (removed_parted hs hroom).inUse m
    by_cases hm : m ∈ (s.room r).members.erase c
    · simp only [hm, if_true]
      exact hrem
    · simp only [hm, if_false]
      exact hrem
  conn m := by
    rw [disbanded, foldl_link, vacate_client]
    have hrem := (removed_parted hs hroom).conn m
    by_cases hm : m ∈ (s.room r).members.erase c
    · simp only [hm, if_true]
      exact hrem
    · simp only [hm, if_false]
      exact hrem
  rooms q hq := by
    rw [disbanded, foldl_link, vacate, room_onRoom, if_neg hq]
    exact (removed_parted hs hroom).rooms q hq
  members := by rw [disbanded, vacate_members, if_pos rfl]
  alloc := by
    rw [disbanded, vacate_alloc, foldl_link]
    exact (removed_parted hs hroom).alloc
  used _ := rfl

theorem idxOf?_of_mem {l : List Nat} {a : Nat} (h : a ∈ l) : l.idxOf? a = some (l.idxOf a) := by
  induction l with
  | nil => exact absurd h (by simp)
  | cons b l ih =>
      rw [List.idxOf?_cons, List.idxOf_cons]
      by_cases hb : b = a
      · simp [hb]
      · rcases List.mem_cons.mp h with h | h
        · exact absurd h.symm hb
        · have hba : (b == a) = false := by simpa using hb
          simp [hba, ih h]

/-- Dropping a member of a room. -/
theorem dropN_room {n : Nat} (hs : Shape s) (hlive : (s.client c).dead = false)
    (hroom : (s.client c).room = some r) :
    dropN (n + 1) c s = clientFree c (match s.proto with
      | .v1 => unpair (dropN n) r (removed c r s)
      | .v2 => leave (dropN n) c r ((s.room r).members.idxOf c) (removed c r s)) := by
  have hseat : roomSeat r c (bury c s) = some ((s.room r).members.idxOf c) :=
    idxOf?_of_mem ((hs.link c r).mpr hroom)
  have herase : (s.room r).members.eraseIdx ((s.room r).members.idxOf c) =
      (s.room r).members.erase c := (List.erase_eq_eraseIdx_of_idxOf rfl).symm
  unfold dropN
  rw [if_neg (by simp [hlive])]
  simp only [bury_client_room, hroom, hseat, Option.isSome_some]
  simp only [expect_pos rfl, bury_room, hseat, Option.getD_some, herase]
  rfl

/-- The others of the room can be notified once it is disbanded. -/
theorem disbanded_loose (hs : Shape s) (hroom : (s.client c).room = some r) {m : Nat}
    (hm : m ∈ (s.room r).members.erase c) : Loose m (disbanded c r s) := by
  have hp := disbanded_parted hs hroom
  have hmem := List.mem_of_mem_erase hm
  have hmc : m ≠ c := ((hs.nodup r).mem_erase_iff.mp hm).1
  refine ⟨by rw [hp.link, if_pos ⟨hmem, by simp⟩], fun _ => hp.live.mpr ⟨hs.lively m ?_, hmc⟩⟩
  rw [(hs.link m r).mp hmem]
  simp

theorem parted_lives {n : Nat} (hs : Shape s) (hlive : Live c s)
    (hfuel : (lives s).card ≤ n + 1) {s' : Server} {ms : List Nat} (hp : Parted c r ms s s') :
    (lives s').card ≤ n := by
  have : (lives s').card < (lives s).card := lives_lt (hs.slot c hlive.inUse) hlive.alive
    (by rw [hp.dead, if_pos rfl]) fun m hm => by
      rw [hp.dead]
      split
      · rfl
      · exact hm
  omega

/-- Every survivor of a disbanded room is told that it is over. -/
theorem disbanded_notify {n : Nat} {data : List Nat} (h : Inv X s) (hlive : Live c s)
    (hroom : (s.client c).room = some r) (hX : ∀ m, X m → m = c ∨ m ∈ (s.room r).members)
    (hfuel : (lives s).card ≤ n + 1) (hends : ends data = true) :
    Inv (fun _ => False) (notifyAll (dropN n) ((s.room r).members.erase c)
      (allocOf r (removed c r s)) data (disbanded c r s)) := by
  have hp := disbanded_parted h.toShape hroom
  have hc : c ∈ (s.room r).members := (h.link c r).mpr hroom
  have hinv := hp.inv h (by simp) List.nodup_nil hc (by simp) (Or.inl rfl)
  have hall := @Inv.notifyAll _ _ n (allocOf r (removed c r s)) data
    ((s.room r).members.erase c) hinv (fun m hm => disbanded_loose h.toShape hroom hm) hends
    (fun k hk => by
      have halloc := (removed_parted h.toShape hroom).alloc
      have hne := List.ne_nil_of_mem hc
      rw [hp.allocs, ← Option.some.inj hk, halloc]
      refine ⟨h.alloc r hne, fun q hq heq => ?_⟩
      obtain ⟨hq', halloc'⟩ := hp.room_of_members hc q hq
      rw [h.apart q r hq' hne (halloc'.symm.trans heq), hp.members] at hq
      exact hq rfl)
    (parted_lives h.toShape hlive hfuel hp)
  refine hall.mono fun m hm => hm.2 ?_
  rw [(h.nodup r).mem_erase_iff]
  refine ⟨hm.1.1, ?_⟩
  rcases hm.1.2 with hXm | hmem
  · exact (hX m hXm).resolve_left hm.1.1
  · exact hmem

/-- `dissolve` sends as if the room were already vacant. -/
theorem dissolve_removed {n : Nat} (h : Shape s) (hlive : Live c s)
    (hroom : (s.client c).room = some r) (hfuel : (lives s).card ≤ n + 1) {notify : List Nat}
    (hsub : ∀ m ∈ notify, m ∈ (s.room r).members.erase c) :
    dissolve (dropN n) r notify (removed c r s) =
      notifyAll (dropN n) notify (allocOf r (removed c r s))
        (frameBuild tRoom (0 :: List.replicate 32 0)) (disbanded c r s) := by
  have hp := disbanded_parted h hroom
  have hlives := parted_lives h hlive hfuel hp
  have hmembers : ((removed c r s).room r).members = (s.room r).members.erase c :=
    (removed_parted h hroom).members
  have hshape := hp.shape h (by simp) List.nodup_nil ((h.link c r).mpr hroom) (by simp) (Or.inl rfl)
  have hclient : ∀ m, (disbanded c r s).client m =
      ((((s.room r).members.erase c).foldl (fun s m => s.link m none) (removed c r s)).client m) :=
    fun _ => rfl
  have hloose : ∀ m ∈ notify, Loose m
      (((s.room r).members.erase c).foldl (fun s m => s.link m none) (removed c r s)) := by
    intro m hm
    have hl := disbanded_loose h hroom (hsub m hm)
    exact ⟨hl.room, fun hd => ⟨(hl.live hd).inUse, (hl.live hd).alive⟩⟩
  unfold dissolve
  rw [hmembers]
  exact notifyAll_onRoom notify hloose
    (fun m hm hd => lives_pos hshape.slot ((disbanded_loose h hroom (hsub m hm)).live hd)
      hlives) _

/-- The v2 part of `drop`. -/
theorem leave_inv {n : Nat} (hd : DropSound n) (h : Inv X s) (hlive : Live c s)
    (hroom : (s.client c).room = some r) (hX : ∀ m, X m → m = c ∨ m ∈ (s.room r).members)
    (hfuel : (lives s).card ≤ n + 1)
    (htorn : (leave (dropN n) c r ((s.room r).members.idxOf c) (removed c r s)).torn = false) :
    Inv (fun _ => False)
      (leave (dropN n) c r ((s.room r).members.idxOf c) (removed c r s)) := by
  have hp := removed_parted h.toShape hroom
  have hc : c ∈ (s.room r).members := (h.link c r).mpr hroom
  have hdissolve : Inv (fun _ => False) (dissolve (dropN n) r ((removed c r s).room r).members
      (removed c r s)) := by
    rw [hp.members, dissolve_removed h.toShape hlive hroom hfuel fun m hm => hm]
    exact disbanded_notify h hlive hroom hX hfuel (by simp [ends, frameBuild])
  unfold leave at htorn ⊢
  split at htorn
  next hstarted =>
    rw [if_pos hstarted]
    dsimp only
    rw [hp.members, dissolve_removed h.toShape hlive hroom hfuel (by simp)]
    exact disbanded_notify h hlive hroom hX hfuel (by simp [ends, frameBuild])
  next hforming =>
  rw [if_neg hforming]
  split at htorn
  next hhost =>
    rw [if_pos hhost]
    exact hdissolve
  next hguest =>
  rw [if_neg hguest]
  split at htorn
  next hfew =>
    rw [if_pos hfew]
    exact hdissolve
  next hmany =>
    rw [if_neg hmany]
    rw [hp.members] at hmany
    have hinv := hp.inv h (fun m hm => List.mem_of_mem_erase hm) ((h.nodup r).erase c) hc
      (h.nodup r).not_mem_erase (Or.inr (by omega))
    refine roomBroadcast_inv hd hinv (fun m hm => ?_) (by simpa using hforming)
      (parted_lives h.toShape hlive hfuel hp) htorn
    rw [hp.members, (h.nodup r).mem_erase_iff]
    refine ⟨hm.1, ?_⟩
    rcases hm.2 with hXm | hmem
    · exact (hX m hXm).resolve_left hm.1
    · exact hmem

/-- A v1 room is a pair: whoever leaves it leaves one behind. -/
theorem pair_erase (h : Shape s) (hroom : (s.client c).room = some r) (hproto : s.proto = .v1) :
    ∃ p, (s.room r).members.erase c = [p] := by
  have hc : c ∈ (s.room r).members := (h.link c r).mpr hroom
  have hlen : (s.room r).members.length = 2 := by
    have hmax := h.pairs hproto
    rcases h.size r with hnil | hsize
    · rw [hnil] at hc
      exact absurd hc (by simp)
    · omega
  have herase := List.length_erase_of_mem hc
  exact List.length_eq_one_iff.mp (by omega)

/-- The v1 part of `drop`: rooms are pairs. -/
theorem unpair_inv {n : Nat} (h : Inv X s) (hlive : Live c s)
    (hroom : (s.client c).room = some r) (hX : ∀ m, X m → m = c ∨ m ∈ (s.room r).members)
    (hfuel : (lives s).card ≤ n + 1) (hproto : s.proto = .v1) :
    Inv (fun _ => False) (unpair (dropN n) r (removed c r s)) := by
  have hp := removed_parted h.toShape hroom
  obtain ⟨p, herase⟩ := pair_erase h.toShape hroom hproto
  have hstate : ((removed c r s).vacate r).link p none = disbanded c r s := by
    rw [disbanded, herase]
    rfl
  have hnotify := @disbanded_notify _ _ _ _ n (frameBuild tPeerLeft []) h hlive hroom hX
    hfuel (by simp [ends, frameBuild])
  rw [herase] at hnotify
  unfold unpair
  rw [hp.members, herase]
  dsimp only [List.head?_cons]
  rw [hstate]
  exact hnotify

/-- `drop` leaves nothing untold. -/
theorem dropN_sound (n : Nat) : DropSound n := by
  induction n with
  | zero =>
      intro s c X h hX hlive hfuel htorn
      exact absurd (lives_pos h.slot hlive hfuel) (by omega)
  | succ n ih =>
      intro s c X h hX hlive hfuel htorn
      cases hroom : (s.client c).room with
      | none =>
          rw [dropN_solo hlive.alive hroom]
          refine ((h.bury hroom).clientFree (by simp)).mono fun m hm => hm.2 ?_
          rcases hX m hm.1 with hmc | ⟨q, hq, -⟩
          · exact hmc
          · rw [hroom] at hq
            exact absurd hq (by simp)
      | some r =>
          have hX' : ∀ m, X m → m = c ∨ m ∈ (s.room r).members := by
            intro m hm
            rcases hX m hm with hmc | ⟨q, hq, hmq⟩
            · exact Or.inl hmc
            · rw [hroom, Option.some.injEq] at hq
              exact Or.inr (hq ▸ hmq)
          have hst := steady_dead c
          have hdead : ((removed c r s).client c).dead = true := by simp [removed]
          rw [dropN_room h.toShape hlive.alive hroom] at htorn ⊢
          cases hproto : s.proto with
          | v1 =>
              exact (unpair_inv h hlive hroom hX' hfuel hproto).clientFree
                (hst.unpair (fun d s hs => hst.dropN n d s hs) _ _ hdead)
          | v2 =>
              rw [hproto] at htorn
              exact (leave_inv ih h hlive hroom hX' hfuel htorn).clientFree
                (hst.leave (fun d s hs => hst.dropN n d s hs) _ _ _ _ hdead)

end SharkNetplay.Relay.C
