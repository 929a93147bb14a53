import SharkNetplay.Relay.CInvariant

/-!
# The main loop of the C relay and its epoll tags

An event names a connection by a slot and the generation of the slot. Slots are freed
and given away again while a batch is served; an event still acts on its own connection
or on none.

## Implementation notes

`epoll_wait` reports a descriptor that is watched, with the tag it was registered under.
`watched` records every `EPOLL_CTL_ADD`, with the number of the connection;
`EPOLL_CTL_MOD` registers the same tag again and `drop` ends the registration. The
connection an event is reported for, the result of its `recv` and the connection its
`accept` returns come with the event.
-/

namespace SharkNetplay.Relay.C

variable {s s' : Server} {c : Nat}

@[simp] def tagListen : Nat := 0xFFFFFFFFFFFFFFFF
@[simp] def tagSig : Nat := 0xFFFFFFFFFFFFFFFE

/-- `tag_of`. -/
def tagOf (ci : Nat) (s : Server) : Nat := (s.client ci).gen * 2 ^ 32 + ci

/-- What the `recv` of `service` returns. -/
inductive Received
  | data (bytes : List Nat)
  | again
  /-- Nothing, or an error. -/
  | ended

/-- An entry of the batch `epoll_wait` returns. -/
structure Polled where
  tag : Nat
  /-- The connection whose descriptor is reported. -/
  conn : Nat
  /-- `EPOLLOUT`. -/
  out : Bool
  /-- `EPOLLIN`, `EPOLLHUP` or `EPOLLERR`. -/
  hot : Bool
  received : Received
  /-- The address of the connection to accept, and whether epoll takes it. -/
  pending : Option (Nat × Bool)

/-- `accept_client`; `added` says whether `EPOLL_CTL_ADD` succeeds. -/
def acceptWith (ip : Nat) (added : Bool) (s : Server) : Server × Option Nat :=
  if maxClients ≤ s.nClients then (s, none)
  else if maxConnectionsPerIp ≤
      ((List.range maxClients).filter fun i => (s.client i).inUse && (s.client i).ip == ip).length
    then (s, none)
  else
    match (List.range maxClients).find? fun i => !(s.client i).inUse with
    | none => (s, none)
    | some i =>
      match added with
      | true => (admitted i ip s, some i)
      | false => (clientFree i (admitted i ip s), none)

/-- An accept that epoll takes is that of the relay's events. -/
theorem acceptWith_added (ip : Nat) (s : Server) : (acceptWith ip true s).1 = acceptClient ip s := by
  unfold acceptWith acceptClient clientAlloc
  split_ifs
  · rfl
  · rfl
  · dsimp only
    cases (List.range maxClients).find? fun i => !(s.client i).inUse <;> rfl

/-- `service`. -/
def service (received : Received) (ci : Nat) (s : Server) : Server :=
  match received with
  | .data bytes => feed bytes.length ci bytes s
  | .again => s
  | .ended => drop ci s

/-- A call of `f` for slot `ci`, made if it is wanted and the client is not dead. With the state
comes the call, if one was made: its slot and the state it was made in. -/
def callPolled (wanted : Bool) (f : Nat → Server → Server) (ci : Nat) (s : Server) :
    Server × List (Nat × Server) :=
  if wanted && !(s.client ci).dead then (f ci s, [(ci, s)]) else (s, [])

/-- The loop's body for a client: `flush` on `EPOLLOUT`, then `service`. -/
def servePolled (e : Polled) (ci : Nat) (s : Server) : Server × List (Nat × Server) :=
  let flushed := callPolled e.out (flush drop) ci s
  let served := callPolled e.hot (service e.received) ci flushed.1
  (served.1, flushed.2 ++ served.2)

/-- The relay, and the connections given to epoll so far with their tags. -/
structure Loop where
  server : Server
  watched : List (Nat × Nat)

namespace Loop

/-- The body of the loop over the batch, with its calls of `flush` and `service`. -/
def serve (e : Polled) (m : Loop) : Loop × List (Nat × Server) :=
  let s := m.server
  if e.tag = tagListen then
    match e.pending with
    | none => (m, [])
    | some (ip, added) =>
      match acceptWith ip added s with
      | (s, none) => ({ m with server := s }, [])
      | (s, some i) => (⟨s, m.watched ++ [((s.client i).conn, tagOf i s)]⟩, [])
  else if e.tag = tagSig then (m, [])
  else
    let ci := e.tag % 2 ^ 32
    if maxClients ≤ ci then (m, [])
    else if !(s.client ci).inUse || (s.client ci).gen != e.tag / 2 ^ 32 % 2 ^ 32 then (m, [])
    else
      let served := servePolled e ci s
      ({ m with server := served.1 }, served.2)

/-- The events of a batch, in turn. -/
def batch (evs : List Polled) (m : Loop) : Loop := evs.foldl (fun m e => (serve e m).1) m

/-- A batch `epoll_wait` may return. -/
def Waits (evs : List Polled) (m : Loop) : Prop :=
  evs.length ≤ maxClients + 2 ∧ ∀ e ∈ evs, e.tag = tagListen ∨ e.tag = tagSig ∨
    ((e.conn, e.tag) ∈ m.watched ∧
      ∃ c < maxClients, Live c m.server ∧ (m.server.client c).conn = e.conn)

/-- The states in which the loop comes to `epoll_wait`. -/
inductive Reach : Loop → Prop
  | start (proto : Proto) (maxSeats : Nat) (delay : Int) (autoGo : Nat)
    (outcomes : List SendResult) (seeds : List Seed) :
    Reach ⟨Server.init proto maxSeats delay autoGo outcomes seeds, []⟩
  | round {m : Loop} (evs : List Polled) (late : List Nat) (h : Reach m) (hwaits : Waits evs m) :
    Reach { batch evs m with server := sweep late (batch evs m).server }

end Loop

/-! ## What a handler does to a slot -/

/-- The slot is as it was, or its client died and was freed, once. -/
def SlotStep (v v' : Client) : Prop :=
  v'.conn = v.conn ∧
    ((v'.gen = v.gen ∧ v'.inUse = v.inUse ∧ v'.dead = v.dead) ∨
      (v.dead = false ∧ v'.dead = true ∧ v'.inUse = false ∧ v'.gen = (v.gen + 1) % 2 ^ 32))

/-- No slot is given away, and each is freed at most once. -/
def Frees (s s' : Server) : Prop :=
  s'.conns = s.conns ∧ ∀ i, SlotStep (s.client i) (s'.client i)

theorem SlotStep.of_eq {v v' : Client} (hconn : v'.conn = v.conn) (hgen : v'.gen = v.gen)
    (hin : v'.inUse = v.inUse) (hdead : v'.dead = v.dead) : SlotStep v v' :=
  ⟨hconn, Or.inl ⟨hgen, hin, hdead⟩⟩

theorem SlotStep.trans {u v w : Client} (h : SlotStep u v) (h' : SlotStep v w) : SlotStep u w := by
  obtain ⟨hc, h⟩ := h
  obtain ⟨hc', h'⟩ := h'
  refine ⟨hc'.trans hc, ?_⟩
  rcases h with ⟨hg, hi, hd⟩ | ⟨hd, hd₁, hi, hg⟩
  · rcases h' with ⟨hg', hi', hd'⟩ | ⟨hd', hd₂, hi', hg'⟩
    · exact Or.inl ⟨hg'.trans hg, hi'.trans hi, hd'.trans hd⟩
    · exact Or.inr ⟨hd ▸ hd', hd₂, hi', by rw [hg', hg]⟩
  · rcases h' with ⟨hg', hi', hd'⟩ | ⟨hd', -⟩
    · exact Or.inr ⟨hd, hd'.trans hd₁, hi'.trans hi, hg'.trans hg⟩
    · exact absurd (hd₁.symm.trans hd') (by simp)

namespace Frees

theorem refl (s : Server) : Frees s s := ⟨rfl, fun _ => .of_eq rfl rfl rfl rfl⟩

theorem trans {t : Server} (h : Frees s s') (h' : Frees s' t) : Frees s t :=
  ⟨h'.1.trans h.1, fun i => (h.2 i).trans (h'.2 i)⟩

/-- A change of one client that leaves its slot alone. -/
theorem onClient {t : Server} {f : Client → Client} (hclient : t.client = s.client)
    (hconns : t.conns = s.conns)
    (hf : ∀ v, (f v).conn = v.conn ∧ (f v).gen = v.gen ∧ (f v).inUse = v.inUse ∧
      (f v).dead = v.dead) : Frees s (t.onClient c f) := by
  refine ⟨hconns, fun i => ?_⟩
  obtain ⟨h₁, h₂, h₃, h₄⟩ := hf (t.client c)
  rw [← hclient]
  exact .of_eq (Server.onClient_proj Client.conn h₁ i) (Server.onClient_proj Client.gen h₂ i)
    (Server.onClient_proj Client.inUse h₃ i) (Server.onClient_proj Client.dead h₄ i)

theorem of_client (hconns : s'.conns = s.conns) (hclient : s'.client = s.client) : Frees s s' :=
  ⟨hconns, fun i => by rw [hclient]; exact .of_eq rfl rfl rfl rfl⟩

end Frees

theorem idle_frees (s₀ : Server) : Idle (Frees s₀) where
  staged _ _ _ _ _ h := h.trans (.onClient rfl rfl fun _ => ⟨rfl, rfl, rfl, rfl⟩)
  overran _ _ h := h.trans (.of_client rfl rfl)
  tear _ _ h := h.trans (.of_client rfl rfl)
  link _ _ h := h.trans (.onClient rfl rfl fun _ => ⟨rfl, rfl, rfl, rfl⟩)
  seat _ _ _ h := h.trans (.of_client rfl rfl)
  vacate _ _ h := h.trans (.of_client rfl rfl)
  expect p s h := by
    refine h.trans ?_
    unfold Server.expect
    split
    · exact .refl s
    · exact .of_client rfl rfl

/-- Between its burial and the end of its drop a dead client keeps its slot. -/
theorem frees_of_bury (hlive : (s.client c).dead = false) (h : Frees (bury c s) s') :
    Frees s (clientFree c s') := by
  refine ⟨h.1, fun i => ?_⟩
  obtain ⟨hconn, hslot⟩ := h.2 i
  by_cases hi : i = c
  · have hburied : ((bury c s).client i).dead = true := by
      rw [bury_client_dead, if_pos hi]
    have hgen : ((bury c s).client i).gen = (s.client i).gen :=
      Server.onClient_proj Client.gen rfl i
    rcases hslot with ⟨hg, -, hd⟩ | ⟨hd, -⟩
    · refine ⟨?_, Or.inr ⟨by rw [hi]; exact hlive, ?_, ?_, ?_⟩⟩
      · rw [clientFree_client_conn, hconn, bury_client_conn]
      · rw [clientFree_client_dead, hd, hburied]
      · rw [clientFree_client_inUse, if_pos hi]
      · rw [← hgen, ← hg, hi]
        unfold clientFree
        rw [Server.client_onClient, if_pos rfl]
    · exact absurd (hburied.symm.trans hd) (by simp)
  · have hsame : (clientFree c s').client i = s'.client i := by
      unfold clientFree
      rw [Server.client_onClient, if_neg hi]
    have hbury : (bury c s).client i = s.client i := by
      unfold bury
      rw [Server.client_onClient, if_neg hi]
    rw [hsame, ← hbury]
    exact ⟨hconn, hslot⟩

/-- A drop frees the slots of the clients it drops, each once. -/
theorem dropN_frees (n c : Nat) (s : Server) : Frees s (dropN n c s) := by
  induction n generalizing c s with
  | zero => exact (idle_frees s).expect _ s (.refl s)
  | succ n ih =>
      have hd : ∀ s₀ c s, Frees s₀ s → Frees s₀ (dropN n c s) := fun _ c s h => h.trans (ih c s)
      unfold dropN
      split
      · exact .refl s
      · next hlive =>
          have hlive : (s.client c).dead = false := by simpa using hlive
          have h := idle_frees (bury c s)
          dsimp only
          split
          · exact frees_of_bury hlive (.refl _)
          · refine frees_of_bury hlive ?_
            have hpart : ∀ (p : Bool) (r : Nat) (ms : List Nat),
                Frees (bury c s) ((((bury c s).expect p).link c none).seat r ms) := fun p r ms =>
              h.seat _ _ _ (h.link _ _ (h.expect _ _ (.refl _)))
            split
            · exact h.unpair (hd _) _ _ (hpart _ _ _)
            · exact h.leave (hd _) _ _ _ _ (hpart _ _ _)

theorem handled_frees (s₀ : Server) : Handled (Frees s₀) :=
  { idle_frees s₀ with
    drop := fun c s h => h.trans (dropN_frees _ c s)
    setName := fun _ _ _ h => h.trans (.onClient rfl rfl fun _ => ⟨rfl, rfl, rfl, rfl⟩)
    byName := fun _ _ h => h.trans (.of_client rfl rfl)
    seeds := fun _ _ h => h.trans (.of_client rfl rfl)
    start := fun _ _ _ h => h.trans (.of_client rfl rfl)
    opened := fun _ _ _ _ h => h.trans (.of_client rfl rfl)
    linked := fun _ _ _ h => h.trans (.onClient rfl rfl fun _ => ⟨rfl, rfl, rfl, rfl⟩) }

theorem flush_frees (c : Nat) (s : Server) : Frees s (flush drop c s) := by
  have hset : Frees s ({ s with
      outcomes := (flushLoop s.outcomes (s.client c).tx).rest }.onClient c fun v =>
        { v with tx := (flushLoop s.outcomes (s.client c).tx).tx }) :=
    .onClient rfl rfl fun _ => ⟨rfl, rfl, rfl, rfl⟩
  unfold flush
  dsimp only
  split
  · exact hset
  · exact (handled_frees s).drop c _ hset

theorem service_frees (received : Received) (c : Nat) (s : Server) :
    Frees s (service received c s) := by
  cases received with
  | data bytes =>
      exact (handled_frees s).feed (fun _ _ _ h => h.trans
        (.onClient rfl rfl fun _ => ⟨rfl, rfl, rfl, rfl⟩)) _ bytes (.refl s)
  | again => exact .refl s
  | ended => exact (handled_frees s).drop c s (.refl s)

theorem callPolled_frees {f : Nat → Server → Server} (hf : ∀ c s, Frees s (f c s)) (wanted : Bool)
    (c : Nat) (s : Server) : Frees s (callPolled wanted f c s).1 := by
  unfold callPolled
  split
  · exact hf c s
  · exact .refl s

theorem servePolled_frees (e : Polled) (c : Nat) (s : Server) : Frees s (servePolled e c s).1 :=
  (callPolled_frees flush_frees e.out c s).trans (callPolled_frees (service_frees _) e.hot c _)

/-- A call is made for the client of the slot, not dead. -/
theorem callPolled_mem {wanted : Bool} {f : Nat → Server → Server} {call : Nat × Server}
    (h : call ∈ (callPolled wanted f c s).2) : call = (c, s) ∧ (s.client c).dead = false := by
  unfold callPolled at h
  split at h
  · next hcall =>
      rw [Bool.and_eq_true] at hcall
      exact ⟨List.mem_singleton.mp h, by simpa using hcall.2⟩
  · exact absurd h List.not_mem_nil

theorem servePolled_mem {e : Polled} {call : Nat × Server} (h : call ∈ (servePolled e c s).2) :
    call.1 = c ∧ Frees s call.2 ∧ (call.2.client c).dead = false := by
  rcases List.mem_append.mp h with h | h
  · obtain ⟨rfl, halive⟩ := callPolled_mem h
    exact ⟨rfl, .refl s, halive⟩
  · obtain ⟨rfl, halive⟩ := callPolled_mem h
    exact ⟨rfl, callPolled_frees flush_frees e.out c s, halive⟩

theorem sweep_frees (late : List Nat) (s : Server) : Frees s (sweep late s) :=
  Steady.foldl ((handled_frees s).sweepSlot late) _ s (.refl s)

/-! ## Tags and registrations -/

/-- A client's tag is none of the two others. -/
theorem tagOf_ne (hc : c < maxClients) (s : Server) : tagOf c s ≠ tagListen ∧ tagOf c s ≠ tagSig := by
  unfold tagOf
  simp only [maxClients, tagListen, tagSig] at *
  omega

namespace Loop

/-- The tag of a watched connection is that of its slot. -/
structure Inv (m : Loop) : Prop where
  gen : ∀ i, (m.server.client i).gen < 2 ^ 32
  conn : ∀ i, (m.server.client i).inUse = true → (m.server.client i).conn < m.server.conns
  past : ∀ p ∈ m.watched, p.1 < m.server.conns
  tagged : ∀ i, Live i m.server → ∀ tag, ((m.server.client i).conn, tag) ∈ m.watched →
    tag = tagOf i m.server

variable {m : Loop}

theorem SlotStep.live {i : Nat} (h : SlotStep (s.client i) (s'.client i)) (hl : Live i s') :
    Live i s ∧ (s'.client i).gen = (s.client i).gen := by
  rcases h.2 with ⟨hg, hi, hd⟩ | ⟨-, hd, -⟩
  · exact ⟨⟨hi ▸ hl.inUse, hd ▸ hl.alive⟩, hg⟩
  · exact absurd (hd.symm.trans hl.alive) (by simp)

theorem Inv.frees (hi : Inv m) (h : Frees m.server s) : Inv { m with server := s } where
  gen i := by
    show (s.client i).gen < 2 ^ 32
    rcases (h.2 i).2 with ⟨hg, -⟩ | ⟨-, -, -, hg⟩
    · rw [hg]
      exact hi.gen i
    · rw [hg]
      exact Nat.mod_lt _ (by decide)
  conn i hin := by
    show (s.client i).conn < s.conns
    rw [h.1, (h.2 i).1]
    rcases (h.2 i).2 with ⟨-, hu, -⟩ | ⟨-, -, hu, -⟩
    · exact hi.conn i (hu ▸ hin)
    · exact absurd (hin.symm.trans hu) (by simp)
  past p hp := by
    show p.1 < s.conns
    rw [h.1]
    exact hi.past p hp
  tagged i hl tag hmem := by
    obtain ⟨hlive, hgen⟩ := SlotStep.live (h.2 i) hl
    show tag = (s.client i).gen * 2 ^ 32 + i
    rw [hgen]
    exact hi.tagged i hlive tag ((h.2 i).1 ▸ hmem)

theorem admitted_gen (i ip k : Nat) (s : Server) :
    ((admitted i ip s).client k).gen = (s.client k).gen := by
  rw [admitted_client]
  split
  · next hk => rw [hk]
  · rfl

/-- A connection epoll takes is watched under the tag of its slot. -/
theorem Inv.admitted (hi : Inv m) (i ip : Nat) :
    Inv ⟨admitted i ip m.server, m.watched ++
      [(((admitted i ip m.server).client i).conn, tagOf i (admitted i ip m.server))]⟩ where
  gen k := by
    show ((C.admitted i ip m.server).client k).gen < 2 ^ 32
    rw [admitted_gen]
    exact hi.gen k
  conn k hin := by
    show ((C.admitted i ip m.server).client k).conn < m.server.conns + 1
    have hin' : ((C.admitted i ip m.server).client k).inUse = true := hin
    rw [admitted_client] at hin' ⊢
    split
    · exact Nat.lt_succ_self _
    · next hk =>
        rw [if_neg hk] at hin'
        exact Nat.lt_succ_of_lt (hi.conn k hin')
  past p hp := by
    show p.1 < m.server.conns + 1
    rcases List.mem_append.mp hp with hp | hp
    · exact Nat.lt_succ_of_lt (hi.past p hp)
    · rw [List.mem_singleton.mp hp, admitted_client, if_pos rfl]
      exact Nat.lt_succ_self _
  tagged k hl tag hmem := by
    have hmem' : (((C.admitted i ip m.server).client k).conn, tag) ∈ m.watched ++
      [(((C.admitted i ip m.server).client i).conn, tagOf i (C.admitted i ip m.server))] := hmem
    by_cases hk : k = i
    · rw [hk] at hmem' ⊢
      rcases List.mem_append.mp hmem' with hp | hp
      · have hlt := hi.past _ hp
        rw [admitted_client, if_pos rfl] at hlt
        exact absurd hlt (Nat.lt_irrefl _)
      · exact (Prod.mk.inj (List.mem_singleton.mp hp)).2
    · have hsame : (C.admitted i ip m.server).client k = m.server.client k := by
        rw [admitted_client, if_neg hk]
      have hlive : Live k m.server := ⟨hsame ▸ hl.inUse, hsame ▸ hl.alive⟩
      rw [hsame] at hmem'
      show tag = ((C.admitted i ip m.server).client k).gen * 2 ^ 32 + k
      rw [hsame]
      rcases List.mem_append.mp hmem' with hp | hp
      · exact hi.tagged k hlive tag hp
      · have hconn := (Prod.mk.inj (List.mem_singleton.mp hp)).1
        rw [admitted_client, if_pos rfl] at hconn
        exact absurd (hi.conn k hlive.inUse) (by rw [hconn]; exact Nat.lt_irrefl _)

/-- A connection epoll does not take is freed at once. -/
theorem Inv.refused (hi : Inv m) (i ip : Nat) :
    Inv { m with server := clientFree i (C.admitted i ip m.server) } := by
  have h := hi.admitted i ip
  refine ⟨fun k => ?_, fun k hin => ?_, fun p hp => ?_, fun k hl tag hmem => ?_⟩
  · show ((clientFree i (C.admitted i ip m.server)).client k).gen < 2 ^ 32
    unfold clientFree
    rw [Server.client_onClient]
    split
    · exact Nat.mod_lt _ (by decide)
    · exact h.gen k
  · have hin' : ((clientFree i (C.admitted i ip m.server)).client k).inUse = true := hin
    rw [clientFree_client_inUse] at hin'
    split at hin'
    · exact absurd hin' (by simp)
    · show ((clientFree i (C.admitted i ip m.server)).client k).conn < m.server.conns + 1
      rw [clientFree_client_conn]
      exact h.conn k hin'
  · exact h.past p (List.mem_append_left _ hp)
  · have hin : ((clientFree i (C.admitted i ip m.server)).client k).inUse = true := hl.inUse
    have hdead : ((clientFree i (C.admitted i ip m.server)).client k).dead = false := hl.alive
    rw [clientFree_client_inUse] at hin
    split at hin
    · exact absurd hin (by simp)
    · next hk =>
        rw [clientFree_client_dead] at hdead
        have hmem' : ((clientFree i (C.admitted i ip m.server)).client k).conn = _ :=
          clientFree_client_conn i k _
        rw [show ({ m with server := clientFree i (C.admitted i ip m.server) } : Loop).server =
          clientFree i (C.admitted i ip m.server) from rfl, hmem'] at hmem
        have htag := h.tagged k ⟨hin, hdead⟩ tag (List.mem_append_left _ hmem)
        rw [htag]
        show tagOf k (C.admitted i ip m.server) = tagOf k (clientFree i (C.admitted i ip m.server))
        unfold tagOf clientFree
        rw [Server.client_onClient, if_neg hk]

/-! ## One event -/

/-- What one event does to the tables: a connection comes, or clients go. -/
inductive Served (m : Loop) : Loop → Prop
  | frees {s : Server} (h : Frees m.server s) : Served m { m with server := s }
  | admitted {i : Nat} (ip : Nat) (hfree : (m.server.client i).inUse = false) :
    Served m ⟨C.admitted i ip m.server, m.watched ++
      [(((C.admitted i ip m.server).client i).conn, tagOf i (C.admitted i ip m.server))]⟩
  | refused {i : Nat} (ip : Nat) (hfree : (m.server.client i).inUse = false) :
    Served m { m with server := clientFree i (C.admitted i ip m.server) }

theorem serve_served (e : Polled) (m : Loop) : Served m (serve e m).1 := by
  unfold serve
  dsimp only
  split
  · split
    · exact .frees (.refl _)
    · next ip added hpending =>
        unfold acceptWith
        by_cases hfull : maxClients ≤ m.server.nClients
        · rw [if_pos hfull]
          exact .frees (.refl _)
        rw [if_neg hfull]
        split_ifs
        · exact .frees (.refl _)
        · cases hslot : (List.range maxClients).find? fun i => !(m.server.client i).inUse with
          | none => exact .frees (.refl _)
          | some i =>
              have hfree : (m.server.client i).inUse = false := by
                simpa using List.find?_some hslot
              cases added with
              | true => exact .admitted ip hfree
              | false => exact .refused ip hfree
  split
  · exact .frees (.refl _)
  split
  · exact .frees (.refl _)
  split
  · exact .frees (.refl _)
  · exact .frees (servePolled_frees e _ _)

theorem Inv.served {m' : Loop} (hi : Inv m) (h : Served m m') : Inv m' := by
  cases h with
  | frees h => exact hi.frees h
  | admitted ip => exact hi.admitted _ ip
  | refused ip => exact hi.refused _ ip

theorem batch_inv (hi : Inv m) (evs : List Polled) : Inv (batch evs m) := by
  induction evs generalizing m with
  | nil => exact hi
  | cons e evs ih => exact ih (hi.served (serve_served e m))

theorem reach_inv (h : Reach m) : Inv m := by
  induction h with
  | start =>
      refine ⟨fun _ => Nat.zero_lt_succ _, fun _ hin => ?_, fun _ hmem => ?_, fun _ hlive => ?_⟩
      · exact absurd hin (by simp [Server.init])
      · exact absurd hmem List.not_mem_nil
      · exact absurd hlive.inUse (by simp [Server.init])
  | round evs late _ _ ih => exact (batch_inv ih evs).frees (sweep_frees late _)

/-! ## A batch -/

/-- After `n` events: a slot that was freed at most `n` times, and is the one it was if
it was not freed. -/
def Kept (v₀ : Client) (n : Nat) (v : Client) : Prop :=
  ∃ k ≤ n, v.gen = (v₀.gen + k) % 2 ^ 32 ∧
    (k = 0 → v.conn = v₀.conn ∧ v.inUse = true ∧ v.dead = false)

theorem Kept.slotStep {v₀ v v' : Client} {n : Nat} (h : Kept v₀ n v) (hs : SlotStep v v') :
    Kept v₀ (n + 1) v' := by
  obtain ⟨k, hk, hgen, hzero⟩ := h
  rcases hs.2 with ⟨hg, hi, hd⟩ | ⟨-, -, -, hg⟩
  · refine ⟨k, by omega, hg.trans hgen, fun h0 => ?_⟩
    obtain ⟨h₁, h₂, h₃⟩ := hzero h0
    exact ⟨hs.1.trans h₁, hi.trans h₂, hd.trans h₃⟩
  · refine ⟨k + 1, by omega, ?_, fun h0 => absurd h0 (Nat.succ_ne_zero k)⟩
    rw [hg, hgen, Nat.mod_add_mod, Nat.add_assoc]

theorem Kept.served {v₀ : Client} {n i : Nat} {m' : Loop} (h : Kept v₀ n (m.server.client i))
    (hs : Served m m') : Kept v₀ (n + 1) (m'.server.client i) := by
  cases hs with
  | frees hf => exact h.slotStep (hf.2 i)
  | @admitted j ip hfree =>
      show Kept v₀ (n + 1) ((C.admitted j ip m.server).client i)
      rw [admitted_client]
      split
      · next hij =>
          obtain ⟨k, hk, hgen, hzero⟩ := h
          refine ⟨k, by omega, hij ▸ hgen, fun h0 => ?_⟩
          have hin := (hzero h0).2.1
          rw [hij, hfree] at hin
          exact absurd hin (by simp)
      · exact h.slotStep (.of_eq rfl rfl rfl rfl)
  | @refused j ip hfree =>
      show Kept v₀ (n + 1) ((clientFree j (C.admitted j ip m.server)).client i)
      unfold clientFree
      rw [Server.client_onClient]
      split
      · next hij =>
          obtain ⟨k, hk, hgen, -⟩ := h
          refine ⟨k + 1, by omega, ?_, fun h0 => absurd h0 (Nat.succ_ne_zero k)⟩
          show (((C.admitted j ip m.server).client j).gen + 1) % 2 ^ 32 = _
          rw [admitted_gen, ← hij, hgen, Nat.mod_add_mod, Nat.add_assoc]
      · next hij =>
          show Kept v₀ (n + 1) ((C.admitted j ip m.server).client i)
          rw [admitted_client, if_neg hij]
          exact h.slotStep (.of_eq rfl rfl rfl rfl)

theorem batch_kept {v₀ : Client} {n i : Nat} (h : Kept v₀ n (m.server.client i))
    (evs : List Polled) : Kept v₀ (n + evs.length) ((batch evs m).server.client i) := by
  induction evs generalizing m n with
  | nil => exact h
  | cons e evs ih =>
      have hstep := ih (h.served (serve_served e m))
      rw [List.length_cons, Nat.add_comm evs.length 1, ← Nat.add_assoc]
      exact hstep

/-- A call is made for the slot of the tag, of the generation of the tag, for a client
that is not dead. -/
theorem serve_call {e : Polled} {call : Nat × Server} (h : call ∈ (serve e m).2) :
    e.tag ≠ tagListen ∧ e.tag ≠ tagSig ∧ call.1 = e.tag % 2 ^ 32 ∧
      (m.server.client call.1).gen = e.tag / 2 ^ 32 % 2 ^ 32 ∧ Frees m.server call.2 ∧
      (call.2.client call.1).dead = false := by
  unfold serve at h
  dsimp only at h
  split at h
  · split at h
    · exact absurd h (by simp)
    · split at h <;> exact absurd h (by simp)
  next hlisten =>
  split at h
  · exact absurd h (by simp)
  next hsig =>
  split at h
  · exact absurd h (by simp)
  split at h
  · exact absurd h (by simp)
  next hmatch =>
  rw [Bool.or_eq_true, not_or] at hmatch
  obtain ⟨hci, hfrees, halive⟩ := servePolled_mem h
  rw [hci]
  exact ⟨hlisten, hsig, rfl, by simpa using hmatch.2, hfrees, halive⟩

/-- No client has the tag of the listener or of the signal pipe, and an event of a batch
reaches the connection it was reported for, not dropped, or none. -/
theorem stale_events (m : Loop) (hm : Reach m) :
    (∀ ci < maxClients, tagOf ci m.server ≠ tagListen ∧ tagOf ci m.server ≠ tagSig) ∧
    ∀ evs, Waits evs m → ∀ before e after, evs = before ++ e :: after →
      ∀ call ∈ (serve e (batch before m)).2,
        (call.2.client call.1).conn = e.conn ∧ (call.2.client call.1).inUse = true ∧
          (call.2.client call.1).dead = false := by
  refine ⟨fun ci hci => tagOf_ne hci m.server, ?_⟩
  rintro evs ⟨hlen, hwaits⟩ before e after rfl ⟨ci, s⟩ hcall
  obtain ⟨hlisten, hsig, hci, hgen, hfrees, halive⟩ := serve_call hcall
  obtain ⟨hmem, c, hc, hlive, hconn⟩ :=
    ((hwaits e (by simp)).resolve_left hlisten).resolve_left hsig
  -- the tag names the slot the connection had when epoll reported it
  have hi := reach_inv hm
  have htag : e.tag = tagOf c m.server := hi.tagged c hlive e.tag (by rw [hconn]; exact hmem)
  have hbound := hi.gen c
  unfold tagOf at htag
  simp only [maxClients] at hc hlen
  have hslot : e.tag % 2 ^ 32 = c := by omega
  have hgeneration : e.tag / 2 ^ 32 % 2 ^ 32 = (m.server.client c).gen := by omega
  dsimp only at hci hgen halive ⊢
  rw [hci, hslot] at hgen halive ⊢
  -- of that generation it is the same connection, since the batch is short
  have hstart : Kept (m.server.client c) 0 (m.server.client c) :=
    ⟨0, Nat.le_refl _, (Nat.mod_eq_of_lt hbound).symm,
      fun _ => ⟨rfl, hlive.inUse, hlive.alive⟩⟩
  obtain ⟨k, hk, hkgen, hzero⟩ := batch_kept hstart before
  rw [List.length_append, List.length_cons] at hlen
  have hk0 : k = 0 := by
    rw [hgen, hgeneration] at hkgen
    omega
  obtain ⟨hconn', hin', -⟩ := hzero hk0
  refine ⟨((hfrees.2 c).1.trans hconn').trans hconn, ?_, halive⟩
  rcases (hfrees.2 c).2 with ⟨-, hin, -⟩ | ⟨-, hd, -⟩
  · exact hin.trans hin'
  · exact absurd (hd.symm.trans halive) (by simp)

/-- The event of the listener, with a connection to accept. -/
def knock : Polled :=
  { tag := tagListen, conn := 0, out := false, hot := true, received := .again
    pending := some (1, true) }

/-- The first connection is writable and has been closed by its peer. -/
def hangUp : Polled :=
  { tag := 0, conn := 0, out := true, hot := true, received := .ended, pending := none }

theorem sweep_nil (s : Server) : sweep [] s = s := by
  have hslot : ∀ (s : Server) (i : Nat), sweepSlot [] s i = s := fun s i => if_neg (by simp)
  exact @Steady.foldl (fun s' => s' = s) _ (fun s' i h => (hslot s' i).trans h) _ s rfl

/-- The hang-up of a first connection, twice in a batch and around a second connection: the first
one is flushed and served. -/
theorem stale_events_hangUp : ∃ m, Reach m ∧ Waits [hangUp, knock, hangUp] m ∧
    (serve hangUp m).2.map Prod.fst = [0, 0] ∧
    (∀ call ∈ (serve hangUp m).2, (call.2.client call.1).conn = 0 ∧
      (call.2.client call.1).inUse = true ∧ (call.2.client call.1).dead = false) ∧
    ∀ call ∈ (serve hangUp (batch [hangUp, knock] m)).2, (call.2.client call.1).conn = 0 ∧
      (call.2.client call.1).inUse = true ∧ (call.2.client call.1).dead = false := by
  have hreach := Reach.round [knock] [] (.start .v2 2 3 0 [] []) ⟨by decide, by simp [knock]⟩
  have hstate : batch [knock] ⟨Server.init .v2 2 3 0 [] [], []⟩ =
      ⟨C.admitted 0 1 (Server.init .v2 2 3 0 [] []), [(0, 0)]⟩ := rfl
  rw [hstate, sweep_nil] at hreach
  have hwaits : Waits [hangUp, knock, hangUp]
      ⟨C.admitted 0 1 (Server.init .v2 2 3 0 [] []), [(0, 0)]⟩ := by
    have hlive : (hangUp.conn, hangUp.tag) ∈ [(0, 0)] ∧
        ∃ c < maxClients, Live c (C.admitted 0 1 (Server.init .v2 2 3 0 [] [])) ∧
          ((C.admitted 0 1 (Server.init .v2 2 3 0 [] [])).client c).conn = hangUp.conn :=
      ⟨by decide, 0, by decide, ⟨rfl, rfl⟩, rfl⟩
    refine ⟨by decide, fun e he => ?_⟩
    simp only [List.mem_cons, List.not_mem_nil, or_false] at he
    rcases he with rfl | rfl | rfl
    · exact Or.inr (Or.inr hlive)
    · exact Or.inl rfl
    · exact Or.inr (Or.inr hlive)
  exact ⟨_, hreach, hwaits, by decide +kernel,
    (stale_events _ hreach).2 _ hwaits [] hangUp [knock, hangUp] rfl,
    (stale_events _ hreach).2 _ hwaits [hangUp, knock] hangUp [] rfl⟩

end Loop

end SharkNetplay.Relay.C
