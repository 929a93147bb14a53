import SharkNetplay.Relay.CrcLog

/-!
# The CRC logs of a v1 pair

`log_crc_v1`: every client has a log of its own, and whoever reports a tick second pops the
partner's entry and compares. The 65 entries of a client store a dictionary from ticks to
checksums, whatever is reported: popping erases the tick, recording assigns it, and beyond
64 entries the lowest tick is dropped.

## Implementation notes

The clients are a function of their index, and the room is the list of its members. An
entry that is not in use keeps what it held.
-/

namespace SharkNetplay.Relay.C

open Lib

namespace CrcPayloadV1

/-! A v1 CRC payload: the tick and the checksum, low bytes first. -/

def tick (payload : List Nat) : Nat := payload.getD 0 0 + payload.getD 1 0 * 256

def crc (payload : List Nat) : Nat := payload.getD 2 0 + payload.getD 3 0 * 256

end CrcPayloadV1

open CrcPayloadV1

/-- `crclog_t`. -/
structure CrcEntry where
  inUse : Bool := false
  tick : Nat := 0
  crc : Nat := 0

/-- `crclog`, `ncrclog` and `crc_ok` of `client_t`. -/
structure CrcClient where
  crclog : Nat → CrcEntry := fun _ => {}
  ncrclog : Nat := 0
  crcOk : Nat := 0

/-- What the v1 comparator logs. -/
inductive CrcLineV1
  /-- `CRC MISMATCH tick %u: %s=$%04X %s=$%04X`. -/
  | mismatch (tick client crc partner partnerCrc : Nat)
  /-- `crc ok through tick %u (%u pairs)`. -/
  | ok (tick pairs : Nat)
  deriving Repr, DecidableEq

namespace CrcClient

/-- The entry of a tick. -/
def findEntry (tick : Nat) (c : CrcClient) : Option Nat :=
  Slots.find CrcEntry.inUse CrcEntry.tick (crcTicks + 1) c.crclog tick

/-- `crc_log.pop(tick)`: the checksum of the entry, and the log without it. -/
def pop (tick : Nat) (c : CrcClient) : Option (Nat × CrcClient) :=
  (c.findEntry tick).map fun i =>
    ((c.crclog i).crc, { c with
      crclog := Function.update c.crclog i { c.crclog i with inUse := false }
      ncrclog := c.ncrclog - 1 })

/-- `crc_log[tick] = crc`; `none` when no entry is free. -/
def record (tick crc : Nat) (c : CrcClient) : Option CrcClient :=
  match c.findEntry tick with
  | some i => some { c with crclog := Function.update c.crclog i { c.crclog i with crc := crc } }
  | none => (Slots.free CrcEntry.inUse (crcTicks + 1) c.crclog).map fun i =>
    { c with crclog := Function.update c.crclog i ⟨true, tick, crc⟩, ncrclog := c.ncrclog + 1 }

/-- The entry with the lowest tick is dropped when there are more than `CRC_TICKS`. -/
def evict (c : CrcClient) : CrcClient :=
  if crcTicks < c.ncrclog then
    match Slots.lowest CrcEntry.inUse CrcEntry.tick (crcTicks + 1) c.crclog with
    | none => c
    | some i => { c with
        crclog := Function.update c.crclog i { c.crclog i with inUse := false }
        ncrclog := c.ncrclog - 1 }
  else c

/-- `crc_ok++`. -/
def agree (c : CrcClient) : CrcClient := { c with crcOk := (c.crcOk + 1) % 2 ^ 32 }

end CrcClient

/-- The last member of the room that is not the client. -/
def crcPartner (members : List Nat) (ci : Nat) : Option Nat :=
  members.foldl (fun partner m => if m ≠ ci then some m else partner) none

/-- `log_crc_v1` of client `ci`. -/
def logCrcV1 (members : List Nat) (ci : Nat) (payload : List Nat) (clients : Nat → CrcClient) :
    (Nat → CrcClient) × List CrcLineV1 :=
  match crcPartner members ci with
  | none => (clients, [])
  | some partner =>
    match (clients partner).pop (tick payload) with
    | some (e, popped) =>
      let clients := Function.update clients partner popped
      if e ≠ crc payload then
        (clients, [.mismatch (tick payload) ci (crc payload) partner e])
      else
        let clients := Function.update clients ci (clients ci).agree
        let clients := Function.update clients partner (clients partner).agree
        (clients,
          if (clients ci).crcOk % 4 = 0 then [.ok (tick payload) (clients ci).crcOk] else [])
    | none =>
      match (clients ci).record (tick payload) (crc payload) with
      | none => (clients, [])
      | some c => (Function.update clients ci c.evict, [])

/-- `log_crc_v1` on one report after the other. -/
def logCrcsV1 (members : List Nat) :
    List (Nat × List Nat) → (Nat → CrcClient) → (Nat → CrcClient) × List CrcLineV1
  | [], clients => (clients, [])
  | (ci, payload) :: rest, clients =>
    let p := logCrcV1 members ci payload clients
    let q := logCrcsV1 members rest p.1
    (q.1, p.2 ++ q.2)

/-- The logs that `start_pair` resets. -/
def startLogs (host guest : Nat) (clients : Nat → CrcClient) : Nat → CrcClient :=
  Function.update (Function.update clients host {}) guest {}

theorem crcPartner_pair {a b : Nat} (hab : a ≠ b) :
    crcPartner [a, b] a = some b ∧ crcPartner [a, b] b = some a := by
  simp [crcPartner, hab, hab.symm]

/-! ## The dictionary of a log -/

/-- The entries of the client store the dictionary, which has at most 64 ticks. -/
structure Logs (c : CrcClient) (d : List (Nat × Nat)) : Prop where
  stores : Slots.Stores CrcEntry.inUse CrcEntry.tick (crcTicks + 1) c.crclog
    (fun e crc => e.crc = crc) d
  ncrclog : c.ncrclog = d.length
  few : d.length ≤ crcTicks

/-- `d` without its least key when it has more than 64. -/
def trimmed (d : List (Nat × Nat)) : List (Nat × Nat) :=
  if crcTicks < d.length then Dict.erase (Dict.minKey d) d else d

namespace Logs

variable {c : CrcClient} {d : List (Nat × Nat)}

theorem empty : Logs {} [] where
  stores := Slots.Stores.empty fun _ _ => rfl
  ncrclog := rfl
  few := Nat.zero_le _

theorem agree (h : Logs c d) : Logs c.agree d := ⟨h.stores, h.ncrclog, h.few⟩

/-- The counter is the number of entries in use. -/
theorem count (h : Logs c d) :
    c.ncrclog = Slots.count CrcEntry.inUse (crcTicks + 1) c.crclog := by
  rw [h.stores.count]
  exact h.ncrclog

/-- Popping a tick finds what the dictionary has for it, and erases it. -/
theorem pop (h : Logs c d) (tick : Nat) :
    match Dict.get tick d with
    | none => c.pop tick = none
    | some crc => ∃ c', c.pop tick = some (crc, c') ∧ c'.crcOk = c.crcOk ∧
        Logs c' (Dict.erase tick d) := by
  unfold CrcClient.pop CrcClient.findEntry
  cases hfind : Slots.find CrcEntry.inUse CrcEntry.tick (crcTicks + 1) c.crclog tick with
  | none =>
      rw [(h.stores.find_iff tick).mp hfind]
      rfl
  | some i =>
      obtain ⟨hi, hused, hkey⟩ := Slots.find_some hfind
      obtain ⟨crc, hcrc, rfl⟩ := h.stores.find_get hfind
      have hlength := Dict.length_erase h.stores.keyed (k := tick) (by rw [hcrc]; rfl)
      have hcount := h.ncrclog
      have hfew := h.few
      rw [hcrc]
      refine ⟨_, rfl, rfl, ?_, ?_, ?_⟩
      · rw [← hkey]
        exact h.stores.remove hi hused rfl
      · dsimp only
        omega
      · omega

/-- There is an entry for every tick. -/
theorem record (h : Logs c d) (tick crc : Nat) :
    ∃ c', c.record tick crc = some c' ∧ c'.crcOk = c.crcOk ∧
      Slots.Stores CrcEntry.inUse CrcEntry.tick (crcTicks + 1) c'.crclog
        (fun e crc => e.crc = crc) (Dict.assign tick crc d) ∧
      c'.ncrclog = (Dict.assign tick crc d).length := by
  have hlength := Dict.length_assign d tick crc
  unfold CrcClient.record CrcClient.findEntry
  cases hfind : Slots.find CrcEntry.inUse CrcEntry.tick (crcTicks + 1) c.crclog tick with
  | some i =>
      obtain ⟨hi, hused, hkey⟩ := Slots.find_some hfind
      obtain ⟨b, hb, -⟩ := h.stores.find_get hfind
      refine ⟨_, rfl, rfl, h.stores.assign hi (Or.inl hfind) hused hkey rfl, ?_⟩
      rw [hlength, hb, Option.isSome_some, if_pos rfl]
      exact h.ncrclog
  | none =>
      have hroom : Slots.count CrcEntry.inUse (crcTicks + 1) c.crclog < crcTicks + 1 := by
        rw [h.stores.count]
        exact Nat.lt_succ_of_le h.few
      obtain ⟨i, hfree⟩ := Slots.free_isSome hroom
      obtain ⟨hi, hunused⟩ := Slots.free_some hfree
      have hget := (h.stores.find_iff tick).mp hfind
      dsimp only
      rw [hfree]
      refine ⟨_, rfl, rfl, h.stores.assign hi (Or.inr ⟨hfind, hunused⟩) rfl rfl rfl, ?_⟩
      rw [hlength, hget, Option.isSome_none, if_neg Bool.false_ne_true, ← h.ncrclog]

/-- The eviction leaves at most 64. -/
theorem evict {c : CrcClient} {d : List (Nat × Nat)}
    (hstores : Slots.Stores CrcEntry.inUse CrcEntry.tick (crcTicks + 1) c.crclog
      (fun e crc => e.crc = crc) d)
    (hcount : c.ncrclog = d.length) (hfew : d.length ≤ crcTicks + 1) :
    c.evict.crcOk = c.crcOk ∧ Logs c.evict (trimmed d) := by
  unfold CrcClient.evict trimmed
  by_cases hmany : crcTicks < d.length
  · rw [if_pos (hcount ▸ hmany), if_pos hmany]
    obtain ⟨i, hlow, hi, hused, hkey⟩ := hstores.lowest_key (List.ne_nil_of_length_pos (by omega))
    obtain ⟨b, hb, -⟩ := hstores.sound i hi hused
    have hlength := Dict.length_erase hstores.keyed (k := Dict.minKey d) (by rw [← hkey, hb]; rfl)
    rw [hlow]
    refine ⟨rfl, ?_, ?_, ?_⟩
    · rw [← hkey]
      exact hstores.remove hi hused rfl
    · dsimp only
      omega
    · omega
  · rw [if_neg (hcount ▸ hmany), if_neg hmany]
    exact ⟨rfl, hstores, hcount, by omega⟩

/-- Recording and evicting. -/
theorem recorded (h : Logs c d) (tick crc : Nat) :
    ∃ c', c.record tick crc = some c' ∧ c'.evict.crcOk = c.crcOk ∧
      Logs c'.evict (trimmed (Dict.assign tick crc d)) := by
  obtain ⟨c', hrecord, hok, hstores, hcount⟩ := h.record tick crc
  have hlength := Dict.length_assign d tick crc
  have hfew := h.few
  obtain ⟨hok', hlogs⟩ := evict hstores hcount (by split at hlength <;> omega)
  exact ⟨c', hrecord, hok'.trans hok, hlogs⟩

end Logs

/-! ## One report -/

/-- A report equal to the partner's pops the entry and counts for both. -/
theorem logCrcV1_same {members : List Nat} {ci partner : Nat} {payload : List Nat}
    {clients : Nat → CrcClient} {d : List (Nat × Nat)}
    (hpartner : crcPartner members ci = some partner) (hne : ci ≠ partner)
    (hlogs : Logs (clients partner) d) (hget : Dict.get (tick payload) d = some (crc payload)) :
    ∃ p, (logCrcV1 members ci payload clients).1 =
        Function.update (Function.update clients ci (clients ci).agree) partner p.agree ∧
      p.crcOk = (clients partner).crcOk ∧ Logs p (Dict.erase (tick payload) d) ∧
      ∀ t a x b y, .mismatch t a x b y ∉ (logCrcV1 members ci payload clients).2 := by
  have hpop := hlogs.pop (tick payload)
  rw [hget] at hpop
  obtain ⟨p, hp, hok, hlogs'⟩ := hpop
  unfold logCrcV1
  rw [hpartner]
  dsimp only
  rw [hp]
  dsimp only
  rw [if_neg (not_not.mpr rfl)]
  refine ⟨p, ?_, hok, hlogs', fun t a x b y hmem => ?_⟩
  · dsimp only
    rw [Function.update_of_ne hne, Function.update_of_ne hne.symm, Function.update_self,
      Function.update_comm hne, Function.update_idem]
    exact Function.update_comm hne.symm ..
  · dsimp only at hmem
    split at hmem
    · exact nomatch List.mem_singleton.mp hmem
    · exact nomatch hmem

/-- A report that differs from the partner's pops the entry and is logged. -/
theorem logCrcV1_differs {members : List Nat} {ci partner : Nat} {payload : List Nat}
    {clients : Nat → CrcClient} {d : List (Nat × Nat)} {e : Nat}
    (hpartner : crcPartner members ci = some partner) (hlogs : Logs (clients partner) d)
    (hget : Dict.get (tick payload) d = some e) (hcrc : e ≠ crc payload) :
    ∃ p, logCrcV1 members ci payload clients = (Function.update clients partner p,
        [.mismatch (tick payload) ci (crc payload) partner e]) ∧
      p.crcOk = (clients partner).crcOk ∧ Logs p (Dict.erase (tick payload) d) := by
  have hpop := hlogs.pop (tick payload)
  rw [hget] at hpop
  obtain ⟨p, hp, hok, hlogs'⟩ := hpop
  unfold logCrcV1
  rw [hpartner]
  dsimp only
  rw [hp]
  dsimp only
  rw [if_pos hcrc]
  exact ⟨p, rfl, hok, hlogs'⟩

/-- A report of a tick that the partner has no entry for is recorded. -/
theorem logCrcV1_first {members : List Nat} {ci partner : Nat} {payload : List Nat}
    {clients : Nat → CrcClient} {d d' : List (Nat × Nat)}
    (hpartner : crcPartner members ci = some partner)
    (hlogs : Logs (clients partner) d) (hown : Logs (clients ci) d')
    (hget : Dict.get (tick payload) d = none) :
    ∃ c, logCrcV1 members ci payload clients = (Function.update clients ci c, []) ∧
      c.crcOk = (clients ci).crcOk ∧
      Logs c (trimmed (Dict.assign (tick payload) (crc payload) d')) := by
  have hpop := hlogs.pop (tick payload)
  rw [hget] at hpop
  obtain ⟨c, hrecord, hok, hlogs'⟩ := hown.recorded (tick payload) (crc payload)
  unfold logCrcV1
  rw [hpartner]
  dsimp only
  rw [hpop]
  dsimp only
  rw [hrecord]
  exact ⟨c.evict, rfl, hok, hlogs'⟩

end SharkNetplay.Relay.C
