import Mathlib.Data.List.Dedup
import Mathlib.Data.List.Sort
import SharkNetplay.Lib.Slots
import SharkNetplay.Relay.Wire

/-!
# The CRC logs of a match

`log_crc` of both relays: the checksums the members of a started room report, by tick and
seat. A tick is judged when as many seats have reported it as the room has members.

## Implementation notes

The relays keep the log in the room. Here it is a state of its own, since nothing else of
the room enters but the number of its members, and the number of rounds that agreed is
counted modulo `2 ^ 32` in the C relay only. A log line is what it says, not its text.
-/

namespace SharkNetplay.Relay

open Lib

/-- What a comparator logs. -/
inductive CrcLine
  /-- `CRC MISMATCH tick %d: seat%d=$%04X …`. -/
  | mismatch (tick : Nat) (pairs : List (Nat × Nat))
  /-- `crc ok through tick %d (%d rounds)`. -/
  | ok (tick rounds : Nat)
  deriving Repr, DecidableEq

namespace CrcPayload

/-! A CRC payload: the seat, the tick and the checksum, low bytes first. -/

def seat (payload : List Nat) : Nat := payload.getD 0 0

def tick (payload : List Nat) : Nat := payload.getD 1 0 + payload.getD 2 0 * 256

def crc (payload : List Nat) : Nat := payload.getD 3 0 + payload.getD 4 0 * 256

end CrcPayload

open CrcPayload

/-- `CRC_TICKS`, and the 64 of `Server.log_crc`. -/
@[simp] def crcTicks : Nat := 64

/-- `len(set(values)) == 1`: all members are equal. -/
theorem dedup_length_eq_one {l : List Nat} (hl : l ≠ []) :
    l.dedup.length = 1 ↔ ∀ a ∈ l, ∀ b ∈ l, b = a := by
  rw [List.length_eq_one_iff]
  constructor
  · rintro ⟨v, hv⟩
    have hmem : ∀ a ∈ l, a = v := fun a ha => by
      have hdedup := List.mem_dedup.mpr ha
      rw [hv, List.mem_singleton] at hdedup
      exact hdedup
    exact fun a ha b hb => (hmem b hb).trans (hmem a ha).symm
  · intro hall
    obtain ⟨v, hv⟩ := List.exists_mem_of_ne_nil l hl
    refine ⟨v, List.perm_singleton.mp ?_⟩
    refine (List.perm_ext_iff_of_nodup (List.nodup_dedup l) (List.nodup_singleton v)).mpr ?_
    intro a
    rw [List.mem_dedup, List.mem_singleton]
    exact ⟨fun ha => hall v hv a ha, fun ha => ha ▸ hv⟩

/-! ## Python -/

namespace Py

/-- `room.crc` and `room.crc_ok`. -/
structure CrcLog where
  crc : List (Nat × List (Nat × Nat)) := []
  crcOk : Nat := 0
  deriving Repr, DecidableEq

/-- `sorted(entry.items())`. -/
def sortedItems (entry : List (Nat × Nat)) : List (Nat × Nat) :=
  entry.mergeSort fun a b => decide (a.1 < b.1) || (decide (a.1 = b.1) && decide (a.2 ≤ b.2))

/-- The entry of the tick after `entry[seat] = crc`. -/
def crcEntry (payload : List Nat) (log : CrcLog) : List (Nat × Nat) :=
  Dict.assign (seat payload) (crc payload) ((Dict.get (tick payload) log.crc).getD [])

/-- `room.crc` after the entry is stored and, beyond 64 ticks, the least one popped. -/
def crcStored (payload : List Nat) (log : CrcLog) : List (Nat × List (Nat × Nat)) :=
  let table := Dict.assign (tick payload) (crcEntry payload log) log.crc
  if crcTicks < table.length then Dict.erase (Dict.minKey table) table else table

/-- `log_crc` in a room of `n` members. -/
def logCrc (n : Nat) (payload : List Nat) (log : CrcLog) : CrcLog × List CrcLine :=
  let entry := crcEntry payload log
  let table := crcStored payload log
  if entry.length < n then ({ log with crc := table }, [])
  else
    let log := { log with crc := Dict.erase (tick payload) table }
    if (entry.map Prod.snd).dedup.length ≠ 1 then
      (log, [.mismatch (tick payload) (sortedItems entry)])
    else
      let log := { log with crcOk := log.crcOk + 1 }
      (log, if log.crcOk % 4 = 0 then [.ok (tick payload) log.crcOk] else [])

/-- `log_crc` on one payload after the other. -/
def logCrcs (n : Nat) : List (List Nat) → CrcLog → CrcLog × List CrcLine
  | [], log => (log, [])
  | payload :: rest, log =>
    let p := logCrc n payload log
    let q := logCrcs n rest p.1
    (q.1, p.2 ++ q.2)

/-- The checksum retained for a tick and a seat. -/
def CrcLog.view (log : CrcLog) (tick : Nat) : Option (Nat → Option Nat) :=
  (Dict.get tick log.crc).map fun entry seat => Dict.get seat entry

end Py

/-! ## C -/

namespace C

/-- `CRC_SEATS`. -/
@[simp] def crcSeats : Nat := 8

/-- `crcslot_t`. -/
structure CrcSlot where
  inUse : Bool := false
  seat : Nat := 0
  crc : Nat := 0

/-- `crcrow_t`. -/
structure CrcRow where
  inUse : Bool := false
  tick : Nat := 0
  nseats : Nat := 0
  s : Nat → CrcSlot := fun _ => {}

/-- `crc`, `ncrc` and `crc_ok` of `room_t`. -/
structure CrcTable where
  crc : Nat → CrcRow := fun _ => {}
  ncrc : Nat := 0
  crcOk : Nat := 0

namespace CrcTable

/-- The row of a tick. -/
def findRow (tick : Nat) (t : CrcTable) : Option Nat :=
  Slots.find CrcRow.inUse CrcRow.tick (crcTicks + 1) t.crc tick

/-- The row of a tick, or a free one made into it. -/
def rowFor (tick : Nat) (t : CrcTable) : Option (Nat × CrcTable) :=
  match t.findRow tick with
  | some i => some (i, t)
  | none => (Slots.free CrcRow.inUse (crcTicks + 1) t.crc).map fun i =>
    (i, { t with
      crc := Function.update t.crc i { inUse := true, tick := tick }
      ncrc := t.ncrc + 1 })

/-- The row with the lowest tick is dropped when there are more than `CRC_TICKS`. -/
def evict (t : CrcTable) : CrcTable :=
  if crcTicks < t.ncrc then
    match Slots.lowest CrcRow.inUse CrcRow.tick (crcTicks + 1) t.crc with
    | none => t
    | some i => { t with
        crc := Function.update t.crc i { t.crc i with inUse := false }
        ncrc := t.ncrc - 1 }
  else t

/-- `room.crc.pop(tick, None)` for the row at hand. -/
def pop (i : Nat) (t : CrcTable) : CrcTable :=
  if (t.crc i).inUse then
    { t with crc := Function.update t.crc i { t.crc i with inUse := false }, ncrc := t.ncrc - 1 }
  else t

end CrcTable

namespace CrcRow

/-- The slot of a seat. -/
def findSlot (seat : Nat) (row : CrcRow) : Option Nat :=
  Slots.find CrcSlot.inUse CrcSlot.seat crcSeats row.s seat

/-- Insert or replace; `none` when the eight slots are taken by other seats. -/
def put (seat crc : Nat) (row : CrcRow) : Option CrcRow :=
  match row.findSlot seat with
  | some j => some { row with s := Function.update row.s j { row.s j with crc := crc } }
  | none => (Slots.free CrcSlot.inUse crcSeats row.s).map fun j =>
    { row with s := Function.update row.s j ⟨true, seat, crc⟩, nseats := row.nseats + 1 }

/-- The loop that compares each value with the first one: values seen, the first, `agree`. -/
def compared (row : CrcRow) : Nat × Nat × Bool :=
  (List.range crcSeats).foldl (fun st j =>
    if (row.s j).inUse then
      if st.1 = 0 then (1, (row.s j).crc, st.2.2)
      else (st.1 + 1, st.2.1, st.2.2 && (row.s j).crc == st.2.1)
    else st) (0, 0, true)

def agree (row : CrcRow) : Bool := row.compared.2.2

/-- The pairs of one pass of the mismatch loop. -/
def pairsAt (pass : Nat) (row : CrcRow) : List (Nat × Nat) :=
  ((List.range crcSeats).filter fun j => (row.s j).inUse && (row.s j).seat == pass).map fun j =>
    ((row.s j).seat, (row.s j).crc)

/-- The mismatch loop: passes in ascending order until `nseats` pairs are out. -/
def pairs (row : CrcRow) : List (Nat × Nat) :=
  (List.range 256).foldl
    (fun out pass => if out.length < row.nseats then out ++ row.pairsAt pass else out) []

end CrcRow

/-- `log_crc` in a room of `n` members. -/
def logCrc (n : Nat) (payload : List Nat) (t : CrcTable) : CrcTable × List CrcLine :=
  match t.rowFor (tick payload) with
  | none => (t, [])
  | some (i, t) =>
    match (t.crc i).put (seat payload) (crc payload) with
    | none => (t, [])
    | some row =>
      let t := { t with crc := Function.update t.crc i row }.evict
      if (t.crc i).nseats < n then (t, [])
      else
        let row := t.crc i
        let t := t.pop i
        if row.agree then
          let t := { t with crcOk := (t.crcOk + 1) % 2 ^ 32 }
          (t, if t.crcOk % 4 = 0 then [.ok (tick payload) t.crcOk] else [])
        else (t, [.mismatch (tick payload) row.pairs])

/-- `log_crc` on one payload after the other. -/
def logCrcs (n : Nat) : List (List Nat) → CrcTable → CrcTable × List CrcLine
  | [], t => (t, [])
  | payload :: rest, t =>
    let p := logCrc n payload t
    let q := logCrcs n rest p.1
    (q.1, p.2 ++ q.2)

/-- The checksum retained for a tick and a seat. -/
def CrcTable.view (t : CrcTable) (tick : Nat) : Option (Nat → Option Nat) :=
  (t.findRow tick).map fun i seat => ((t.crc i).findSlot seat).map fun j => ((t.crc i).s j).crc

end C

end SharkNetplay.Relay
