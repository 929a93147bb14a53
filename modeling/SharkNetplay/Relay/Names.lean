import Mathlib.Data.List.TakeWhile
import SharkNetplay.Relay.C
import SharkNetplay.Relay.Python

/-!
# Names in both relays

What HELLO registers and whom JOIN finds. The Python relay compares decoded text; the C
relay strips bytes, bounds them and compares C strings.
-/

namespace SharkNetplay.Relay

open Lib

/-- A name HELLO accepts. -/
structure ValidName (name : Name) : Prop where
  long : 2 ≤ name.length
  short : name.length ≤ 8
  chars : name.all nameChar = true

/-- The target lookup of the Python `on_join`. -/
def Py.joinTarget (payload : List Nat) (s : Py.Server) : Option Nat :=
  Py.lookup (Py.rstrip (Py.decode payload)) s

/-- The target lookup of the C `on_join`. -/
def C.joinTarget (payload : List Nat) (s : C.Server) : Option Nat :=
  let name := C.rstripNulSpace payload
  if 8 < name.length then none else C.nameFind (C.cString name) s

/-- `on_join` of the Python relay looks up `joinTarget`. -/
theorem Py.onJoin_target (c : Nat) (payload : List Nat) (s : Py.Server) :
    Py.onJoin c payload s =
      if (s.client c).name.isNone then (s, true)
      else if (s.client c).room.isSome then (s, false)
      else
        match Py.joinTarget payload s with
        | none => (Py.onList c s, false)
        | some target =>
          if Py.unjoinable c target s then (Py.onList c s, false)
          else
            let p := Py.roomFor target s
            let r := p.2
            let s := (p.1.seat r ((p.1.room r).members ++ [c])).link c (some r)
            let s := Py.roomBroadcast Py.drop r s
            if s.autoGo ≠ 0 ∧ s.autoGo ≤ (s.room r).members.length then Py.startRoom r s
            else (s, false) :=
  Py.onJoin_eq c payload s

/-- `on_join` of the C relay looks up `joinTarget`. -/
theorem C.onJoin_target (c : Nat) (payload : List Nat) (s : C.Server) :
    C.onJoin c payload s =
      if (s.client c).name.isEmpty then C.drop c s
      else if (s.client c).room.isSome then s
      else
        match C.joinTarget payload s with
        | none => C.onList c s
        | some target =>
          match s.proto with
          | .v1 =>
            if target = c ∨ (s.client target).name.isEmpty ∨ (s.client target).room.isSome then
              C.onList c s
            else C.startPair target c s
          | .v2 => if C.unjoinable c target s then C.onList c s else C.enter c target s := by
  unfold C.onJoin C.joinTarget
  dsimp only
  split
  · rfl
  split
  · rfl
  split
  · rfl
  · rfl

/-! ## Stripping and decoding -/

/-- The character a byte decodes to. -/
def decoded (b : Nat) : Nat := if b < 128 then b else 0xFFFD

theorem decode_eq (p : List Nat) : Py.decode p = p.map decoded := rfl

theorem decoded_blank (b : Nat) : (decoded b == 0 || decoded b == 32) = (b == 0 || b == 32) := by
  unfold decoded
  split
  · rfl
  · have h₁ : (b == 0) = false := by simpa using by omega
    have h₂ : (b == 32) = false := by simpa using by omega
    rw [h₁, h₂]
    rfl

/-- Stripping the text is stripping the bytes. -/
theorem rstrip_decode (p : List Nat) : Py.rstrip (Py.decode p) = Py.decode (C.rstripNulSpace p) := by
  unfold Py.rstrip C.rstripNulSpace
  rw [decode_eq, decode_eq, ← List.map_reverse, List.dropWhile_map, List.map_reverse]
  congr 3
  funext b
  exact decoded_blank b

theorem nameChar_decoded (b : Nat) : nameChar (decoded b) = nameChar b := by
  unfold decoded
  split
  · rfl
  · have hbig : nameChar b = false := by
      unfold nameChar
      simp only [Bool.or_eq_false_iff, Bool.and_eq_false_iff, decide_eq_false_iff_not]
      omega
    rw [hbig]
    rfl

theorem decode_all (p : List Nat) : (Py.decode p).all nameChar = p.all nameChar := by
  rw [decode_eq, List.all_map]
  congr 1
  funext b
  exact nameChar_decoded b

theorem nameChar_range {b : Nat} (h : nameChar b = true) : 48 ≤ b ∧ b ≤ 90 := by
  simp only [nameChar, Bool.or_eq_true, Bool.and_eq_true, decide_eq_true_eq] at h
  omega

/-- A name of legal characters decodes to itself. -/
theorem decode_name {p : List Nat} (h : p.all nameChar = true) : Py.decode p = p := by
  rw [decode_eq]
  conv_rhs => rw [← List.map_id p]
  refine List.map_congr_left fun b hb => ?_
  have hrange := nameChar_range (List.all_eq_true.mp h b hb)
  exact if_pos (by omega)

/-- A name of legal characters has nothing to strip. -/
theorem rstrip_name {p : List Nat} (h : p.all nameChar = true) : Py.rstrip p = p := by
  unfold Py.rstrip
  have hself : p.reverse.dropWhile (fun b => b == 0 || b == 32) = p.reverse := by
    refine List.dropWhile_eq_self_iff.mpr fun hpos => ?_
    have hmem : p.reverse[0] ∈ p := List.mem_reverse.mp (List.getElem_mem hpos)
    have hrange := nameChar_range (List.all_eq_true.mp h _ hmem)
    simp only [Bool.or_eq_true, beq_iff_eq]
    omega
  rw [hself, List.reverse_reverse]

/-- HELLO with a valid name is accepted, under exactly this name. -/
theorem helloName_valid {name : Name} (h : ValidName name) :
    Py.helloName (2 :: name) = some name := by
  unfold Py.helloName
  have hlong := h.long
  rw [if_neg (by simp only [List.length_cons, List.headD_cons]; omega)]
  dsimp only [List.tail_cons]
  rw [decode_name h.chars, rstrip_name h.chars, if_pos ⟨h.long, h.short, h.chars⟩]

theorem cString_self {p : List Nat} (h : 0 ∉ p) : C.cString p = p := by
  refine List.takeWhile_eq_self_iff.mpr fun b hb => ?_
  simp only [bne_iff_ne, ne_eq]
  rintro rfl
  exact h hb

/-- HELLO: the same payloads are accepted, with the same names. -/
theorem helloName_alike (payload : List Nat) :
    Py.helloName payload = C.helloName .v2 payload := by
  unfold Py.helloName C.helloName
  by_cases hshort : payload.length < 3
  · rw [if_pos (Or.inl hshort), if_pos hshort]
  rw [if_neg hshort]
  by_cases hver : payload.headD 0 = 2
  · have hpy : ¬ (payload.length < 3 ∨ payload.headD 0 ≠ 2) := by omega
    have hc : ¬ (C.Proto.v2 = C.Proto.v2 ∧ payload.headD 0 ≠ 2) := fun h => h.2 hver
    rw [if_neg hpy, if_neg hc]
    dsimp only
    rw [rstrip_decode, decode_all]
    have hlen : (Py.decode (C.rstripNulSpace payload.tail)).length =
        (C.rstripNulSpace payload.tail).length := List.length_map _
    rw [hlen]
    by_cases hname : 2 ≤ (C.rstripNulSpace payload.tail).length ∧
        (C.rstripNulSpace payload.tail).length ≤ 8 ∧
        (C.rstripNulSpace payload.tail).all nameChar = true
    · rw [if_pos hname, if_pos hname, decode_name hname.2.2]
    · rw [if_neg hname, if_neg hname]
  · rw [if_pos (Or.inr hver), if_pos ⟨rfl, hver⟩]

/-- The stripped payload fits the C buffer, has a NUL, and is a registered name before it. -/
def Cut (payload : List Nat) (reg : List (Name × Nat)) : Prop :=
  (C.rstripNulSpace payload).length ≤ 8 ∧ 0 ∈ C.rstripNulSpace payload ∧
    ∃ e ∈ reg, e.1 = C.cString (C.rstripNulSpace payload)

/-- HELLO is the same in both relays; JOIN finds the same client exactly when the payload is
not cut. -/
theorem names_alike_iff (payload : List Nat) (s : Py.Server) (t : C.Server)
    (hreg : s.byName = t.byName) (hvalid : ∀ e ∈ t.byName, ValidName e.1) :
    Py.helloName payload = C.helloName .v2 payload ∧
      ((∀ c, C.joinTarget payload t = some c ↔ Py.joinTarget payload s = some c) ↔
        ¬ Cut payload t.byName) := by
  refine ⟨helloName_alike payload, ?_⟩
  unfold C.joinTarget Py.joinTarget Py.lookup C.nameFind Cut
  rw [rstrip_decode, hreg]
  dsimp only
  generalize C.rstripNulSpace payload = p
  have hpy : ∀ e ∈ t.byName, e.1 = Py.decode p → Py.decode p = p ∧ p.length ≤ 8 ∧ 0 ∉ p := by
    intro e he heq
    have hname := hvalid e he
    have hchars : p.all nameChar = true := by
      rw [← decode_all, ← heq]
      exact hname.chars
    have hlen : (Py.decode p).length = p.length := List.length_map _
    refine ⟨decode_name hchars, ?_, fun h0 => ?_⟩
    · rw [← hlen, ← heq]
      exact hname.short
    · exact absurd (nameChar_range (List.all_eq_true.mp hchars 0 h0)) (by decide)
  by_cases h0 : 0 ∈ p
  · -- Python finds nobody, since no valid name holds a NUL
    have hnone : Dict.get (Py.decode p) t.byName = none :=
      Dict.get_eq_none fun e he heq => (hpy e he heq).2.2 h0
    rw [hnone]
    constructor
    · rintro hsame ⟨hlen, -, e, he, heq⟩
      rw [if_neg (by omega), ← heq] at hsame
      obtain ⟨c, hc⟩ := Option.isSome_iff_exists.mp (Dict.get_isSome he)
      exact absurd ((hsame c).mp hc) (by simp)
    · intro hcut c
      constructor
      · intro hc
        by_cases hlen : 8 < p.length
        · rw [if_pos hlen] at hc
          exact absurd hc (by simp)
        · rw [if_neg hlen] at hc
          exact absurd ⟨by omega, h0, _, Dict.mem_of_get hc, rfl⟩ hcut
      · intro hc
        exact absurd hc (by simp)
  · -- without a NUL the C string is the stripped payload
    have hcut : ¬ (p.length ≤ 8 ∧ 0 ∈ p ∧ ∃ e ∈ t.byName, e.1 = C.cString p) := fun h => h0 h.2.1
    refine ⟨fun _ => hcut, fun _ c => ?_⟩
    rw [cString_self h0]
    by_cases hkey : ∃ e ∈ t.byName, e.1 = Py.decode p
    · obtain ⟨e, he, heq⟩ := hkey
      obtain ⟨hself, hlen, -⟩ := hpy e he heq
      rw [if_neg (by omega), hself]
    · have hnone : Dict.get (Py.decode p) t.byName = none :=
        Dict.get_eq_none fun e he heq => hkey ⟨e, he, heq⟩
      have hnone' : Dict.get p t.byName = none := by
        refine Dict.get_eq_none fun e he heq => hkey ⟨e, he, ?_⟩
        rw [decode_name (heq ▸ (hvalid e he).chars), heq]
      rw [hnone, hnone', ite_self]

/-- A registry with one name, and payloads with and without a NUL inside. -/
theorem names_alike_iff_found :
    Py.helloName [65, 66, 32, 0] = C.helloName .v2 [65, 66, 32, 0] ∧
      ((∀ c, C.joinTarget [65, 66, 32, 0]
          { C.Server.init .v2 2 2 0 [] [] with byName := [([65, 66], 3)] } = some c ↔
        Py.joinTarget [65, 66, 32, 0]
          { Py.Server.init 2 0 [] [] with byName := [([65, 66], 3)] } = some c) ↔
        ¬ Cut [65, 66, 32, 0] [([65, 66], 3)]) :=
  names_alike_iff _ _ _ rfl (by
    intro e he
    obtain rfl := List.mem_singleton.mp he
    exact ⟨by decide, by decide, by decide⟩)

/-- JOIN with `AB`, NUL, `C` finds `AB` in the C relay only. -/
theorem names_not_alike :
    C.joinTarget [65, 66, 0, 67]
        { C.Server.init .v2 2 2 0 [] [] with byName := [([65, 66], 3)] } = some 3 ∧
      Py.joinTarget [65, 66, 0, 67]
        { Py.Server.init 2 0 [] [] with byName := [([65, 66], 3)] } = none := by
  decide

end SharkNetplay.Relay
