import Mathlib.Data.List.Basic

/-!
# JSON text in ASCII

JSON values and their text as `json.dumps` writes it with its default separators and
`ensure_ascii`: one line, members in insertion order, every character outside the
printable ASCII range escaped.
-/

namespace SharkNetplay.Lib

/-- A text, as its code points. -/
abbrev Text := List Nat

/-- The code points of a string. -/
def text (s : String) : Text := s.toList.map Char.toNat

namespace Json

/-- A JSON value. -/
inductive Value
  | str (s : Text)
  | int (n : Int)
  | arr (vs : List Value)
  | obj (members : List (Text × Value))

/-- A lower-case hexadecimal digit. -/
def hexDigit (n : Nat) : Nat := if n < 10 then 48 + n else 87 + n

/-- `\u` and four hexadecimal digits. -/
def uEscape (n : Nat) : Text :=
  text "\\u" ++ [hexDigit (n / 4096 % 16), hexDigit (n / 256 % 16), hexDigit (n / 16 % 16),
    hexDigit (n % 16)]

/-- The escapes of two characters (`ESCAPE_DCT`). -/
def shortEscape : Nat → Option Text
  | 0x22 => some (text "\\\"")
  | 0x5C => some (text "\\\\")
  | 0x08 => some (text "\\b")
  | 0x0C => some (text "\\f")
  | 0x0A => some (text "\\n")
  | 0x0D => some (text "\\r")
  | 0x09 => some (text "\\t")
  | _ => none

/-- One character under `ensure_ascii`. -/
def encodeChar (c : Nat) : Text :=
  match shortEscape c with
  | some rep => rep
  | none =>
    if 0x20 ≤ c ∧ c ≤ 0x7E then [c]
    else if c < 0x10000 then uEscape c
    else
      -- a surrogate pair
      let n := c - 0x10000
      uEscape (0xD800 + n / 1024 % 1024) ++ uEscape (0xDC00 + n % 1024)

/-- A string with its quotes. -/
def encode (s : Text) : Text := text "\"" ++ s.flatMap encodeChar ++ text "\""

/-- The decimal text of an integer. -/
def decimal : Int → Text
  | .ofNat n => (Nat.toDigits 10 n).map Char.toNat
  | .negSucc n => text "-" ++ (Nat.toDigits 10 (n + 1)).map Char.toNat

mutual

/-- `json.dumps`. -/
def dumps : Value → Text
  | .str s => encode s
  | .int n => decimal n
  | .arr vs => text "[" ++ dumpsItems vs ++ text "]"
  | .obj members => text "\x7b" ++ dumpsMembers members ++ text "\x7d"

/-- The items of an array, after one another. -/
def dumpsItems : List Value → Text
  | [] => []
  | [v] => dumps v
  | v :: w :: vs => dumps v ++ text ", " ++ dumpsItems (w :: vs)

/-- The members of an object, after one another. -/
def dumpsMembers : List (Text × Value) → Text
  | [] => []
  | [(k, v)] => encode k ++ text ": " ++ dumps v
  | (k, v) :: e :: es => encode k ++ text ": " ++ dumps v ++ text ", " ++ dumpsMembers (e :: es)

end

/-! ## The text is printable ASCII -/

/-- Printable ASCII. -/
def Printable (c : Nat) : Prop := 0x20 ≤ c ∧ c ≤ 0x7E

instance (c : Nat) : Decidable (Printable c) := inferInstanceAs (Decidable (_ ∧ _))

/-- A text of printable characters. -/
def Plain (t : Text) : Prop := ∀ c ∈ t, Printable c

instance (t : Text) : Decidable (Plain t) := inferInstanceAs (Decidable (∀ c ∈ t, _))

theorem Plain.append {t u : Text} (ht : Plain t) (hu : Plain u) : Plain (t ++ u) := by
  intro c hc
  exact (List.mem_append.mp hc).elim (ht c) (hu c)

theorem hexDigit_printable {n : Nat} (hn : n < 16) : Printable (hexDigit n) := by
  unfold Printable hexDigit
  split <;> omega

theorem uEscape_plain (n : Nat) : Plain (uEscape n) := by
  apply Plain.append
  · decide
  · intro c hc
    simp only [List.mem_cons, List.not_mem_nil, or_false] at hc
    rcases hc with rfl | rfl | rfl | rfl
    all_goals exact hexDigit_printable (Nat.mod_lt _ (by decide))

theorem shortEscape_plain {c : Nat} {rep : Text} (h : shortEscape c = some rep) : Plain rep := by
  unfold shortEscape at h
  split at h
  all_goals first
    | (cases h; decide)
    | exact absurd h (by simp)

theorem encodeChar_plain (c : Nat) : Plain (encodeChar c) := by
  unfold encodeChar
  cases hshort : shortEscape c with
  | some rep => exact shortEscape_plain hshort
  | none =>
      dsimp only
      split_ifs with hraw hbmp
      · intro x hx
        rw [List.mem_singleton.mp hx]
        exact hraw
      · exact uEscape_plain c
      · exact (uEscape_plain _).append (uEscape_plain _)

theorem encode_plain (s : Text) : Plain (encode s) := by
  have hbody : Plain (s.flatMap encodeChar) := by
    intro x hx
    obtain ⟨c, -, hc⟩ := List.mem_flatMap.mp hx
    exact encodeChar_plain c x hc
  apply Plain.append
  · exact Plain.append (by decide) hbody
  · decide

theorem digits_plain (n : Nat) : Plain ((Nat.toDigits 10 n).map Char.toNat) := by
  intro x hx
  obtain ⟨d, hd, rfl⟩ := List.mem_map.mp hx
  have hdigit := Nat.isDigit_of_mem_toDigits (by decide) (by decide) hd
  simp only [Char.isDigit, Bool.and_eq_true, decide_eq_true_eq, UInt32.le_iff_toNat_le] at hdigit
  constructor
  · exact Nat.le_trans (by decide) hdigit.1
  · exact Nat.le_trans hdigit.2 (by decide)

theorem decimal_plain (n : Int) : Plain (decimal n) := by
  cases n with
  | ofNat n => exact digits_plain n
  | negSucc n => exact Plain.append (by decide) (digits_plain (n + 1))

mutual

/-- `json.dumps` writes printable ASCII. -/
theorem dumps_plain : (v : Value) → Plain (dumps v)
  | .str s => by
      rw [dumps]
      exact encode_plain s
  | .int n => by
      rw [dumps]
      exact decimal_plain n
  | .arr vs => by
      rw [dumps]
      apply Plain.append
      · exact Plain.append (by decide) (dumpsItems_plain vs)
      · decide
  | .obj members => by
      rw [dumps]
      apply Plain.append
      · exact Plain.append (by decide) (dumpsMembers_plain members)
      · decide

theorem dumpsItems_plain : (vs : List Value) → Plain (dumpsItems vs)
  | [] => by
      rw [dumpsItems]
      decide
  | [v] => by
      rw [dumpsItems]
      exact dumps_plain v
  | v :: w :: vs => by
      rw [dumpsItems]
      apply Plain.append
      · exact (dumps_plain v).append (by decide)
      · exact dumpsItems_plain (w :: vs)

theorem dumpsMembers_plain : (members : List (Text × Value)) → Plain (dumpsMembers members)
  | [] => by
      rw [dumpsMembers]
      decide
  | [(k, v)] => by
      rw [dumpsMembers]
      apply Plain.append
      · exact (encode_plain k).append (by decide)
      · exact dumps_plain v
  | (k, v) :: e :: es => by
      have hfirst : Plain (encode k ++ text ": " ++ dumps v) :=
        ((encode_plain k).append (by decide)).append (dumps_plain v)
      rw [dumpsMembers]
      apply Plain.append
      · exact hfirst.append (by decide)
      · exact dumpsMembers_plain (e :: es)

end

end Json

end SharkNetplay.Lib
