import Mathlib.Data.List.Basic

/-!
# Length-prefixed frames

A stream of frames `len type payload` with `len` counting type and payload. The
parameter `ok` says which lengths a type may have; a reader that meets a head it
forbids drops one byte and tries again.
-/

namespace SharkNetplay.Lib

namespace Framing

variable (ok : Nat → Nat → Bool)

/-- What a reader makes of the bytes received so far. -/
inductive Cut
  /-- Too few bytes to decide, or to have the whole frame. -/
  | wait
  /-- The head is no frame's: one byte is dropped. -/
  | slip
  /-- A whole frame and what follows it. -/
  | frame (f rest : List Nat)
  deriving DecidableEq

/-- One decision of the reader. The head is judged as soon as it is there. -/
def cut : List Nat → Cut
  | len :: ty :: rest =>
    if ok ty len then
      if rest.length + 1 < len then .wait
      else .frame ((len :: ty :: rest).take (len + 1)) ((len :: ty :: rest).drop (len + 1))
    else .slip
  | _ => .wait

/-- A frame the reader's table admits. -/
structure WellFormed (f : List Nat) : Prop where
  long : 2 ≤ f.length
  length_eq : f.length = f.headD 0 + 1
  admitted : ok (f.getD 1 0) (f.headD 0) = true

/-- The frames that lie whole within the first `n` bytes. -/
def wholeWithin : List (List Nat) → Nat → List (List Nat)
  | [], _ => []
  | f :: fs, n => if f.length ≤ n then f :: wholeWithin fs (n - f.length) else []

variable {ok}

namespace WellFormed

theorem cases_eq {f : List Nat} (h : WellFormed ok f) :
    ∃ len ty rest, f = len :: ty :: rest ∧ rest.length + 1 = len ∧ ok ty len = true := by
  match f, h with
  | [], h => exact absurd h.long (by simp)
  | [_], h => exact absurd h.long (by simp)
  | len :: ty :: rest, h =>
      exact ⟨len, ty, rest, rfl, by simpa using h.length_eq, by simpa using h.admitted⟩

end WellFormed

/-- A whole admitted frame is cut off. -/
theorem cut_append {f : List Nat} (h : WellFormed ok f) (rest : List Nat) :
    cut ok (f ++ rest) = .frame f rest := by
  obtain ⟨len, ty, tail, rfl, hlen, hok⟩ := h.cases_eq
  have hlong : ¬ (tail ++ rest).length + 1 < len := by
    rw [List.length_append]
    omega
  have htake : len + 1 = (len :: ty :: tail).length := by
    simp only [List.length_cons]
    omega
  have hcut : cut ok (len :: ty :: (tail ++ rest)) =
      .frame ((len :: ty :: (tail ++ rest)).take (len + 1))
        ((len :: ty :: (tail ++ rest)).drop (len + 1)) := by
    simp only [cut, hok, if_true, if_neg hlong]
  calc cut ok (len :: ty :: tail ++ rest) = _ := hcut
    _ = .frame (((len :: ty :: tail) ++ rest).take (len :: ty :: tail).length)
          (((len :: ty :: tail) ++ rest).drop (len :: ty :: tail).length) := by
        rw [← htake]; rfl
    _ = .frame (len :: ty :: tail) rest := by
        rw [List.take_left, List.drop_left]

/-- The reader waits on a proper prefix of an admitted frame. -/
theorem cut_initial {f p : List Nat} (h : WellFormed ok f) (hp : p <+: f)
    (hlt : p.length < f.length) : cut ok p = .wait := by
  obtain ⟨len, ty, tail, rfl, hlen, hok⟩ := h.cases_eq
  match p, hp with
  | [], _ => rfl
  | [_], _ => rfl
  | a :: b :: q, hp =>
      obtain ⟨ha, hp⟩ := List.cons_prefix_cons.mp hp
      obtain ⟨hb, -⟩ := List.cons_prefix_cons.mp hp
      have hshort : q.length + 1 < len := by
        simp only [List.length_cons] at hlt
        omega
      simp only [cut, ha, hb, hok, if_true, if_pos hshort]

/-- Reading a stream of admitted frames of which `buf` has arrived: the reader waits for the
rest of the first frame, or cuts it off. It never slips. -/
theorem cut_stream {buf wire : List Nat} {fs : List (List Nat)} (hfs : ∀ f ∈ fs, WellFormed ok f)
    (h : buf ++ wire = fs.flatten) :
    (cut ok buf = .wait ∧ (buf = [] ∨ ∃ f ∈ fs, buf.length < f.length)) ∨
      ∃ f fs' rest, fs = f :: fs' ∧ cut ok buf = .frame f rest ∧ rest ++ wire = fs'.flatten := by
  cases fs with
  | nil =>
      have hempty : buf = [] := (List.append_eq_nil_iff.mp h).1
      rw [hempty]
      exact Or.inl ⟨rfl, Or.inl rfl⟩
  | cons f fs =>
      have hf : WellFormed ok f := hfs f (by simp)
      rw [List.flatten_cons] at h
      by_cases hlt : buf.length < f.length
      · have hprefix : buf <+: f := List.prefix_of_prefix_length_le
          ⟨wire, h⟩ (List.prefix_append _ _) (Nat.le_of_lt hlt)
        exact Or.inl ⟨cut_initial hf hprefix hlt, Or.inr ⟨f, by simp, hlt⟩⟩
      · have hprefix : f <+: buf := List.prefix_of_prefix_length_le
          (List.prefix_append _ _) ⟨wire, h⟩ (Nat.le_of_not_lt hlt)
        obtain ⟨rest, rfl⟩ := hprefix
        rw [List.append_assoc] at h
        exact Or.inr ⟨f, fs, rest, rfl, cut_append hf rest, List.append_cancel_left h⟩

/-- What a cut frame looks like, when no type may have length 0. -/
theorem cut_eq_frame (hpos : ∀ ty, ok ty 0 = false) {buf f rest : List Nat}
    (h : cut ok buf = .frame f rest) : buf = f ++ rest ∧ WellFormed ok f := by
  match buf, h with
  | len :: ty :: tail, h =>
      simp only [cut] at h
      split_ifs at h with hok hlong
      rw [Cut.frame.injEq] at h
      obtain ⟨rfl, rfl⟩ := h
      have hlen : 0 < len := by
        refine Nat.pos_of_ne_zero fun h0 => ?_
        rw [h0, hpos] at hok
        exact Bool.noConfusion hok
      obtain ⟨n, rfl⟩ := Nat.exists_eq_succ_of_ne_zero (Nat.ne_of_gt hlen)
      refine ⟨(List.take_append_drop _ _).symm, ⟨?_, ?_, by simpa using hok⟩⟩
      · simp only [List.length_take, List.length_cons]
        omega
      · simp only [List.length_take, List.length_cons, List.take_succ_cons, List.headD_cons]
        omega

/-- A frame that fits within the first `n` bytes is whole there, and the rest of
the bytes belong to the frames after it. -/
theorem wholeWithin_cons {f : List Nat} {fs : List (List Nat)} {n : Nat} (h : f.length ≤ n) :
    wholeWithin (f :: fs) n = f :: wholeWithin fs (n - f.length) := if_pos h

theorem wholeWithin_total (fs : List (List Nat)) :
    wholeWithin fs fs.flatten.length = fs := by
  induction fs with
  | nil => rfl
  | cons f fs ih =>
      have hle : f.length ≤ (f :: fs).flatten.length := by simp
      rw [wholeWithin_cons hle]
      have hsub : (f :: fs).flatten.length - f.length = fs.flatten.length := by simp
      rw [hsub, ih]

/-- The frames taken off a stream are those that lie whole within what was read, while the
reader waits on the rest. -/
theorem wholeWithin_taken {taken rest : List (List Nat)} {buf wire : List Nat}
    (hrest : ∀ f ∈ rest, WellFormed ok f) (hwait : cut ok buf = .wait)
    (h : buf ++ wire = rest.flatten) :
    wholeWithin (taken ++ rest) (taken.flatten ++ buf).length = taken := by
  induction taken with
  | nil =>
      cases rest with
      | nil => rfl
      | cons f rest =>
          refine if_neg fun hle => ?_
          have hprefix : f <+: buf := by
            rw [List.flatten_cons] at h
            exact List.prefix_of_prefix_length_le (List.prefix_append _ _) ⟨wire, h⟩ hle
          obtain ⟨tail, rfl⟩ := hprefix
          rw [cut_append (hrest f List.mem_cons_self)] at hwait
          exact nomatch hwait
  | cons f taken ih =>
      have hle : f.length ≤ ((f :: taken).flatten ++ buf).length := by
        rw [List.flatten_cons, List.length_append, List.length_append]
        omega
      have hsub : ((f :: taken).flatten ++ buf).length - f.length =
          (taken.flatten ++ buf).length := by
        rw [List.flatten_cons, List.length_append, List.length_append, List.length_append]
        omega
      rw [List.cons_append, wholeWithin_cons hle, hsub, ih]

end Framing

end SharkNetplay.Lib
