import SharkNetplay.Lib.Deaf

/-!
# Reassembling frames from chunks

A stream of frames `len type payload`, `len` counting type and payload, read in chunks into
a buffer. A reader hands over every whole frame, waits on a part of one, and gives up on a
length out of range. What a reader does is a function of the stream alone, and so the same
for every division into chunks.

## Implementation notes

The handler of a frame may end the connection. Its state is any type; the relation `R` says
which states it cannot tell apart. A handler that is deaf to part of the state cannot tell
apart two states that differ there.
-/

namespace SharkNetplay.Lib

namespace Reassembly

/-- A type and a payload. -/
abbrev Frame := Nat × List Nat

variable (cap : Nat)

/-- What the head of a buffer calls for. -/
inductive Next
  | wait
  | bad
  | frame (f : Frame) (rest : List Nat)
  deriving DecidableEq

/-- The length byte is judged as soon as it is there. -/
def next : List Nat → Next
  | [] => .wait
  | len :: rest =>
    if len = 0 ∨ cap < len then .bad
    else if rest.length < len then .wait
    else .frame (rest.headD 0, (rest.take len).tail) (rest.drop len)

/-- What ends a stream: part of a frame, or a bad length. -/
inductive End
  | more (rest : List Nat)
  | bad
  deriving DecidableEq

/-- The first `n` frames of a stream. -/
def parseN : Nat → List Nat → List Frame × End
  | 0, s => ([], .more s)
  | n + 1, s =>
    match next cap s with
    | .wait => ([], .more s)
    | .bad => ([], .bad)
    | .frame f rest => (f :: (parseN n rest).1, (parseN n rest).2)

/-- The frames of a stream and its end. -/
def parse (s : List Nat) : List Frame × End := parseN cap s.length s

/-- A frame as bytes. -/
def encode (f : Frame) : List Nat := (f.2.length + 1) :: f.1 :: f.2

variable {cap}

theorem next_frame {s rest : List Nat} {f : Frame} (h : next cap s = .frame f rest) :
    rest.length < s.length := by
  match s, h with
  | len :: tail, h =>
      simp only [next] at h
      split_ifs at h with hlen hshort
      injection h with _ hrest
      rw [← hrest, List.length_drop, List.length_cons]
      omega

theorem next_wait {s : List Nat} (h : next cap s = .wait) : s.length ≤ cap := by
  match s, h with
  | [], _ => exact Nat.zero_le _
  | len :: tail, h =>
      simp only [next] at h
      split_ifs at h with hlen hshort
      rw [List.length_cons]
      omega

theorem next_append_bad {s : List Nat} (h : next cap s = .bad) (t : List Nat) :
    next cap (s ++ t) = .bad := by
  match s, h with
  | len :: tail, h =>
      simp only [next] at h
      split_ifs at h with hlen hshort
      simp only [List.cons_append, next, if_pos hlen]

theorem next_append_frame {s rest : List Nat} {f : Frame} (h : next cap s = .frame f rest)
    (t : List Nat) : next cap (s ++ t) = .frame f (rest ++ t) := by
  match s, h with
  | len :: tail, h =>
      simp only [next] at h
      split_ifs at h with hlen hshort
      injection h with hf hrest
      have hlong : len ≤ tail.length := Nat.le_of_not_lt hshort
      have hlong' : ¬ (tail ++ t).length < len := by
        rw [List.length_append]
        omega
      have hhead : (tail ++ t).headD 0 = tail.headD 0 := by
        match tail, hlong with
        | [], hlong => exact absurd (Nat.le_zero.mp hlong) fun h0 => hlen (Or.inl h0)
        | _ :: _, _ => rfl
      simp only [List.cons_append, next, if_neg hlen, if_neg hlong']
      rw [hhead, List.take_append_of_le_length hlong, List.drop_append_of_le_length hlong, hf, hrest]

/-! ## Parsing -/

theorem parseN_length {n m : Nat} {s : List Nat} (hn : s.length ≤ n) (hm : s.length ≤ m) :
    parseN cap n s = parseN cap m s := by
  induction n generalizing m s with
  | zero =>
      obtain rfl : s = [] := List.eq_nil_of_length_eq_zero (by omega)
      cases m <;> rfl
  | succ n ih =>
      cases m with
      | zero =>
          obtain rfl : s = [] := List.eq_nil_of_length_eq_zero (by omega)
          rfl
      | succ m =>
          unfold parseN
          cases h : next cap s with
          | wait => rfl
          | bad => rfl
          | frame f rest =>
              have hlt := next_frame h
              dsimp only
              rw [ih (m := m) (by omega) (by omega)]

theorem parse_wait {s : List Nat} (h : next cap s = .wait) : parse cap s = ([], .more s) := by
  unfold parse
  cases hlen : s.length with
  | zero => rfl
  | succ n => rw [parseN, h]

theorem parse_bad {s : List Nat} (h : next cap s = .bad) : parse cap s = ([], .bad) := by
  match s, h with
  | len :: tail, h => rw [parse, List.length_cons, parseN, h]

theorem parse_frame {s rest : List Nat} {f : Frame} (h : next cap s = .frame f rest) :
    parse cap s = (f :: (parse cap rest).1, (parse cap rest).2) := by
  have hlt := next_frame h
  obtain ⟨n, hn⟩ := Nat.exists_eq_succ_of_ne_zero (Nat.ne_of_gt (Nat.lt_of_le_of_lt (Nat.zero_le _) hlt))
  rw [parse, hn, parseN, h]
  dsimp only
  rw [parse, parseN_length (n := n) (m := rest.length) (by omega) (Nat.le_refl _)]

/-- A buffer that waits is what a parse leaves. -/
theorem parse_more {s r : List Nat} (h : (parse cap s).2 = .more r) : next cap r = .wait := by
  induction hn : s.length using Nat.strongRecOn generalizing s with
  | ind n ih =>
      subst hn
      cases hs : next cap s with
      | wait =>
          rw [parse_wait hs] at h
          injection h with h
          rw [← h]
          exact hs
      | bad =>
          rw [parse_bad hs] at h
          exact nomatch h
      | frame f rest =>
          rw [parse_frame hs] at h
          exact ih _ (next_frame hs) h rfl

/-- Nothing that arrives later changes what was parsed. -/
theorem parse_append (s t : List Nat) :
    parse cap (s ++ t) =
      match (parse cap s).2 with
      | .bad => parse cap s
      | .more r => ((parse cap s).1 ++ (parse cap (r ++ t)).1, (parse cap (r ++ t)).2) := by
  induction hn : s.length using Nat.strongRecOn generalizing s with
  | ind n ih =>
      subst hn
      cases hs : next cap s with
      | wait =>
          rw [parse_wait hs]
          rfl
      | bad => rw [parse_bad (next_append_bad hs t), parse_bad hs]
      | frame f rest =>
          have hrest := ih _ (next_frame hs) rest rfl
          rw [parse_frame (next_append_frame hs t), parse_frame hs, hrest]
          cases hend : (parse cap rest).2 with
          | more r => rfl
          | bad => exact Prod.ext rfl hend

theorem next_encode {f : Frame} (hf : f.2.length < cap) (t : List Nat) :
    next cap (encode f ++ t) = .frame f t := by
  have hlen : ¬ (f.2.length + 1 = 0 ∨ cap < f.2.length + 1) := by omega
  have hlong : ¬ (f.1 :: (f.2 ++ t)).length < f.2.length + 1 := by
    rw [List.length_cons, List.length_append]
    omega
  simp only [encode, List.cons_append, next, if_neg hlen, if_neg hlong, List.headD_cons,
    List.take_succ_cons, List.drop_succ_cons, List.tail_cons, List.take_left, List.drop_left]

/-- A concatenation of frames is parsed into those frames. -/
theorem parse_encode {fs : List Frame} (hfs : ∀ f ∈ fs, f.2.length < cap) :
    parse cap (fs.map encode).flatten = (fs, .more []) := by
  induction fs with
  | nil => rfl
  | cons f fs ih =>
      rw [List.map_cons, List.flatten_cons,
        parse_frame (next_encode (hfs f (List.mem_cons_self ..)) _),
        ih fun g hg => hfs g (List.mem_cons_of_mem _ hg)]

/-! ## Handling -/

section Handler

variable {σ : Type*} (hand : Frame → σ → σ) (dead : σ → Bool)

/-- The frames handed over until the connection ends, and the state then. -/
def untilDead : List Frame → σ → List Frame × σ
  | [], s => ([], s)
  | f :: fs, s =>
    if dead s then ([], s)
    else (f :: (untilDead fs (hand f s)).1, (untilDead fs (hand f s)).2)

/-- What becomes of a stream: the frames handed over, and whether the connection then ends
for a bad length. -/
def judge (cap : Nat) (stream : List Nat) (s : σ) : List Frame × Bool :=
  let u := untilDead hand dead (parse cap stream).1 s
  (u.1, !dead u.2 && (parse cap stream).2 == .bad)

variable {hand dead}

theorem untilDead_dead {s : σ} (h : dead s = true) (fs : List Frame) :
    untilDead hand dead fs s = ([], s) := by
  cases fs with
  | nil => rfl
  | cons f fs => exact if_pos h

theorem untilDead_append (fs gs : List Frame) (s : σ) :
    untilDead hand dead (fs ++ gs) s =
      ((untilDead hand dead fs s).1 ++ (untilDead hand dead gs (untilDead hand dead fs s).2).1,
        (untilDead hand dead gs (untilDead hand dead fs s).2).2) := by
  induction fs generalizing s with
  | nil => rfl
  | cons f fs ih =>
      simp only [List.cons_append, untilDead]
      by_cases hd : dead s = true
      · simp only [if_pos hd, untilDead_dead hd]
        rfl
      · simp only [if_neg hd, ih, List.cons_append]

/-- The connection outlives the series only when every frame is handed over. -/
theorem untilDead_alive {fs : List Frame} {s : σ}
    (h : dead (untilDead hand dead fs s).2 = false) : (untilDead hand dead fs s).1 = fs := by
  induction fs generalizing s with
  | nil => rfl
  | cons f fs ih =>
      unfold untilDead at h ⊢
      by_cases hd : dead s = true
      · rw [if_pos hd] at h
        exact absurd (hd.symm.trans h) (by decide)
      · rw [if_neg hd] at h ⊢
        exact congrArg _ (ih h)

/-- A handler that does not tell apart the states `R` relates. -/
structure Blind (hand : Frame → σ → σ) (dead : σ → Bool) (R : σ → σ → Prop) : Prop where
  dead {s s' : σ} (h : R s s') : dead s' = dead s
  hand {s s' : σ} (f : Frame) (h : R s s') : R (hand f s) (hand f s')

theorem Blind.untilDead {R : σ → σ → Prop} (hR : Blind hand dead R) {s s' : σ} (fs : List Frame)
    (h : R s s') : (untilDead hand dead fs s').1 = (Reassembly.untilDead hand dead fs s).1 ∧
      R (Reassembly.untilDead hand dead fs s).2 (Reassembly.untilDead hand dead fs s').2 := by
  induction fs generalizing s s' with
  | nil => exact ⟨rfl, h⟩
  | cons f fs ih =>
      unfold Reassembly.untilDead
      rw [hR.dead h]
      split
      · exact ⟨rfl, h⟩
      · obtain ⟨hframes, hstate⟩ := ih (hR.hand f h)
        exact ⟨congrArg (f :: ·) hframes, hstate⟩

/-- Two states that differ in the part that is blanked. -/
def Alike (erase : σ → σ) (s s' : σ) : Prop := erase s = erase s'

namespace Alike

variable {erase : σ → σ} {s t u : σ}

theorem refl (s : σ) : Alike erase s s := rfl

theorem trans (h : Alike erase s t) (h' : Alike erase t u) : Alike erase s u := Eq.trans h h'

end Alike

theorem Blind.of_deaf {erase : σ → σ} (hhand : ∀ f, Deaf erase (hand f))
    (hdead : ∀ s, dead (erase s) = dead s) : Blind hand dead (Alike erase) where
  dead {s s'} h := by rw [← hdead s', ← hdead s, h]
  hand {s s'} f h := by
    show erase (hand f s) = erase (hand f s')
    rw [hhand, hhand, h]

/-! ## Readers -/

variable (hand dead)

/-- Reading `stream` in the state `s` gave the verdict `p` and the state `t`, with `rx t`
still in the buffer. -/
structure Outcome (cap : Nat) (R : σ → σ → Prop) (rx : σ → List Nat) (stream : List Nat) (s : σ)
    (p : List Frame × Bool) (t : σ) : Prop where
  verdict : p = judge hand dead cap stream s
  gone : dead t = (dead (untilDead hand dead (parse cap stream).1 s).2 ||
    (parse cap stream).2 == .bad)
  rest : dead t = false → (parse cap stream).2 = .more (rx t) ∧
    R (untilDead hand dead (parse cap stream).1 s).2 t

/-- Chunks read one after the other while the connection is up. -/
def received (recv : List Nat → σ → σ) (passed : List Nat → σ → List Frame × Bool) :
    List (List Nat) → σ → (List Frame × Bool) × σ
  | [], s => (([], false), s)
  | d :: ds, s =>
    if dead s then (([], false), s)
    else
      let q := received recv passed ds (recv d s)
      (((passed d s).1 ++ q.1.1, (passed d s).2 || q.1.2), q.2)

variable {hand dead} {R : σ → σ → Prop} {rx : σ → List Nat} {s t u : σ} {p q : List Frame × Bool}
  {a b : List Nat}

/-- A buffer that waits. -/
theorem Outcome.wait (hrefl : ∀ s, R s s) (hrx : rx s = a) (hwait : next cap a = .wait) :
    Outcome hand dead cap R rx a s ([], false) s := by
  refine ⟨?_, ?_, fun _ => ?_⟩
  · rw [judge, parse_wait hwait]
    exact Prod.ext rfl (Bool.and_false _).symm
  · rw [parse_wait hwait]
    exact (Bool.or_false _).symm
  · rw [parse_wait hwait]
    exact ⟨by rw [hrx], hrefl _⟩

/-- A bad length ends the connection. -/
theorem Outcome.bad (halive : dead s = false) (hbad : next cap a = .bad) (hdead : dead t = true) :
    Outcome hand dead cap R rx a s ([], true) t := by
  refine ⟨?_, ?_, fun h => Bool.noConfusion (hdead.symm.trans h)⟩
  · rw [judge, parse_bad hbad]
    show _ = ([], !dead s && true)
    rw [halive]
    rfl
  · rw [parse_bad hbad, hdead]
    exact (Bool.or_true _).symm

/-- A whole frame: it is handed over, and what follows it is read unless that ended the
connection. -/
theorem Outcome.frame (hR : Blind hand dead R) (htrans : ∀ {s t u}, R s t → R t u → R s u)
    {f : Frame} (halive : dead s = false) (hnext : next cap a = .frame f b)
    (hhand : R (hand f s) t) (h : Outcome hand dead cap R rx b t q u) :
    Outcome hand dead cap R rx a s (f :: q.1, q.2) u := by
  obtain ⟨hframes, hstate⟩ := hR.untilDead (parse cap b).1 hhand
  have hwhole : untilDead hand dead (parse cap a).1 s =
      (f :: (untilDead hand dead (parse cap b).1 t).1,
        (untilDead hand dead (parse cap b).1 (hand f s)).2) := by
    rw [parse_frame hnext, untilDead, if_neg (by rw [halive]; decide), hframes]
  have hbad : (parse cap a).2 = (parse cap b).2 := by rw [parse_frame hnext]
  have hlast : dead (untilDead hand dead (parse cap a).1 s).2 =
      dead (untilDead hand dead (parse cap b).1 t).2 := by
    rw [hwhole, ← hR.dead hstate]
  refine ⟨?_, ?_, fun hu => ?_⟩
  · rw [h.verdict, judge, judge, hlast, hbad, hwhole]
  · rw [h.gone, hlast, hbad]
  · obtain ⟨hmore, hRu⟩ := h.rest hu
    refine ⟨hbad.trans hmore, ?_⟩
    rw [hwhole]
    exact htrans hstate hRu

/-- A frame whose handling ends the connection. -/
theorem Outcome.last (hR : Blind hand dead R) {f : Frame} (halive : dead s = false)
    (hnext : next cap a = .frame f b) (hhand : R (hand f s) t) (hdead : dead t = true) :
    Outcome hand dead cap R rx a s ([f], false) t := by
  have hgone : dead (hand f s) = true := (hR.dead hhand).symm.trans hdead
  have hwhole : untilDead hand dead (parse cap a).1 s = ([f], hand f s) := by
    rw [parse_frame hnext, untilDead, if_neg (by rw [halive]; decide), untilDead_dead hgone]
  refine ⟨?_, ?_, fun h => Bool.noConfusion (hdead.symm.trans h)⟩
  · rw [judge, hwhole, hgone]
    rfl
  · rw [hwhole, hgone, hdead]
    rfl

/-- The handler cannot tell where the reading began. -/
theorem Outcome.start (hR : Blind hand dead R) (htrans : ∀ {s t u}, R s t → R t u → R s u)
    (h : Outcome hand dead cap R rx a t p u) (hst : R s t) :
    Outcome hand dead cap R rx a s p u := by
  obtain ⟨hframes, hstate⟩ := hR.untilDead (parse cap a).1 hst
  have hlast := hR.dead hstate
  refine ⟨?_, ?_, fun hu => ?_⟩
  · rw [h.verdict, judge, judge, hlast, hframes]
  · rw [h.gone, hlast]
  · obtain ⟨hmore, hRu⟩ := h.rest hu
    exact ⟨hmore, htrans hstate hRu⟩

/-- Bytes that arrive after the end of the connection change nothing. -/
theorem Outcome.late (h : Outcome hand dead cap R rx a s p t) (hdead : dead t = true)
    (b : List Nat) : Outcome hand dead cap R rx (a ++ b) s p t := by
  have hend := h.gone.symm.trans hdead
  have hparse := @parse_append cap a b
  cases hbad : (parse cap a).2 with
  | bad =>
      rw [hbad] at hparse
      exact ⟨by rw [h.verdict, judge, judge, hparse], by rw [h.gone, hparse], fun halive =>
        Bool.noConfusion (hdead.symm.trans halive)⟩
  | more r =>
      rw [hbad] at hparse
      dsimp only at hparse
      have hgone : dead (untilDead hand dead (parse cap a).1 s).2 = true := by
        simpa [hbad] using hend
      have hsame : untilDead hand dead (parse cap (a ++ b)).1 s =
          untilDead hand dead (parse cap a).1 s := by
        rw [hparse, untilDead_append, untilDead_dead hgone, List.append_nil]
      refine ⟨?_, ?_, fun halive => Bool.noConfusion (hdead.symm.trans halive)⟩
      · rw [h.verdict, judge, judge, hsame, hgone]
        rfl
      · rw [hsame, hgone, hdead]
        rfl

/-- What arrives later is read after what the buffer still holds. -/
theorem Outcome.append (hR : Blind hand dead R) (htrans : ∀ {s t u}, R s t → R t u → R s u)
    (h : Outcome hand dead cap R rx a s p t) (halive : dead t = false)
    (h' : Outcome hand dead cap R rx (rx t ++ b) t q u) :
    Outcome hand dead cap R rx (a ++ b) s (p.1 ++ q.1, p.2 || q.2) u := by
  obtain ⟨hend, hRt⟩ := h.rest halive
  have hparse := @parse_append cap a b
  rw [hend] at hparse
  dsimp only at hparse
  have hup : dead (untilDead hand dead (parse cap a).1 s).2 = false := by
    have hdead := h.gone
    rw [halive, hend] at hdead
    simpa using hdead.symm
  obtain ⟨hframes, hstate⟩ := hR.untilDead (parse cap (rx t ++ b)).1 hRt
  have hwhole : untilDead hand dead (parse cap (a ++ b)).1 s =
      ((parse cap a).1 ++ (untilDead hand dead (parse cap (rx t ++ b)).1
        (untilDead hand dead (parse cap a).1 s).2).1,
        (untilDead hand dead (parse cap (rx t ++ b)).1
          (untilDead hand dead (parse cap a).1 s).2).2) := by
    rw [hparse, untilDead_append, untilDead_alive hup]
  have hlast : dead (untilDead hand dead (parse cap (a ++ b)).1 s).2 =
      dead (untilDead hand dead (parse cap (rx t ++ b)).1 t).2 := by
    rw [hwhole, ← hR.dead hstate]
  have hbad : (parse cap (a ++ b)).2 = (parse cap (rx t ++ b)).2 := by rw [hparse]
  refine ⟨?_, ?_, fun hu => ?_⟩
  · have hp : p = ((parse cap a).1, false) := by
      rw [h.verdict, judge, untilDead_alive hup, hend]
      exact Prod.ext rfl (Bool.and_false _)
    have hq : q = judge hand dead cap (rx t ++ b) t := h'.verdict
    rw [hp, hq, judge, judge, hlast, hbad, hwhole, hframes]
    rfl
  · rw [h'.gone, hlast, hbad]
  · obtain ⟨hmore, hRu⟩ := h'.rest hu
    refine ⟨hbad.trans hmore, ?_⟩
    rw [hwhole]
    exact htrans hstate hRu

/-- A reader that judges each chunk with what its buffer holds judges the whole stream. -/
theorem received_outcome (hR : Blind hand dead R) (htrans : ∀ {s t u}, R s t → R t u → R s u)
    (hrefl : ∀ s, R s s) {I : σ → Prop} {recv : List Nat → σ → σ}
    {passed : List Nat → σ → List Frame × Bool}
    (hread : ∀ d s, I s → dead s = false → I (recv d s) ∧
      Outcome hand dead cap R rx (rx s ++ d) s (passed d s) (recv d s))
    (ds : List (List Nat)) {s : σ} (hI : I s) (halive : dead s = false)
    (hwait : next cap (rx s) = .wait) :
    Outcome hand dead cap R rx (rx s ++ ds.flatten) s (received dead recv passed ds s).1
      (received dead recv passed ds s).2 := by
  induction ds generalizing s with
  | nil =>
      rw [List.flatten_nil, List.append_nil]
      exact .wait hrefl rfl hwait
  | cons d ds ih =>
      obtain ⟨hI', hd⟩ := hread d s hI halive
      rw [received, if_neg (by rw [halive]; decide), List.flatten_cons, ← List.append_assoc]
      cases hnext : dead (recv d s) with
      | true =>
          have hstop : received dead recv passed ds (recv d s) = (([], false), recv d s) := by
            cases ds with
            | nil => rfl
            | cons e ds => rw [received, if_pos hnext]
          rw [hstop]
          dsimp only
          rw [List.append_nil, Bool.or_false]
          exact hd.late hnext _
      | false =>
          have hwait' := parse_more (hd.rest hnext).1
          exact hd.append hR htrans hnext (ih hI' hnext hwait')

/-! ## The loop over a buffer -/

section Loop

variable (hand dead rx) (cap : Nat) (put : List Nat → σ → σ)

/-- What a loop hands over that takes whole frames off the buffer while the connection is up. -/
def handed : Nat → σ → List Frame × Bool
  | 0, _ => ([], false)
  | fuel + 1, s =>
    match next cap (rx s) with
    | .wait => ([], false)
    | .bad => ([], true)
    | .frame f rest =>
      let s := hand f (put rest s)
      if dead s then ([f], false) else (f :: (handed fuel s).1, (handed fuel s).2)

/-- Such a loop, with an invariant `I` of the states it runs in. -/
structure FrameLoop (R : σ → σ → Prop) (I : σ → Prop) (run : Nat → σ → σ) : Prop where
  zero {s : σ} (h : rx s = []) : run 0 s = s
  wait {n : Nat} {s : σ} (h : next cap (rx s) = .wait) : run (n + 1) s = s
  bad {n : Nat} {s : σ} (hI : I s) (h : next cap (rx s) = .bad) :
    I (run (n + 1) s) ∧ dead (run (n + 1) s) = true
  frame {n : Nat} {s : σ} {f : Frame} {rest : List Nat} (hI : I s) (halive : dead s = false)
    (h : next cap (rx s) = .frame f rest) : run (n + 1) s =
      if dead (hand f (put rest s)) then hand f (put rest s) else run n (hand f (put rest s))
  keeps {s : σ} {f : Frame} {rest : List Nat} (hI : I s) (halive : dead s = false) :
    I (hand f (put rest s))
  buffer {s : σ} {f : Frame} {rest : List Nat} : rx (hand f (put rest s)) = rest
  blind {s : σ} {rest : List Nat} : R s (put rest s)

variable {hand dead rx cap put} {I : σ → Prop} {run : Nat → σ → σ}

/-- What the loop makes of its buffer. -/
theorem FrameLoop.outcome (h : FrameLoop hand dead rx cap put R I run) (hR : Blind hand dead R)
    (htrans : ∀ {s t u}, R s t → R t u → R s u) (hrefl : ∀ s, R s s) (fuel : Nat) {s : σ}
    (hI : I s) (halive : dead s = false) (hfuel : (rx s).length ≤ fuel) :
    I (run fuel s) ∧ Outcome hand dead cap R rx (rx s) s
      (handed hand dead rx cap put fuel s) (run fuel s) := by
  induction fuel generalizing s with
  | zero =>
      have hempty : rx s = [] := List.eq_nil_of_length_eq_zero (by omega)
      rw [h.zero hempty]
      exact ⟨hI, .wait hrefl rfl (by rw [hempty]; rfl)⟩
  | succ fuel ih =>
      unfold handed
      cases hnext : next cap (rx s) with
      | wait =>
          rw [h.wait hnext]
          exact ⟨hI, .wait hrefl rfl hnext⟩
      | bad =>
          obtain ⟨hkept, hdead⟩ := h.bad (n := fuel) hI hnext
          exact ⟨hkept, .bad halive hnext hdead⟩
      | frame f rest =>
          have hkept : I (hand f (put rest s)) := h.keeps hI halive
          have hput : R s (put rest s) := h.blind
          have hblind := hR.hand f hput
          have hrx : rx (hand f (put rest s)) = rest := h.buffer
          rw [h.frame hI halive hnext]
          dsimp only
          generalize hand f (put rest s) = t at hkept hblind hrx ⊢
          cases hdead : dead t with
          | true => exact ⟨hkept, .last hR halive hnext hblind hdead⟩
          | false =>
              have hless := next_frame hnext
              obtain ⟨hkept', hread⟩ := ih hkept hdead (by rw [hrx]; omega)
              rw [hrx] at hread
              exact ⟨hkept', .frame hR htrans halive hnext hblind hread⟩

end Loop

/-- A loop each round of which ends it or shortens what is left needs no more rounds than
there is left. -/
theorem fuel_stable (left : σ → Nat) (run : Nat → σ → σ) (hnone : ∀ n s, left s = 0 → run n s = s)
    (hround : ∀ s, (∃ t, ∀ n, run (n + 1) s = t) ∨
      ∃ t, left t < left s ∧ ∀ n, run (n + 1) s = run n t)
    (n m : Nat) (s : σ) (hn : left s ≤ n) (hm : left s ≤ m) : run n s = run m s := by
  induction n generalizing m s with
  | zero => rw [hnone 0 s (Nat.le_zero.mp hn), hnone m s (Nat.le_zero.mp hn)]
  | succ n ih =>
      cases m with
      | zero => rw [hnone 0 s (Nat.le_zero.mp hm), hnone (n + 1) s (Nat.le_zero.mp hm)]
      | succ m =>
          rcases hround s with ⟨t, ht⟩ | ⟨t, hless, ht⟩
          · rw [ht, ht]
          · rw [ht, ht]
            exact ih m t (by omega) (by omega)

variable (hand dead rx)

/-- Reading from `s` does not depend on the division into chunks; of a concatenation of
frames it hands over those frames, up to one whose handling ends the connection; and what
stays in the buffer of a connection that is up is shorter than a frame. -/
structure Reassembles (cap : Nat) (read : List (List Nat) → σ → (List Frame × Bool) × σ) (s : σ) :
    Prop where
  split (ds : List (List Nat)) : (read ds s).1 = (read [ds.flatten] s).1
  frames (ds : List (List Nat)) (fs : List Frame) (hfs : ∀ f ∈ fs, f.2.length + 1 ≤ cap)
    (hds : ds.flatten = (fs.map encode).flatten) :
    (read ds s).1 = ((untilDead hand dead fs s).1, false)
  short (ds : List (List Nat)) (halive : dead (read ds s).2 = false) :
    (rx (read ds s).2).length ≤ cap

variable {hand dead rx}

theorem Reassembles.of_outcome {read : List (List Nat) → σ → (List Frame × Bool) × σ}
    (h : ∀ ds, Outcome hand dead cap R rx ds.flatten s (read ds s).1 (read ds s).2) :
    Reassembles hand dead rx cap read s where
  split ds := by
    have hone := (h [ds.flatten]).verdict
    rw [List.flatten_singleton] at hone
    rw [(h ds).verdict, hone]
  frames ds fs hfs hds := by
    have hparse : parse cap ds.flatten = (fs, .more []) := by
      rw [hds]
      exact parse_encode fun f hf => hfs f hf
    rw [(h ds).verdict, judge, hparse]
    exact Prod.ext rfl (Bool.and_false _)
  short ds halive := next_wait (parse_more ((h ds).rest halive).1)

end Handler

end Reassembly

end SharkNetplay.Lib
