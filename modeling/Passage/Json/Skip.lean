/-
# Skipping a value

The value of a member that nobody asked for is passed over.  It must be
JSON, but numbers of any size are fine, and so is half of a pair of
escapes.  The brackets that are still open are kept in a list, so values
may nest to any depth; every step makes the rest of the text shorter
(`length_of_step`).
-/
import Passage.Json.Token

namespace Passage.Json

inductive Bracket where
  | list
  | object
  deriving DecidableEq, Repr

def Bracket.closing : Bracket → Char
  | .list => ']'
  | .object => '}'

/-- Where in a value the skipper stands; the open brackets are listed from the inside. -/
inductive Place where
  | value (above : List Bracket)
  /-- After a value that stands in a bracket. -/
  | after (bracket : Bracket) (above : List Bracket)
  deriving DecidableEq, Repr

/-- The place after a value, if it is not the outermost one. -/
def Place.past : List Bracket → Option Place
  | [] => none
  | b :: above => some (.after b above)

def colon (s : List Char) : Except Fault (List Char) :=
  match skipSpace s with
  | [] => .error .ended
  | c :: s => if c = ':' then .ok s else .error .malformed

def skipKey (s : List Char) : Except Fault (List Char) :=
  match skipSpace s with
  | [] => .error .ended
  | c :: s =>
    if c = '"' then do
      let (_, s) ← quotation false s
      colon s
    else .error .malformed

/-- Passes over a number.  It has no faults but that of being malformed. -/
def skipNumber (s : List Char) : Except Fault (List Char) :=
  match Numeral.scan s with
  | .ok (_, s) => .ok s
  | .error _ => .error .malformed

/-- Passes over a word, a text or a number. -/
def skipScalar : List Char → Except Fault (List Char)
  | [] => .error .ended
  | c :: s =>
    if c = 'n' then word ['u', 'l', 'l'] s
    else if c = 't' then word ['r', 'u', 'e'] s
    else if c = 'f' then word ['a', 'l', 's', 'e'] s
    else if c = '"' then (quotation false s).map Prod.snd
    else if c = '-' ∨ c.isDigit then skipNumber (c :: s)
    else .error .malformed

/-- What stands before the next value in a bracket: in an object its key. -/
def enter (b : Bracket) (above : List Bracket) (s : List Char) :
    Except Fault (Option Place × List Char) :=
  match b with
  | .list => .ok (some (.value (.list :: above)), s)
  | .object => (skipKey s).map fun s => (some (.value (.object :: above)), s)

/-- An opened bracket: it is closed at once or its first value follows. -/
def opened (b : Bracket) (above : List Bracket) (s : List Char) :
    Except Fault (Option Place × List Char) :=
  match skipSpace s with
  | [] => .error .ended
  | c :: s => if c = b.closing then .ok (Place.past above, s) else enter b above (c :: s)

/-- One step over a value; nothing is returned as the place when the whole value is passed. -/
def step : Place → List Char → Except Fault (Option Place × List Char)
  | .value above, s =>
    match skipSpace s with
    | [] => .error .ended
    | c :: s =>
      if c = '[' then opened .list above s
      else if c = '{' then opened .object above s
      else (skipScalar (c :: s)).map fun s => (Place.past above, s)
  | .after b above, s =>
    match skipSpace s with
    | [] => .error .ended
    | c :: s =>
      if c = ',' then enter b above s
      else if c = b.closing then .ok (Place.past above, s)
      else .error .malformed

/-! ## Every step makes the rest shorter -/

theorem length_dropWhile_le {p : Char → Bool} (s : List Char) :
    (s.dropWhile p).length ≤ s.length :=
  (List.dropWhile_suffix p).length_le

theorem length_skipSpace_le (s : List Char) : (skipSpace s).length ≤ s.length :=
  length_dropWhile_le s

theorem length_of_colon {s t : List Char} (h : colon s = .ok t) : t.length < s.length := by
  have hs := length_skipSpace_le s
  unfold colon at h
  split at h
  · cases h
  · rename_i c r hr
    rw [hr, List.length_cons] at hs
    split at h
    · cases h; omega
    · cases h

theorem length_of_skipKey {s t : List Char} (h : skipKey s = .ok t) : t.length < s.length := by
  have hs := length_skipSpace_le s
  unfold skipKey at h
  split at h
  · cases h
  · rename_i c r hr
    rw [hr, List.length_cons] at hs
    split at h
    · obtain ⟨⟨cs, u⟩, hq, h⟩ := ok_of_bind h
      have := length_of_quotation hq
      have := length_of_colon h
      omega
    · cases h

theorem length_of_skipNumber {s t : List Char} (h : skipNumber s = .ok t) :
    t.length < s.length := by
  unfold skipNumber at h
  split at h
  · rename_i x u hx
    cases h
    exact Numeral.length_of_scan hx
  · cases h

theorem length_of_skipScalar {s t : List Char} (h : skipScalar s = .ok t) :
    t.length < s.length := by
  unfold skipScalar at h
  split at h
  · cases h
  · repeat' split at h
    · exact Nat.lt_succ_of_le (length_of_word h)
    · exact Nat.lt_succ_of_le (length_of_word h)
    · exact Nat.lt_succ_of_le (length_of_word h)
    · obtain ⟨⟨cs, u⟩, hq, rfl⟩ := ok_of_map h
      exact Nat.lt_succ_of_lt (length_of_quotation hq)
    · exact length_of_skipNumber h
    · cases h

theorem length_of_enter {b : Bracket} {above : List Bracket} {s t : List Char}
    {p : Option Place} (h : enter b above s = .ok (p, t)) : t.length ≤ s.length := by
  unfold enter at h
  split at h
  · cases h; exact Nat.le_refl _
  · obtain ⟨u, hu, he⟩ := ok_of_map h
    cases he
    exact Nat.le_of_lt (length_of_skipKey hu)

theorem length_of_opened {b : Bracket} {above : List Bracket} {s t : List Char}
    {p : Option Place} (h : opened b above s = .ok (p, t)) : t.length ≤ s.length := by
  have hs := length_skipSpace_le s
  unfold opened at h
  split at h
  · cases h
  · rename_i c r hr
    rw [hr, List.length_cons] at hs
    split at h
    · cases h; omega
    · have := length_of_enter h
      simp only [List.length_cons] at this
      omega

/-- Every step over a value makes the rest of the text shorter. -/
theorem length_of_step {p : Place} {q : Option Place} {s t : List Char}
    (h : step p s = .ok (q, t)) : t.length < s.length := by
  have hs := length_skipSpace_le s
  unfold step at h
  split at h
  · split at h
    · cases h
    · rename_i c r hr
      rw [hr, List.length_cons] at hs
      repeat' split at h
      · have := length_of_opened h; omega
      · have := length_of_opened h; omega
      · obtain ⟨u, hu, he⟩ := ok_of_map h
        cases he
        have := length_of_skipScalar hu
        simp only [List.length_cons] at this
        omega
  · split at h
    · cases h
    · rename_i c r hr
      rw [hr, List.length_cons] at hs
      repeat' split at h
      · have := length_of_enter h; omega
      · cases h; omega
      · cases h

/-! ## Skipping -/

/-- Passes over the rest of a value from a place in it. -/
def skipFrom (p : Place) (s : List Char) : Except Fault (List Char) :=
  match h : step p s with
  | .error f => .error f
  | .ok (none, rest) => .ok rest
  | .ok (some q, rest) =>
    have := length_of_step h
    skipFrom q rest
termination_by s.length

/-- Passes over a value, and returns what follows it. -/
def skip (s : List Char) : Except Fault (List Char) :=
  skipFrom (.value []) s

end Passage.Json
