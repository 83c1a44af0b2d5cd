/-
# The parts of a JSON text

Words, quoted texts, and the fault of a value that has another type than
the one asked for.  A quoted text is read unit by unit (`unit`), a
character or an escape, and every unit makes the rest shorter
(`length_of_unit`), which is why reading ends.
-/
import Passage.Json.Numeral

namespace Passage.Json

/-- The blanks that JSON allows between the parts of a value. -/
def isSpace (c : Char) : Bool := c == ' ' || c == '\n' || c == '\t' || c == '\r'

def skipSpace (s : List Char) : List Char := s.dropWhile isSpace

/-- Takes a word off the front of a text. -/
def word : List Char → List Char → Except Fault (List Char)
  | [], s => .ok s
  | _ :: _, [] => .error .ended
  | w :: ws, c :: s => if c = w then word ws s else .error .malformed

/-! ## Quoted texts -/

def hexValue? (c : Char) : Option Nat :=
  if c.isDigit then some (c.toNat - '0'.toNat)
  else if 'a' ≤ c ∧ c ≤ 'f' then some (c.toNat - 'a'.toNat + 10)
  else if 'A' ≤ c ∧ c ≤ 'F' then some (c.toNat - 'A'.toNat + 10)
  else none

def byteCount (s : List Char) : Nat := s.foldr (fun c n => c.utf8Size + n) 0

/-- Four hexadecimal digits.  The text counts as ended when fewer than four bytes are left. -/
def hex4 : List Char → Except Fault (Nat × List Char)
  | a :: b :: c :: d :: rest =>
    match hexValue? a, hexValue? b, hexValue? c, hexValue? d with
    | some a, some b, some c, some d => .ok (((a * 16 + b) * 16 + c) * 16 + d, rest)
    | _, _, _, _ => .error .malformed
  | short => if byteCount short < 4 then .error .ended else .error .malformed

/-- The first half of a pair of escapes that stand for one character. -/
def isLeading (n : Nat) : Bool := 0xD800 ≤ n && n ≤ 0xDBFF

def isTrailing (n : Nat) : Bool := 0xDC00 ≤ n && n ≤ 0xDFFF

/-- The character that a pair of escapes stands for. -/
def pairedChar (n m : Nat) : Char :=
  Char.ofNat (0x10000 + (n - 0xD800) * 0x400 + (m - 0xDC00))

/-- The character of a numeric escape.  With `paired`, halves of a pair must stand together. -/
def codePoint (paired : Bool) (s : List Char) : Except Fault (Char × List Char) := do
  let (n, s) ← hex4 s
  if paired && isTrailing n then .error .malformed
  else if paired && isLeading n then
    let s ← word ['\\', 'u'] s
    let (m, s) ← hex4 s
    if isTrailing m then .ok (pairedChar n m, s) else .error .malformed
  else .ok (Char.ofNat n, s)

/-- The characters that have an escape of one letter. -/
def shortEscape? (c : Char) : Option Char :=
  if c = '"' ∨ c = '\\' ∨ c = '/' then some c
  else if c = 'b' then some '\x08'
  else if c = 'f' then some '\x0c'
  else if c = 'n' then some '\n'
  else if c = 'r' then some '\r'
  else if c = 't' then some '\t'
  else none

def escapeSequence (paired : Bool) : List Char → Except Fault (Char × List Char)
  | [] => .error .ended
  | c :: s =>
    if c = 'u' then codePoint paired s
    else match shortEscape? c with
      | some d => .ok (d, s)
      | none => .error .malformed

/-- One unit of a quoted text: a character, or nothing at the closing quote. -/
def unit (paired : Bool) : List Char → Except Fault (Option Char × List Char)
  | [] => .error .ended
  | c :: s =>
    if c = '"' then .ok (none, s)
    else if c = '\\' then (escapeSequence paired s).map fun (d, s) => (some d, s)
    else if c.toNat < 0x20 then .error .malformed
    else .ok (some c, s)

theorem length_of_word {w s t : List Char} (h : word w s = .ok t) : t.length ≤ s.length := by
  fun_induction word w s with
  | case1 s => cases h; exact Nat.le_refl _
  | case2 => cases h
  | case3 ws c s ih => exact Nat.le_succ_of_le (ih h)
  | case4 => cases h

theorem length_of_hex4 {s t : List Char} {n : Nat} (h : hex4 s = .ok (n, t)) :
    t.length < s.length := by
  unfold hex4 at h
  split at h
  · split at h
    · cases h; simp only [List.length_cons]; omega
    · cases h
  · split at h <;> cases h

theorem length_of_codePoint {paired : Bool} {s t : List Char} {c : Char}
    (h : codePoint paired s = .ok (c, t)) : t.length < s.length := by
  unfold codePoint at h
  cases h1 : hex4 s with
  | error f => rw [h1] at h; cases h
  | ok r =>
    obtain ⟨n, u⟩ := r
    have hu := length_of_hex4 h1
    rw [h1] at h
    simp only [bind, Except.bind] at h
    split at h
    · cases h
    split at h
    · split at h
      · cases h
      · rename_i v hv
        have hv' := length_of_word hv
        cases h2 : hex4 v with
        | error f => rw [h2] at h; cases h
        | ok r =>
          obtain ⟨m, w⟩ := r
          have hw := length_of_hex4 h2
          rw [h2] at h
          simp only at h
          split at h
          · simp only [Except.ok.injEq, Prod.mk.injEq] at h
            rw [← h.2]
            omega
          · cases h
    · simp only [Except.ok.injEq, Prod.mk.injEq] at h
      exact h.2 ▸ hu

theorem length_of_escapeSequence {paired : Bool} {s t : List Char} {c : Char}
    (h : escapeSequence paired s = .ok (c, t)) : t.length < s.length := by
  unfold escapeSequence at h
  split at h
  · cases h
  · split at h
    · exact Nat.lt_succ_of_lt (length_of_codePoint h)
    · split at h
      · cases h; simp
      · cases h

/-- Every unit of a quoted text makes the rest shorter. -/
theorem length_of_unit {paired : Bool} {s t : List Char} {c : Option Char}
    (h : unit paired s = .ok (c, t)) : t.length < s.length := by
  unfold unit at h
  split at h
  · cases h
  · split at h
    · cases h; simp
    · split at h
      · rename_i s _ _
        cases h1 : escapeSequence paired s with
        | error f => rw [h1] at h; cases h
        | ok r =>
          obtain ⟨d, u⟩ := r
          rw [h1] at h
          have hu := length_of_escapeSequence h1
          cases h
          simp only [List.length_cons]
          omega
      · split at h
        · cases h
        · cases h; simp

/-- A quoted text after its opening quote: its characters, and what follows the closing quote. -/
def quotation (paired : Bool) (s : List Char) : Except Fault (List Char × List Char) :=
  match h : unit paired s with
  | .error f => .error f
  | .ok (none, rest) => .ok ([], rest)
  | .ok (some c, rest) =>
    have := length_of_unit h
    (quotation paired rest).map fun (cs, rest) => (c :: cs, rest)
termination_by s.length

theorem length_of_quotation {paired : Bool} {s t cs : List Char}
    (h : quotation paired s = .ok (cs, t)) : t.length < s.length := by
  induction hn : s.length using Nat.strongRecOn generalizing s cs with
  | ind n ih =>
    unfold quotation at h
    split at h
    · cases h
    · rename_i rest hu
      cases h
      exact hn ▸ length_of_unit hu
    · rename_i c rest hu
      have hlt := length_of_unit hu
      cases hq : quotation paired rest with
      | error f => rw [hq] at h; cases h
      | ok r =>
        obtain ⟨ds, u⟩ := r
        rw [hq] at h
        cases h
        have := ih rest.length (hn ▸ hlt) hq rfl
        omega

/-! ## Values of another type -/

/-- The fault of a part that would be of the wrong type if it were read in full. -/
def Fault.unlessBroken {α : Type} : Except Fault α → Fault
  | .error f => f
  | .ok _ => .mismatch

/-- The fault of a value whose type is not the one asked for.  Words, numbers and texts are read in
full before their type counts, lists and objects are not. -/
def typeFault : List Char → Fault
  | [] => .ended
  | c :: s =>
    if c = 'n' then .unlessBroken (word ['u', 'l', 'l'] s)
    else if c = 't' then .unlessBroken (word ['r', 'u', 'e'] s)
    else if c = 'f' then .unlessBroken (word ['a', 'l', 's', 'e'] s)
    else if c = '"' then .unlessBroken (quotation true s)
    else if c = '[' ∨ c = '{' then .mismatch
    else if c = '-' ∨ c.isDigit then .unlessBroken (Numeral.scanFinite (c :: s))
    else .malformed

end Passage.Json
