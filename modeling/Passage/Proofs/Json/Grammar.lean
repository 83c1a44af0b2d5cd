/-
# The grammar of JSON

What a JSON text is, said without a reader.  Blanks, numbers and quoted
texts come first.  Then one relation, `Grammar`, has all phrases that are
made of them: values, alone or with blanks around them, the parts of a
bracket, and rows of such parts with commas between them.  A part of a
list is a value, and a part of an object is a key, a colon and a value.

A quoted text may have escapes that stand for no character, such as half
of a pair.  `Spells` leaves these out, and says which characters the
others stand for; all that it spells is of the grammar (`Spells.body`).

So is all that this library writes, whatever texts are in it:
`grammar_compact`.
-/
import Passage.Proofs.Text.Digits
import Passage.Json.Value
import Passage.Json.Skip

namespace Passage.Json

/-! ## Blanks and numbers -/

/-- Nothing but blanks, of those that may stand between the parts of a value. -/
def Blank (s : List Char) : Prop := ∀ c ∈ s, c ∈ [' ', '\n', '\t', '\r']

theorem blank_nil : Blank [] := fun _ h => absurd h List.not_mem_nil

theorem Blank.append {s t : List Char} (hs : Blank s) (ht : Blank t) : Blank (s ++ t) :=
  fun c hc => (List.mem_append.1 hc).elim (hs c) (ht c)

namespace Numeral

/-- At least one digit, and nothing else. -/
structure Digits (s : List Char) : Prop where
  ne_nil : s ≠ []
  isDigit : ∀ c ∈ s, c.isDigit = true

/-- The digits before the point: a zero that leads stands alone. -/
structure Whole (s : List Char) : Prop extends Digits s where
  alone : s.head? = some '0' → s = ['0']

/-- The point and the digits after it, or neither. -/
inductive Fraction : List Char → Prop
  | none : Fraction []
  | point {ds : List Char} (h : Digits ds) : Fraction ('.' :: ds)

/-- The letter of an exponent, a sign or none, and digits; or nothing of all that. -/
inductive Exponent : List Char → Prop
  | none : Exponent []
  | power {letter : Char} {sign ds : List Char} (hletter : letter ∈ ['e', 'E'])
      (hsign : sign ∈ [[], ['+'], ['-']]) (h : Digits ds) : Exponent (letter :: (sign ++ ds))

/-- A number literal. -/
inductive Literal : List Char → Prop
  | mk {sign whole fraction exponent : List Char} (hsign : sign ∈ [[], ['-']])
      (hwhole : Whole whole) (hfraction : Fraction fraction) (hexponent : Exponent exponent) :
      Literal (sign ++ (whole ++ (fraction ++ exponent)))

theorem whole_digits (n : Nat) : Whole (Decimal.digits n) where
  ne_nil := Decimal.digits_ne_nil n
  isDigit _ h := Decimal.isDigit_of_mem_digits h
  alone h := by rw [Decimal.head?_digits_eq_zero h]; rfl

theorem literal_digits (n : Nat) : Literal (Decimal.digits n) := by
  have h : Literal ([] ++ (Decimal.digits n ++ ([] ++ []))) :=
    .mk (by decide) (whole_digits n) .none .none
  rwa [List.nil_append, List.append_nil, List.append_nil] at h

end Numeral

/-! ## Quoted texts -/

/-- A hexadecimal digit, small or capital, and its value. -/
def Hex (c : Char) (n : Nat) : Prop := n < 16 ∧ (c = hexDigit n ∨ c = (hexDigit n).toUpper)

/-- Four hexadecimal digits and the number that they write. -/
inductive Hex4 : List Char → Nat → Prop
  | mk {a b c d : Char} {p q r s : Nat} (ha : Hex a p) (hb : Hex b q) (hc : Hex c r)
      (hd : Hex d s) : Hex4 [a, b, c, d] (((p * 16 + q) * 16 + r) * 16 + s)

/-- The escapes of one letter, each with its character. -/
def shortEscapes : List (Char × Char) :=
  [('"', '"'), ('\\', '\\'), ('/', '/'), ('b', '\x08'), ('f', '\x0c'), ('n', '\n'), ('r', '\r'),
    ('t', '\t')]

/-- A symbol of a quoted text, and the number that it stands for: that of a character, or any
below 2^16. -/
inductive Symbol : List Char → Nat → Prop
  | plain {c : Char} (hspace : 0x20 ≤ c.toNat) (hquote : c ≠ '"') (hbackslash : c ≠ '\\') :
      Symbol [c] c.toNat
  | short {letter c : Char} (h : (letter, c) ∈ shortEscapes) : Symbol ['\\', letter] c.toNat
  | numbered {digits : List Char} {n : Nat} (h : Hex4 digits n) : Symbol ('\\' :: 'u' :: digits) n

/-- What stands between two quotes. -/
inductive Body : List Char → Prop
  | nil : Body []
  | cons {symbol s : List Char} {n : Nat} (h : Symbol symbol n) (hs : Body s) : Body (symbol ++ s)

/-- The two numbers that stand for one character beyond 2^16. -/
structure Surrogates (c : Char) (high low : Nat) : Prop where
  beyond : 0x10000 ≤ c.toNat
  high_eq : high = 0xD800 + (c.toNat - 0x10000) / 0x400
  low_eq : low = 0xDC00 + (c.toNat - 0x10000) % 0x400

/-- What stands between two quotes, and the characters that it stands for. -/
inductive Spells : List Char → List Char → Prop
  | nil : Spells [] []
  | cons {symbol s cs : List Char} {c : Char} (h : Symbol symbol c.toNat) (hs : Spells s cs) :
      Spells (symbol ++ s) (c :: cs)
  | pair {high low s cs : List Char} {n m : Nat} {c : Char} (hhigh : Hex4 high n)
      (hlow : Hex4 low m) (h : Surrogates c n m) (hs : Spells s cs) :
      Spells ('\\' :: 'u' :: high ++ ('\\' :: 'u' :: low ++ s)) (c :: cs)

theorem Spells.body {s cs : List Char} (h : Spells s cs) : Body s := by
  induction h with
  | nil => exact .nil
  | cons h _ ih => exact .cons h ih
  | pair hhigh hlow _ _ ih => exact .cons (.numbered hhigh) (.cons (.numbered hlow) ih)

/-- A control character without a short escape is written by its number. -/
theorem symbol_control {c : Char} (h : c.toNat < 0x20) :
    Symbol ['\\', 'u', '0', '0', hexDigit (c.toNat / 16), hexDigit (c.toNat % 16)] c.toNat := by
  have hzero : Hex '0' 0 := ⟨by decide, .inl rfl⟩
  have hhigh : Hex (hexDigit (c.toNat / 16)) (c.toNat / 16) := ⟨by omega, .inl rfl⟩
  have hlow : Hex (hexDigit (c.toNat % 16)) (c.toNat % 16) := ⟨by omega, .inl rfl⟩
  have hnumber : ((0 * 16 + 0) * 16 + c.toNat / 16) * 16 + c.toNat % 16 = c.toNat := by omega
  have hsymbol := Symbol.numbered (.mk hzero hzero hhigh hlow)
  rwa [hnumber] at hsymbol

/-- Each character is written as one symbol that stands for it. -/
theorem symbol_escapeChar (c : Char) : Symbol (escapeChar c) c.toNat := by
  unfold escapeChar
  -- Seven characters have a short escape, and the other control characters a numeric one.
  repeat' split
  · exact .short (by subst c; decide)
  · exact .short (by subst c; decide)
  · exact .short (by subst c; decide)
  · exact .short (by subst c; decide)
  · exact .short (by subst c; decide)
  · exact .short (by subst c; decide)
  · exact .short (by subst c; decide)
  · rename_i hcontrol
    exact symbol_control hcontrol
  · rename_i hquote hbackslash _ _ _ _ _ hcontrol
    exact .plain (Nat.not_lt.1 hcontrol) hquote hbackslash

theorem spells_escape (s : List Char) : Spells (escape s) s := by
  induction s with
  | nil => exact .nil
  | cons c s ih => exact .cons (symbol_escapeChar c) ih

/-! ## Values -/

def Bracket.opening : Bracket → Char
  | .list => '['
  | .object => '{'

inductive Phrase where
  | value
  /-- A value with the blanks around it. -/
  | element
  /-- What stands between the commas of a bracket. -/
  | part (b : Bracket)
  /-- What stands in a bracket, if it is more than blanks. -/
  | parts (b : Bracket)

def words : List (List Char) :=
  [['n', 'u', 'l', 'l'], ['t', 'r', 'u', 'e'], ['f', 'a', 'l', 's', 'e']]

/-- The phrases of JSON. -/
inductive Grammar : Phrase → List Char → Prop
  | word {s : List Char} (h : s ∈ words) : Grammar .value s
  | number {s : List Char} (h : Numeral.Literal s) : Grammar .value s
  | quoted {s : List Char} (h : Body s) : Grammar .value ('"' :: (s ++ ['"']))
  | empty (b : Bracket) {gap : List Char} (h : Blank gap) :
      Grammar .value (b.opening :: (gap ++ [b.closing]))
  | bracket (b : Bracket) {s : List Char} (h : Grammar (.parts b) s) :
      Grammar .value (b.opening :: (s ++ [b.closing]))
  | element {before s after : List Char} (hbefore : Blank before) (h : Grammar .value s)
      (hafter : Blank after) : Grammar .element (before ++ (s ++ after))
  | item {s : List Char} (h : Grammar .element s) : Grammar (.part .list) s
  | member {before key gap s : List Char} (hbefore : Blank before) (hkey : Body key)
      (hgap : Blank gap) (h : Grammar .element s) :
      Grammar (.part .object) (before ++ '"' :: (key ++ '"' :: (gap ++ ':' :: s)))
  | last {b : Bracket} {s : List Char} (h : Grammar (.part b) s) : Grammar (.parts b) s
  | more {b : Bracket} {s t : List Char} (h : Grammar (.part b) s) (ht : Grammar (.parts b) t) :
      Grammar (.parts b) (s ++ ',' :: t)

/-- The text is JSON: one value, perhaps with blanks around it. -/
def IsJson (s : String) : Prop := Grammar .element s.toList

theorem Grammar.alone {s : List Char} (h : Grammar .value s) : Grammar .element s := by
  have helement := Grammar.element blank_nil h blank_nil
  rwa [List.nil_append, List.append_nil] at helement

theorem grammar_quoted (s : String) : Grammar .value (quoted s) := by
  rw [quoted, List.cons_append]
  exact .quoted (spells_escape s.toList).body

theorem grammar_member (key : String) {s : List Char} (h : Grammar .value s) :
    Grammar (.part .object) (quoted key ++ ':' :: s) := by
  have hmember :=
    Grammar.member blank_nil (spells_escape key.toList).body blank_nil h.alone
  simpa [quoted] using hmember

mutual

/-- The text that is written for a value is one of the grammar. -/
theorem grammar_compact : (x : Json) → Grammar .value (compact x)
  | .null => .word (by decide)
  | .number n => .number (Numeral.literal_digits n)
  | .text s => grammar_quoted s
  | .list [] => .empty .list blank_nil
  | .list (x :: xs) => .bracket .list (grammar_compactItems (x :: xs) (List.cons_ne_nil x xs))
  | .object [] => .empty .object blank_nil
  | .object (m :: ms) =>
      .bracket .object (grammar_compactMembers (m :: ms) (List.cons_ne_nil m ms))

theorem grammar_compactItems :
    (xs : List Json) → xs ≠ [] → Grammar (.parts .list) (compactItems xs)
  | [], hne => absurd rfl hne
  | [x], _ => .last (.item (grammar_compact x).alone)
  | x :: y :: rest, _ =>
      .more (.item (grammar_compact x).alone)
        (grammar_compactItems (y :: rest) (List.cons_ne_nil y rest))

theorem grammar_compactMembers : (ms : List (String × Json)) → ms ≠ [] →
    Grammar (.parts .object) (compactMembers ms)
  | [], hne => absurd rfl hne
  | [(k, x)], _ => .last (grammar_member k (grammar_compact x))
  | (k, x) :: m :: ms, _ =>
      .more (grammar_member k (grammar_compact x))
        (grammar_compactMembers (m :: ms) (List.cons_ne_nil m ms))

end

/-- What is written is JSON. -/
theorem isJson_render (x : Json) : IsJson (render x) := by
  rw [IsJson, render, String.toList_ofList]
  exact (grammar_compact x).alone

end Passage.Json
