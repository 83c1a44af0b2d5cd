/-
# Decimal digits of natural numbers

Numbers are written without leading zeros or, in fields of a fixed
width, filled up with zeros on the left.  Both forms read back with
`Decimal.value`: `value_digits` and `value_padded` say so, and
`isDigit_of_mem_digits` and `isDigit_of_mem_padded` say that nothing but
digits is written, so that a reader that takes a run of digits takes all
of them.
-/
namespace Passage.Decimal

/-- The decimal digits of `n`, with no leading zero except for `0` itself. -/
def digits (n : Nat) : List Char :=
  Nat.toDigits 10 n

/-- The digits of `n` with zeros in front, so that there are at least `width` of them. -/
def padded (width n : Nat) : List Char :=
  List.replicate (width - (digits n).length) '0' ++ digits n

/-- The number that a run of digits stands for; leading zeros do not count. -/
def value (ds : List Char) : Nat :=
  Nat.ofDigitChars 10 ds 0

def text (n : Nat) : String :=
  String.ofList (digits n)

/-- The run of digits at the front of a text, and what follows it. -/
def span (s : List Char) : List Char × List Char :=
  (s.takeWhile Char.isDigit, s.dropWhile Char.isDigit)

/-- The run of digits at the front, of which at most `limit` are taken. -/
def spanUpTo (limit : Nat) (s : List Char) : List Char × List Char :=
  (((s.take limit).takeWhile Char.isDigit), s.drop ((s.take limit).takeWhile Char.isDigit).length)

theorem value_digits (n : Nat) : value (digits n) = n :=
  Nat.ofDigitChars_ten_toDigits

theorem value_padded (width n : Nat) : value (padded width n) = n := by
  simp only [value, padded, Nat.ofDigitChars_append, Nat.ofDigitChars_replicate_zero]
  simpa [value] using value_digits n

theorem isDigit_of_mem_digits {n : Nat} {c : Char} (h : c ∈ digits n) : c.isDigit = true :=
  Nat.isDigit_of_mem_toDigits (by omega) (by omega) h

theorem isDigit_of_mem_padded {width n : Nat} {c : Char} (h : c ∈ padded width n) :
    c.isDigit = true := by
  rcases List.mem_append.1 h with h | h
  · rw [List.eq_of_mem_replicate h]; decide
  · exact isDigit_of_mem_digits h

theorem digits_ne_nil (n : Nat) : digits n ≠ [] :=
  Nat.toDigits_ne_nil

end Passage.Decimal
