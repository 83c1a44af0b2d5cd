/-
# JSON numbers

A number literal is scanned into its sign, its digits and its exponent.
Only a plain row of digits stands for a natural number (`natural?`), but
every literal has a size, and one too large for a double-precision float
is refused (`isHuge`).

The size is judged on a significand of at most 64 bits: digits that no
longer fit into it count by their place only.
-/
import Passage.Text.Decimal
import Passage.Json.Fault

namespace Passage.Json

structure Numeral where
  negative : Bool
  whole : List Char
  /-- The digits after the point; a point is always followed by one. -/
  fraction : List Char
  exponent : Option Int
  deriving DecidableEq, Repr

namespace Numeral

/-- The exclusive limit of the numbers of 64 bits. -/
def wordLimit : Nat := 18446744073709551616

/-! ## Scanning -/

/-- At least one digit, and what follows the run of digits. -/
def digits1 (s : List Char) : Except Fault (List Char × List Char) :=
  match Decimal.span s with
  | ([], []) => .error .ended
  | ([], _ :: _) => .error .malformed
  | (ds, rest) => .ok (ds, rest)

/-- The digits before the point: a zero that leads stands alone. -/
def scanWhole (s : List Char) : Except Fault (List Char × List Char) := do
  let (ds, rest) ← digits1 s
  if ds.head? = some '0' ∧ ds ≠ ['0'] then .error .malformed else .ok (ds, rest)

/-- The point and the digits after it, if there is a point. -/
def scanFraction : List Char → Except Fault (List Char × List Char)
  | '.' :: s => digits1 s
  | s => .ok ([], s)

/-- The exponent after its letter: a sign or none, and digits. -/
def scanPower : List Char → Except Fault (Int × List Char)
  | '+' :: s => do let (ds, s) ← digits1 s; return ((Decimal.value ds : Int), s)
  | '-' :: s => do let (ds, s) ← digits1 s; return (-(Decimal.value ds : Int), s)
  | s => do let (ds, s) ← digits1 s; return ((Decimal.value ds : Int), s)

/-- The letter of an exponent and the exponent, if there is one. -/
def scanExponent : List Char → Except Fault (Option Int × List Char)
  | 'e' :: s => do let (n, s) ← scanPower s; return (some n, s)
  | 'E' :: s => do let (n, s) ← scanPower s; return (some n, s)
  | s => .ok (none, s)

def scanSign : List Char → Bool × List Char
  | '-' :: s => (true, s)
  | s => (false, s)

def scan (s : List Char) : Except Fault (Numeral × List Char) := do
  let (whole, rest) ← scanWhole (scanSign s).2
  let (fraction, rest) ← scanFraction rest
  let (exponent, rest) ← scanExponent rest
  return (⟨(scanSign s).1, whole, fraction, exponent⟩, rest)

theorem length_of_digits1 {s ds t : List Char} (h : digits1 s = .ok (ds, t)) :
    t.length < s.length := by
  have hs : s.takeWhile Char.isDigit ++ s.dropWhile Char.isDigit = s := List.takeWhile_append_dropWhile
  unfold digits1 Decimal.span at h
  split at h
  · cases h
  · cases h
  · rename_i es rest h1 h2 h3
    cases h
    simp only [Prod.mk.injEq] at h3
    rw [h3.1, h3.2] at hs
    cases ds with
    | nil => cases t with
      | nil => exact (h1 rfl rfl).elim
      | cons c cs => exact (h2 c cs rfl rfl).elim
    | cons d ds => rw [← hs]; simp only [List.length_append, List.length_cons]; omega

theorem length_of_scanWhole {s ds t : List Char} (h : scanWhole s = .ok (ds, t)) :
    t.length < s.length := by
  obtain ⟨⟨es, u⟩, h1, h2⟩ := ok_of_bind h
  simp only at h2
  split at h2
  · cases h2
  · cases h2; exact length_of_digits1 h1

theorem length_of_scanFraction {s ds t : List Char} (h : scanFraction s = .ok (ds, t)) :
    t.length ≤ s.length := by
  unfold scanFraction at h
  split at h
  · exact Nat.le_succ_of_le (Nat.le_of_lt (length_of_digits1 h))
  · cases h; exact Nat.le_refl _

theorem length_of_scanPower {s t : List Char} {n : Int} (h : scanPower s = .ok (n, t)) :
    t.length < s.length := by
  unfold scanPower at h
  split at h <;>
  · obtain ⟨⟨ds, u⟩, h1, h2⟩ := ok_of_bind h
    have hu := length_of_digits1 h1
    cases h2
    first
      | exact Nat.lt_succ_of_lt hu
      | exact hu

theorem length_of_scanExponent {s t : List Char} {n : Option Int}
    (h : scanExponent s = .ok (n, t)) : t.length ≤ s.length := by
  unfold scanExponent at h
  split at h
  · obtain ⟨⟨m, u⟩, h1, h2⟩ := ok_of_bind h
    cases h2
    exact Nat.le_succ_of_le (Nat.le_of_lt (length_of_scanPower h1))
  · obtain ⟨⟨m, u⟩, h1, h2⟩ := ok_of_bind h
    cases h2
    exact Nat.le_succ_of_le (Nat.le_of_lt (length_of_scanPower h1))
  · cases h; exact Nat.le_refl _

theorem length_scanSign_le (s : List Char) : (scanSign s).2.length ≤ s.length := by
  unfold scanSign
  split
  · exact Nat.le_succ _
  · exact Nat.le_refl _

theorem length_of_scan {s t : List Char} {x : Numeral} (h : scan s = .ok (x, t)) :
    t.length < s.length := by
  have hs := length_scanSign_le s
  unfold scan at h
  obtain ⟨⟨ds, u⟩, h1, h⟩ := ok_of_bind h
  obtain ⟨⟨fs, v⟩, h2, h⟩ := ok_of_bind h
  obtain ⟨⟨n, w⟩, h3, h⟩ := ok_of_bind h
  cases h
  have := length_of_scanWhole h1
  have := length_of_scanFraction h2
  have := length_of_scanExponent h3
  omega

/-! ## What a literal stands for -/

/-- The natural number below 2^64 that a literal stands for, if it is a plain row of digits. -/
def natural? (x : Numeral) : Option Nat :=
  if x.negative = false ∧ x.fraction = [] ∧ x.exponent = none ∧ Decimal.value x.whole < wordLimit
  then some (Decimal.value x.whole) else none

/-- The significand and the power of ten after the digits before the point: once a digit does not
fit, it and all that follow only raise the power. -/
def wholeSize (ds : List Char) : Nat × Int :=
  ds.foldl (fun (n, power) c =>
    let next := 10 * n + Decimal.value [c]
    if power = 0 ∧ next < wordLimit then (next, 0) else (n, power + 1)) (0, 0)

/-- The significand and the power of ten after the digits behind the point: once a digit does not
fit, it and all that follow are dropped. -/
def fractionSize : List Char → Nat × Int → Nat × Int
  | [], size => size
  | c :: ds, (n, power) =>
    let next := 10 * n + Decimal.value [c]
    if next < wordLimit then fractionSize ds (next, power - 1) else (n, power)

/-- A natural number rounded to 53 significant bits; a tie goes to the even neighbour. -/
def roundToDouble (n : Nat) : Nat :=
  let unit := Nat.pow 2 (Nat.log2 n - 52)
  let q := n / unit
  let r := n % unit
  (if unit < 2 * r ∨ (unit = 2 * r ∧ q % 2 = 1) then q + 1 else q) * unit

/-- Numbers from here on round to no finite double. -/
def doubleLimit : Nat := Nat.pow 2 1024 - Nat.pow 2 970

/-- The literal has no finite double: its significand and its power of ten are rounded first and
multiplied then. -/
def isHuge (x : Numeral) : Bool :=
  let (n, power) := fractionSize x.fraction (wholeSize x.whole)
  let power := power + x.exponent.getD 0
  if n = 0 ∨ power < 0 then false
  else if 308 < power then true
  else doubleLimit ≤ roundToDouble n * roundToDouble (Nat.pow 10 power.toNat)

def scanFinite (s : List Char) : Except Fault (Numeral × List Char) := do
  let (x, s) ← scan s
  if x.isHuge then .error .malformed else .ok (x, s)

end Numeral
end Passage.Json
