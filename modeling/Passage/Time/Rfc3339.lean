/-
# RFC 3339 times

The written form of a point in time is its date, the letter `T`, the time
of day with a fraction of 0, 3, 6 or 9 digits, and the letter `Z`.  Years
0 to 9999 have four digits, all others a sign and at least four.

The reader takes more than the writer writes: blanks around the parts, a
blank for the `T`, fields of one digit, any fraction, and an offset from
UTC.  Every point in time that it returns lies in the years `firstYear`
to `lastYear`.
-/
import Passage.Text.Blank
import Passage.Time.Timestamp

namespace Passage.Timestamp

/-! ## Writing -/

/-- The year of a date: four digits, with a sign when four digits are not enough. -/
def yearChars (y : Int) : List Char :=
  if y < 0 then '-' :: Decimal.padded 4 y.natAbs
  else if y ≤ 9999 then Decimal.padded 4 y.toNat
  else '+' :: Decimal.padded 4 y.toNat

/-- The fraction of a second, in as few groups of three digits as are exact. -/
def fractionChars (nanos : Nat) : List Char :=
  if nanos = 0 then []
  else if nanos % 1000000 = 0 then '.' :: Decimal.padded 3 (nanos / 1000000)
  else if nanos % 1000 = 0 then '.' :: Decimal.padded 6 (nanos / 1000)
  else '.' :: Decimal.padded 9 nanos

def dateChars (d : Date) : List Char :=
  yearChars d.year ++ '-' :: Decimal.padded 2 d.month ++ '-' :: Decimal.padded 2 d.day

/-- A time of day; second 60 is a leap second. -/
def clockChars (hour minute second nanos : Nat) : List Char :=
  Decimal.padded 2 hour ++ ':' :: Decimal.padded 2 minute ++ ':' :: Decimal.padded 2 second ++
    fractionChars nanos

def chars (t : Timestamp) : List Char :=
  let leap := if t.isLeap then 1 else 0
  dateChars (Date.ofDay t.day) ++ 'T' ::
    clockChars (t.secOfDay / 3600) (t.secOfDay / 60 % 60) (t.secOfDay % 60 + leap)
      (t.nanos - leap * Duration.perSecond) ++ ['Z']

def text (t : Timestamp) : String := String.ofList t.chars

/-! ## Reading -/

/-- The first year a point in time that is read may lie in. -/
def firstYear : Int := -262143

def lastYear : Int := 262142

/-- A number of at least one and at most `limit` digits. -/
def number? (limit : Nat) (s : List Char) : Option (Nat × List Char) :=
  match Decimal.spanUpTo limit s with
  | ([], _) => none
  | (ds, rest) => some (Decimal.value ds, rest)

/-- A number of any length, as it follows a sign. -/
def longNumber? (s : List Char) : Option (Nat × List Char) :=
  number? s.length s

def field? (s : List Char) : Option (Nat × List Char) :=
  number? 2 (Text.trimLeft s)

def mark? (c : Char) (s : List Char) : Option (List Char) :=
  match Text.trimLeft s with
  | [] => none
  | d :: rest => if d = c then some rest else none

/-- A year after any blanks: with a sign it may have any number of digits, else at most four. -/
def year? (s : List Char) : Option (Int × List Char) :=
  match Text.trimLeft s with
  | '-' :: rest => (longNumber? rest).map fun (n, rest) => (-(n : Int), rest)
  | '+' :: rest => (longNumber? rest).map fun (n, rest) => ((n : Int), rest)
  | rest => (number? 4 rest).map fun (n, rest) => ((n : Int), rest)

def date? (s : List Char) : Option (Date × List Char) := do
  let (year, s) ← year? s
  let s ← mark? '-' s
  let (month, s) ← field? s
  let s ← mark? '-' s
  let (day, s) ← field? s
  return (⟨year, month, day⟩, s)

/-- The letter `T` or a blank between the date and the time of day. -/
def divider? : List Char → Option (List Char)
  | c :: rest => if c = 'T' ∨ c = 't' ∨ c = ' ' then some rest else none
  | [] => none

/-- The nanoseconds of a fraction, if one follows; digits beyond the ninth are dropped. -/
def fraction? : List Char → Option (Nat × List Char)
  | '.' :: s =>
    match Decimal.spanUpTo 9 s with
    | ([], _) => none
    | (ds, rest) => some (Decimal.value ds * Nat.pow 10 (9 - ds.length), rest.dropWhile Char.isDigit)
  | s => some (0, s)

/-- A time of day: hour, minute, second and nanoseconds. -/
def clock? (s : List Char) : Option ((Nat × Nat × Nat × Nat) × List Char) := do
  let (hour, s) ← field? s
  let s ← mark? ':' s
  let (minute, s) ← field? s
  let s ← mark? ':' s
  let (second, s) ← field? s
  let (nanos, s) ← fraction? s
  return ((hour, minute, second, nanos), s)

def twoDigits? : List Char → Option (Nat × List Char)
  | a :: b :: rest => if a.isDigit && b.isDigit then some (Decimal.value [a, b], rest) else none
  | _ => none

/-- Hours and minutes of an offset after its sign, in seconds; colons and blanks may stand between
them. -/
def offsetSize? (s : List Char) : Option (Nat × List Char) := do
  let (hours, s) ← twoDigits? s
  let (minutes, s) ← twoDigits? (s.dropWhile fun c => c == ':' || Text.isBlank c)
  if hours ≤ 23 ∧ minutes ≤ 59 then return (hours * 3600 + minutes * 60, s) else none

/-- An offset from UTC in seconds: a sign, hours and minutes. -/
def signedOffset? : List Char → Option (Int × List Char)
  | '+' :: rest => (offsetSize? rest).map fun (n, rest) => ((n : Int), rest)
  | '-' :: rest => (offsetSize? rest).map fun (n, rest) => (-(n : Int), rest)
  | '\u2212' :: rest => (offsetSize? rest).map fun (n, rest) => (-(n : Int), rest)
  | _ => none

/-- An offset from UTC in seconds; the letter `Z` and the word `UTC` stand for none, in small and
in capital letters. -/
def offset? (s : List Char) : Option (Int × List Char) :=
  if (s.take 3).map Char.toUpper = ['U', 'T', 'C'] then some (0, s.drop 3)
  else match s with
    | 'Z' :: rest => some (0, rest)
    | 'z' :: rest => some (0, rest)
    | _ => signedOffset? s

/-- The point in time of a date, a time of day and an offset from UTC, if there is one.  Second 60
is a leap second at the end of its minute. -/
def ofParts? (d : Date) (clock : Nat × Nat × Nat × Nat) (offset : Int) : Option Timestamp :=
  let (hour, minute, second, nanos) := clock
  let secs := d.dayNumber * secsPerDay + (hour * 3600 + minute * 60 + min second 59 : Nat) - offset
  let t : Timestamp := ⟨secs, nanos + (if second = 60 then Duration.perSecond else 0)⟩
  let year := (Date.ofDay t.day).year
  if d.IsValid ∧ firstYear ≤ d.year ∧ d.year ≤ lastYear ∧ hour ≤ 23 ∧ minute ≤ 59 ∧ second ≤ 60 ∧
      firstYear ≤ year ∧ year ≤ lastYear then some t else none

/-- Reads a point in time; nothing but blanks may follow it. -/
def ofChars? (s : List Char) : Option Timestamp := do
  let (date, s) ← date? s
  let s ← divider? s
  let (clock, s) ← clock? s
  let (offset, s) ← offset? (Text.trimLeft s)
  if s.all Text.isBlank then ofParts? date clock offset else none

def ofText? (s : String) : Option Timestamp := ofChars? s.toList

end Passage.Timestamp
