/-
# Durations

A length of time to the nanosecond.  The text form uses the largest of
the units s, ms, µs and ns in which the whole part is not zero, and
writes the rest as an exact fraction.
-/
import Passage.Json.Value

namespace Passage

/-- A length of time, counted in nanoseconds. -/
@[ext] structure Duration where
  nanos : Nat
  deriving DecidableEq, Inhabited, Repr

namespace Duration

abbrev perSecond : Nat := 1000000000

abbrev perMilli : Nat := 1000000

/-- The largest number of milliseconds that is ever written down: one less than 2^64. -/
def maxMillis : Nat := 18446744073709551615

def zero : Duration := ⟨0⟩

def ofMillis (n : Nat) : Duration := ⟨n * perMilli⟩

def ofSecs (n : Nat) : Duration := ⟨n * perSecond⟩

/-- The duration of `secs` seconds and `nanos` nanoseconds. -/
def ofParts (secs nanos : Nat) : Duration := ⟨secs * perSecond + nanos⟩

instance : Add Duration := ⟨fun a b => ⟨a.nanos + b.nanos⟩⟩

/-- The time from `b` to `a`, and zero if `a` is not the later one. -/
instance : Sub Duration := ⟨fun a b => ⟨a.nanos - b.nanos⟩⟩

instance : LE Duration := ⟨fun a b => a.nanos ≤ b.nanos⟩

instance : LT Duration := ⟨fun a b => a.nanos < b.nanos⟩

instance (a b : Duration) : Decidable (a ≤ b) := inferInstanceAs (Decidable (a.nanos ≤ b.nanos))

instance (a b : Duration) : Decidable (a < b) := inferInstanceAs (Decidable (a.nanos < b.nanos))

@[simp] theorem nanos_add (a b : Duration) : (a + b).nanos = a.nanos + b.nanos := rfl

@[simp] theorem nanos_sub (a b : Duration) : (a - b).nanos = a.nanos - b.nanos := rfl

theorem le_iff (a b : Duration) : a ≤ b ↔ a.nanos ≤ b.nanos := Iff.rfl

def least (a b : Duration) : Duration := ⟨min a.nanos b.nanos⟩

def secs (d : Duration) : Nat := d.nanos / perSecond

/-- Nanoseconds beyond the whole seconds. -/
def subsecNanos (d : Duration) : Nat := d.nanos % perSecond

/-- Whole milliseconds, at most `maxMillis`. -/
def toMillis (d : Duration) : Nat := min (d.nanos / perMilli) maxMillis

theorem ofParts_secs_subsecNanos (d : Duration) : ofParts d.secs d.subsecNanos = d := by
  ext
  simp only [ofParts, secs, subsecNanos, perSecond]
  omega

theorem toMillis_ofMillis {n : Nat} (h : n ≤ maxMillis) : (ofMillis n).toMillis = n := by
  simp only [toMillis, ofMillis, perMilli, maxMillis] at *
  omega

theorem toMillis_le (d : Duration) : d.toMillis ≤ maxMillis := Nat.min_le_right _ _

/-- A count of a unit, with the rest as a fraction of `places` digits: no trailing zeros, and no
point when nothing would follow it. -/
def amount (whole places rest : Nat) (unit : String) : String :=
  let fraction := ((Decimal.padded places rest).reverse.dropWhile (· == '0')).reverse
  Decimal.text whole ++ (if fraction.isEmpty then "" else "." ++ String.ofList fraction) ++ unit

/-- The text of a duration: `0ns`, `1.5µs`, `50.000001ms`, `3600s`. -/
def text (d : Duration) : String :=
  if perSecond ≤ d.nanos then amount d.secs 9 d.subsecNanos "s"
  else if perMilli ≤ d.nanos then amount (d.nanos / perMilli) 6 (d.nanos % perMilli) "ms"
  else if 1000 ≤ d.nanos then amount (d.nanos / 1000) 3 (d.nanos % 1000) "µs"
  else amount d.nanos 0 0 "ns"

def toJson (d : Duration) : Json :=
  .object [("secs", .number d.secs), ("nanos", .number d.subsecNanos)]

end Duration
end Passage
