/-
# Points in time

A point in time is a second of UTC, counted from 1970, and the
nanoseconds into it.  The nanoseconds run on past the end of the second
only during a leap second, which has no second number of its own.

Outside leap seconds, moving a point in time and taking the difference of
two points undo each other: a point that was moved by some nanoseconds lies
that many nanoseconds away (`difference_shift`), and moving the one of two
points by their difference leads to the other (`shift_difference`).
-/
import Passage.Time.Duration
import Passage.Time.Calendar

namespace Passage

/-- A point in time, in UTC. -/
@[ext] structure Timestamp where
  /-- Seconds since 1 January 1970. -/
  secs : Int
  /-- Nanoseconds into the second; at least 10^9 only in a leap second. -/
  nanos : Nat
  deriving DecidableEq, Inhabited, Repr

namespace Timestamp

abbrev secsPerDay : Nat := 86400

/-- The point that lies the given number of nanoseconds later, or earlier if it is negative. -/
def shift (t : Timestamp) (ns : Int) : Timestamp :=
  let total := t.secs * Duration.perSecond + t.nanos + ns
  ⟨total / Duration.perSecond, (total % Duration.perSecond).toNat⟩

def add (t : Timestamp) (d : Duration) : Timestamp := t.shift d.nanos

/-- The day a point in time lies on, counted from 1 January 1970. -/
def day (t : Timestamp) : Int := t.secs / secsPerDay

def secOfDay (t : Timestamp) : Nat := (t.secs % secsPerDay).toNat

def isLeap (t : Timestamp) : Bool := Duration.perSecond ≤ t.nanos

/-- The seconds that a leap second adds to the time from `a` to `b`: it counts when it is the one
of the two points that comes earlier in the day. -/
def leapBetween (a b : Timestamp) : Int :=
  if a.secOfDay < b.secOfDay ∧ a.isLeap then 1
  else if b.secOfDay < a.secOfDay ∧ b.isLeap then -1
  else 0

/-- The nanoseconds from `a` to `b`, negative if `b` is the earlier one. -/
def difference (a b : Timestamp) : Int :=
  (b.secs - a.secs + leapBetween a b) * Duration.perSecond + ((b.nanos : Int) - a.nanos)

/-- The nanoseconds are those of an ordinary second. -/
def IsOrdinary (t : Timestamp) : Prop := t.nanos < Duration.perSecond

instance decIsOrdinary (t : Timestamp) : Decidable t.IsOrdinary :=
  inferInstanceAs (Decidable (t.nanos < Duration.perSecond))

theorem isOrdinary_shift (t : Timestamp) (n : Int) : (t.shift n).IsOrdinary := by
  simp only [IsOrdinary, shift, Duration.perSecond]
  omega

theorem leapBetween_eq_zero {a b : Timestamp} (ha : a.IsOrdinary) (hb : b.IsOrdinary) :
    leapBetween a b = 0 := by
  have ha' : a.isLeap = false := by simpa [isLeap, IsOrdinary] using ha
  have hb' : b.isLeap = false := by simpa [isLeap, IsOrdinary] using hb
  simp [leapBetween, ha', hb']

theorem difference_shift {t : Timestamp} (h : t.IsOrdinary) (n : Int) :
    difference t (t.shift n) = n := by
  rw [difference, leapBetween_eq_zero h (isOrdinary_shift t n)]
  simp only [shift, Duration.perSecond]
  omega

theorem shift_difference {a b : Timestamp} (ha : a.IsOrdinary) (hb : b.IsOrdinary) :
    a.shift (a.difference b) = b := by
  rw [difference, leapBetween_eq_zero ha hb]
  simp only [IsOrdinary, Duration.perSecond] at ha hb
  ext <;> simp only [shift, Duration.perSecond] <;> omega

end Timestamp
end Passage
