/-
# Options of transitions

How often a transition may be tried and how long each try may wait.
Options are valid when there is at least one try and some time; each rule
that is broken is listed (`mem_violations_noTries_iff`,
`mem_violations_zeroTimeout_iff`).  In the written form the timeout is a
number of milliseconds.
-/
import Passage.Json.Record
import Passage.Time.Duration

namespace Passage

/-- A rule for options that is broken. -/
inductive OptionsViolation where
  | noTries
  | zeroTimeout
  deriving DecidableEq, Repr

namespace OptionsViolation

def message : OptionsViolation → String
  | noTries => "tries must be at least 1"
  | zeroTimeout => "timeout must be non-zero"

end OptionsViolation

/-- How a transition is tried. -/
structure Options where
  tries : Nat
  /-- How long each try may wait. -/
  timeout : Duration
  deriving DecidableEq, Repr

namespace Options

def defaultTimeout : Duration := .ofSecs 5

/-- One try of five seconds. -/
def default : Options := ⟨1, defaultTimeout⟩

-- To check all rules, whether or not one before has been broken, and to collect what is broken in
-- the order of the rules is the part of a library for validation; here it is written out.
/-- The rules that are broken: the one for the tries, then the one for the timeout. -/
def violations (o : Options) : List OptionsViolation :=
  (if o.tries = 0 then [.noTries] else []) ++
    (if o.timeout.nanos = 0 then [.zeroTimeout] else [])

def isValid (o : Options) : Bool := o.violations.isEmpty

def toJson (o : Options) : Json :=
  .object [("tries", .number o.tries), ("timeout_ms", .number o.timeout.toMillis)]

structure Draft where
  tries : Option Nat
  timeoutMillis : Option Nat

/-- The options of a draft; what is missing has its default. -/
def Draft.finish (d : Draft) : Options :=
  ⟨d.tries.getD default.tries, (d.timeoutMillis.map Duration.ofMillis).getD default.timeout⟩

def form : Json.Record Draft Options where
  members := [
    .ofField "tries" Draft.tries (fun d n => { d with tries := some n }) Json.readNatural,
    .ofField "timeout_ms" Draft.timeoutMillis (fun d n => { d with timeoutMillis := some n })
      Json.readNatural]
  empty := ⟨none, none⟩
  finish d := some d.finish

def ofJson (text : String) : Except Json.Fault Options := Json.readWhole form.read text

theorem mem_violations_noTries_iff {o : Options} : .noTries ∈ o.violations ↔ o.tries = 0 := by
  simp only [violations, List.mem_append]
  split <;> split <;> simp_all

theorem mem_violations_zeroTimeout_iff {o : Options} :
    .zeroTimeout ∈ o.violations ↔ o.timeout.nanos = 0 := by
  simp only [violations, List.mem_append]
  split <;> split <;> simp_all

end Options
end Passage
