/-
# Tables of waits

What a wait has to show for itself: a row for each condition, in the
order of their origins, and the report or the failure that carries the
table.  Rows of one origin keep the order in which they came, because a row
is placed in front of those that came after it unless they have to precede
it.
-/
import Passage.Kind
import Passage.Status

namespace Passage.Wait

/-! ## Rows -/

/-- What a wait knows of one condition. -/
structure Row where
  origin : Origin
  condition : String
  status : Status
  checks : Nat
  firstFulfilledAfter : Option Duration
  /-- How often the condition held and then held no more. -/
  regressions : Nat
  deriving DecidableEq, Repr

namespace Row

def isFulfilled (r : Row) : Bool := r.status.isFulfilled

def regressionsText (n : Nat) : String :=
  if n = 0 then "" else ", " ++ Decimal.text n ++ " regressions"

def text (r : Row) : String :=
  "[" ++ r.origin.name ++ "] " ++ r.condition ++ ": <Gate: " ++ r.status.gate ++ "> (" ++
    Decimal.text r.checks ++ " checks" ++ regressionsText r.regressions ++ ")"

def toJson (r : Row) : Json :=
  .object [("origin", .text r.origin.name), ("condition", .text r.condition),
    ("status", r.status.toJson), ("checks", .number r.checks),
    ("first_fulfilled_after", Json.ofOption Duration.toJson r.firstFulfilledAfter),
    ("regressions", .number r.regressions)]

end Row

/-! ## Tables -/

/-- Rows in the order of their origins. -/
structure Table where
  rows : List Row
  deriving DecidableEq, Repr

namespace Table

def empty : Table := ⟨[]⟩

/-- Places a row in front of the first one that does not have to precede it. -/
def place (r : Row) : List Row → List Row
  | [] => [r]
  | s :: rest => if r.origin.rank ≤ s.origin.rank then r :: s :: rest else s :: place r rest

/-- The table of rows that come in any order. -/
def ofRows (rows : List Row) : Table := ⟨rows.foldr place []⟩

def length (t : Table) : Nat := t.rows.length

def isEmpty (t : Table) : Bool := t.rows.isEmpty

/-- The first row of a condition with the given description. -/
def find? (t : Table) (condition : String) : Option Row :=
  t.rows.find? fun r => r.condition == condition

/-- How far the rows of a table are moved in. -/
def margin : String := "    "

def lines (t : Table) : List String :=
  if t.isEmpty then [margin ++ "(no conditions)"] else t.rows.map fun r => margin ++ r.text

def text (t : Table) : String := String.intercalate "\n" t.lines

def toJson (t : Table) : Json := .list (t.rows.map Row.toJson)

end Table

/-! ## Reports and failures -/

/-- A wait that has met all its conditions. -/
structure Report where
  elapsed : Duration
  passes : Nat
  table : Table
  deriving DecidableEq, Repr

def Report.toJson (r : Report) : Json :=
  .object [("elapsed", r.elapsed.toJson), ("passes", .number r.passes), ("table", r.table.toJson)]

inductive Reason where
  | timeout (timeout : Duration)
  | conditionError (condition : String)
  deriving DecidableEq, Repr

namespace Reason

def text : Reason → String
  | timeout d => "Did not meet all conditions within " ++ d.text
  | conditionError c => "Condition '" ++ c ++ "' reported an error"

def isTimeout : Reason → Bool
  | timeout _ => true
  | conditionError _ => false

def isConditionError : Reason → Bool
  | timeout _ => false
  | conditionError _ => true

end Reason

/-- A wait that has not met all its conditions. -/
structure Failure where
  reason : Reason
  elapsed : Duration
  passes : Nat
  table : Table
  deriving DecidableEq, Repr

def Failure.headline (f : Failure) : String :=
  f.reason.text ++ " (elapsed " ++ f.elapsed.text ++ ", " ++ Decimal.text f.passes ++ " passes)"

def Failure.text (f : Failure) : String := f.headline ++ "\n" ++ f.table.text

end Passage.Wait
