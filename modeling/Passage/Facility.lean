/-
# Facilities

A facility is a region that transitions lead into and out of.  It has a
phase, which moves forward only (`Facility.advance`), a history of its
phase changes, and elements whose conditions say when it counts as
entered and as left.  Conditions are named by handles of any type `ι`.
-/
import Passage.History

namespace Passage
variable {ι : Type}

/-- A part of a facility, with a condition for entering and one for leaving it, if it has them. -/
structure Element (ι : Type) where
  id : String
  enter : Option ι
  exit : Option ι
  deriving DecidableEq, Repr

/-- The condition for leaving an element; one that stays in the next state has none. -/
def Element.exitUnless (e : Element ι) (persisting : List String) : Option ι :=
  if e.id ∈ persisting then none else e.exit

/-- All that a facility declares: its elements, and conditions that belong to none of them. -/
structure Elements (ι : Type) where
  inState : List (Element ι)
  enter : List ι
  exit : List ι
  deriving DecidableEq, Repr

namespace Elements

def empty : Elements ι := ⟨[], [], []⟩

def isEmpty (es : Elements ι) : Bool :=
  es.inState.isEmpty && es.enter.isEmpty && es.exit.isEmpty

def declare (es : Elements ι) (e : Element ι) : Elements ι :=
  { es with inState := es.inState ++ [e] }

def declareEnter (es : Elements ι) (c : ι) : Elements ι := { es with enter := es.enter ++ [c] }

def declareExit (es : Elements ι) (c : ι) : Elements ι := { es with exit := es.exit ++ [c] }

/-- The conditions for entering: those of the elements, then the others. -/
def enterConditions (es : Elements ι) : List ι :=
  es.inState.filterMap Element.enter ++ es.enter

/-- The conditions for leaving: those of the elements that do not persist, then the others. -/
def exitConditions (es : Elements ι) (persisting : List String) : List ι :=
  es.inState.filterMap (·.exitUnless persisting) ++ es.exit

/-! ## The text of a declaration -/

/-- How a character is written in a quoted name. -/
def escapeChar (c : Char) : List Char :=
  if c = '"' then ['\\', '"']
  else if c = '\\' then ['\\', '\\']
  else if c = '\t' then ['\\', 't']
  else if c = '\n' then ['\\', 'n']
  else if c = '\r' then ['\\', 'r']
  else [c]

def quoted (s : String) : String :=
  "\"" ++ String.ofList (s.toList.flatMap escapeChar) ++ "\""

def bracketed (xs : List String) : String :=
  "[" ++ String.intercalate ", " xs ++ "]"

def conditionText (description : String) : String := "Condition(" ++ quoted description ++ ")"

/-- The text of a declaration: the names of its elements and the descriptions of its other
conditions. -/
def text (describe : ι → String) (es : Elements ι) : String :=
  "Elements \x7b elements_in_state: " ++ bracketed (es.inState.map fun e => quoted e.id) ++
    ", other_enter_conditions: " ++ bracketed (es.enter.map fun c => conditionText (describe c)) ++
    ", other_exit_conditions: " ++ bracketed (es.exit.map fun c => conditionText (describe c)) ++
    " \x7d"

end Elements

structure PhaseError where
  facility : String
  source : Phase
  target : Phase
  deriving DecidableEq, Repr

def PhaseError.message (e : PhaseError) : String :=
  "Facility '" ++ e.facility ++ "' cannot move from " ++ e.source.name ++ " to " ++ e.target.name

/-- A region that transitions lead into and out of. -/
structure Facility (ι : Type) where
  name : String
  phase : Phase
  elements : Elements ι
  history : History
  deriving DecidableEq, Repr

namespace Facility

/-- A facility in a phase, with nothing declared and nothing recorded. -/
def inPhase (name : String) (phase : Phase) : Facility ι := ⟨name, phase, .empty, .empty⟩

/-- A facility that was never entered. -/
def new (name : String) : Facility ι := inPhase name .new

/-- A facility that is entered already. -/
def active (name : String) : Facility ι := inPhase name .active

def text (f : Facility ι) : String := "<F: " ++ f.name ++ ">"

/-- Moves the facility to a phase and records the change, if that phase comes next. -/
def advance (f : Facility ι) (target : Phase) (attempt : Nat) (now : Timestamp) :
    Except PhaseError (Facility ι) :=
  if f.phase.canAdvanceTo target then
    .ok { f with
      phase := target
      history := f.history.record ⟨f.phase, target, now, attempt⟩ }
  else .error ⟨f.name, f.phase, target⟩

theorem advance_eq_ok_iff {f g : Facility ι} {target : Phase} {attempt : Nat} {now : Timestamp} :
    f.advance target attempt now = .ok g ↔ f.phase.next = some target ∧
      g = { f with
        phase := target
        history := f.history.record ⟨f.phase, target, now, attempt⟩ } := by
  rw [← Phase.canAdvanceTo_iff, advance]
  split <;> rename_i h <;> simp [h, eq_comm]

end Facility
end Passage
