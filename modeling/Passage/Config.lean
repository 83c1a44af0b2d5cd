/-
# Configuration

The one thing to configure is a pause after each successful transition, in
whole milliseconds.  It is read from JSON or found under a name in the
environment.  The value found is a number below 2^64 in decimal digits,
perhaps after a plus sign, with any blanks around it; `find` fails on any
other, and `findOrWarn` says so and goes on without a pause.
-/
import Passage.Json.Record
import Passage.Notice
import Passage.Text.Blank

namespace Passage

structure Config where
  /-- The pause after a transition, in milliseconds. -/
  pauseMillis : Option Nat
  deriving DecidableEq, Repr

/-- A value was found for a variable, and it is no number of milliseconds. -/
structure InvalidValue where
  var : String
  value : String
  deriving DecidableEq, Repr

def InvalidValue.message (e : InvalidValue) : String :=
  "Invalid value '" ++ e.value ++ "' for " ++ e.var ++ ": expected milliseconds"

namespace Config

def pauseVariable : String := "TRANSIT_PAUSE_AFTER_TRANSITION_MS"

def default : Config := ⟨none⟩

/-- A pause of whole milliseconds, at most `Duration.maxMillis` of them. -/
def withPause (d : Duration) : Config := ⟨some d.toMillis⟩

def pause (c : Config) : Option Duration := c.pauseMillis.map .ofMillis

/-! ## JSON -/

def toJson (c : Config) : Json :=
  .object [("pause_after_transition_ms", Json.ofOption .number c.pauseMillis)]

structure Draft where
  pauseMillis : Option (Option Nat)

/-- The written form of a configuration; a missing pause is none. -/
def form : Json.Record Draft Config where
  members := [
    .ofField "pause_after_transition_ms" Draft.pauseMillis (fun _ p => ⟨some p⟩)
      (Json.readOptional Json.readNatural)]
  empty := ⟨none⟩
  finish d := some ⟨d.pauseMillis.getD none⟩

def ofJson (text : String) : Except Json.Fault Config := Json.readWhole form.read text

/-- What is said of a text that could not be read, before its fault. -/
def faultHeading : String := "Invalid configuration JSON: "

/-! ## Looking up -/

/-- A number below 2^64 in decimal digits, perhaps after a plus sign. -/
def millis? (s : List Char) : Option Nat :=
  let ds := match s with
    | '+' :: ds => ds
    | ds => ds
  if ds ≠ [] ∧ ds.all Char.isDigit ∧ Decimal.value ds ≤ Duration.maxMillis then
    some (Decimal.value ds)
  else none

/-- The configuration that a value found stands for; nothing found is the default. -/
def ofValue? : Option String → Except InvalidValue Config
  | none => .ok default
  | some value =>
    match millis? (Text.trim value.toList) with
    | some n => .ok ⟨some n⟩
    | none => .error ⟨pauseVariable, value⟩

/-- Finds the configuration; the variable is looked up once. -/
def find {m : Type → Type} [Monad m] (lookup : String → m (Option String)) :
    m (Except InvalidValue Config) := do
  return ofValue? (← lookup pauseVariable)

/-- Finds the configuration to go on with.  Of one that cannot be used something is said, and the
default takes its place. -/
def findOrWarn {m : Type → Type} [Monad m] (lookup : String → m (Option String))
    (say : Notice → m Unit) : m Config := do
  match ← find lookup with
  | .ok c => return c
  | .error e =>
    say (.configIgnored e.message)
    return default

/-- With an answer that is known, something is said only if it cannot be used. -/
theorem findOrWarn_pure {m : Type → Type} [Monad m] [LawfulMonad m] (answer : Option String)
    (say : Notice → m Unit) :
    findOrWarn (fun _ => pure answer) say =
      match ofValue? answer with
      | .ok c => pure c
      | .error e => do
        say (.configIgnored e.message)
        return default := by
  simp only [findOrWarn, find, pure_bind]

/-- Finds the configuration to go on with, and hands back beside it what was said last. -/
def findOrDefault {m : Type → Type} [Monad m] (lookup : String → m (Option String)) :
    m (Config × Option Notice) :=
  (findOrWarn (fun name => StateT.lift (lookup name)) fun n => set (some n)).run none

end Config
end Passage
