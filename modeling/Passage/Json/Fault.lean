/-
# Faults of a JSON text

A text is read from left to right, and the first fault that is met
decides what is said about it.
-/
namespace Passage.Json

/-- Why a text is not the value that was asked for. -/
inductive Fault where
  /-- The text ends too early. -/
  | ended
  /-- The text is not JSON. -/
  | malformed
  /-- The text is JSON as far as it was read, but of another type. -/
  | mismatch
  deriving DecidableEq, Repr

/-- A reader takes a value off the front of a text. -/
abbrev Reader (α : Type) := List Char → Except Fault (α × List Char)

/-- A reading that goes on after a first part succeeds through a result of that part. -/
theorem ok_of_bind {α β : Type} {x : Except Fault α} {f : α → Except Fault β} {b : β}
    (h : (x >>= f) = .ok b) : ∃ a, x = .ok a ∧ f a = .ok b := by
  cases x with
  | error e => cases h
  | ok a => exact ⟨a, rfl, h⟩

theorem ok_of_map {α β : Type} {x : Except Fault α} {f : α → β} {b : β}
    (h : x.map f = .ok b) : ∃ a, x = .ok a ∧ f a = b := by
  cases x with
  | error e => cases h
  | ok a => cases h; exact ⟨a, rfl, rfl⟩

end Passage.Json
