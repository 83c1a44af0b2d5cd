/-
# Statuses of conditions

A status says how one check of a condition went: its outcome, perhaps a
message, and the time.  It is built from a draft, whose message can still
be replaced or amended; building cuts the message to
`maxMessageLength` characters and stamps the status, unless it has been
stamped before.  A status can be opened again as a draft, and keeps its
stamp.

The main fact here is `length_message_build`, the cap on messages.
-/
import Passage.Json.Value
import Passage.Json.Record
import Passage.Time.Rfc3339

namespace Passage

inductive Outcome where
  | notFulfilled
  | fulfilled
  /-- The condition cannot be fulfilled any more. -/
  | error
  deriving DecidableEq, Repr

namespace Outcome

def name : Outcome → String
  | notFulfilled => "NOT_FULFILLED"
  | fulfilled => "FULFILLED"
  | error => "ERROR"

/-- The label of an outcome in logs and reports. -/
def label : Outcome → String
  | notFulfilled => "NOT REQ"
  | fulfilled => "REQUIRED"
  | error => "ERROR"

def choices : Json.Choices Outcome :=
  [notFulfilled, fulfilled, error].map fun o => (o.name, o)

/-- The outcome of a plain yes or no; it is never an error. -/
def whether : Bool → Outcome
  | true => fulfilled
  | false => notFulfilled

def read : Json.Reader Outcome := Json.readChoice choices

end Outcome

/-- The result of one check of a condition. -/
structure Status where
  outcome : Outcome
  message : Option String
  timestamp : Timestamp
  deriving DecidableEq, Repr

namespace Status

/-- The largest number of characters in the message of a status. -/
def maxMessageLength : Nat := 300

/-- What stands between a message and a note that amends it. -/
def amendSeparator : String := "  "

def truncate (s : String) : String :=
  String.ofList (s.toList.take maxMessageLength)

/-- A status that is still being put together. -/
structure Draft where
  outcome : Outcome
  message : Option String
  timestamp : Option Timestamp
  deriving DecidableEq, Repr

namespace Draft

def start (o : Outcome) : Draft := ⟨o, none, none⟩

def withMessage (d : Draft) (s : String) : Draft := { d with message := some s }

/-- A message with a note behind it, or the note alone. -/
def amendedMessage (message : Option String) (note : String) : String :=
  match message with
  | some s => s ++ amendSeparator ++ note
  | none => note

def amend (d : Draft) (note : String) : Draft :=
  { d with message := some (amendedMessage d.message note) }

/-- Freezes the draft: the message is cut, and a draft without a stamp gets the present time. -/
def build (d : Draft) (now : Timestamp) : Status :=
  ⟨d.outcome, d.message.map truncate, d.timestamp.getD now⟩

end Draft

/-- Opens a status again; its outcome, its message and its stamp are kept. -/
def reopen (s : Status) : Draft := ⟨s.outcome, s.message, some s.timestamp⟩

/-! ## Statuses made at once -/

def plain (o : Outcome) (now : Timestamp) : Status := (Draft.start o).build now

def withMessage (o : Outcome) (message : String) (now : Timestamp) : Status :=
  ((Draft.start o).withMessage message).build now

/-- A status with a message or without one. -/
def of (o : Outcome) : Option String → Timestamp → Status
  | none => plain o
  | some m => withMessage o m

/-! ## Reading a status -/

def isFulfilled (s : Status) : Bool := s.outcome == .fulfilled

def isError (s : Status) : Bool := s.outcome == .error

/-- The text of a status for logs and reports: its label, and its message if it has one. -/
def gate (s : Status) : String :=
  match s.message with
  | some m => s.outcome.label ++ " | " ++ m
  | none => s.outcome.label

def toJson (s : Status) : Json :=
  .object [("status", .text s.outcome.name), ("message", Json.ofOption .text s.message),
    ("timestamp", .text s.timestamp.text)]

/-! ## Facts -/

theorem length_truncate_le (s : String) : (truncate s).toList.length ≤ maxMessageLength := by
  rw [truncate, String.toList_ofList, List.length_take]
  exact Nat.min_le_left _ _

/-- A frozen message has at most `maxMessageLength` characters. -/
theorem length_message_build {d : Draft} {now : Timestamp} {m : String}
    (h : (d.build now).message = some m) : m.toList.length ≤ maxMessageLength := by
  obtain ⟨s, _, rfl⟩ := Option.map_eq_some_iff.1 h
  exact length_truncate_le s

end Status
end Passage
