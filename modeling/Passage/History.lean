/-
# Histories of phase changes

A history lists the changes of a facility's phase in the order in which
they were recorded.  `path` is the run of phases that it tells of, and
`duration` the time from its first change to its last.
-/
import Passage.Phase
import Passage.Json.Value
import Passage.Time.Rfc3339

namespace Passage

structure PhaseChange where
  /-- The phase that was left. -/
  source : Phase
  /-- The phase that was entered. -/
  target : Phase
  timestamp : Timestamp
  /-- The try of the transition that made the change, and 0 outside all tries. -/
  attempt : Nat
  deriving DecidableEq, Repr

namespace PhaseChange

def toJson (c : PhaseChange) : Json :=
  .object [("from", .text c.source.name), ("to", .text c.target.name),
    ("timestamp", .text c.timestamp.text), ("attempt", .number c.attempt)]

def readTimestamp : Json.Reader Timestamp := fun s => do
  let (text, s) ← Json.readText s
  match Timestamp.ofChars? text with
  | some t => .ok (t, s)
  | none => .error .mismatch

/-- The members of a change that have been read. -/
structure Draft where
  source : Option Phase
  target : Option Phase
  timestamp : Option Timestamp
  attempt : Option Nat

def Draft.empty : Draft := ⟨none, none, none, none⟩

/-- The change of a draft that has all its members. -/
def Draft.finish (d : Draft) : Option PhaseChange := do
  return ⟨← d.source, ← d.target, ← d.timestamp, ← d.attempt⟩

/-- The written form of a change; no member may be missing. -/
def form : Json.Record Draft PhaseChange where
  members := [
    .ofField "from" Draft.source (fun d p => { d with source := some p }) Phase.read,
    .ofField "to" Draft.target (fun d p => { d with target := some p }) Phase.read,
    .ofField "timestamp" Draft.timestamp (fun d t => { d with timestamp := some t }) readTimestamp,
    .ofField "attempt" Draft.attempt (fun d n => { d with attempt := some n }) Json.readNatural]
  empty := .empty
  finish := Draft.finish

def ofJson (text : String) : Except Json.Fault PhaseChange := Json.readWhole form.read text

end PhaseChange

/-- The changes of a facility's phase, the oldest first. -/
structure History where
  changes : List PhaseChange
  deriving DecidableEq, Repr

namespace History

def empty : History := ⟨[]⟩

/-- The history with one more change at its end. -/
def record (h : History) (c : PhaseChange) : History := ⟨h.changes ++ [c]⟩

/-- The phase the first change left, then the phase each change entered. -/
def path (h : History) : List Phase :=
  (h.changes.head?.map PhaseChange.source).toList ++ h.changes.map PhaseChange.target

def last? (h : History) : Option PhaseChange := h.changes.getLast?

/-- The time from the first change to the last, unless that lies in the past. -/
def duration? (h : History) : Option Duration := do
  let first ← h.changes.head?
  let last ← h.changes.getLast?
  let n := first.timestamp.difference last.timestamp
  if 0 ≤ n then return ⟨n.toNat⟩ else none

def toJson (h : History) : Json :=
  .object [("changes", .list (h.changes.map PhaseChange.toJson))]

structure Draft where
  changes : Option (List PhaseChange)

def form : Json.Record Draft History where
  members := [
    .ofField "changes" Draft.changes (fun _ cs => ⟨some cs⟩) (Json.readList PhaseChange.form.read)]
  empty := ⟨none⟩
  finish d := d.changes.map History.mk

def ofJson (text : String) : Except Json.Fault History := Json.readWhole form.read text

end History
end Passage
