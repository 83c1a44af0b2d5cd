/-
# Revisions of a status

A status while it is worked on: either still a draft or frozen, and a
frozen one is opened again whenever its message is to change.  Steps of
work come in any order and number, and time may pass between them.
-/
import Passage.Status
import Passage.World

namespace Passage.Status

/-- A status as it is worked on. -/
inductive Form where
  | draft (d : Draft)
  | frozen (s : Status)
  deriving DecidableEq, Repr

namespace Form

/-- The draft to work on; a frozen status is opened for it. -/
def toDraft : Form → Draft
  | draft d => d
  | frozen s => s.reopen

/-- The status that the form would be if it were frozen now. -/
def view (f : Form) (now : Timestamp) : Status :=
  match f with
  | draft d => d.build now
  | frozen s => s

end Form

inductive Revision where
  | message (text : String)
  | amend (note : String)
  | reopen
  /-- The status is frozen; a frozen one is opened and frozen again. -/
  | build
  | advance (d : Duration)
  deriving DecidableEq, Repr

/-- A form and the clocks that time is taken from. -/
structure Workshop where
  form : Form
  clock : Clock
  deriving DecidableEq, Repr

def Workshop.apply (w : Workshop) : Revision → Workshop
  | .message text => { w with form := .draft (w.form.toDraft.withMessage text) }
  | .amend note => { w with form := .draft (w.form.toDraft.amend note) }
  | .reopen => { w with form := .draft w.form.toDraft }
  | .build => { w with form := .frozen (w.form.toDraft.build w.clock.wall) }
  | .advance d => { w with clock := w.clock.advance d }

def Workshop.view (w : Workshop) : Status := w.form.view w.clock.wall

/-- Steps of work, one after the other. -/
def Workshop.run (w : Workshop) (steps : List Revision) : Workshop := steps.foldl apply w

end Passage.Status
