/-
# Running a transition

A transition marks its facility as being entered or left, and then makes
tries: each fires the trigger and waits for the conditions.  A single try
is made at once, several are counted by a loop.  The first try that succeeds
ends it; after the last one that fails it is given up.  On success the
facility is marked again and the hook is called.

A transition is run at most once, and only with valid options; a run that
is refused for one of these reasons changes nothing.
-/
import Passage.Config
import Passage.Facility
import Passage.Transition.Error
import Passage.Wait.Polling

namespace Passage
variable {ι σ : Type}

/-- What is called after a successful transition. -/
inductive Hook (σ : Type) where
  /-- A pause, if one is configured. -/
  | pause (config : Config)
  /-- An action of any kind, told the subject of the transition. -/
  | action (act : String → Scene σ → Reply σ Unit)

/-- A change of a facility, with all that is needed to run it. -/
structure Transition (ι σ : Type) where
  id : String
  kind : Kind
  facility : Facility ι
  options : Options
  trigger : Option (Trigger σ)
  /-- Conditions of the transition itself, beside those of the facility. -/
  required : List ι
  hook : Hook σ
  stage : Stage

namespace Transition

/-- A transition as it is before it is run, with default options and nothing else. -/
def idle (id : String) (kind : Kind) (facility : Facility ι) (hook : Hook σ) : Transition ι σ :=
  ⟨id, kind, facility, .default, none, [], hook, .notStarted⟩

/-- The words for a transition, such as `check-out <F: Menu>`. -/
def subject (t : Transition ι σ) : String := t.kind.name ++ " " ++ t.facility.text

/-- The conditions that the facility contributes: for leaving, no element persists. -/
def facilityConditions : Kind → Elements ι → List ι
  | .checkIn, es => es.enterConditions
  | .checkOut, es => es.exitConditions []

/-- The conditions that each try waits for: those of the facility, then the transition's own. -/
def waits (t : Transition ι σ) : List (Wait ι) :=
  (facilityConditions t.kind t.facility.elements).map (fun c => ⟨c, t.kind.origin⟩) ++
    t.required.map (fun c => ⟨c, .transition⟩)

/-- The account of a successful transition. -/
structure Report where
  id : String
  kind : Kind
  facility : String
  /-- The tries that were made, the successful one included. -/
  attempts : Nat
  elapsed : Duration
  /-- The wait of the successful try. -/
  wait : Wait.Report
  deriving DecidableEq, Repr

def Report.toJson (r : Report) : Json :=
  .object [("id", .text r.id), ("kind", .text r.kind.name), ("facility", .text r.facility),
    ("attempts", .number r.attempts), ("elapsed", r.elapsed.toJson), ("wait", r.wait.toJson)]

/-! ## Marking the facility -/

/-- Moves a facility to a phase; the change is noted. -/
def mark (f : Facility ι) (target : Phase) (attempt : Nat) (w : World ι σ) :
    Except PhaseError (Facility ι) × World ι σ :=
  match f.advance target attempt w.wall with
  | .ok g => (.ok g, w.note (.phaseChanged f.name f.phase target))
  | .error e => (.error e, w)

/-! ## Ends of a run -/

/-- What comes out of a run: a report or an error, and the transition and the world as they are
then. -/
structure Run (ι σ : Type) where
  result : Except TransitionError Report
  transition : Transition ι σ
  world : World ι σ

/-- The transition at another stage. -/
def inStage (t : Transition ι σ) (stage : Stage) : Transition ι σ := { t with stage := stage }

def fail (t : Transition ι σ) (e : TransitionError) (w : World ι σ) : Run ι σ :=
  ⟨.error e, t.inStage .failed, w⟩

/-- The end of a transition whose last try, the one with the given number, has failed. -/
def giveUp (t : Transition ι σ) (number : Nat) (failure : Wait.Failure) (w : World ι σ) :
    Run ι σ :=
  fail t (.unmet t.kind t.facility.text number failure) w

/-! ## Tries -/

/-- The try with the given number: the trigger is fired, then the conditions are waited for. -/
def makeTry (env : Environment ι σ) (patience : Nat) (waits : List (Wait ι)) (number : Nat)
    (t : Transition ι σ) (w : World ι σ) : Option (Wait.Result × Transition ι σ × World ι σ) :=
  let t := t.inStage .triggered
  let w := w.fire t.trigger number
  let w := w.note (.triggered t.kind t.facility.text)
  let w := w.note (.tryWaiting number t.options.tries t.facility.text)
  let t := t.inStage .waiting
  (Wait.run env patience waits t.options.timeout w).map fun (result, w) => (result, t, w)

/-- A try that has succeeded: its number, the report of its wait, and the transition and the world
as they are then. -/
structure Success (ι σ : Type) where
  number : Nat
  report : Wait.Report
  transition : Transition ι σ
  world : World ι σ

-- Semireducible, so that closed runs can still be evaluated through this loop.
/-- Makes tries, from the one with the given number on, until one has succeeded or the last one that
is allowed has failed. -/
@[semireducible] def retry (env : Environment ι σ) (patience : Nat) (waits : List (Wait ι))
    (tries number : Nat) (t : Transition ι σ) (w : World ι σ) :
    Option (Except (Run ι σ) (Success ι σ)) :=
  match makeTry env patience waits number t w with
  | none => none
  | some (.ok report, t, w) => some (.ok ⟨number, report, t, w⟩)
  | some (.error failure, t, w) =>
    if number < tries then
      retry env patience waits tries (number + 1) t
        (w.note (.tryFailed number tries failure.reason.text))
    else some (.error (giveUp t number failure w))
termination_by tries - number

/-- The tries of a transition.  Where a single one is allowed, it is made without more ado. -/
def tryAll (env : Environment ι σ) (patience : Nat) (t : Transition ι σ) (w : World ι σ) :
    Option (Except (Run ι σ) (Success ι σ)) :=
  let waits := t.waits
  let tries := t.options.tries
  if tries = 1 then
    match makeTry env patience waits 1 t w with
    | none => none
    | some (.ok report, t, w) => some (.ok ⟨1, report, t, w⟩)
    | some (.error failure, t, w) => some (.error (giveUp t 1 failure w))
  else retry env patience waits tries 1 t w

/-! ## The hook -/

/-- The hook of a transition that was given none: a pause, if the value that was found in the
environment asks for one.  A value that cannot be used is noted. -/
def configuredHook (value : Option String) (w : World ι σ) : Hook σ × World ι σ :=
  let said (n : Notice) : StateM (World ι σ) Unit := modify fun w => w.note n
  let (config, w) := (Config.findOrWarn (fun _ => pure value) said).run w
  (.pause config, w)

def callHook (hook : Hook σ) (subject : String) (w : World ι σ) : World ι σ :=
  let w := w.record (.hooked subject)
  match hook with
  | .pause config =>
    match config.pause with
    | none => w
    | some d => (w.note (.pausing subject d)).sleep d
  | .action act => w.settle (act subject w.scene)

/-! ## The whole run -/

/-- The end of a transition one try of which has succeeded: the facility is marked, then the hook
is called. -/
def succeed (t : Transition ι σ) (started : Duration) (number : Nat) (report : Wait.Report)
    (w : World ι σ) : Run ι σ :=
  match mark t.facility t.kind.done number w with
  | (.error e, w) => fail t (.phase e) w
  | (.ok facility, w) =>
    let t := { t with facility := facility }
    let w := w.note (.completed t.kind facility.text)
    let t := t.inStage .succeeded
    let w := callHook t.hook t.subject w
    ⟨.ok ⟨t.id, t.kind, t.facility.name, number, w.elapsedSince started, report⟩, t, w⟩

/-- A transition from the first marking of its facility on. -/
def proceed (env : Environment ι σ) (patience : Nat) (t : Transition ι σ) (w : World ι σ) :
    Option (Run ι σ) :=
  let t := t.inStage .beforeHook
  match mark t.facility t.kind.during 0 w with
  | (.error e, w') => some (fail t (.phase e) w')
  | (.ok facility, w') =>
    let t := { t with facility := facility }
    (tryAll env patience t (w'.note (.beginning t.kind facility.text))).map fun
      | .error r => r
      | .ok s => succeed s.transition w.now s.number s.report s.world

/-- Why a transition is not run at all. -/
def refusal? (t : Transition ι σ) : Option TransitionError :=
  if t.stage ≠ .notStarted then some (.alreadyExecuted t.subject)
  else if t.options.isValid then none
  else some (.invalidOptions t.options.violations)

/-- Runs a transition, inside a span of its own.  Waits without a deadline are followed for
`patience` passes, and there is no result if one is not over then. -/
def execute (env : Environment ι σ) (patience : Nat) (t : Transition ι σ) (w : World ι σ) :
    Option (Run ι σ) :=
  match t.refusal? with
  | some e => some ⟨.error e, t, w⟩
  | none =>
    let inside := (w.record (.spanOpened t.id t.subject)).record .spanEntered
    (proceed env patience t inside).map fun r => { r with world := r.world.record .spanLeft }

/-- Runs a transition a number of times, each time as the run before has left it. -/
def executeAll (env : Environment ι σ) (patience : Nat) :
    Nat → Transition ι σ → World ι σ → Option (List (Run ι σ))
  | 0, _, _ => some []
  | n + 1, t, w =>
    match execute env patience t w with
    | none => none
    | some r => (executeAll env patience n r.transition r.world).map (r :: ·)

end Transition
end Passage
