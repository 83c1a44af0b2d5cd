/-
# Worlds

A run acts on a world: a scene, which is a pair of clocks and whatever
state the conditions look at, and the list of the events so far.  What a
condition or a trigger does is given by an environment: it sees the scene
and replies with a value, the time that it took and the state that it
left.

Every operation only adds events; `events_record` says that an event goes
to the end of the list.
-/
import Passage.Notice
import Passage.Status

namespace Passage
variable {ι σ α : Type}

/-! ## Clocks -/

/-- A clock that only runs forward, and the clock on the wall. -/
@[ext] structure Clock where
  monotonic : Duration
  wall : Timestamp
  deriving DecidableEq, Repr

namespace Clock

/-- Both clocks after some time; the one on the wall may be off by `drift` nanoseconds. -/
def run (c : Clock) (d : Duration) (drift : Int) : Clock :=
  ⟨c.monotonic + d, c.wall.shift (d.nanos + drift)⟩

def advance (c : Clock) (d : Duration) : Clock := c.run d 0

/-- The first reading that the monotonic clock cannot have: 2^63 seconds. -/
def limit : Duration := .ofSecs 9223372036854775808

/-- The reading at which a timeout that begins at `start` is over, if the clock can have it. -/
def deadline? (start timeout : Duration) : Option Duration :=
  if start + timeout < limit then some (start + timeout) else none

end Clock

/-! ## Scenes and environments -/

/-- The clocks, and the state that conditions and triggers share. -/
@[ext] structure Scene (σ : Type) where
  clock : Clock
  state : σ

/-- What an action answers: a value, the time it took, how far the wall clock was moved besides,
and the state it left. -/
structure Reply (σ α : Type) where
  value : α
  cost : Duration
  drift : Int
  state : σ

/-- An action that changes nothing and takes no time. -/
def Reply.idle (s : Scene σ) (a : α) : Reply σ α := ⟨a, ⟨0⟩, 0, s.state⟩

/-- The conditions: how each is described, and what a check of it does. -/
structure Environment (ι σ : Type) where
  describe : ι → Scene σ → String
  check : ι → Scene σ → Reply σ Status

/-- An action that sets a transition in motion, told the number of the try that fires it. -/
abbrev Trigger (σ : Type) := Nat → Scene σ → Reply σ Unit

/-! ## Events -/

/-- Something that happened in a run. -/
inductive Event (ι : Type) where
  | checked (condition : ι)
  /-- The run slept, for more than no time. -/
  | slept (d : Duration)
  /-- The trigger was fired, for the try with this number. -/
  | fired (number : Nat)
  /-- The action after a transition was called, with the transition's subject. -/
  | hooked (subject : String)
  | noted (n : Notice)
  | spanOpened (id subject : String)
  | spanEntered
  | spanLeft
  deriving DecidableEq, Repr

/-- A scene, and the events that led to it, the latest first. -/
structure World (ι σ : Type) where
  scene : Scene σ
  past : List (Event ι)

namespace World

/-- The events in the order in which they happened. -/
def events (w : World ι σ) : List (Event ι) := w.past.reverse

def now (w : World ι σ) : Duration := w.scene.clock.monotonic

def wall (w : World ι σ) : Timestamp := w.scene.clock.wall

def elapsedSince (w : World ι σ) (start : Duration) : Duration := w.now - start

def record (w : World ι σ) (e : Event ι) : World ι σ := { w with past := e :: w.past }

def note (w : World ι σ) (n : Notice) : World ι σ := w.record (.noted n)

/-- Says what there is to say, if there is anything. -/
def noteAny (w : World ι σ) : Option Notice → World ι σ
  | none => w
  | some n => w.note n

/-- The world after an action has answered. -/
def settle (w : World ι σ) (r : Reply σ α) : World ι σ :=
  { w with scene := ⟨w.scene.clock.run r.cost r.drift, r.state⟩ }

def advance (w : World ι σ) (d : Duration) : World ι σ :=
  { w with scene := { w.scene with clock := w.scene.clock.advance d } }

/-- Sleeps; a sleep of no time is no event. -/
def sleep (w : World ι σ) (d : Duration) : World ι σ :=
  if d.nanos = 0 then w else (w.advance d).record (.slept d)

def check (env : Environment ι σ) (c : ι) (w : World ι σ) : Status × World ι σ :=
  let r := env.check c w.scene
  (r.value, (w.record (.checked c)).settle r)

/-- Fires a trigger for the try with the given number, if there is a trigger. -/
def fire (trigger : Option (Trigger σ)) (number : Nat) (w : World ι σ) : World ι σ :=
  match trigger with
  | none => w
  | some t => (w.record (.fired number)).settle (t number w.scene)

@[simp] theorem events_record (w : World ι σ) (e : Event ι) :
    (w.record e).events = w.events ++ [e] := by
  simp [events, record]

@[simp] theorem events_note (w : World ι σ) (n : Notice) :
    (w.note n).events = w.events ++ [.noted n] := events_record w _

@[simp] theorem events_settle (w : World ι σ) (r : Reply σ α) :
    (w.settle r).events = w.events := rfl

@[simp] theorem events_advance (w : World ι σ) (d : Duration) :
    (w.advance d).events = w.events := rfl

@[simp] theorem scene_record (w : World ι σ) (e : Event ι) : (w.record e).scene = w.scene := rfl

@[simp] theorem scene_note (w : World ι σ) (n : Notice) : (w.note n).scene = w.scene := rfl

@[simp] theorem now_record (w : World ι σ) (e : Event ι) : (w.record e).now = w.now := rfl

@[simp] theorem now_note (w : World ι σ) (n : Notice) : (w.note n).now = w.now := rfl

@[simp] theorem now_settle (w : World ι σ) (r : Reply σ α) :
    (w.settle r).now = w.now + r.cost := rfl

@[simp] theorem now_advance (w : World ι σ) (d : Duration) : (w.advance d).now = w.now + d := rfl

end World
end Passage
