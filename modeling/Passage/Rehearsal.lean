/-
# Rehearsals

An environment in which everything is scripted: what each condition
answers at each of its checks, how long a check takes, and what a trigger
does.  A rehearsal needs no real time and no real facility, and it comes
out the same every time.

Conditions and triggers share counters, which a trigger adds to and a
condition may compare with a threshold.
-/
import Passage.World

namespace Passage.Rehearsal

/-! ## Tables of names -/

/-- The value of a name in a list of names and values, or a given one. -/
def valueOf {α : Type} (table : List (String × α)) (name : String) (missing : α) : α :=
  (table.lookup name).getD missing

/-- Changes the value of a name; a new name goes to the end. -/
def update {α : Type} (name : String) (missing : α) (f : α → α) :
    List (String × α) → List (String × α)
  | [] => [(name, f missing)]
  | (k, a) :: rest => if k = name then (k, f a) :: rest else (k, a) :: update name missing f rest

/-! ## Scripts -/

structure Answer where
  outcome : Outcome
  message : Option String
  cost : Duration
  deriving DecidableEq, Repr

inductive Behaviour where
  /-- The answers in order; then the last one for ever, or with `cycle` all over again.  With a
  stamp, all of its statuses were made at that time. -/
  | script (answers : List Answer) (cycle : Bool) (stamp : Option Timestamp)
  /-- Holds when a counter has reached a value; it may tell the value. -/
  | threshold (name : String) (least : Int) (told : Bool)
  deriving DecidableEq, Repr

structure Condition where
  name : String
  /-- The description tells how often the condition has been checked. -/
  numbered : Bool
  behaviour : Behaviour
  deriving DecidableEq, Repr

/-- What a trigger does when it is fired. -/
structure Effect where
  additions : List (String × Int)
  cost : Duration
  deriving DecidableEq, Repr

/-- How often each condition was checked, and the counters. -/
structure State where
  checks : List (String × Nat)
  counters : List (String × Int)
  deriving DecidableEq, Repr

def State.empty : State := ⟨[], []⟩

def Answer.silent : Answer := ⟨.notFulfilled, none, ⟨0⟩⟩

/-- The entry of a script for the `n`-th use, counted from 0; the last one repeats. -/
def entryAt {α : Type} (script : List α) (n : Nat) : Option α :=
  script[min n (script.length - 1)]?

/-- The entry of a script that starts over at its end. -/
def cyclicEntryAt {α : Type} (script : List α) (n : Nat) : Option α :=
  script[n % script.length]?

/-! ## The environment -/

/-- The conditions of a rehearsal by their names. -/
abbrev Cast := List (String × Condition)

def Condition.unknown (id : String) : Condition := ⟨id, false, .script [] false none⟩

def Cast.find (cast : Cast) (id : String) : Condition :=
  valueOf cast id (.unknown id)

def State.checksOf (s : State) (id : String) : Nat := valueOf s.checks id 0

def describe (cast : Cast) (id : String) (scene : Scene State) : String :=
  let c := cast.find id
  if c.numbered then c.name ++ " #" ++ Decimal.text (scene.state.checksOf id) else c.name

def integerText (n : Int) : String :=
  if n < 0 then "-" ++ Decimal.text n.natAbs else Decimal.text n.toNat

def answer (b : Behaviour) (number : Nat) (counters : List (String × Int)) : Answer :=
  match b with
  | .script answers cycle _ =>
    ((if cycle then cyclicEntryAt else entryAt) answers number).getD .silent
  | .threshold name least told =>
    let v := valueOf counters name 0
    ⟨.whether (decide (least ≤ v)), if told then some (integerText v ++ " " ++ name) else none, ⟨0⟩⟩

/-- The time at which all statuses of a condition were made, if it was one time. -/
def Behaviour.stamp : Behaviour → Option Timestamp
  | .script _ _ stamp => stamp
  | .threshold .. => none

/-- Checks a condition: time passes first, then the status is made. -/
def check (cast : Cast) (id : String) (scene : Scene State) : Reply State Status :=
  let behaviour := (cast.find id).behaviour
  let a := answer behaviour (scene.state.checksOf id) scene.state.counters
  let now := (scene.clock.advance a.cost).wall
  { value := .of a.outcome a.message (behaviour.stamp.getD now)
    cost := a.cost
    drift := 0
    state := { scene.state with checks := update id 0 (· + 1) scene.state.checks } }

def environment (cast : Cast) : Environment String State where
  describe := describe cast
  check := check cast

def addAll (additions : List (String × Int)) (counters : List (String × Int)) :
    List (String × Int) :=
  additions.foldl (fun vs (name, n) => update name 0 (· + n) vs) counters

/-- A trigger that does what its script says: the first entry on the first try, and so on. -/
def trigger (effects : List Effect) : Trigger State := fun number scene =>
  match entryAt effects (number - 1) with
  | none => .idle scene ()
  | some e =>
    { value := ()
      cost := e.cost
      drift := 0
      state := { scene.state with counters := addAll e.additions scene.state.counters } }

/-- A hook that does nothing beyond being called. -/
def silentAction (_subject : String) (scene : Scene State) : Reply State Unit := .idle scene ()

/-- The clocks at the start of a rehearsal: midnight of 1 January 2024. -/
def startClock : Clock := ⟨⟨0⟩, ⟨1704067200, 0⟩⟩

def startWorld : World String State := ⟨⟨startClock, .empty⟩, []⟩

/-! ## Facts -/

theorem valueOf_cons {α : Type} (k : String) (a : α) (table : List (String × α)) (name : String)
    (missing : α) :
    valueOf ((k, a) :: table) name missing = if k = name then a else valueOf table name missing := by
  rw [valueOf, List.lookup_cons]
  by_cases h : k = name
  · simp [h]
  · have hne : (name == k) = false := beq_eq_false_iff_ne.2 (Ne.symm h)
    rw [hne, if_neg h]
    rfl

theorem valueOf_update_self {α : Type} (name : String) (missing : α) (f : α → α)
    (table : List (String × α)) :
    valueOf (update name missing f table) name missing = f (valueOf table name missing) := by
  induction table with
  | nil => simp [update, valueOf]
  | cons head rest ih =>
      obtain ⟨k, a⟩ := head
      rw [update]
      by_cases h : k = name
      · rw [if_pos h, valueOf_cons, valueOf_cons, if_pos h, if_pos h]
      · rw [if_neg h, valueOf_cons, valueOf_cons, if_neg h, if_neg h, ih]

theorem valueOf_update_of_ne {α : Type} {name other : String} (h : other ≠ name) (missing : α)
    (f : α → α) (table : List (String × α)) :
    valueOf (update name missing f table) other missing = valueOf table other missing := by
  induction table with
  | nil => rw [update, valueOf_cons, if_neg (Ne.symm h)]
  | cons head rest ih =>
      obtain ⟨k, a⟩ := head
      rw [update]
      by_cases hk : k = name
      · have hne : k ≠ other := fun he => h (he.symm.trans hk)
        rw [if_pos hk, valueOf_cons, valueOf_cons, if_neg hne, if_neg hne]
      · rw [if_neg hk, valueOf_cons, valueOf_cons, ih]

end Passage.Rehearsal
