/-
# Waiting for conditions

A wait checks all its conditions in order, pass after pass, until a
condition reports an error, or all of them hold on the same pass, or the
time is over; between two passes it sleeps.  At least one pass is made.

A wait with a deadline never makes more than `passBound` passes.  One
without a deadline may go on for ever; it is followed for as many passes
as the caller has patience for, and has no result if it is not over then.
-/
import Passage.World
import Passage.Wait.Progress
import Passage.Wait.Table

namespace Passage
variable {ι σ : Type}

structure Wait (ι : Type) where
  condition : ι
  origin : Origin
  deriving DecidableEq, Repr

namespace Wait

def interval : Duration := .ofMillis 50

/-- When a wait has begun, and how long it may last. -/
structure Budget where
  start : Duration
  timeout : Duration
  deriving DecidableEq, Repr

namespace Budget

/-- The reading of the clock at which the time is over; a timeout beyond all readings sets none. -/
def deadline? (b : Budget) : Option Duration := Clock.deadline? b.start b.timeout

/-- The pause before the next pass, cut short at the deadline; none when the time is over. -/
def pause? (b : Budget) (now : Duration) : Option Duration :=
  match b.deadline? with
  | none => some interval
  | some d => if d ≤ now then none else some (interval.least (d - now))

end Budget

/-- The largest number of passes that fit into a timeout: one at its start, and one after each
pause. -/
def passBound (timeout : Duration) : Nat :=
  (timeout.nanos + (interval.nanos - 1)) / interval.nanos + 1

abbrev Watched (ι : Type) := Wait ι × Progress

/-! ## One pass -/

/-- Checks one condition and remembers the result; a change of status is noted. -/
def sample (env : Environment ι σ) (start : Duration) (x : Wait ι) (before : Option Progress)
    (w : World ι σ) : Progress × World ι σ :=
  let (status, w) := w.check env x.condition
  let elapsed := w.elapsedSince start
  let after := Progress.next before status elapsed
  if Progress.isNews before after then
    (after, w.note (.statusChanged x.origin (env.describe x.condition w.scene) after.last.gate
      elapsed))
  else (after, w)

/-- The outcome of a pass: the conditions and what is remembered of them, and the description of
the first one that reported an error. -/
structure Pass (ι σ : Type) where
  watched : List (Watched ι)
  errored : Option String
  world : World ι σ

/-- Checks all conditions once, in order; a condition that reports an error does not end it. -/
def pass (env : Environment ι σ) (start : Duration) :
    List (Wait ι × Option Progress) → World ι σ → Pass ι σ
  | [], w => ⟨[], none, w⟩
  | (x, before) :: rest, w =>
    let (after, w) := sample env start x before w
    let named := if after.last.isError then some (env.describe x.condition w.scene) else none
    let r := pass env start rest w
    ⟨(x, after) :: r.watched, named.or r.errored, r.world⟩

/-- The row of a condition, with its description as it is now. -/
def rowOf (env : Environment ι σ) (s : Scene σ) (x : Watched ι) : Row :=
  ⟨x.1.origin, env.describe x.1.condition s, x.2.last, x.2.checks, x.2.firstFulfilledAfter,
    x.2.regressions⟩

def tableOf (env : Environment ι σ) (s : Scene σ) (watched : List (Watched ι)) : Table :=
  .ofRows (watched.map (rowOf env s))

/-! ## Passes until the wait is over -/

abbrev Result := Except Failure Report

inductive Verdict where
  | failed (reason : Reason)
  | fulfilled
  | goOn (pause : Duration)
  deriving DecidableEq, Repr

/-- An error counts first, then that all conditions hold, then the time. -/
def verdict (b : Budget) (p : Pass ι σ) : Verdict :=
  match p.errored with
  | some c => .failed (.conditionError c)
  | none =>
    if p.watched.all fun x => x.2.last.isFulfilled then .fulfilled
    else match b.pause? p.world.now with
      | none => .failed (.timeout b.timeout)
      | some d => .goOn d

/-- Makes passes, at most `rounds` more; `passes` have been made. -/
def poll (env : Environment ι σ) (b : Budget) : Nat → Nat → List (Wait ι × Option Progress) →
    World ι σ → Option (Result × World ι σ)
  | 0, _, _, _ => none
  | rounds + 1, passes, watched, w =>
    let p := pass env b.start watched w
    let elapsed := p.world.elapsedSince b.start
    let table := tableOf env p.world.scene p.watched
    match verdict b p with
    | .failed reason => some (.error ⟨reason, elapsed, passes + 1, table⟩, p.world)
    | .fulfilled =>
      some (.ok ⟨elapsed, passes + 1, table⟩, p.world.note (.allFulfilled (passes + 1) elapsed))
    | .goOn pause =>
      poll env b rounds (passes + 1) (p.watched.map fun x => (x.1, some x.2)) (p.world.sleep pause)

/-- The passes that are followed at most: all there can be if there is a deadline. -/
def roundsOf (patience : Nat) (b : Budget) : Nat :=
  match b.deadline? with
  | some _ => passBound b.timeout
  | none => patience

/-- Waits for conditions, for at most the timeout. -/
def run (env : Environment ι σ) (patience : Nat) (waits : List (Wait ι)) (timeout : Duration)
    (w : World ι σ) : Option (Result × World ι σ) :=
  let b : Budget := ⟨w.now, timeout⟩
  poll env b (roundsOf patience b) 0 (waits.map fun x => (x, none))
    (w.note (.waitBegun waits.length timeout))

end Wait
end Passage
