/-
# Tries, by how many are left

A single try is made straight away, and where more are allowed a loop counts
them up to that number (`tryAll`).  Nothing tells the two apart: both do
what `attempts` does, which knows only how many tries it may still spare
(`tryAll_eq`).  It leaves out the stages of the transition as well, because
every end of a run has a stage of its own, whatever it was before.

All that is said of tries elsewhere is said of `attempts`.
-/
import Passage.Transition.Execution

namespace Passage
variable {ι σ : Type}

namespace Transition

/-- The number of the last try that was made, and the result of its wait. -/
structure Outcome where
  attempts : Nat
  result : Wait.Result

/-- What the try with the given number comes to, and the world that it leaves. -/
def attempt (env : Environment ι σ) (patience : Nat) (t : Transition ι σ) (number : Nat)
    (w : World ι σ) : Option (Wait.Result × World ι σ) :=
  let w := w.fire t.trigger number
  let w := w.note (.triggered t.kind t.facility.text)
  let w := w.note (.tryWaiting number t.options.tries t.facility.text)
  Wait.run env patience t.waits t.options.timeout w

/-- The try with the given number, and as long as tries fail up to `spare` more. -/
def attempts (env : Environment ι σ) (patience : Nat) (t : Transition ι σ) :
    Nat → Nat → World ι σ → Option (Outcome × World ι σ)
  | spare, number, w =>
    match attempt env patience t number w with
    | none => none
    | some (.ok report, w) => some (⟨number, .ok report⟩, w)
    | some (.error failure, w) =>
      match spare with
      | 0 => some (⟨number, .error failure⟩, w)
      | spare + 1 =>
        attempts env patience t spare (number + 1)
          (w.note (.tryFailed number t.options.tries failure.reason.text))

/-- How a run goes on when its tries have come to `o`: it has a successful one, or it is over. -/
def goOn (t : Transition ι σ) (o : Outcome) (w : World ι σ) : Except (Run ι σ) (Success ι σ) :=
  match o.result with
  | .ok report => .ok ⟨o.attempts, report, t.inStage .waiting, w⟩
  | .error failure => .error (giveUp t o.attempts failure w)

section
variable (env : Environment ι σ) (patience : Nat) (t : Transition ι σ) (stage : Stage)

theorem makeTry_eq (number : Nat) (w : World ι σ) :
    makeTry env patience t.waits number (t.inStage stage) w =
      (attempt env patience t number w).map fun x => (x.1, t.inStage .waiting, x.2) := rfl

/-- The loop makes tries as long as one of those that are allowed is left. -/
theorem retry_eq (spare : Nat) :
    ∀ (number : Nat) (stage : Stage) (w : World ι σ), spare = t.options.tries - number →
      retry env patience t.waits t.options.tries number (t.inStage stage) w =
        (attempts env patience t spare number w).map fun x => t.goOn x.1 x.2 := by
  -- On the tries that are left; the guard of the loop holds just if there are some.
  induction spare with
  | zero =>
      intro number stage w hspare
      have hlast : ¬ number < t.options.tries := by omega
      rw [retry, attempts, makeTry_eq]
      cases attempt env patience t number w with
      | none => rfl
      | some x =>
          obtain ⟨result, after⟩ := x
          cases result with
          | ok report => rfl
          | error failure => exact if_neg hlast
  | succ spare ih =>
      intro number stage w hspare
      have hmore : number < t.options.tries := by omega
      rw [retry, attempts, makeTry_eq]
      cases attempt env patience t number w with
      | none => rfl
      | some x =>
          obtain ⟨result, after⟩ := x
          cases result with
          | ok report => rfl
          | error failure => exact (if_pos hmore).trans (ih (number + 1) .waiting _ (by omega))

/-- **A single try and the loop come to the same.** -/
theorem tryAll_eq (w : World ι σ) :
    tryAll env patience (t.inStage stage) w =
      (attempts env patience t (t.options.tries - 1) 1 w).map fun x => t.goOn x.1 x.2 := by
  by_cases hone : t.options.tries = 1
  · have hspare : t.options.tries - 1 = 0 := by omega
    have hsingle : (t.inStage stage).options.tries = 1 := hone
    have hmake : makeTry env patience (t.inStage stage).waits 1 (t.inStage stage) w =
        (attempt env patience t 1 w).map fun x => (x.1, t.inStage .waiting, x.2) :=
      makeTry_eq env patience t stage 1 w
    rw [tryAll, if_pos hsingle, hspare, attempts, hmake]
    cases attempt env patience t 1 w with
    | none => rfl
    | some x =>
        obtain ⟨result, after⟩ := x
        cases result with
        | ok report => rfl
        | error failure => rfl
  · have hloop : ¬ (t.inStage stage).options.tries = 1 := hone
    rw [tryAll, if_neg hloop]
    exact retry_eq env patience t _ 1 stage w rfl

end

end Transition
end Passage
