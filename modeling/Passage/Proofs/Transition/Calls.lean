/-
# Calls of one transition

`Calls` are runs of one transition, one after another: each call finds the
transition as the last one has left it, in whatever scene there is by then.

A call that is refused is idle: it leaves the transition and the world
exactly as it has found them.  A call that is not refused leaves the first
stage behind (`worked_of_execute`), and so every later one is refused
(`Calls.of_refusal`).  Hence there is one call at most in which anything is
done, and whatever bounds one run bounds any number of calls
(`at_most_one_call_works`).
-/
import Passage.Proofs.Transition.Deeds
import Passage.Proofs.Transition.Effects

namespace Passage
variable {ι σ : Type}

/-! ## What is counted -/

theorem Wait.filterMap_laps {β : Type} {f : Event ι → Option β} {cs : List ι} {ds : List Duration}
    (hc : ∀ c, f (.checked c) = none) (hd : ∀ d, f (.slept d) = none) :
    (Wait.laps cs ds).filterMap f = [] := by
  refine List.filterMap_eq_nil_iff.2 fun e he => ?_
  simp only [Wait.laps, List.mem_append, List.mem_flatMap, List.mem_map, List.mem_singleton] at he
  rcases he with ⟨d, -, ⟨c, -, rfl⟩ | rfl⟩ | ⟨c, -, rfl⟩
  · exact hc c
  · exact hd d
  · exact hc c

namespace Transition

/-- Apart from checks and sleeps, a try fires the trigger and does nothing else. -/
theorem filterMap_tryDeeds {β : Type} {f : Event ι → Option β} (hc : ∀ c, f (.checked c) = none)
    (hd : ∀ d, f (.slept d) = none) (env : Environment ι σ) (t : Transition ι σ) (x : Try ι σ) :
    (tryDeeds env t x).filterMap f =
      if t.trigger.isSome then [Event.fired x.number].filterMap f else [] := by
  rw [tryDeeds, List.filterMap_append]
  cases x.ending with
  | none =>
      rw [List.filterMap_nil, List.append_nil]
      cases t.trigger <;> rfl
  | some e =>
      rw [Wait.filterMap_laps hc hd, List.append_nil]
      cases t.trigger <;> rfl

theorem length_fired_tryDeeds_le (env : Environment ι σ) (t : Transition ι σ) (x : Try ι σ) :
    ((tryDeeds env t x).filterMap Event.fired?).length ≤ 1 := by
  rw [filterMap_tryDeeds (fun _ => rfl) (fun _ => rfl)]
  cases t.trigger with
  | none => exact Nat.zero_le _
  | some f => exact Nat.le_refl 1

theorem hooked_tryDeeds (env : Environment ι σ) (t : Transition ι σ) (x : Try ι σ) :
    (tryDeeds env t x).filterMap Event.hooked? = [] := by
  rw [filterMap_tryDeeds (fun _ => rfl) (fun _ => rfl)]
  cases t.trigger <;> rfl

theorem length_hooked_hookDeeds (hook : Hook σ) (subject : String) :
    ((hookDeeds hook subject : List (Event ι)).filterMap Event.hooked?).length = 1 := by
  simp [hookDeeds, Event.hooked?]

theorem fired_hookDeeds (hook : Hook σ) (subject : String) :
    (hookDeeds hook subject : List (Event ι)).filterMap Event.fired? = [] := by
  simp [hookDeeds, List.filterMap_cons, Event.fired?]

theorem length_ledger_le (env : Environment ι σ) (patience : Nat) (t : Transition ι σ)
    (w : World ι σ) : (ledger env patience t w).length ≤ t.options.tries := by
  by_cases hmake : t.refusal? = none ∧ t.facility.phase = t.kind.before
  · exact (tries_ledger hmake.1 hmake.2).within
  · rw [ledger_eq_nil hmake]
    exact Nat.zero_le _

/-- What was done in between, counted: the trigger was not fired more often than the transition may
be tried, and the hook was called once at most. -/
structure Moderate (t : Transition ι σ) (done : List (Event ι)) : Prop where
  fires : (done.filterMap Event.fired?).length ≤ t.options.tries
  hooks : (done.filterMap Event.hooked?).length ≤ 1

theorem moderate_nil (t : Transition ι σ) : Moderate t ([] : List (Event ι)) :=
  ⟨Nat.zero_le _, Nat.zero_le _⟩

theorem length_fired_flatMap_le (env : Environment ι σ) (t : Transition ι σ)
    (made : List (Try ι σ)) :
    ((made.flatMap (tryDeeds env t)).filterMap Event.fired?).length ≤ made.length := by
  induction made with
  | nil => exact Nat.le_refl _
  | cons x rest ih =>
      have hfirst := length_fired_tryDeeds_le env t x
      rw [List.flatMap_cons, List.filterMap_append, List.length_append, List.length_cons]
      omega

theorem hooked_flatMap (env : Environment ι σ) (t : Transition ι σ) (made : List (Try ι σ)) :
    (made.flatMap (tryDeeds env t)).filterMap Event.hooked? = [] := by
  induction made with
  | nil => rfl
  | cons x rest ih => rw [List.flatMap_cons, List.filterMap_append, hooked_tryDeeds, ih]; rfl

theorem moderate_execute {env : Environment ι σ} {patience : Nat} {t : Transition ι σ}
    {w : World ι σ} {r : Run ι σ} (hr : execute env patience t w = some r) :
    ∃ done, r.world.deeds = w.deeds ++ done ∧ Moderate t done := by
  obtain ⟨-, hdeeds⟩ := deeds_execute hr
  have hfires := length_fired_flatMap_le env t (ledger env patience t w)
  have hwithin := length_ledger_le env patience t w
  refine ⟨_, hdeeds.trans (List.append_assoc _ _ _), ?_, ?_⟩
  · rw [List.filterMap_append, List.length_append]
    cases r.result.isOk with
    | true => rw [if_pos rfl, fired_hookDeeds, List.length_nil]; omega
    | false => rw [if_neg Bool.false_ne_true, List.filterMap_nil, List.length_nil]; omega
  · rw [List.filterMap_append, hooked_flatMap, List.nil_append]
    cases r.result.isOk with
    | true => rw [if_pos rfl, length_hooked_hookDeeds]
    | false => exact Nat.zero_le _

/-! ## One call -/

/-- The run has met its conditions. -/
def Run.succeeded (r : Run ι σ) : Bool := r.result.isOk

/-- The run was given up: its facility was in the wrong phase, or no try has met the conditions. -/
def Run.failed (r : Run ι σ) : Bool :=
  match r.result with
  | .error (.phase _) => true
  | .error (.unmet ..) => true
  | _ => false

/-- What a run has done that was not refused. -/
structure Worked (t : Transition ι σ) (w : World ι σ) (r : Run ι σ) : Prop where
  stage : (r.transition.stage = .succeeded ∧ r.succeeded = true ∧ r.failed = false) ∨
    (r.transition.stage = .failed ∧ r.succeeded = false ∧ r.failed = true)
  history : ∃ cs, r.transition.facility.history.changes = t.facility.history.changes ++ cs ∧
    cs.length ≤ 2
  deeds : ∃ done, r.world.deeds = w.deeds ++ done ∧ Moderate t done

theorem worked_of_execute {env : Environment ι σ} {patience : Nat} {t : Transition ι σ}
    {w : World ι σ} {r : Run ι σ} (h : t.refusal? = none)
    (hr : execute env patience t w = some r) : Worked t w r := by
  have hdeeds := moderate_execute hr
  by_cases hp : t.facility.phase = t.kind.before
  · obtain ⟨o, v, hov, rfl⟩ := closing_of_execute h hp hr
    cases hres : o.result with
    | ok report =>
        obtain ⟨s, hnow, -⟩ := (arrived_of_ok h hp hov hres).transition
        refine ⟨Or.inl ⟨by rw [hnow], ?_, ?_⟩,
          ⟨[t.firstRecord w.wall, t.secondRecord o.attempts s.wall], by rw [hnow], Nat.le_refl 2⟩,
          hdeeds⟩
        · rw [Run.succeeded, closing, hres]
          rfl
        · rw [Run.failed, closing, hres]
    | error failure =>
        have hnow := (stuck_of_error h hp hov hres).transition
        refine ⟨Or.inr ⟨by rw [hnow], ?_, ?_⟩,
          ⟨[t.firstRecord w.wall], by rw [hnow], Nat.le_succ 1⟩, hdeeds⟩
        · rw [Run.succeeded, closing, hres]
          rfl
        · rw [Run.failed, closing, hres]
  · rw [execute_of_wrong_phase h hp] at hr
    obtain rfl := Option.some.inj hr
    exact ⟨Or.inr ⟨rfl, rfl, rfl⟩, ⟨[], (List.append_nil _).symm, Nat.zero_le _⟩, hdeeds⟩

/-! ## Calls that are refused -/

theorem not_failed_of_refusal {t u : Transition ι σ} {w : World ι σ} {e : TransitionError}
    (h : t.refusal? = some e) : (⟨.error e, u, w⟩ : Run ι σ).failed = false := by
  rw [refusal?] at h
  split at h
  · obtain rfl := Option.some.inj h
    rfl
  · split at h
    · exact absurd h (by simp)
    · obtain rfl := Option.some.inj h
      rfl

theorem refusal?_of_stage {t : Transition ι σ} (h : t.stage ≠ .notStarted) :
    t.refusal? = some (.alreadyExecuted t.subject) := by
  rw [refusal?, if_pos h]

theorem refusal?_of_options {t : Transition ι σ} (hs : t.stage = .notStarted)
    (h : t.options.tries = 0 ∨ t.options.timeout.nanos = 0) :
    t.refusal? = some (.invalidOptions t.options.violations) := by
  have hbroken : ¬ t.options.isValid = true := by
    intro hv
    have hnone := List.isEmpty_iff.1 hv
    rcases h with h | h
    · have hmem := Options.mem_violations_noTries_iff.2 h
      rw [hnone] at hmem
      exact List.not_mem_nil hmem
    · have hmem := Options.mem_violations_zeroTimeout_iff.2 h
      rw [hnone] at hmem
      exact List.not_mem_nil hmem
  rw [refusal?, if_neg (not_not_intro hs), if_neg hbroken]

theorem violations_sublist (o : Options) : o.violations.Sublist [.noTries, .zeroTimeout] := by
  rw [Options.violations]
  split <;> split <;> decide

/-! ## Any number of calls -/

/-- A call: the transition and the world that it has found, and what has come out of it. -/
structure Call (ι σ : Type) where
  transition : Transition ι σ
  world : World ι σ
  run : Run ι σ

/-- The call has left all as it was. -/
def Call.Idle (c : Call ι σ) : Prop := c.run.transition = c.transition ∧ c.run.world = c.world

/-- Calls of one transition, one after another, from the transition and the world before the first
one to those after the last.  Between two calls the scene may change. -/
inductive Calls (env : Environment ι σ) (patience : Nat) :
    Transition ι σ → World ι σ → List (Call ι σ) → Transition ι σ → World ι σ → Prop
  | nil {t : Transition ι σ} {w : World ι σ} : Calls env patience t w [] t w
  | cons {t t' : Transition ι σ} {w w' : World ι σ} {scene : Scene σ} {r : Run ι σ}
      {calls : List (Call ι σ)} :
      execute env patience t { w with scene := scene } = some r →
      Calls env patience r.transition r.world calls t' w' →
      Calls env patience t w (⟨t, { w with scene := scene }, r⟩ :: calls) t' w'

section
variable {env : Environment ι σ} {patience : Nat} {t t' : Transition ι σ} {w w' : World ι σ}
  {calls : List (Call ι σ)}

/-- Running a transition again and again is one way to call it. -/
theorem calls_of_executeAll {n : Nat} {runs : List (Run ι σ)}
    (h : executeAll env patience n t w = some runs) :
    ∃ calls t' w', Calls env patience t w calls t' w' ∧ calls.map Call.run = runs := by
  induction n generalizing t w runs with
  | zero =>
      obtain rfl := Option.some.inj h
      exact ⟨[], t, w, .nil, rfl⟩
  | succ n ih =>
      rw [executeAll] at h
      cases hr : execute env patience t w with
      | none =>
          rw [hr] at h
          exact absurd h (by simp)
      | some r =>
          rw [hr] at h
          obtain ⟨rest, hrest, rfl⟩ := Option.map_eq_some_iff.1 h
          obtain ⟨calls, t', w', hcalls, hruns⟩ := ih hrest
          have hsame : execute env patience t { w with scene := w.scene } = some r := hr
          refine ⟨⟨t, w, r⟩ :: calls, t', w', .cons hsame hcalls, ?_⟩
          rw [List.map_cons, hruns]

/-- The call was refused: it has found the transition as given, and has left all as it was. -/
def Call.Refused (t : Transition ι σ) (c : Call ι σ) : Prop :=
  c.transition = t ∧ ∃ e, t.refusal? = some e ∧ c.run = ⟨.error e, t, c.world⟩

theorem Call.Refused.idle {c : Call ι σ} (h : c.Refused t) : c.Idle := by
  obtain ⟨ht, e, -, hr⟩ := h
  exact ⟨by rw [hr, ht], by rw [hr]⟩

/-- A transition that is refused once is refused for good, and nothing is done. -/
theorem Calls.of_refusal {e : TransitionError} (h : t.refusal? = some e)
    (hc : Calls env patience t w calls t' w') :
    t' = t ∧ w'.deeds = w.deeds ∧ ∀ c ∈ calls, c.Refused t := by
  induction hc with
  | nil => exact ⟨rfl, rfl, fun c hmem => absurd hmem List.not_mem_nil⟩
  | cons hr _ ih =>
      rw [execute_of_refusal h] at hr
      obtain rfl := Option.some.inj hr
      obtain ⟨ht, hdeeds, hrest⟩ := ih h
      refine ⟨ht, hdeeds, fun c hmem => ?_⟩
      rcases List.mem_cons.1 hmem with rfl | hmem
      · exact ⟨rfl, e, h, rfl⟩
      · exact hrest c hmem

theorem countP_succeeded_of_refused (h : ∀ c ∈ calls, c.Refused t) :
    calls.countP (fun c => c.run.succeeded) = 0 := by
  refine List.countP_eq_zero.2 fun c hmem => ?_
  obtain ⟨-, e, -, hr⟩ := h c hmem
  rw [hr]
  exact Bool.false_ne_true

theorem countP_failed_of_refused (h : ∀ c ∈ calls, c.Refused t) :
    calls.countP (fun c => c.run.failed) = 0 := by
  refine List.countP_eq_zero.2 fun c hmem => ?_
  obtain ⟨-, e, he, hr⟩ := h c hmem
  rw [hr, not_failed_of_refusal he]
  exact Bool.false_ne_true

/-- A transition that is not being run. -/
def AtRest (t : Transition ι σ) : Prop :=
  t.stage = .notStarted ∨ t.stage = .succeeded ∨ t.stage = .failed

/-- What is left of any number of calls. -/
structure Tally (t : Transition ι σ) (w : World ι σ) (calls : List (Call ι σ))
    (t' : Transition ι σ) (w' : World ι σ) : Prop where
  /-- Of any two calls one has left all as it was. -/
  idle : calls.Pairwise fun a b => a.Idle ∨ b.Idle
  deeds : ∃ done, w'.deeds = w.deeds ++ done ∧ Moderate t done
  history : ∃ cs, t'.facility.history.changes = t.facility.history.changes ++ cs ∧ cs.length ≤ 2
  /-- Before, between and behind the calls the transition is not being run. -/
  rests : t'.AtRest ∧ ∀ c ∈ calls, c.transition.AtRest ∧ c.run.transition.AtRest
  /-- The first call is enough to begin, if it may. -/
  begun : t.options.isValid = true → calls ≠ [] → t'.stage ≠ .notStarted
  succeeded : t'.stage = .succeeded ↔ calls.countP (fun c => c.run.succeeded) = 1
  failed : t'.stage = .failed ↔ calls.countP (fun c => c.run.failed) = 1

theorem Tally.of_refused (hs : t.stage = .notStarted) (hdeeds : w'.deeds = w.deeds)
    (h : ∀ c ∈ calls, c.Refused t) : Tally t w calls t w' where
  idle := List.pairwise_of_forall_mem_list fun a ha _ _ => Or.inl (h a ha).idle
  deeds := ⟨[], by rw [hdeeds, List.append_nil], moderate_nil t⟩
  history := ⟨[], (List.append_nil _).symm, Nat.zero_le _⟩
  rests := by
    refine ⟨Or.inl hs, ?_⟩
    intro c hmem
    obtain ⟨ht, e, -, hr⟩ := h c hmem
    rw [hr, ht]
    exact ⟨Or.inl hs, Or.inl hs⟩
  begun := by
    intro hv hne
    obtain ⟨c, hmem⟩ := List.exists_mem_of_ne_nil calls hne
    obtain ⟨-, e, he, -⟩ := h c hmem
    rw [refusal?_eq_none hs hv] at he
    exact absurd he (by simp)
  succeeded := by
    rw [hs, countP_succeeded_of_refused h]
    decide
  failed := by
    rw [hs, countP_failed_of_refused h]
    decide

theorem Worked.atRest {r : Run ι σ} (h : Worked t w r) : r.transition.AtRest := by
  rcases h.stage with ⟨hs, -, -⟩ | ⟨hs, -, -⟩
  · exact Or.inr (Or.inl hs)
  · exact Or.inr (Or.inr hs)

theorem Worked.stage_ne {r : Run ι σ} (h : Worked t w r) : r.transition.stage ≠ .notStarted := by
  rcases h.stage with ⟨hs, -, -⟩ | ⟨hs, -, -⟩
  · rw [hs]
    decide
  · rw [hs]
    decide

/-- The first call does what is done, and leaves a stage in which all others are refused. -/
theorem Tally.of_worked {r : Run ι σ} (hs : t.stage = .notStarted) {scene : Scene σ}
    (hworked : Worked t { w with scene := scene } r) (hdeeds : w'.deeds = r.world.deeds)
    (h : ∀ c ∈ calls, c.Refused r.transition) :
    Tally t w (⟨t, { w with scene := scene }, r⟩ :: calls) r.transition w' where
  idle := by
    refine List.pairwise_cons.2 ⟨?_, ?_⟩
    · intro c hmem
      exact Or.inr (h c hmem).idle
    · exact List.pairwise_of_forall_mem_list fun a ha _ _ => Or.inl (h a ha).idle
  deeds := by
    rw [hdeeds]
    exact hworked.deeds
  history := hworked.history
  rests := by
    refine ⟨hworked.atRest, ?_⟩
    intro c hmem
    rcases List.mem_cons.1 hmem with rfl | hmem
    · exact ⟨Or.inl hs, hworked.atRest⟩
    · obtain ⟨ht, e, -, hr⟩ := h c hmem
      rw [hr, ht]
      exact ⟨hworked.atRest, hworked.atRest⟩
  begun _ _ := hworked.stage_ne
  succeeded := by
    rw [List.countP_cons, countP_succeeded_of_refused h]
    rcases hworked.stage with ⟨hr, hok, -⟩ | ⟨hr, hok, -⟩ <;> rw [hr, hok] <;> decide
  failed := by
    rw [List.countP_cons, countP_failed_of_refused h]
    rcases hworked.stage with ⟨hr, -, hgiven⟩ | ⟨hr, -, hgiven⟩ <;> rw [hr, hgiven] <;> decide

theorem Calls.tally (hs : t.stage = .notStarted) (hc : Calls env patience t w calls t' w') :
    Tally t w calls t' w' := by
  cases h : t.refusal? with
  | some e =>
      obtain ⟨rfl, hdeeds, hrefused⟩ := hc.of_refusal h
      exact .of_refused hs hdeeds hrefused
  | none =>
      cases hc with
      | nil => exact .of_refused hs rfl fun c hmem => absurd hmem List.not_mem_nil
      | cons hr hrest =>
          have hworked := worked_of_execute h hr
          obtain ⟨rfl, hdeeds, hrefused⟩ := hrest.of_refusal (refusal?_of_stage hworked.stage_ne)
          exact .of_worked hs hworked hdeeds hrefused

end

/-- **A transition is run once at most, however often it is called.**  A call that finds another
stage than the first one is refused, and so is one that finds broken options, which it names: the
one for the tries before the one for the timeout.  Both leave the transition and the world exactly
as they were.  So of any number of calls all but one are idle; no more is fired, called and
recorded than a single run may; and the stage tells how many calls have succeeded, and how many
were given up. -/
theorem at_most_one_call_works (env : Environment ι σ) (patience : Nat) :
    (∀ (t : Transition ι σ) (w : World ι σ), t.stage ≠ .notStarted →
      execute env patience t w = some ⟨.error (.alreadyExecuted t.subject), t, w⟩) ∧
    (∀ (t : Transition ι σ) (w : World ι σ), t.stage = .notStarted →
      t.options.tries = 0 ∨ t.options.timeout.nanos = 0 →
      ∃ broken, execute env patience t w = some ⟨.error (.invalidOptions broken), t, w⟩ ∧
        broken.Sublist [.noTries, .zeroTimeout] ∧
        (.noTries ∈ broken ↔ t.options.tries = 0) ∧
        (.zeroTimeout ∈ broken ↔ t.options.timeout.nanos = 0)) ∧
    ∀ (t : Transition ι σ) (w : World ι σ) (calls : List (Call ι σ)) (t' : Transition ι σ)
      (w' : World ι σ), t.stage = .notStarted → Calls env patience t w calls t' w' →
      Tally t w calls t' w' := by
  refine ⟨?_, ?_, ?_⟩
  · intro t w hs
    exact execute_of_refusal (refusal?_of_stage hs)
  · intro t w hs hbroken
    exact ⟨_, execute_of_refusal (refusal?_of_options hs hbroken), violations_sublist t.options,
      Options.mem_violations_noTries_iff, Options.mem_violations_zeroTimeout_iff⟩
  · intro t w calls t' w' hs hc
    exact hc.tally hs

/-- Three calls of the way out of the hall, of which the first one succeeds; without tries or time
it is not begun at all. -/
theorem knocking_works_once :
    (∃ calls t' w', Calls slowDoor 0 knocking .fresh calls t' w' ∧ calls.length = 3 ∧
      t'.stage = .succeeded ∧ Tally knocking .fresh calls t' w') ∧
    execute slowDoor 0 { knocking with stage := .failed } .fresh =
      some ⟨.error (.alreadyExecuted "check-out <F: hall>"), { knocking with stage := .failed },
        .fresh⟩ ∧
    ∃ broken, execute slowDoor 0 { knocking with options := ⟨0, ⟨0⟩⟩ } .fresh =
        some ⟨.error (.invalidOptions broken), { knocking with options := ⟨0, ⟨0⟩⟩ }, .fresh⟩ ∧
      .noTries ∈ broken ∧ .zeroTimeout ∈ broken := by
  obtain ⟨hrefused, hbroken, hcalls⟩ := at_most_one_call_works (ι := Unit) slowDoor 0
  refine ⟨?_, hrefused { knocking with stage := .failed } .fresh (by decide), ?_⟩
  · have hthree : (executeAll slowDoor 0 3 knocking .fresh).map
        (fun runs => (runs.length, runs.countP Run.succeeded)) = some (3, 1) := rfl
    obtain ⟨runs, hruns, hcount⟩ := Option.map_eq_some_iff.1 hthree
    obtain ⟨hlength, hone⟩ := Prod.mk.inj hcount
    obtain ⟨calls, t', w', hc, rfl⟩ := calls_of_executeAll hruns
    have htally := hcalls knocking .fresh calls t' w' rfl hc
    rw [List.length_map] at hlength
    rw [List.countP_map] at hone
    exact ⟨calls, t', w', hc, hlength, htally.succeeded.2 hone, htally⟩
  · obtain ⟨broken, hrun, -, htries, htimeout⟩ :=
      hbroken { knocking with options := ⟨0, ⟨0⟩⟩ } .fresh rfl (Or.inl rfl)
    exact ⟨broken, hrun, htries.2 rfl, htimeout.2 rfl⟩

end Transition
end Passage
