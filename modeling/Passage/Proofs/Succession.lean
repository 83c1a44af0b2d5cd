/-
# Transitions one after another

A `Succession` is any number of runs of transitions on one facility, of
either kind and with whatever options, conditions and outcomes.  Nobody
marks the facility by hand; between two runs it may be given other
elements, and anything may happen in the world.

A run begins when it marks its facility, and it can do so in two phases
only: a new facility can be entered, an active one can be left.  What a run
does to its facility is one of three things:

| | phase before | phase after | attempts of its records |
| :-- | :-- | :-- | :-- |
| `untouched` | any | the same | none |
| `stuck` | `before` | `during` | 0 |
| `arrived` | `before` | `done` | 0, and a number of tries |

Nothing begins in the phase that a stuck run leaves, so it ends the life of
its facility (`Succession.of_stuck_phase`).  And a facility that is not new
never is again, so it is not entered any more (`Succession.of_ne_new`).  What
follows for all runs on a facility is `fate_of_succession`.
-/
import Passage.Proofs.Transition.Calls

namespace Passage
variable {ι σ : Type}

namespace Kind

theorem during_ne_before (k k' : Kind) : k.during ≠ k'.before := by
  cases k <;> cases k' <;> decide

theorem during_ne_new (k : Kind) : k.during ≠ .new := by
  cases k <;> decide

theorem done_ne_new (k : Kind) : k.done ≠ .new := by
  cases k <;> decide

end Kind

namespace Transition

/-! ## One run -/

/-- No try of the run has met the conditions. -/
def Run.unmet (r : Run ι σ) : Bool :=
  match r.result with
  | .error (.unmet ..) => true
  | _ => false

/-- The run has begun: it was not refused, and its facility was in the right phase. -/
def Run.begun (r : Run ι σ) : Bool := r.succeeded || r.unmet

/-- What a run does to the phase and to the history of its facility. -/
inductive Course (t : Transition ι σ) (r : Run ι σ) : Prop
  | untouched (idle : r.begun = false) (same : r.transition.facility = t.facility)
  | stuck (now : Timestamp) (before : t.facility.phase = t.kind.before)
      (missed : r.succeeded = false) (unmet : r.unmet = true)
      (phase : r.transition.facility.phase = t.kind.during)
      (history : r.transition.facility.history.changes =
        t.facility.history.changes ++ [t.firstRecord now])
  | arrived (first second : Timestamp) (attempts : Nat) (before : t.facility.phase = t.kind.before)
      (succeeded : r.succeeded = true) (met : r.unmet = false)
      (within : 1 ≤ attempts ∧ attempts ≤ t.options.tries)
      (phase : r.transition.facility.phase = t.kind.done)
      (history : r.transition.facility.history.changes =
        t.facility.history.changes ++ [t.firstRecord first, t.secondRecord attempts second])

section
variable {env : Environment ι σ} {patience : Nat} {t : Transition ι σ} {w : World ι σ}

theorem begun_of_refusal {u : Transition ι σ} {e : TransitionError} (h : t.refusal? = some e) :
    (⟨.error e, u, w⟩ : Run ι σ).begun = false := by
  have hfailed : (⟨.error e, u, w⟩ : Run ι σ).failed = false := not_failed_of_refusal h
  cases e with
  | unmet kind facility attempts failure => exact absurd hfailed.symm Bool.false_ne_true
  | phase error => rfl
  | invalidOptions violations => rfl
  | alreadyExecuted subject => rfl

theorem attempts_within_tries {o : Outcome} {v : World ι σ} (h : t.refusal? = none)
    (hp : t.facility.phase = t.kind.before)
    (hov : attempts env patience (t.begun w) (t.options.tries - 1) 1 (t.started w) =
      some (o, v)) : 1 ≤ o.attempts ∧ o.attempts ≤ t.options.tries := by
  obtain ⟨x, hx, -, hnum, -⟩ := getLast?_ledger h hp hov
  have htries : Tries env patience t w (ledger env patience t w) := tries_ledger h hp
  rw [hnum]
  exact ⟨List.length_pos_of_mem (List.mem_of_getLast? hx), htries.within⟩

theorem course_of_execute {r : Run ι σ} (hr : execute env patience t w = some r) :
    Course t r := by
  cases h : t.refusal? with
  | some e =>
      rw [execute_of_refusal h] at hr
      obtain rfl := Option.some.inj hr
      exact .untouched (begun_of_refusal h) rfl
  | none =>
      by_cases hp : t.facility.phase = t.kind.before
      · obtain ⟨o, v, hov, rfl⟩ := closing_of_execute h hp hr
        cases hres : o.result with
        | error failure =>
            have hstuck := (stuck_of_error h hp hov hres).transition
            refine .stuck w.wall hp ?_ ?_ (by rw [hstuck]) (by rw [hstuck])
            · rw [Run.succeeded, closing, hres]
              rfl
            · rw [Run.unmet, closing, hres]
        | ok report =>
            obtain ⟨s, harrived, -⟩ := (arrived_of_ok h hp hov hres).transition
            refine .arrived w.wall s.wall o.attempts hp ?_ ?_ (attempts_within_tries h hp hov)
              (by rw [harrived]) (by rw [harrived])
            · rw [Run.succeeded, closing, hres]
              rfl
            · rw [Run.unmet, closing, hres]
      · rw [execute_of_wrong_phase h hp] at hr
        obtain rfl := Option.some.inj hr
        exact .untouched rfl rfl

theorem Course.phase_of_begun {r : Run ι σ} (h : Course t r) (hb : r.begun = true) :
    t.facility.phase = t.kind.before := by
  cases h with
  | untouched idle same =>
      rw [idle] at hb
      exact absurd hb Bool.false_ne_true
  | stuck now before missed unmet phase history => exact before
  | arrived first second attempts before succeeded met within phase history => exact before

/-- A run whose facility is in neither of the two phases does not begin. -/
theorem Course.untouched_of_stuck_phase {r : Run ι σ} (h : Course t r)
    (hstuck : ∀ k : Kind, t.facility.phase ≠ k.before) :
    r.begun = false ∧ r.transition.facility = t.facility := by
  cases h with
  | untouched idle same => exact ⟨idle, same⟩
  | stuck now before missed unmet phase history => exact absurd before (hstuck t.kind)
  | arrived first second attempts before succeeded met within phase history =>
      exact absurd before (hstuck t.kind)

/-- A run that has met nothing leaves a phase from which no transition leads on. -/
theorem Course.stuck_of_unmet {r : Run ι σ} (h : Course t r) (hunmet : r.unmet = true) (k : Kind) :
    r.transition.facility.phase ≠ k.before := by
  cases h with
  | untouched idle same =>
      rw [Run.begun, hunmet, Bool.or_true] at idle
      exact absurd idle.symm Bool.false_ne_true
  | stuck now before missed unmet phase history =>
      rw [phase]
      exact t.kind.during_ne_before k
  | arrived first second attempts before succeeded met within phase history =>
      rw [met] at hunmet
      exact absurd hunmet Bool.false_ne_true

end

/-! ## The records of a run -/

/-- The records that a call has added to the history of its facility. -/
def Call.records (c : Call ι σ) : List PhaseChange :=
  c.run.transition.facility.history.changes.drop c.transition.facility.history.changes.length

/-- The attempt of a record, if it was made by a transition with so many tries: none for a first
marking, and one of the tries for a second one. -/
structure RecordWithin (tries : Nat) (x : PhaseChange) : Prop where
  first : x.target = .transitioningTo ∨ x.target = .transitioningFrom → x.attempt = 0
  second : x.target = .active ∨ x.target = .finished → 1 ≤ x.attempt ∧ x.attempt ≤ tries

theorem recordWithin_first (t : Transition ι σ) (now : Timestamp) (tries : Nat) :
    RecordWithin tries (t.firstRecord now) where
  first _ := rfl
  second h := by
    change t.kind.during = _ ∨ t.kind.during = _ at h
    cases hk : t.kind <;> rw [hk] at h <;> exact absurd h (by decide)

theorem recordWithin_second (t : Transition ι σ) (now : Timestamp) {attempts tries : Nat}
    (hwithin : 1 ≤ attempts ∧ attempts ≤ tries) :
    RecordWithin tries (t.secondRecord attempts now) where
  first h := by
    change t.kind.done = _ ∨ t.kind.done = _ at h
    cases hk : t.kind <;> rw [hk] at h <;> exact absurd h (by decide)
  second _ := hwithin

/-- A call only adds to the history, and what it adds has the attempts that it may have. -/
theorem records_of_course {c : Call ι σ} (h : Course c.transition c.run) :
    c.run.transition.facility.history.changes =
      c.transition.facility.history.changes ++ c.records ∧
    ∀ x ∈ c.records, RecordWithin c.transition.options.tries x := by
  cases h with
  | untouched idle same =>
      rw [Call.records, same, List.drop_length, List.append_nil]
      exact ⟨rfl, fun x hmem => absurd hmem List.not_mem_nil⟩
  | stuck now before missed unmet phase history =>
      rw [Call.records, history, List.drop_left]
      refine ⟨rfl, fun x hmem => ?_⟩
      obtain rfl := List.mem_singleton.1 hmem
      exact recordWithin_first _ _ _
  | arrived first second attempts before succeeded met within phase history =>
      rw [Call.records, history, List.drop_left]
      refine ⟨rfl, fun x hmem => ?_⟩
      simp only [List.mem_cons, List.not_mem_nil, or_false] at hmem
      rcases hmem with rfl | rfl
      · exact recordWithin_first _ _ _
      · exact recordWithin_second _ _ within

end Transition

open Transition

/-! ## Any number of runs -/

/-- Runs of transitions on one facility, one after another, from the facility before the first one
to the one behind the last.  Between two runs the facility may be given other elements, and anything
may happen in the world. -/
inductive Succession (env : Environment ι σ) (patience : Nat) :
    Facility ι → List (Call ι σ) → Facility ι → Prop
  | nil {f : Facility ι} : Succession env patience f [] f
  | cons {f f' : Facility ι} {t : Transition ι σ} {w : World ι σ} {r : Run ι σ}
      {calls : List (Call ι σ)} :
      t.facility = { f with elements := t.facility.elements } →
      execute env patience t w = some r →
      Succession env patience r.transition.facility calls f' →
      Succession env patience f (⟨t, w, r⟩ :: calls) f'

namespace Succession
variable {env : Environment ι σ} {patience : Nat} {f f' : Facility ι} {calls : List (Call ι σ)}

theorem ran (hs : Succession env patience f calls f') :
    ∀ c ∈ calls, execute env patience c.transition c.world = some c.run := by
  induction hs with
  | nil => exact fun c hmem => absurd hmem List.not_mem_nil
  | cons _ hr _ ih =>
      intro c hmem
      rcases List.mem_cons.1 hmem with rfl | hmem
      · exact hr
      · exact ih c hmem

theorem course (hs : Succession env patience f calls f') :
    ∀ c ∈ calls, Course c.transition c.run :=
  fun c hmem => course_of_execute (hs.ran c hmem)

/-- What every run preserves of the phase and the history of a facility holds throughout. -/
theorem preserves {Q : Phase → List PhaseChange → Prop} (hs : Succession env patience f calls f')
    (hstep : ∀ (t : Transition ι σ) (r : Run ι σ), Course t r →
      Q t.facility.phase t.facility.history.changes →
      Q r.transition.facility.phase r.transition.facility.history.changes)
    (hq : Q f.phase f.history.changes) :
    Q f'.phase f'.history.changes ∧
    ∀ c ∈ calls, Q c.transition.facility.phase c.transition.facility.history.changes ∧
      Q c.run.transition.facility.phase c.run.transition.facility.history.changes := by
  induction hs with
  | nil => exact ⟨hq, fun c hmem => absurd hmem List.not_mem_nil⟩
  | @cons f f' t w r calls ht hr _ ih =>
      have hbefore : Q t.facility.phase t.facility.history.changes := by
        rw [ht]
        exact hq
      have hafter := hstep t r (course_of_execute hr) hbefore
      obtain ⟨hlast, hrest⟩ := ih hafter
      refine ⟨hlast, fun c hmem => ?_⟩
      rcases List.mem_cons.1 hmem with rfl | hmem
      · exact ⟨hbefore, hafter⟩
      · exact hrest c hmem

/-- What one call says of all later ones, it says in every succession. -/
theorem pairwise {P : Call ι σ → Call ι σ → Prop} (hs : Succession env patience f calls f')
    (h : ∀ (c : Call ι σ) (later : List (Call ι σ)) (g : Facility ι), Course c.transition c.run →
      Succession env patience c.run.transition.facility later g → ∀ d ∈ later, P c d) :
    calls.Pairwise P := by
  induction hs with
  | nil => exact .nil
  | @cons f f' t w r calls _ hr hrest ih =>
      exact .cons (h ⟨t, w, r⟩ calls f' (course_of_execute hr) hrest) ih

/-- The records of all calls, in their order, are what is added to the history. -/
theorem history_eq (hs : Succession env patience f calls f') :
    f'.history.changes = f.history.changes ++ calls.flatMap Call.records := by
  induction hs with
  | nil => exact (List.append_nil _).symm
  | @cons f f' t w r calls ht hr _ ih =>
      have hadded := (records_of_course (c := ⟨t, w, r⟩) (course_of_execute hr)).1
      have hbefore : t.facility.history = f.history := by rw [ht]
      change r.transition.facility.history.changes = t.facility.history.changes ++ _ at hadded
      rw [ih, hadded, hbefore, List.flatMap_cons, List.append_assoc]

/-- In a phase from which no transition leads on, nothing begins, and the facility stays as it
is. -/
theorem of_stuck_phase (hs : Succession env patience f calls f')
    (hstuck : ∀ k : Kind, f.phase ≠ k.before) :
    (f'.phase = f.phase ∧ f'.history.changes = f.history.changes) ∧
    ∀ c ∈ calls, c.run.begun = false ∧ c.transition.facility.phase = f.phase ∧
      c.run.transition.facility.phase = f.phase ∧
      c.run.transition.facility.history.changes = f.history.changes := by
  have hkept := hs.preserves (Q := fun p xs => p = f.phase ∧ xs = f.history.changes) ?_ ⟨rfl, rfl⟩
  · refine ⟨hkept.1, fun c hmem => ?_⟩
    obtain ⟨⟨hbefore, -⟩, hafter, hxs⟩ := hkept.2 c hmem
    rw [← hbefore] at hstuck
    obtain ⟨hidle, -⟩ := (hs.course c hmem).untouched_of_stuck_phase hstuck
    exact ⟨hidle, hbefore, hafter, hxs⟩
  · intro t r hr hq
    rw [← hq.1] at hstuck
    obtain ⟨-, hsame⟩ := hr.untouched_of_stuck_phase hstuck
    rw [hsame]
    exact hq

/-- A facility that is not new is only left, and never entered. -/
theorem of_ne_new (hs : Succession env patience f calls f') (hnew : f.phase ≠ .new) :
    ∀ c ∈ calls, c.run.begun = true → c.transition.kind = .checkOut := by
  have hkept := hs.preserves (Q := fun p _ => p ≠ .new) ?_ hnew
  · intro c hmem hbegun
    have hbefore := (hs.course c hmem).phase_of_begun hbegun
    cases hk : c.transition.kind with
    | checkOut => rfl
    | checkIn =>
        rw [hk] at hbefore
        exact absurd hbefore (hkept.2 c hmem).1
  · intro t r hr hq
    cases hr with
    | untouched idle same =>
        rw [same]
        exact hq
    | stuck now before missed unmet phase history =>
        rw [phase]
        exact t.kind.during_ne_new
    | arrived first second attempts before succeeded met within phase history =>
        rw [phase]
        exact t.kind.done_ne_new

/-- If two runs have begun, the first one has entered the facility and the second one was to leave
it. -/
theorem begun_twice (hs : Succession env patience f calls f') :
    calls.Pairwise fun c d => c.run.begun = true → d.run.begun = true →
      (c.transition.kind = .checkIn ∧ c.run.succeeded = true) ∧ d.transition.kind = .checkOut := by
  refine hs.pairwise ?_
  intro c later g hc hlater d hmem hbegun hbegun'
  cases hc with
  | untouched idle same =>
      rw [idle] at hbegun
      exact absurd hbegun Bool.false_ne_true
  | stuck now before missed unmet phase history =>
      have hstuck : ∀ k : Kind, c.run.transition.facility.phase ≠ k.before := by
        intro k
        rw [phase]
        exact Kind.during_ne_before _ k
      obtain ⟨hidle, -⟩ := (hlater.of_stuck_phase hstuck).2 d hmem
      rw [hidle] at hbegun'
      exact absurd hbegun' Bool.false_ne_true
  | arrived first second attempts before succeeded met within phase history =>
      have hout : d.transition.kind = .checkOut := by
        refine hlater.of_ne_new ?_ d hmem hbegun'
        rw [phase]
        exact Kind.done_ne_new _
      cases hk : c.transition.kind with
      | checkIn => exact ⟨⟨rfl, succeeded⟩, hout⟩
      | checkOut =>
          have hfinished : ∀ k : Kind, c.run.transition.facility.phase ≠ k.before := by
            intro k
            rw [phase, hk]
            cases k <;> decide
          obtain ⟨hidle, -⟩ := (hlater.of_stuck_phase hfinished).2 d hmem
          rw [hidle] at hbegun'
          exact absurd hbegun' Bool.false_ne_true

end Succession

/-! ## The fate of a facility -/

/-- What call `d` shows that was made some time behind call `c`, which has met nothing.  The facility
is where `c` has left it, and stays there.  A transition that was not run before is refused because
of the phase, unless its options are broken, and it fires no trigger and checks nothing. -/
structure Transition.Barred (c d : Call ι σ) : Prop where
  phase : d.run.transition.facility.phase = c.run.transition.facility.phase
  history : d.run.transition.facility.history = c.run.transition.facility.history
  refused : d.transition.stage = .notStarted → d.transition.options.isValid = true →
    d.run.result = .error (.phase ⟨d.transition.facility.name, c.run.transition.facility.phase,
      d.transition.kind.during⟩) ∧
    d.run.world.scene = d.world.scene ∧
    d.run.world.events = d.world.events ++
      [.spanOpened d.transition.id d.transition.subject, .spanEntered, .spanLeft]

/-- What can be said of a facility, and of all calls of transitions that were made on it. -/
structure Fate (calls : List (Call ι σ)) (f : Facility ι) : Prop where
  /-- Behind a call that has met nothing all others are barred, and the facility does not change. -/
  barred : calls.Pairwise fun c d => c.run.unmet = true → Barred c d
  stuck : ∀ c ∈ calls, c.run.unmet = true →
    f.phase = c.run.transition.facility.phase ∧ f.history = c.run.transition.facility.history
  /-- The facility is entered once at most, and left once at most. -/
  once : ∀ kind : Kind, calls.countP (fun c => c.run.succeeded && c.transition.kind == kind) ≤ 1
  /-- Once a call has begun to leave it, none begins to enter it. -/
  ordered : calls.Pairwise fun c d => c.transition.kind = .checkOut → c.run.begun = true →
    d.transition.kind = .checkIn → d.run.begun = false
  /-- Its history has the records of the calls, and no others. -/
  history : f.history.changes = calls.flatMap Call.records
  records : ∀ c ∈ calls, c.run.transition.facility.history.changes =
      c.transition.facility.history.changes ++ c.records ∧
    ∀ x ∈ c.records, RecordWithin c.transition.options.tries x

theorem countP_le_one {α : Type} {p : α → Bool} {l : List α}
    (h : l.Pairwise fun a b => p a = true → p b = false) : l.countP p ≤ 1 := by
  induction h with
  | nil => exact Nat.zero_le 1
  | @cons a l ha _ ih =>
      by_cases hp : p a = true
      · have hnone : l.countP p = 0 := List.countP_eq_zero.2 fun b hb => by
          rw [ha b hb hp]
          exact Bool.false_ne_true
        rw [List.countP_cons_of_pos hp, hnone]
      · rw [List.countP_cons_of_neg hp]
        exact ih

namespace Succession
variable {env : Environment ι σ} {patience : Nat} {f f' : Facility ι} {calls : List (Call ι σ)}

theorem barred (hs : Succession env patience f calls f') :
    calls.Pairwise fun c d => c.run.unmet = true → Barred c d := by
  refine hs.pairwise ?_
  intro c later g hc hlater d hmem hunmet
  have hstuck := hc.stuck_of_unmet hunmet
  obtain ⟨hidle, hbefore, hafter, hxs⟩ := (hlater.of_stuck_phase hstuck).2 d hmem
  refine ⟨hafter, congrArg History.mk hxs, ?_⟩
  intro hfresh hvalid
  have hwrong : d.transition.facility.phase ≠ d.transition.kind.before := by
    rw [hbefore]
    exact hstuck _
  have hran := hlater.ran d hmem
  rw [execute_of_wrong_phase (refusal?_eq_none hfresh hvalid) hwrong] at hran
  rw [← Option.some.inj hran, ← hbefore]
  refine ⟨rfl, rfl, ?_⟩
  rw [World.events_record, events_opened, List.append_assoc]
  rfl

/-- The facility is left as the last call has left it. -/
theorem stuck (hs : Succession env patience f calls f') :
    ∀ c ∈ calls, c.run.unmet = true →
      f'.phase = c.run.transition.facility.phase ∧
      f'.history = c.run.transition.facility.history := by
  induction hs with
  | nil => exact fun c hmem => absurd hmem List.not_mem_nil
  | @cons f f' t w r calls _ hr hrest ih =>
      intro c hmem hunmet
      rcases List.mem_cons.1 hmem with rfl | hmem
      · have hstuck := (course_of_execute hr).stuck_of_unmet hunmet
        obtain ⟨hphase, hxs⟩ := (hrest.of_stuck_phase hstuck).1
        exact ⟨hphase, congrArg History.mk hxs⟩
      · exact ih c hmem hunmet

theorem once (hs : Succession env patience f calls f') (kind : Kind) :
    calls.countP (fun c => c.run.succeeded && c.transition.kind == kind) ≤ 1 := by
  refine countP_le_one (hs.begun_twice.imp ?_)
  intro c d h hc
  simp only [Bool.and_eq_true, beq_iff_eq] at hc
  obtain ⟨hsucceeded, rfl⟩ := hc
  have hbegun : ∀ {e : Call ι σ}, e.run.succeeded = true → e.run.begun = true := by
    intro e he
    rw [Run.begun, he, Bool.true_or]
  cases hd : d.run.succeeded with
  | false => rfl
  | true =>
      obtain ⟨⟨hin, -⟩, hout⟩ := h (hbegun hsucceeded) (hbegun hd)
      rw [hin, hout]
      rfl

end Succession

/-- **A transition that has met nothing is the last one of its facility.**  Let any transitions be
run one after another on a facility that was created as new or as active.  Behind the first one that
is given up because its conditions were not met, every transition is refused because of the phase
and does nothing, and the facility keeps its phase and its history for good.  The facility is
entered once at most and left once at most, in this order.  Each of its records is of one of the
runs, and has the attempt 0 if it is of a first marking, and that of a try which the run may make if
it is of a second one. -/
theorem fate_of_succession (env : Environment ι σ) (patience : Nat) {name : String}
    {start f : Facility ι} (hstart : start = .new name ∨ start = .active name)
    {calls : List (Call ι σ)} (hs : Succession env patience start calls f) : Fate calls f where
  barred := hs.barred
  stuck := hs.stuck
  once := hs.once
  ordered := by
    refine hs.begun_twice.imp ?_
    intro c d h hout hbegun hin
    cases hd : d.run.begun with
    | false => rfl
    | true =>
        obtain ⟨⟨hfirst, -⟩, -⟩ := h hbegun hd
        rw [hout] at hfirst
        exact absurd hfirst (by decide)
  history := by
    have hempty : start.history.changes = [] := by
      rcases hstart with rfl | rfl <;> rfl
    rw [hs.history_eq, hempty, List.nil_append]
  records c hmem := records_of_course (hs.course c hmem)

/-- Whoever leaves the hall after one try has gone too soon, and then cannot leave it any more,
although the door would be open by now.  A new hall is entered in the second try, and left in the
first one. -/
theorem fate_of_two_halls :
    (∃ c d f, Succession slowDoor 0 (.active "hall") [c, d] f ∧ c.run.unmet = true ∧
      d.run.result = .error (.phase ⟨"hall", .transitioningFrom, .transitioningFrom⟩) ∧
      f.phase = .transitioningFrom ∧ f.history.changes.map PhaseChange.attempt = [0]) ∧
    ∃ c d f, Succession slowDoor 0 (.new "hall") [c, d] f ∧ f.phase = .finished ∧
      (c.records ++ d.records).map PhaseChange.attempt = [0, 2, 0, 1] ∧
      f.history.changes = c.records ++ d.records := by
  refine ⟨?_, ?_⟩
  · have hsome : (execute slowDoor 0 { knocking with options := ⟨1, .ofMillis 50⟩ } .fresh).map
        (fun r => (r.unmet, r.transition.facility.name, r.transition.facility.phase,
          r.transition.facility.history.changes.map PhaseChange.attempt)) =
          some (true, "hall", .transitioningFrom, [0]) := rfl
    obtain ⟨r, hr, hleft⟩ := Option.map_eq_some_iff.1 hsome
    simp only [Prod.mk.injEq] at hleft
    obtain ⟨hunmet, hname, hphase, hattempts⟩ := hleft
    let t : Transition Unit Nat := { knocking with facility := r.transition.facility }
    have hwrong : t.facility.phase ≠ t.kind.before := by
      show r.transition.facility.phase ≠ .active
      rw [hphase]
      decide
    have hr' : execute slowDoor 0 t r.world = some _ :=
      execute_of_wrong_phase (refusal?_eq_none rfl rfl) hwrong
    have hs : Succession slowDoor 0 (.active "hall") [⟨_, .fresh, r⟩, ⟨t, r.world, _⟩] _ :=
      .cons rfl hr (.cons rfl hr' .nil)
    have hfate := fate_of_succession slowDoor 0 (Or.inr rfl) hs
    obtain ⟨hlast, hhistory⟩ := hfate.stuck _ List.mem_cons_self hunmet
    have hbarred := (List.pairwise_cons.1 hfate.barred).1 _ List.mem_cons_self hunmet
    obtain ⟨hresult, -, -⟩ := hbarred.refused rfl rfl
    refine ⟨_, _, _, hs, hunmet, hresult.trans ?_, hlast.trans hphase, ?_⟩
    · show Except.error (TransitionError.phase
        ⟨r.transition.facility.name, r.transition.facility.phase, .transitioningFrom⟩) = _
      rw [hname, hphase]
    · rw [hhistory]
      exact hattempts
  · have hsome : ((execute slowDoor 0 { knocking with kind := .checkIn, facility := .new "hall" }
        .fresh).bind fun r =>
          (execute slowDoor 0 { knocking with facility := r.transition.facility } r.world).map
            fun r' => (r'.transition.facility.phase,
              r'.transition.facility.history.changes.map PhaseChange.attempt)) =
          some (.finished, [0, 2, 0, 1]) := rfl
    obtain ⟨r, hr, hrest⟩ := Option.bind_eq_some_iff.1 hsome
    obtain ⟨r', hr', hlast⟩ := Option.map_eq_some_iff.1 hrest
    obtain ⟨hphase, hattempts⟩ := Prod.mk.inj hlast
    have hs : Succession slowDoor 0 (.new "hall")
        [⟨_, .fresh, r⟩, ⟨{ knocking with facility := r.transition.facility }, r.world, r'⟩] _ :=
      .cons rfl hr (.cons rfl hr' .nil)
    have hhistory := (fate_of_succession slowDoor 0 (Or.inl rfl) hs).history
    rw [List.flatMap_cons, List.flatMap_cons, List.flatMap_nil, List.append_nil] at hhistory
    refine ⟨_, _, _, hs, hphase, ?_, hhistory⟩
    rw [← hhistory]
    exact hattempts

end Passage
