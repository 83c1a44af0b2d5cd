/-
# Where the time goes

The clock of a run is moved by four things: by the trigger, by the checks,
by the sleeps between two passes, and at the end by the hook.  Nothing
else takes time, and nothing is left out or counted twice: failed tries
take their share like the one that succeeds, and a sleep that was cut short
counts with what was slept.

So the clock at the end of a wait is its clock at the start, moved by the
costs of its checks and by its sleeps (`now_roundAt`); the clock at the end
of a run is moved by its tries (`Tried.now_eq`) and by its hook.  The two
records of a run that succeeds are read from the other clock, the one on
the wall, before the first try and before the hook.  As long as the clocks
move together, the second reading is the first one moved by what the tries
have taken (`wall_of_attempts`).

The main statement is `all_time_is_accounted_for`.
-/
import Passage.Proofs.Lifecycle
import Passage.Proofs.Transition.Hooks
import Mathlib.Algebra.Order.BigOperators.Group.List

namespace Passage
variable {ι σ : Type}

namespace Duration

/-- Some durations together. -/
def total (ds : List Duration) : Duration := ⟨(ds.map Duration.nanos).sum⟩

theorem total_cons (d : Duration) (ds : List Duration) : total (d :: ds) = d + total ds := by
  ext
  simp [total]

theorem total_append (ds es : List Duration) : total (ds ++ es) = total ds + total es := by
  ext
  simp [total]

theorem le_total {d : Duration} {ds : List Duration} (h : d ∈ ds) : d ≤ total ds := by
  have hmem : d.nanos ∈ ds.map Duration.nanos := List.mem_map_of_mem h
  exact List.le_sum_of_mem hmem

end Duration

/-! ## The time of a wait -/

namespace Wait

/-- How long each check of a round takes that begins in the given scene. -/
def costs (env : Environment ι σ) : List ι → Scene σ → List Duration
  | [], _ => []
  | c :: rest, s => (env.check c s).cost :: costs env rest (s.after (env.check c s))

/-- How long each check takes in the first `n` rounds, round after round. -/
def costsAt (env : Environment ι σ) (b : Budget) (cs : List ι) (s : Scene σ) (n : Nat) :
    List Duration :=
  (List.range n).flatMap fun k => costs env cs (sceneAt env b cs s k)

/-- How long each check takes in the first `n` rounds of a wait that begins in the given scene. -/
def costsOf (env : Environment ι σ) (waits : List (Wait ι)) (timeout : Duration) (s : Scene σ)
    (n : Nat) : List Duration :=
  costsAt env ⟨s.now, timeout⟩ (waits.map Wait.condition) s n

theorem now_survey_eq_total (env : Environment ι σ) (cs : List ι) (s : Scene σ) :
    (survey env cs s).scene.now.nanos = s.now.nanos + (Duration.total (costs env cs s)).nanos := by
  induction cs generalizing s with
  | nil => rfl
  | cons c rest ih =>
      have hrest := ih (s.after (env.check c s))
      rw [Scene.now_after, Duration.nanos_add] at hrest
      rw [costs, Duration.total_cons, Duration.nanos_add, ← Nat.add_assoc]
      exact hrest

theorem costsAt_succ (env : Environment ι σ) (b : Budget) (cs : List ι) (s : Scene σ) (n : Nat) :
    costsAt env b cs s (n + 1) = costsAt env b cs s n ++ costs env cs (sceneAt env b cs s n) := by
  simp [costsAt, List.range_succ]

/-- The clock at the end of a round has been moved by all checks up to there, and by all sleeps. -/
theorem now_roundAt (env : Environment ι σ) (b : Budget) (cs : List ι) (s : Scene σ) (n : Nat) :
    (roundAt env b cs s n).scene.now.nanos = s.now.nanos +
      ((Duration.total (costsAt env b cs s (n + 1))).nanos +
        (Duration.total ((napsAt env b cs s n).map Nap.length)).nanos) := by
  induction n with
  | zero =>
      rw [roundAt_eq_survey, now_survey_eq_total, costsAt_succ]
      rfl
  | succ n ih =>
      have hresume : (sceneAt env b cs s (n + 1)).now.nanos =
          (roundAt env b cs s n).scene.now.nanos +
            (b.napAt (roundAt env b cs s n).scene.now).length.nanos :=
        congrArg Duration.nanos (now_resume b (roundAt env b cs s n).scene)
      have hlast : Duration.total [(b.napAt (roundAt env b cs s n).scene.now).length] =
          (b.napAt (roundAt env b cs s n).scene.now).length := rfl
      rw [roundAt_eq_survey, now_survey_eq_total, hresume, ih, costsAt_succ (n := n + 1),
        napsAt_concat, List.map_append, Duration.total_append, Duration.total_append,
        List.map_singleton, hlast, Duration.nanos_add, Duration.nanos_add]
      omega

section
variable {env : Environment ι σ} {patience : Nat} {waits : List (Wait ι)} {timeout : Duration}
  {w w' : World ι σ} {res : Result}

/-- A wait has spent its time on its checks and on its sleeps. -/
theorem elapsed_eq_total (h : run env patience waits timeout w = some (res, w')) :
    res.elapsed = Duration.total (costsOf env waits timeout w.scene res.passes) +
      Duration.total ((napsOf env waits timeout w.scene (res.passes - 1)).map Nap.length) := by
  obtain ⟨p, hpasses, -⟩ := exists_round_of_run h
  have hround := now_roundAt env ⟨w.scene.now, timeout⟩ (waits.map Wait.condition) w.scene p
  rw [elapsed_of_run h, hpasses, Nat.add_sub_cancel]
  refine Duration.ext ?_
  exact (congrArg (· - w.now.nanos) hround).trans (Nat.add_sub_cancel_left _ _)

theorem now_of_run (h : run env patience waits timeout w = some (res, w')) :
    w'.now = w.now + res.elapsed := by
  obtain ⟨p, hpasses, -, -, -, hscene⟩ := exists_round_of_run h
  have hnow : w'.now = (roundOf env waits timeout w.scene p).scene.now := congrArg Scene.now hscene
  have hle := now_le_of_run h
  rw [elapsed_of_run h, hpasses, Nat.add_sub_cancel, ← hnow]
  exact Duration.ext (Nat.add_sub_cancel' hle).symm

end

end Wait

namespace Transition

/-! ## The time of the tries -/

/-- How long it takes to fire a trigger for the try with the given number, if there is one. -/
def firingTime (trigger : Option (Trigger σ)) (number : Nat) (s : Scene σ) : Duration :=
  match trigger with
  | none => .zero
  | some f => (f number s).cost

/-- How long a try has taken: its trigger, and its wait if that is over. -/
def tryTime (t : Transition ι σ) (x : Try ι σ) : Duration :=
  firingTime t.trigger x.number x.before.scene +
    match x.ending with
    | none => .zero
    | some (result, _) => result.elapsed

theorem now_fire (trigger : Option (Trigger σ)) (number : Nat) (w : World ι σ) :
    (w.fire trigger number).now = w.now + firingTime trigger number w.scene := by
  cases trigger with
  | none => rfl
  | some f => rfl

section
variable {env : Environment ι σ} {patience : Nat} {t : Transition ι σ}

theorem now_attempt {number : Nat} {w w' : World ι σ} {res : Wait.Result}
    (h : attempt env patience t number w = some (res, w')) :
    w'.now = w.now + tryTime t ⟨number, w, some (res, w')⟩ := by
  have hwait := Wait.now_of_run h
  rw [World.now_note, World.now_note, now_fire] at hwait
  rw [hwait]
  exact Duration.ext (Nat.add_assoc _ _ _)

/-- Between two tries no time passes. -/
theorem Tried.now_eq {spare number : Nat} {w v : World ι σ} {made : List (Try ι σ)} {o : Outcome}
    (h : Tried env patience t spare number w made (some (o, v))) :
    v.now = w.now + Duration.total (made.map (tryTime t)) := by
  generalize ho : some (o, v) = out at h
  induction h with
  | @last spare number w ending he _ =>
      obtain ⟨⟨res, after⟩, hend, hov⟩ := Option.map_eq_some_iff.mp ho.symm
      obtain ⟨-, rfl⟩ := Prod.mk.inj hov
      rw [hend]
      exact now_attempt (he.trans hend)
  | @retry spare number w after failure made out he _ ih =>
      have hfirst := now_attempt he
      rw [ih ho, retrying, World.now_note, hfirst, List.map_cons, Duration.total_cons]
      exact Duration.ext (Nat.add_assoc _ _ _)

end

/-- The time of the wait that a try has ended with is part of its time. -/
theorem elapsed_le_tryTime (t : Transition ι σ) {x : Try ι σ} {result : Wait.Result}
    {after : World ι σ} (h : x.ending = some (result, after)) : result.elapsed ≤ tryTime t x := by
  rw [tryTime, h]
  exact Nat.le_add_left _ _

end Transition

/-! ## The two clocks -/

namespace Clock

/-- From one reading of the clocks to another, the clock on the wall was moved by as much as the
monotonic one. -/
structure InStep (a b : Clock) : Prop where
  /-- The first reading is not one of a leap second, which no clock shows. -/
  ordinary : a.wall.IsOrdinary
  moved : b.wall = a.wall.shift ((b.monotonic.nanos : Int) - a.monotonic.nanos)

instance decInStep (a b : Clock) : Decidable (a.InStep b) :=
  decidable_of_iff (a.wall.IsOrdinary ∧
      b.wall = a.wall.shift ((b.monotonic.nanos : Int) - a.monotonic.nanos))
    ⟨fun h => ⟨h.1, h.2⟩, fun h => ⟨h.ordinary, h.moved⟩⟩

end Clock

/-- The duration of a history of two records that lie some time apart. -/
theorem History.duration?_pair {a b : PhaseChange} {d : Duration}
    (h : a.timestamp.difference b.timestamp = d.nanos) :
    (History.mk [a, b]).duration? = some d := by
  have hpos : (0 : Int) ≤ d.nanos := Int.natCast_nonneg _
  simp [duration?, h, hpos]

namespace Transition

/-! ## The time of a run -/

section
variable {env : Environment ι σ} {patience : Nat} {t : Transition ι σ} {w v : World ι σ}

/-- The last wait is over when the tries have taken their time. -/
theorem now_of_attempts {o : Outcome} (h : t.refusal? = none)
    (hp : t.facility.phase = t.kind.before)
    (hov : attempts env patience (t.begun w) (t.options.tries - 1) 1 (t.started w) =
      some (o, v)) :
    v.now = w.now + Duration.total ((ledger env patience t w).map (tryTime t)) := by
  have hmade := tried env patience (t.begun w) (t.options.tries - 1) 1 (t.started w)
  rw [hov, ← ledger_eq h hp] at hmade
  exact hmade.now_eq

/-- A report tells the time of all tries and that of the hook. -/
theorem elapsed_of_closing {o : Outcome} {report : Report} (h : t.refusal? = none)
    (hp : t.facility.phase = t.kind.before)
    (hov : attempts env patience (t.begun w) (t.options.tries - 1) 1 (t.started w) = some (o, v))
    (hok : (t.closing w o v).result = .ok report) :
    report.elapsed = Duration.total ((ledger env patience t w).map (tryTime t)) +
      t.hook.time t.subject v.scene := by
  have hnow := now_of_attempts h hp hov
  have hwhole : report.elapsed = (callHook t.hook t.subject (t.arrived v)).elapsedSince w.now := by
    cases hres : o.result with
    | ok wait =>
        simp only [closing, hres, Except.ok.injEq] at hok
        rw [← hok]
    | error failure =>
        simp only [closing, hres] at hok
        exact absurd hok (by simp)
  have hhook : (callHook t.hook t.subject (t.arrived v)).now =
      v.now + t.hook.time t.subject v.scene := now_callHook t.hook t.subject (t.arrived v)
  rw [hwhole, World.elapsedSince, hhook, hnow]
  refine Duration.ext ?_
  simp only [Duration.nanos_add, Duration.nanos_sub]
  omega

/-- While the tries are made, the clock on the wall moves by the time that they take, if the clocks
move together. -/
theorem wall_of_attempts {o : Outcome} (h : t.refusal? = none)
    (hp : t.facility.phase = t.kind.before)
    (hov : attempts env patience (t.begun w) (t.options.tries - 1) 1 (t.started w) = some (o, v))
    (hstep : ∀ s ∈ scenes env patience t w, w.scene.clock.InStep s.clock) :
    w.wall.IsOrdinary ∧ v.wall = w.wall.shift
      (Duration.total ((ledger env patience t w).map (tryTime t))).nanos := by
  obtain ⟨hordinary, hmoved⟩ := hstep v.scene (mem_scenes h hp hov)
  have hnow := congrArg Duration.nanos (now_of_attempts h hp hov)
  rw [Duration.nanos_add] at hnow
  have hspent : (v.now.nanos : Int) - w.now.nanos =
      (Duration.total ((ledger env patience t w).map (tryTime t))).nanos := by
    omega
  rw [← hspent]
  exact ⟨hordinary, hmoved⟩

end

/-- **All time is accounted for.**  The time of a wait that returns is that of its checks and of its
sleeps.  The time that a run tells that succeeds is that of all its tries, each with its trigger and
its wait, and of its hook.  If the clock on the wall is only seen to move together with the other
one, the time of the second record of the run is that of the first moved by what the run has taken
without its hook; and if there was no record before, that is the duration of the history, and not
less than the last wait alone. -/
theorem all_time_is_accounted_for (env : Environment ι σ) (patience : Nat) :
    (∀ (waits : List (Wait ι)) (timeout : Duration) (w w' : World ι σ) (res : Wait.Result),
      Wait.run env patience waits timeout w = some (res, w') →
      w'.sleeps = w.sleeps ++
        (Wait.napsOf env waits timeout w.scene (res.passes - 1)).map Wait.Nap.length ∧
      res.elapsed = Duration.total (Wait.costsOf env waits timeout w.scene res.passes) +
        Duration.total
          ((Wait.napsOf env waits timeout w.scene (res.passes - 1)).map Wait.Nap.length)) ∧
    ∀ (t : Transition ι σ) (w : World ι σ) (r : Run ι σ) (report : Report),
      execute env patience t w = some r → r.result = .ok report →
      (ledger env patience t w).length = report.attempts ∧
      (∀ x ∈ ledger env patience t w, x.ending.isSome = true ∧
        x.ending = Wait.run env patience t.waits t.options.timeout (t.waiting x.number x.before)) ∧
      ∃ x after, (ledger env patience t w).getLast? = some x ∧
        x.ending = some (.ok report.wait, after) ∧
        report.elapsed = Duration.total ((ledger env patience t w).map (tryTime t)) +
          t.hook.time t.subject after.scene ∧
        ((∀ s ∈ scenes env patience t w, w.scene.clock.InStep s.clock) →
          ∃ a b, r.transition.facility.history.changes = t.facility.history.changes ++ [a, b] ∧
            b.timestamp = a.timestamp.shift
              ((report.elapsed.nanos : Int) - (t.hook.time t.subject after.scene).nanos) ∧
            a.timestamp.difference b.timestamp =
              (report.elapsed.nanos : Int) - (t.hook.time t.subject after.scene).nanos ∧
            (t.facility.history = .empty → ∃ d, r.transition.facility.history.duration? = some d ∧
              report.elapsed = d + t.hook.time t.subject after.scene ∧
              report.wait.elapsed ≤ d)) := by
  refine ⟨fun waits timeout w w' res h => ⟨Wait.sleeps_run h, Wait.elapsed_eq_total h⟩, ?_⟩
  intro t w r report hr hok
  obtain ⟨h, hp, o, v, hov, rfl, hres⟩ := closing_of_ok hr hok
  obtain ⟨x, hx, hend, hnum, -⟩ := getLast?_ledger h hp hov
  have helapsed := elapsed_of_closing h hp hov hok
  rw [hres] at hend
  refine ⟨?_, (deeds_execute hr).1, x, v, hx, hend, helapsed, ?_⟩
  · simp only [closing, hres, Except.ok.injEq] at hok
    rw [← hok, hnum]
  intro hstep
  obtain ⟨hordinary, hwall⟩ := wall_of_attempts h hp hov hstep
  have hspent : (report.elapsed.nanos : Int) - (t.hook.time t.subject v.scene).nanos =
      (Duration.total ((ledger env patience t w).map (tryTime t))).nanos := by
    rw [helapsed, Duration.nanos_add, Nat.cast_add, Int.add_sub_cancel]
  have hdiff : w.wall.difference v.wall =
      (Duration.total ((ledger env patience t w).map (tryTime t))).nanos := by
    rw [hwall, Timestamp.difference_shift hordinary]
  have hchanges : (t.closing w o v).transition.facility.history.changes =
      t.facility.history.changes ++ [t.firstRecord w.wall, t.secondRecord o.attempts v.wall] := by
    simp only [closing, hres, facility_arrived hp]
  refine ⟨_, _, hchanges, ?_, ?_, ?_⟩
  · rw [hspent]
    exact hwall
  · rw [hspent]
    exact hdiff
  · intro hempty
    refine ⟨_, ?_, helapsed, ?_⟩
    · have hhistory : (t.closing w o v).transition.facility.history =
          ⟨[t.firstRecord w.wall, t.secondRecord o.attempts v.wall]⟩ := by
        rw [hempty] at hchanges
        exact congrArg History.mk hchanges
      rw [hhistory]
      exact History.duration?_pair hdiff
    · have hlast : report.wait.elapsed ≤ tryTime t x := elapsed_le_tryTime t hend
      have hmem : x ∈ ledger env patience t w := List.mem_of_getLast? hx
      exact Nat.le_trans hlast (Duration.le_total (List.mem_map_of_mem hmem))

/-- A door that opens after two checks, each of which takes three milliseconds. -/
def creakingDoor : Environment Unit Nat where
  describe _ _ := "door"
  check _ s :=
    ⟨.plain (if s.state < 2 then .notFulfilled else .fulfilled) s.wall, .ofMillis 3, 0, s.state + 1⟩

/-- The way out of the hall with a knock that takes seven milliseconds, and a pause behind it. -/
def hauling : Transition Unit Nat :=
  { knocking with
    trigger := some fun _ s => ⟨(), .ofMillis 7, 0, s.state⟩
    hook := .pause ⟨some 250⟩ }

/-- The first try takes two checks with a sleep of 47 milliseconds between them, and the second one
takes one check; so there are 70 milliseconds between the records, and 320 with the pause. -/
theorem time_of_hauling :
    ∃ r report, execute creakingDoor 0 hauling .fresh = some r ∧ r.result = .ok report ∧
      (ledger creakingDoor 0 hauling .fresh).map (tryTime hauling) = [.ofMillis 60, .ofMillis 10] ∧
      report.elapsed = .ofMillis 320 ∧
      r.transition.facility.history.duration? = some (.ofMillis 70) ∧
      report.wait.elapsed ≤ .ofMillis 70 := by
  obtain ⟨-, hrun⟩ := all_time_is_accounted_for creakingDoor 0
  have hsome : (execute creakingDoor 0 hauling .fresh).map (fun r => r.result.isOk) = some true :=
    rfl
  obtain ⟨r, hr, hok⟩ := Option.map_eq_some_iff.1 hsome
  cases hres : r.result with
  | error e =>
      rw [hres] at hok
      exact absurd hok Bool.false_ne_true
  | ok report =>
      have htries : (ledger creakingDoor 0 hauling .fresh).map (tryTime hauling) =
          [.ofMillis 60, .ofMillis 10] := by decide
      have htotal : Duration.total [.ofMillis 60, .ofMillis 10] = .ofMillis 70 := by decide
      have hpause : ∀ s, hauling.hook.time hauling.subject s = .ofMillis 250 := fun _ => rfl
      have hwhole : Duration.ofMillis 70 + .ofMillis 250 = .ofMillis 320 := by decide
      obtain ⟨-, -, x, after, -, -, helapsed, hrecords⟩ := hrun hauling .fresh r report hr hres
      rw [hpause] at helapsed hrecords
      rw [htries, htotal] at helapsed
      have hsteps : ∀ s ∈ scenes creakingDoor 0 hauling .fresh,
          (World.fresh (ι := Unit)).scene.clock.InStep s.clock := by decide
      obtain ⟨a, b, -, -, -, hduration⟩ := hrecords hsteps
      obtain ⟨d, hd, htold, hwait⟩ := hduration rfl
      have hseventy : d = .ofMillis 70 := by
        have hnanos := congrArg Duration.nanos (htold.symm.trans helapsed)
        exact Duration.ext (Nat.add_right_cancel hnanos)
      rw [hseventy] at hd hwait
      exact ⟨r, report, hr, hres, htries, helapsed.trans hwhole, hd, hwait⟩

end Transition
end Passage
