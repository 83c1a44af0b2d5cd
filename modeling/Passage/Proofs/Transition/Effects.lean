/-
# What a run does to its facility

The outcome of a run fixes its effects.  In the wrong phase a run changes
nothing but its own stage.  In the right one there are two ways out, and
what each leaves behind is a structure of its own:

| | stage | phase | records added | hook |
| :-- | :-- | :-- | :-- | :-- |
| `Arrived` | succeeded | `done` | two, with attempt 0 and with the last try's number | called once |
| `Stuck` | failed | `during` | one, with attempt 0 | not called |

The hook is called in the scene in which the second marking was made, and
nothing else happens to the scene after that.  Entering and leaving a
facility differ only in the three phases that `Kind` names.
-/
import Passage.Proofs.Transition.Tries

namespace Passage.Transition
variable {ι σ : Type}

/-- The record of the first marking, which no try has made. -/
def firstRecord (t : Transition ι σ) (now : Timestamp) : PhaseChange :=
  ⟨t.kind.before, t.kind.during, now, 0⟩

/-- The record of the second marking, after the successful try. -/
def secondRecord (t : Transition ι σ) (attempts : Nat) (now : Timestamp) : PhaseChange :=
  ⟨t.kind.during, t.kind.done, now, attempts⟩

/-- What a run has done that has succeeded. -/
structure Arrived (t : Transition ι σ) (w : World ι σ) (attempts : Nat) (r : Run ι σ) : Prop where
  /-- The stage, the phase and the history have changed, and nothing else.  The scene in which the
  second marking was made is the one in which the hook was called, and what the hook has made of it
  is what the run leaves. -/
  transition : ∃ s : Scene σ, r.transition = { t with
    stage := .succeeded
    facility := { t.facility with
      phase := t.kind.done
      history := ⟨t.facility.history.changes ++
        [t.firstRecord w.wall, t.secondRecord attempts s.wall]⟩ } } ∧
    r.world.scene = t.hook.leave t.subject s
  /-- The hook was called once, behind the second marking and everything of the tries. -/
  hook : ∃ earlier later, r.world.events = w.events ++ earlier ++ .hooked t.subject :: later ∧
    .noted (.phaseChanged t.facility.name t.kind.during t.kind.done) ∈ earlier ∧
    (∀ e ∈ earlier, e.hooked? = none) ∧
    ∀ e ∈ later, e.hooked? = none ∧ e.Quiet

/-- What a run has done none of whose tries has succeeded. -/
structure Stuck (t : Transition ι σ) (w : World ι σ) (r : Run ι σ) : Prop where
  /-- The stage, the phase and the history have changed, and nothing else. -/
  transition : r.transition = { t with
    stage := .failed
    facility := { t.facility with
      phase := t.kind.during
      history := ⟨t.facility.history.changes ++ [t.firstRecord w.wall]⟩ } }
  /-- The hook was not called. -/
  hook : World.Adds (fun e => e.hooked? = none) w r.world

section
variable {env : Environment ι σ} {patience : Nat} {t : Transition ι σ} {w v : World ι σ}

theorem facility_begun (hp : t.facility.phase = t.kind.before) :
    (t.begun w).facility = { t.facility with
      phase := t.kind.during
      history := ⟨t.facility.history.changes ++ [t.firstRecord w.wall]⟩ } := by
  show t.facility.moved t.kind.during 0 w.wall = _
  rw [Facility.moved, hp]
  rfl

theorem facility_arrived (hp : t.facility.phase = t.kind.before) (attempts : Nat)
    (now : Timestamp) :
    (t.begun w).facility.moved t.kind.done attempts now = { t.facility with
      phase := t.kind.done
      history := ⟨t.facility.history.changes ++
        [t.firstRecord w.wall, t.secondRecord attempts now]⟩ } := by
  rw [facility_begun hp, Facility.moved]
  simp [History.record, secondRecord]

/-- Nothing before the end of the last wait calls the hook. -/
theorem adds_tries {o : Outcome} (h : t.refusal? = none) (hp : t.facility.phase = t.kind.before)
    (hov : attempts env patience (t.begun w) (t.options.tries - 1) 1 (t.started w) =
      some (o, v)) :
    World.Adds (fun e => e.hooked? = none) w v := by
  obtain ⟨es, he, -, -, hhooks⟩ := events_tries h hp hov
  refine ⟨_, by rw [he, events_started, List.append_assoc], ?_⟩
  intro e hmem
  rcases List.mem_append.mp hmem with hmem | hmem
  · simp only [List.mem_cons, List.not_mem_nil, or_false] at hmem
    rcases hmem with rfl | rfl | rfl | rfl <;> rfl
  · exact List.filterMap_eq_nil_iff.mp hhooks e hmem

theorem arrived_of_ok {o : Outcome} {report : Wait.Report} (h : t.refusal? = none)
    (hp : t.facility.phase = t.kind.before)
    (hov : attempts env patience (t.begun w) (t.options.tries - 1) 1 (t.started w) = some (o, v))
    (hok : o.result = .ok report) : Arrived t w o.attempts (t.closing w o v) := by
  refine ⟨⟨v.scene, ?_, ?_⟩, ?_⟩
  · rw [closing, hok, facility_arrived hp]
    rfl
  · rw [closing, hok]
    exact scene_callHook t.hook t.subject (t.arrived v)
  · obtain ⟨es, he, hes⟩ := adds_tries h hp hov
    obtain ⟨tail, htail, hquiet⟩ := events_closing_ok (t := t) (w := w) (v := v) hok
    refine ⟨es ++ [.noted (.phaseChanged t.facility.name t.kind.during t.kind.done),
      .noted (.completed t.kind t.facility.text)], tail ++ [.spanLeft], ?_, ?_, ?_, ?_⟩
    · rw [htail, he]
      simp
    · exact List.mem_append_right _ List.mem_cons_self
    · intro e hmem
      rcases List.mem_append.mp hmem with hmem | hmem
      · exact hes e hmem
      · simp only [List.mem_cons, List.not_mem_nil, or_false] at hmem
        rcases hmem with rfl | rfl <;> rfl
    · intro e hmem
      rcases List.mem_append.mp hmem with hmem | hmem
      · have hp := hquiet e hmem
        exact ⟨hp.hooked?, hp.fired?, hp.checked?, hp.beginsWait⟩
      · obtain rfl := List.mem_singleton.mp hmem
        exact ⟨rfl, rfl, rfl, rfl⟩

theorem stuck_of_error {o : Outcome} {failure : Wait.Failure} (h : t.refusal? = none)
    (hp : t.facility.phase = t.kind.before)
    (hov : attempts env patience (t.begun w) (t.options.tries - 1) 1 (t.started w) = some (o, v))
    (herr : o.result = .error failure) : Stuck t w (t.closing w o v) := by
  refine ⟨?_, ?_⟩
  · rw [closing, herr]
    show ({ t with stage := .failed, facility := (t.begun w).facility } : Transition ι σ) = _
    rw [facility_begun hp]
  · have hleft : World.Adds (fun e => e.hooked? = none) v (t.closing w o v).world := by
      refine ⟨[.spanLeft], events_closing_error herr, ?_⟩
      intro e hmem
      obtain rfl := List.mem_singleton.mp hmem
      rfl
    exact (adds_tries h hp hov).trans hleft

end

/-- **The outcome of a run fixes its effects.**  In the wrong phase nothing happens inside the
span, and only the stage has changed.  In the right one the run is never refused because of a
phase, not even at the second marking: it has arrived, or it is stuck. -/
theorem effects_of_execute (env : Environment ι σ) (patience : Nat) {t : Transition ι σ}
    (w : World ι σ) (hs : t.stage = .notStarted) (hv : t.options.isValid = true) :
    (t.facility.phase ≠ t.kind.before → ∃ r, execute env patience t w = some r ∧
      r.result = .error (.phase ⟨t.facility.name, t.facility.phase, t.kind.during⟩) ∧
      r.transition = { t with stage := .failed } ∧
      r.world.scene = w.scene ∧
      r.world.events = w.events ++ [.spanOpened t.id t.subject, .spanEntered, .spanLeft]) ∧
    (t.facility.phase = t.kind.before → ∀ r, execute env patience t w = some r →
      (∀ e, r.result ≠ .error (.phase e)) ∧
      ((∃ report, r.result = .ok report ∧ Arrived t w report.attempts r) ∨
        ∃ failure, r.result = .error (.unmet t.kind t.facility.text t.options.tries failure) ∧
          Stuck t w r)) := by
  have h := refusal?_eq_none hs hv
  refine ⟨?_, ?_⟩
  · intro hp
    refine ⟨_, execute_of_wrong_phase h hp, rfl, rfl, rfl, ?_⟩
    rw [World.events_record, events_opened, List.append_assoc]
    rfl
  · intro hp r hr
    obtain ⟨o, v, hov, rfl⟩ := closing_of_execute h hp hr
    cases hres : o.result with
    | ok report =>
        have harrived := arrived_of_ok h hp hov hres
        have hresult : (t.closing w o v).result = .ok ⟨t.id, t.kind, t.facility.name, o.attempts,
            (callHook t.hook t.subject (t.arrived v)).elapsedSince w.now, report⟩ := by
          rw [closing, hres]
        rw [hresult]
        exact ⟨fun e he => absurd he (by simp), Or.inl ⟨_, rfl, harrived⟩⟩
    | error failure =>
        obtain ⟨x, -, -, hnum, hfull⟩ := getLast?_ledger h hp hov
        have hresult : (t.closing w o v).result =
            .error (.unmet t.kind t.facility.text t.options.tries failure) := by
          rw [closing, hres, hnum, hfull failure hres]
        rw [hresult]
        exact ⟨fun e he => absurd he (by simp), Or.inr ⟨failure, rfl, stuck_of_error h hp hov hres⟩⟩

/-- The hall that is knocked out of is left for good; a hall that was never entered cannot be
left. -/
theorem effects_of_knocking :
    (∃ r report, execute slowDoor 0 knocking .fresh = some r ∧ r.result = .ok report ∧
      Arrived knocking .fresh report.attempts r) ∧
    ∃ r, execute slowDoor 0 { knocking with facility := .new "hall" } .fresh = some r ∧
      r.result = .error (.phase ⟨"hall", .new, .transitioningFrom⟩) ∧
      r.world.events = [.spanOpened "knock" "check-out <F: hall>", .spanEntered, .spanLeft] := by
  refine ⟨?_, ?_⟩
  · have hsome : (execute slowDoor 0 knocking .fresh).isSome = true := rfl
    obtain ⟨r, hr⟩ := Option.isSome_iff_exists.1 hsome
    obtain ⟨-, hdone⟩ := effects_of_execute (t := knocking) slowDoor 0 .fresh rfl rfl
    rcases (hdone rfl r hr).2 with ⟨report, hok, harrived⟩ | ⟨failure, herr, -⟩
    · exact ⟨r, report, hr, hok, harrived⟩
    · have hall : (execute slowDoor 0 knocking .fresh).map (fun r => r.result.isOk) = some true := rfl
      rw [hr, Option.map_some, herr] at hall
      exact absurd (Option.some.inj hall) Bool.false_ne_true
  · obtain ⟨hwrong, -⟩ :=
      effects_of_execute (t := { knocking with facility := .new "hall" }) slowDoor 0 .fresh rfl rfl
    obtain ⟨r, hr, hres, -, -, hevents⟩ := hwrong (by decide)
    exact ⟨r, hr, hres, hevents⟩

end Passage.Transition
