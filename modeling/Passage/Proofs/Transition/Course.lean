/-
# The course of a run

All that running a transition can come to, said once.  A run is refused
without a trace (`execute_of_refusal`); or its facility is in the wrong
phase, and nothing happens inside the span (`execute_of_wrong_phase`); or
the facility is marked and the tries are made, and then `closing` is what
comes out, for whatever result the last try had
(`execute_of_right_phase`).

In the last case the second marking has no other way out: a facility that
has been marked once is in the phase that the second marking asks for
(`succeed_begun`).  The hook is called behind it, and what it leaves depends
on nothing but the scene that it finds (`scene_callHook`, `now_callHook`).
-/
import Passage.Proofs.Trace
import Passage.Proofs.Transition.Attempts

namespace Passage
variable {ι σ : Type}

/-! ## Markings -/

namespace Kind

theorem next_eq_during_iff {k : Kind} {p : Phase} : p.next = some k.during ↔ p = k.before := by
  cases k <;> cases p <;> decide

end Kind

namespace Facility

/-- The facility after it was moved to a phase. -/
def moved (f : Facility ι) (target : Phase) (attempt : Nat) (now : Timestamp) : Facility ι :=
  { f with phase := target, history := f.history.record ⟨f.phase, target, now, attempt⟩ }

theorem advance_of_next {f : Facility ι} {target : Phase} (h : f.phase.next = some target)
    (attempt : Nat) (now : Timestamp) :
    f.advance target attempt now = .ok (f.moved target attempt now) :=
  advance_eq_ok_iff.2 ⟨h, rfl⟩

theorem advance_of_ne_next {f : Facility ι} {target : Phase} (h : f.phase.next ≠ some target)
    (attempt : Nat) (now : Timestamp) :
    f.advance target attempt now = .error ⟨f.name, f.phase, target⟩ := by
  have hn : ¬ f.phase.canAdvanceTo target = true := fun hc => h (Phase.canAdvanceTo_iff.1 hc)
  rw [advance, if_neg hn]

end Facility

namespace Transition

theorem mark_of_next {f : Facility ι} {target : Phase} (h : f.phase.next = some target)
    (attempt : Nat) (w : World ι σ) :
    mark f target attempt w =
      (.ok (f.moved target attempt w.wall), w.note (.phaseChanged f.name f.phase target)) := by
  rw [mark, Facility.advance_of_next h]

theorem mark_of_ne_next {f : Facility ι} {target : Phase} (h : f.phase.next ≠ some target)
    (attempt : Nat) (w : World ι σ) :
    mark f target attempt w = (.error ⟨f.name, f.phase, target⟩, w) := by
  rw [mark, Facility.advance_of_ne_next h]

/-! ## The parts of a run -/

/-- The world inside the span, before anything has been done. -/
def opened (t : Transition ι σ) (w : World ι σ) : World ι σ :=
  (w.record (.spanOpened t.id t.subject)).record .spanEntered

/-- The transition once its facility has been marked for the first time. -/
def begun (t : Transition ι σ) (w : World ι σ) : Transition ι σ :=
  { t with facility := t.facility.moved t.kind.during 0 w.wall }

/-- The world in which the first try begins. -/
def started (t : Transition ι σ) (w : World ι σ) : World ι σ :=
  ((t.opened w).note (.phaseChanged t.facility.name t.facility.phase t.kind.during)).note
    (.beginning t.kind t.facility.text)

/-- The world after the second marking, when the last wait has ended in the given world. -/
def arrived (t : Transition ι σ) (v : World ι σ) : World ι σ :=
  (v.note (.phaseChanged t.facility.name t.kind.during t.kind.done)).note
    (.completed t.kind t.facility.text)

/-- What comes out of a run that began in `w`, when the last try has come out as `o` and has left
the world `v`. -/
def closing (t : Transition ι σ) (w : World ι σ) (o : Outcome) (v : World ι σ) : Run ι σ :=
  match o.result with
  | .ok report =>
    let u := callHook t.hook t.subject (t.arrived v)
    { result := .ok ⟨t.id, t.kind, t.facility.name, o.attempts, u.elapsedSince w.now, report⟩
      transition := { t with
        facility := (t.begun w).facility.moved t.kind.done o.attempts v.wall
        stage := .succeeded }
      world := u.record .spanLeft }
  | .error failure =>
    { result := .error (.unmet t.kind t.facility.text o.attempts failure)
      transition := { t.begun w with stage := .failed }
      world := v.record .spanLeft }

/-! ## What marking says -/

theorem events_opened (t : Transition ι σ) (w : World ι σ) :
    (t.opened w).events = w.events ++ [.spanOpened t.id t.subject, .spanEntered] := by
  simp [opened]

theorem events_started (t : Transition ι σ) (w : World ι σ) :
    (t.started w).events = w.events ++ [.spanOpened t.id t.subject, .spanEntered,
      .noted (.phaseChanged t.facility.name t.facility.phase t.kind.during),
      .noted (.beginning t.kind t.facility.text)] := by
  simp [started, events_opened]

theorem events_arrived (t : Transition ι σ) (v : World ι σ) :
    (t.arrived v).events = v.events ++ [
      .noted (.phaseChanged t.facility.name t.kind.during t.kind.done),
      .noted (.completed t.kind t.facility.text)] := by
  simp [arrived]

end Transition

/-! ## What a hook does -/

namespace Hook

/-- How long a hook takes that is called in the given scene. -/
def time : Hook σ → String → Scene σ → Duration
  | pause config, _, _ => config.pause.getD .zero
  | action act, subject, s => (act subject s).cost

/-- The scene that a hook leaves. -/
def leave : Hook σ → String → Scene σ → Scene σ
  | pause config, _, s =>
    match config.pause with
    | none => s
    | some d => if d.nanos = 0 then s else s.later d
  | action act, subject, s => s.after (act subject s)

/-- The events of a hook.  A configured pause is announced once, and then slept; without one
nothing happens beyond the call. -/
def events : Hook σ → String → List (Event ι)
  | pause config, subject =>
    match config.pause with
    | none => [.hooked subject]
    | some d =>
      [.hooked subject, .noted (.pausing subject d)] ++ if d.nanos = 0 then [] else [.slept d]
  | action _, subject => [.hooked subject]

end Hook

namespace Transition

theorem callHook_of_pause {config : Config} {d : Duration} (h : config.pause = some d)
    (subject : String) (w : World ι σ) :
    callHook (.pause config) subject w =
      ((w.record (.hooked subject)).note (.pausing subject d)).sleep d := by
  rw [callHook, h]

theorem callHook_of_no_pause {config : Config} (h : config.pause = none) (subject : String)
    (w : World ι σ) : callHook (.pause config) subject w = w.record (.hooked subject) := by
  rw [callHook, h]

/-- Calling the hook is an event; the hook itself says that it pauses, and pauses, at most. -/
theorem adds_callHook (hook : Hook σ) (subject : String) (w : World ι σ) :
    World.Adds Event.InPause (w.record (.hooked subject)) (callHook hook subject w) := by
  cases hook with
  | action act => exact .refl _
  | pause config =>
      cases h : config.pause with
      | none =>
          rw [callHook_of_no_pause h]
          exact .refl _
      | some d =>
          rw [callHook_of_pause h]
          have hsaid : World.Adds Event.InPause (w.record (.hooked subject))
              ((w.record (.hooked subject)).note (.pausing subject d)) :=
            World.Adds.record _ (.pausing subject d)
          exact hsaid.trans (World.Adds.sleep _ (Event.InPause.slept d))

theorem events_callHook (hook : Hook σ) (subject : String) (w : World ι σ) :
    (callHook hook subject w).events = w.events ++ hook.events subject := by
  cases hook with
  | action act => exact World.events_record w (.hooked subject)
  | pause config =>
      rw [Hook.events]
      cases h : config.pause with
      | none =>
          rw [callHook_of_no_pause h]
          exact World.events_record w (.hooked subject)
      | some d =>
          rw [callHook_of_pause h]
          by_cases hd : d.nanos = 0
          · simp [World.sleep, hd]
          · simp [World.sleep, hd]

theorem scene_callHook (hook : Hook σ) (subject : String) (w : World ι σ) :
    (callHook hook subject w).scene = hook.leave subject w.scene := by
  cases hook with
  | action act => rfl
  | pause config =>
      rw [Hook.leave]
      cases h : config.pause with
      | none =>
          rw [callHook_of_no_pause h]
          rfl
      | some d =>
          rw [callHook_of_pause h]
          by_cases hd : d.nanos = 0
          · simp only [World.sleep, if_pos hd]
            rfl
          · rw [World.scene_sleep hd]
            simp only [if_neg hd]
            rfl

theorem now_callHook (hook : Hook σ) (subject : String) (w : World ι σ) :
    (callHook hook subject w).now = w.now + hook.time subject w.scene := by
  cases hook with
  | action act => rfl
  | pause config =>
      rw [Hook.time]
      cases h : config.pause with
      | none =>
          rw [callHook_of_no_pause h]
          rfl
      | some d =>
          rw [callHook_of_pause h]
          by_cases hd : d.nanos = 0
          · refine Duration.ext ?_
            rw [World.sleep, if_pos hd, Option.getD_some, Duration.nanos_add, hd]
            rfl
          · rw [World.sleep, if_neg hd]
            rfl

/-! ## What the closing of a run adds -/

theorem events_closing_ok {t : Transition ι σ} {w v : World ι σ} {o : Outcome}
    {report : Wait.Report} (h : o.result = .ok report) :
    ∃ es, (t.closing w o v).world.events = v.events ++ [
        .noted (.phaseChanged t.facility.name t.kind.during t.kind.done),
        .noted (.completed t.kind t.facility.text), .hooked t.subject] ++ es ++ [.spanLeft] ∧
      ∀ e ∈ es, e.InPause := by
  obtain ⟨es, he, hes⟩ := adds_callHook t.hook t.subject (t.arrived v)
  refine ⟨es, ?_, hes⟩
  rw [closing, h, World.events_record, he, World.events_record, events_arrived]
  simp

theorem events_closing_error {t : Transition ι σ} {w v : World ι σ} {o : Outcome}
    {failure : Wait.Failure} (h : o.result = .error failure) :
    (t.closing w o v).world.events = v.events ++ [.spanLeft] := by
  rw [closing, h, World.events_record]

/-- Once the last wait is over, the scene is changed by the hook alone, if it is called. -/
theorem scene_closing (t : Transition ι σ) (w v : World ι σ) (o : Outcome) :
    (t.closing w o v).world.scene =
      if (t.closing w o v).result.isOk then t.hook.leave t.subject v.scene else v.scene := by
  rw [closing]
  cases o.result with
  | ok report => exact scene_callHook t.hook t.subject (t.arrived v)
  | error failure => rfl

/-- Once the last wait is over, no trigger is fired, nothing is checked and no wait begins. -/
theorem quiet_closing (t : Transition ι σ) (w v : World ι σ) (o : Outcome) :
    World.Adds Event.Quiet v (t.closing w o v).world := by
  cases h : o.result with
  | ok report =>
      obtain ⟨es, he, hes⟩ := events_closing_ok (t := t) (w := w) (v := v) h
      refine ⟨_, by rw [he, List.append_assoc, List.append_assoc], ?_⟩
      intro e hmem
      simp only [List.mem_append, List.mem_cons, List.not_mem_nil, or_false] at hmem
      rcases hmem with (rfl | rfl | rfl) | hmem | rfl
      · exact ⟨rfl, rfl, rfl⟩
      · exact ⟨rfl, rfl, rfl⟩
      · exact ⟨rfl, rfl, rfl⟩
      · exact ⟨(hes e hmem).fired?, (hes e hmem).checked?, (hes e hmem).beginsWait⟩
      · exact ⟨rfl, rfl, rfl⟩
  | error failure =>
      refine ⟨[.spanLeft], events_closing_error h, ?_⟩
      intro e hmem
      obtain rfl := List.mem_singleton.mp hmem
      exact ⟨rfl, rfl, rfl⟩

/-! ## The three courses -/

theorem execute_of_refusal {env : Environment ι σ} {patience : Nat} {t : Transition ι σ}
    {w : World ι σ} {e : TransitionError} (h : t.refusal? = some e) :
    execute env patience t w = some ⟨.error e, t, w⟩ := by
  rw [execute, h]

/-- A run that is refused has not failed for a wait. -/
theorem failure?_of_refusal {t : Transition ι σ} {e : TransitionError} (h : t.refusal? = some e) :
    e.failure? = none := by
  rw [refusal?] at h
  split at h
  · obtain rfl := Option.some.inj h
    rfl
  · split at h
    · exact absurd h (by simp)
    · obtain rfl := Option.some.inj h
      rfl

theorem refusal?_eq_none {t : Transition ι σ} (hs : t.stage = .notStarted)
    (hv : t.options.isValid = true) : t.refusal? = none := by
  simp [refusal?, hs, hv]

/-- A transition that is not refused was never run, and has valid options. -/
theorem of_refusal?_eq_none {t : Transition ι σ} (h : t.refusal? = none) :
    t.stage = .notStarted ∧ t.options.isValid = true := by
  rw [refusal?] at h
  by_cases hs : t.stage = .notStarted
  · by_cases hv : t.options.isValid = true
    · exact ⟨hs, hv⟩
    · simp [hs, hv] at h
  · simp [hs] at h

theorem execute_of_wrong_phase {env : Environment ι σ} {patience : Nat} {t : Transition ι σ}
    {w : World ι σ} (h : t.refusal? = none) (hp : t.facility.phase ≠ t.kind.before) :
    execute env patience t w = some
      { result := .error (.phase ⟨t.facility.name, t.facility.phase, t.kind.during⟩)
        transition := { t with stage := .failed }
        world := (t.opened w).record .spanLeft } := by
  have hn : (t.inStage .beforeHook).facility.phase.next ≠ some (t.inStage .beforeHook).kind.during :=
    fun hn => hp (Kind.next_eq_during_iff.1 hn)
  rw [execute, h]
  show (proceed env patience t (t.opened w)).map _ = _
  rw [proceed, mark_of_ne_next hn]
  rfl

/-- A facility that has been marked once accepts the second marking. -/
theorem succeed_begun (t : Transition ι σ) (stage : Stage) (w v : World ι σ) (number : Nat)
    (report : Wait.Report) :
    succeed ((t.begun w).inStage stage) w.now number report v =
      { result := .ok ⟨t.id, t.kind, t.facility.name, number,
          (callHook t.hook t.subject (t.arrived v)).elapsedSince w.now, report⟩
        transition := { t with
          facility := (t.begun w).facility.moved t.kind.done number v.wall
          stage := .succeeded }
        world := callHook t.hook t.subject (t.arrived v) } := by
  have hn : ((t.begun w).inStage stage).facility.phase.next =
      some ((t.begun w).inStage stage).kind.done := Kind.next_during t.kind
  rw [succeed, mark_of_next hn]
  rfl

theorem execute_of_right_phase {env : Environment ι σ} {patience : Nat} {t : Transition ι σ}
    {w : World ι σ} (h : t.refusal? = none) (hp : t.facility.phase = t.kind.before) :
    execute env patience t w =
      (attempts env patience (t.begun w) (t.options.tries - 1) 1 (t.started w)).map
        fun x => t.closing w x.1 x.2 := by
  have hn : (t.inStage .beforeHook).facility.phase.next =
      some (t.inStage .beforeHook).kind.during := Kind.next_eq_during_iff.2 hp
  rw [execute, h]
  show (proceed env patience t (t.opened w)).map _ = _
  rw [proceed, mark_of_next hn]
  show ((tryAll env patience ((t.begun w).inStage .beforeHook) (t.started w)).map _).map _ = _
  rw [tryAll_eq, Option.map_map, Option.map_map]
  refine congrArg (Option.map · _) (funext fun x => ?_)
  obtain ⟨⟨number, result⟩, v⟩ := x
  cases result with
  | ok report =>
      exact congrArg (fun r : Run ι σ => { r with world := r.world.record .spanLeft })
        (succeed_begun t .waiting w v number report)
  | error failure => rfl

end Transition
end Passage
