/-
# What has happened before a run

The events of a world are only ever added to, and nothing that is done
looks at them.  `World.behind` puts other events before those of a world;
whether they are there or not, every operation does the same and adds the
same events.  So a run can be told from the scene alone
(`execute_behind`), and two runs that begin in one scene may be compared
although different things have happened before them.
-/
import Passage.Proofs.Transition.Course

namespace Passage
variable {ι σ : Type}

namespace World

/-- The world in which these events have happened before its own. -/
def behind (es : List (Event ι)) (w : World ι σ) : World ι σ :=
  { w with past := w.past ++ es.reverse }

theorem events_behind (es : List (Event ι)) (w : World ι σ) :
    (w.behind es).events = es ++ w.events := by
  simp [events, behind]

/-- A scene in which nothing has happened yet. -/
def blank (s : Scene σ) : World ι σ := ⟨s, []⟩

theorem eq_behind_blank (w : World ι σ) : w = (blank w.scene).behind w.events := by
  simp [blank, behind, events]

@[simp] theorem scene_behind (es : List (Event ι)) (w : World ι σ) :
    (w.behind es).scene = w.scene := rfl

variable (es : List (Event ι)) (w : World ι σ)

theorem noteAny_behind (n : Option Notice) :
    (w.behind es).noteAny n = (w.noteAny n).behind es := by
  cases n with
  | none => rfl
  | some n => rfl

theorem sleep_behind (d : Duration) : (w.behind es).sleep d = (w.sleep d).behind es := by
  by_cases hd : d.nanos = 0
  · rw [sleep, sleep, if_pos hd, if_pos hd]
  · rw [sleep, sleep, if_neg hd, if_neg hd]
    rfl

theorem fire_behind (trigger : Option (Trigger σ)) (number : Nat) :
    (w.behind es).fire trigger number = (w.fire trigger number).behind es := by
  cases trigger with
  | none => rfl
  | some f => rfl

end World

namespace Wait

theorem sample_behind (env : Environment ι σ) (start : Duration) (x : Wait ι)
    (before : Option Progress) (es : List (Event ι)) (w : World ι σ) :
    sample env start x before (w.behind es) =
      ((sample env start x before w).1, (sample env start x before w).2.behind es) := by
  rw [sample_eq, sample_eq]
  exact Prod.ext rfl (World.noteAny_behind es (w.check env x.condition).2 _)

/-- The pass with other events before it. -/
def Pass.behind (es : List (Event ι)) (p : Pass ι σ) : Pass ι σ :=
  { p with world := p.world.behind es }

theorem pass_behind (env : Environment ι σ) (start : Duration)
    (l : List (Wait ι × Option Progress)) (es : List (Event ι)) (w : World ι σ) :
    pass env start l (w.behind es) = (pass env start l w).behind es := by
  induction l generalizing w with
  | nil => rfl
  | cons head rest ih =>
      obtain ⟨x, before⟩ := head
      rw [pass_cons, pass_cons, sample_behind, ih]
      rfl

theorem conclude_behind (env : Environment ι σ) (b : Budget) (passes : Nat) (p : Pass ι σ)
    (es : List (Event ι)) :
    conclude env b passes (p.behind es) =
      (conclude env b passes p).map fun x => (x.1, x.2.behind es) := by
  have hver : verdict b (p.behind es) = verdict b p := rfl
  rw [conclude, conclude, hver]
  cases verdict b p with
  | failed reason => rfl
  | fulfilled => rfl
  | goOn d => rfl

theorem rest_behind (b : Budget) (es : List (Event ι)) (w : World ι σ) :
    rest b (w.behind es) = (rest b w).behind es := by
  have hnow : (w.behind es).now = w.now := rfl
  rw [rest, rest, hnow]
  cases b.pause? w.now with
  | none => rfl
  | some d => exact World.sleep_behind es w d

theorem poll_behind (env : Environment ι σ) (b : Budget) (rounds passes : Nat)
    (l : List (Wait ι × Option Progress)) (es : List (Event ι)) (w : World ι σ) :
    poll env b rounds passes l (w.behind es) =
      (poll env b rounds passes l w).map fun x => (x.1, x.2.behind es) := by
  induction rounds generalizing passes l w with
  | zero => rfl
  | succ rounds ih =>
      have hcarry : carry ((pass env b.start l w).behind es) = carry (pass env b.start l w) := rfl
      have hworld : ((pass env b.start l w).behind es).world =
          (pass env b.start l w).world.behind es := rfl
      rw [poll_succ, poll_succ, pass_behind, conclude_behind, hcarry, hworld, rest_behind, ih,
        Option.map_or]

theorem run_behind (env : Environment ι σ) (patience : Nat) (waits : List (Wait ι))
    (timeout : Duration) (es : List (Event ι)) (w : World ι σ) :
    run env patience waits timeout (w.behind es) =
      (run env patience waits timeout w).map fun x => (x.1, x.2.behind es) :=
  poll_behind env _ _ _ _ es (w.note (.waitBegun waits.length timeout))

end Wait

namespace Transition

theorem attempt_behind (env : Environment ι σ) (patience : Nat) (t : Transition ι σ) (number : Nat)
    (es : List (Event ι)) (w : World ι σ) :
    attempt env patience t number (w.behind es) =
      (attempt env patience t number w).map fun x => (x.1, x.2.behind es) := by
  rw [attempt, World.fire_behind]
  exact Wait.run_behind env patience _ _ es
    (((w.fire t.trigger number).note (.triggered t.kind t.facility.text)).note
      (.tryWaiting number t.options.tries t.facility.text))

theorem attempts_behind (env : Environment ι σ) (patience : Nat) (t : Transition ι σ)
    (es : List (Event ι)) (spare : Nat) :
    ∀ (number : Nat) (w : World ι σ),
      attempts env patience t spare number (w.behind es) =
        (attempts env patience t spare number w).map fun x => (x.1, x.2.behind es) := by
  induction spare with
  | zero =>
      intro number w
      rw [attempts, attempts, attempt_behind]
      cases attempt env patience t number w with
      | none => rfl
      | some x =>
          obtain ⟨result, after⟩ := x
          cases result with
          | ok report => rfl
          | error failure => rfl
  | succ spare ih =>
      intro number w
      rw [attempts, attempts, attempt_behind]
      cases attempt env patience t number w with
      | none => rfl
      | some x =>
          obtain ⟨result, after⟩ := x
          cases result with
          | ok report => rfl
          | error failure =>
              exact ih (number + 1) (after.note (.tryFailed number t.options.tries failure.reason.text))

theorem callHook_behind (hook : Hook σ) (subject : String) (es : List (Event ι)) (w : World ι σ) :
    callHook hook subject (w.behind es) = (callHook hook subject w).behind es := by
  cases hook with
  | action act => rfl
  | pause config =>
      cases h : config.pause with
      | none =>
          rw [callHook_of_no_pause h, callHook_of_no_pause h]
          rfl
      | some d =>
          rw [callHook_of_pause h, callHook_of_pause h]
          exact World.sleep_behind es ((w.record (.hooked subject)).note (.pausing subject d)) d

/-- The run with other events before it. -/
def Run.behind (es : List (Event ι)) (r : Run ι σ) : Run ι σ :=
  { r with world := r.world.behind es }

theorem closing_behind (t : Transition ι σ) (w v : World ι σ) (o : Outcome) (es : List (Event ι)) :
    t.closing (w.behind es) o (v.behind es) = (t.closing w o v).behind es := by
  have harrived : t.arrived (v.behind es) = (t.arrived v).behind es := rfl
  rw [closing, closing]
  cases o.result with
  | error failure => rfl
  | ok report =>
      rw [harrived, callHook_behind]
      rfl

/-- A run does the same whatever has happened before it, and adds the same events. -/
theorem execute_behind (env : Environment ι σ) (patience : Nat) (t : Transition ι σ)
    (es : List (Event ι)) (w : World ι σ) :
    execute env patience t (w.behind es) = (execute env patience t w).map (Run.behind es) := by
  cases h : t.refusal? with
  | some e =>
      rw [execute_of_refusal h, execute_of_refusal h]
      rfl
  | none =>
      by_cases hp : t.facility.phase = t.kind.before
      · have hstarted : t.started (w.behind es) = (t.started w).behind es := rfl
        have hbegun : t.begun (w.behind es) = t.begun w := rfl
        rw [execute_of_right_phase h hp, execute_of_right_phase h hp, hstarted, hbegun,
          attempts_behind, Option.map_map, Option.map_map]
        exact congrArg (Option.map · _) (funext fun x => closing_behind t w x.2 x.1 es)
      · rw [execute_of_wrong_phase h hp, execute_of_wrong_phase h hp]
        rfl

end Transition
end Passage
