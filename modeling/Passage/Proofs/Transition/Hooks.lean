/-
# Hooks have no say

Nothing in a run looks at its hook until the facility has been marked for
the second time; then the hook is called, and what it does is the last
thing that is done.  So two runs that differ in their hooks go the same way
up to that call, and they come to the same but for one thing: the time that
a report tells is read after the hook (`hook_has_no_say`).

Where a hook comes from makes no difference either.  When a transition is
put together, a value is looked for that configures a pause, and one that
cannot be used is noted (`HookSetup`); this happens before the run, which
does not look at it.
-/
import Passage.Proofs.Past
import Passage.Proofs.Transition.Deeds
import Passage.Proofs.Transition.Effects
import Passage.Proofs.Wait.Spending

namespace Passage
variable {ι σ : Type}

namespace Transition

/-! ## Runs with another hook -/

/-- The transition with another hook. -/
def withHook (t : Transition ι σ) (hook : Hook σ) : Transition ι σ := { t with hook := hook }

section
variable {env : Environment ι σ} {patience : Nat} {t : Transition ι σ}

/-- Tries do not look at the hook. -/
theorem attempts_withHook (hook : Hook σ) (spare : Nat) :
    ∀ (number : Nat) (w : World ι σ),
      attempts env patience (t.withHook hook) spare number w =
        attempts env patience t spare number w := by
  have hattempt : ∀ (number : Nat) (w : World ι σ),
      attempt env patience (t.withHook hook) number w = attempt env patience t number w :=
    fun _ _ => rfl
  induction spare with
  | zero =>
      intro number w
      rw [attempts, attempts, hattempt]
  | succ spare ih =>
      intro number w
      rw [attempts, attempts, hattempt]
      cases attempt env patience t number w with
      | none => rfl
      | some x =>
          obtain ⟨result, after⟩ := x
          cases result with
          | ok report => rfl
          | error failure => exact ih (number + 1) _

theorem now_le_of_attempt {number : Nat} {w w' : World ι σ} {res : Wait.Result}
    (h : attempt env patience t number w = some (res, w')) : w.now ≤ w'.now := by
  have hfire : w.now ≤ (w.fire t.trigger number).now := by
    cases t.trigger with
    | none => exact Nat.le_refl _
    | some f => exact Nat.le_add_right _ _
  have hwait := Wait.now_le_of_run h
  exact Nat.le_trans hfire hwait

/-- The clock does not run back while tries are made. -/
theorem Tried.now_le {spare number : Nat} {w v : World ι σ} {made : List (Try ι σ)} {o : Outcome}
    (h : Tried env patience t spare number w made (some (o, v))) : w.now ≤ v.now := by
  generalize ho : some (o, v) = out at h
  induction h with
  | @last spare number w ending he _ =>
      obtain ⟨⟨res, after⟩, hend, hov⟩ := Option.map_eq_some_iff.mp ho.symm
      obtain ⟨-, rfl⟩ := Prod.mk.inj hov
      exact now_le_of_attempt (he.trans hend)
  | retry he _ ih => exact Nat.le_trans (now_le_of_attempt he) (ih ho)

/-- The report of the same run, read after some more time. -/
def Report.later (report : Report) (d : Duration) : Report :=
  { report with elapsed := report.elapsed + d }

/-- What a run has come to that began in `w` and has called its hook: `report` is the report as it
would be without the hook, `es` are the events up to the hook, and `s` is the scene in which it was
called.  Behind the hook nothing is left but the end of the span. -/
structure Concluded (w : World ι σ) (report : Report) (es : List (Event ι)) (s : Scene σ)
    (hook : Hook σ) (subject : String) (r : Run ι σ) : Prop where
  result : r.result = .ok (report.later (hook.time subject s))
  events : r.world.events = w.events ++ es ++ hook.events subject ++ [.spanLeft]
  scene : r.world.scene = hook.leave subject s

/-- What two runs come to that began in `w` and `w'` and differ in their hooks, `a` and `b`. -/
structure Alike (subject : String) (a b : Hook σ) (w w' : World ι σ) (r r' : Run ι σ) : Prop where
  /-- Stage, facility, phase and history are the same, with all stamps. -/
  transition : r'.transition = r.transition.withHook b
  /-- Either both have failed, with the same error, after the same events and in the same scene, or
  both have concluded from the same point on.  Up to there no hook was called. -/
  outcome : (∃ e es, r.result = .error e ∧ r'.result = .error e ∧
      r.world.events = w.events ++ es ∧ r'.world.events = w'.events ++ es ∧
      r'.world.scene = r.world.scene ∧ ∀ x ∈ es, x.hooked? = none) ∨
    ∃ report es s, Concluded w report es s a subject r ∧ Concluded w' report es s b subject r' ∧
      ∀ x ∈ es, x.hooked? = none

theorem Concluded.behind {w : World ι σ} {report : Report} {es : List (Event ι)} {s : Scene σ}
    {hook : Hook σ} {subject : String} {r : Run ι σ} (h : Concluded w report es s hook subject r)
    (fs : List (Event ι)) :
    Concluded (w.behind fs) report es s hook subject (r.behind fs) where
  result := h.result
  events := by
    show (r.world.behind fs).events = _
    rw [World.events_behind, World.events_behind, h.events]
    simp only [List.append_assoc]
  scene := h.scene

/-- Runs that are alike are alike whatever has happened before each of them. -/
theorem Alike.behind {subject : String} {a b : Hook σ} {w w' : World ι σ} {r r' : Run ι σ}
    (h : Alike subject a b w w' r r') (fs fs' : List (Event ι)) :
    Alike subject a b (w.behind fs) (w'.behind fs') (r.behind fs) (r'.behind fs') where
  transition := h.transition
  outcome := by
    rcases h.outcome with ⟨e, es, hr, hr', hes, hes', hscene, hnone⟩ | ⟨report, es, s, hr, hr', hnone⟩
    · refine Or.inl ⟨e, es, hr, hr', ?_, ?_, hscene, hnone⟩
      · show (r.world.behind fs).events = _
        rw [World.events_behind, World.events_behind, hes, List.append_assoc]
      · show (r'.world.behind fs').events = _
        rw [World.events_behind, World.events_behind, hes', List.append_assoc]
    · exact Or.inr ⟨report, es, s, hr.behind fs, hr'.behind fs', hnone⟩

/-- A run of which a try has succeeded calls its hook behind the second marking. -/
theorem concluded_closing {w v : World ι σ} {o : Outcome} {report : Wait.Report}
    {es : List (Event ι)} (hok : o.result = .ok report) (hle : w.now ≤ v.now)
    (hes : v.events = w.events ++ es) :
    Concluded w ⟨t.id, t.kind, t.facility.name, o.attempts, v.elapsedSince w.now, report⟩
      (es ++ [.noted (.phaseChanged t.facility.name t.kind.during t.kind.done),
        .noted (.completed t.kind t.facility.text)]) v.scene t.hook t.subject (t.closing w o v) := by
  refine ⟨?_, ?_, ?_⟩
  · have htime : (callHook t.hook t.subject (t.arrived v)).elapsedSince w.now =
        v.elapsedSince w.now + t.hook.time t.subject v.scene := by
      rw [World.elapsedSince, now_callHook]
      exact Duration.ext (Nat.sub_add_comm hle)
    simp only [closing, hok, htime]
    rfl
  · rw [closing, hok]
    show ((callHook t.hook t.subject (t.arrived v)).record .spanLeft).events = _
    rw [World.events_record, events_callHook, events_arrived, hes, List.append_assoc w.events]
  · rw [closing, hok]
    show (callHook t.hook t.subject (t.arrived v)).scene = _
    rw [scene_callHook]
    rfl

/-- What a run closes with does not depend on its hook. -/
theorem alike_closing (a b : Hook σ) {w v : World ι σ} (o : Outcome) (hle : w.now ≤ v.now)
    {es : List (Event ι)} (hes : v.events = w.events ++ es) (hnone : ∀ e ∈ es, e.hooked? = none) :
    Alike t.subject a b w w ((t.withHook a).closing w o v) ((t.withHook b).closing w o v) := by
  cases hres : o.result with
  | error failure =>
      have hclosing : ∀ hook : Hook σ, (t.withHook hook).closing w o v =
          ⟨.error (.unmet t.kind t.facility.text o.attempts failure),
            { t.begun w with stage := .failed, hook := hook }, v.record .spanLeft⟩ := by
        intro hook
        rw [closing, hres]
        rfl
      have hevents : (v.record .spanLeft).events = w.events ++ (es ++ [.spanLeft]) := by
        rw [World.events_record, hes, List.append_assoc]
      rw [hclosing, hclosing]
      refine ⟨rfl, Or.inl ⟨_, es ++ [.spanLeft], rfl, rfl, hevents, hevents, rfl, ?_⟩⟩
      intro e hmem
      rcases List.mem_append.mp hmem with hmem | hmem
      · exact hnone e hmem
      · obtain rfl := List.mem_singleton.mp hmem
        rfl
  | ok report =>
      refine ⟨?_, Or.inr ⟨_, _, v.scene, concluded_closing (t := t.withHook a) hres hle hes,
        concluded_closing (t := t.withHook b) hres hle hes, ?_⟩⟩
      · rw [closing, closing, hres]
        rfl
      · intro e hmem
        rcases List.mem_append.mp hmem with hmem | hmem
        · exact hnone e hmem
        · simp only [List.mem_cons, List.not_mem_nil, or_false] at hmem
          rcases hmem with rfl | rfl <;> rfl

/-- With another hook the same run is alike, in the same world. -/
theorem exists_alike {w : World ι σ} {r : Run ι σ} (a b : Hook σ)
    (hr : execute env patience (t.withHook a) w = some r) :
    ∃ r', execute env patience (t.withHook b) w = some r' ∧ Alike t.subject a b w w r r' := by
  cases h : t.refusal? with
  | some e =>
      have hrefused : ∀ hook : Hook σ, (t.withHook hook).refusal? = some e := fun _ => h
      rw [execute_of_refusal (hrefused a)] at hr
      obtain rfl := Option.some.inj hr
      have hevents : w.events = w.events ++ [] := (List.append_nil _).symm
      refine ⟨_, execute_of_refusal (hrefused b), rfl,
        Or.inl ⟨e, [], rfl, rfl, hevents, hevents, rfl, ?_⟩⟩
      exact fun _ hmem => absurd hmem List.not_mem_nil
  | none =>
      have hallowed : ∀ hook : Hook σ, (t.withHook hook).refusal? = none := fun _ => h
      by_cases hp : t.facility.phase = t.kind.before
      · -- The tries do not look at the hook, so they come to the same with either.
        have htries : ∀ hook : Hook σ, attempts env patience ((t.withHook hook).begun w)
            ((t.withHook hook).options.tries - 1) 1 ((t.withHook hook).started w) =
              attempts env patience (t.begun w) (t.options.tries - 1) 1 (t.started w) := by
          intro hook
          exact attempts_withHook (t := t.begun w) hook (t.options.tries - 1) 1 (t.started w)
        obtain ⟨o, v, hov, rfl⟩ := closing_of_execute (hallowed a) hp hr
        rw [htries a] at hov
        have hrun : execute env patience (t.withHook b) w =
            some ((t.withHook b).closing w o v) := by
          rw [execute_of_right_phase (hallowed b) hp, htries b, hov]
          rfl
        have hmade := tried env patience (t.begun w) (t.options.tries - 1) 1 (t.started w)
        rw [hov] at hmade
        obtain ⟨es, hes, hnone⟩ := adds_tries h hp hov
        exact ⟨_, hrun, alike_closing a b o hmade.now_le hes hnone⟩
      · rw [execute_of_wrong_phase (hallowed a) hp] at hr
        obtain rfl := Option.some.inj hr
        have hevents : ((t.opened w).record .spanLeft).events =
            w.events ++ [.spanOpened t.id t.subject, .spanEntered, .spanLeft] := by
          rw [World.events_record, events_opened, List.append_assoc]
          rfl
        refine ⟨_, execute_of_wrong_phase (hallowed b) hp, rfl,
          Or.inl ⟨_, _, rfl, rfl, hevents, hevents, rfl, ?_⟩⟩
        intro e hmem
        simp only [List.mem_cons, List.not_mem_nil, or_false] at hmem
        rcases hmem with rfl | rfl | rfl <;> rfl

/-! ## Where the hook comes from -/

/-- How a transition comes by its hook: what was found in the environment when it was put together,
and the hook that it was given, if it was given one. -/
structure HookSetup (σ : Type) where
  found : Option String
  given : Option (Hook σ)

namespace HookSetup

/-- The transition with its hook, and the world after it was put together: what was found and cannot
be used has been noted, even if it was not needed. -/
def equip (a : HookSetup σ) (t : Transition ι σ) (w : World ι σ) : Transition ι σ × World ι σ :=
  let (configured, w) := configuredHook a.found w
  (t.withHook (a.given.getD configured), w)

/-- Puts the transition together and runs it. -/
def run (env : Environment ι σ) (patience : Nat) (a : HookSetup σ) (t : Transition ι σ)
    (w : World ι σ) : Option (Run ι σ) :=
  execute env patience (a.equip t w).1 (a.equip t w).2

/-- What is found, with what is said of it. -/
def finding (a : HookSetup σ) : Config × Option Notice :=
  Config.findOrDefault (m := Id) fun _ => a.found

/-- The hook that is called. -/
def hook (a : HookSetup σ) : Hook σ := a.given.getD (.pause a.finding.1)

/-- The world in which the run begins. -/
def start (a : HookSetup σ) (w : World ι σ) : World ι σ := w.noteAny a.finding.2

/-- What is said when the transition is put together is noted in its world. -/
theorem configuredHook_eq (a : HookSetup σ) (w : World ι σ) :
    configuredHook a.found w = (.pause a.finding.1, a.start w) := by
  have hfinding : a.finding = (Config.findOrWarn (m := StateM (Option Notice))
      (fun _ => pure a.found) fun n => set (some n)).run none := rfl
  rw [start, configuredHook, hfinding, Config.findOrWarn_pure, Config.findOrWarn_pure]
  cases Config.ofValue? a.found with
  | ok c => rfl
  | error e => rfl

theorem equip_eq (a : HookSetup σ) (t : Transition ι σ) (w : World ι σ) :
    a.equip t w = (t.withHook a.hook, a.start w) := by
  rw [equip, configuredHook_eq]
  rfl

theorem scene_start (a : HookSetup σ) (w : World ι σ) : (a.start w).scene = w.scene :=
  w.scene_noteAny a.finding.2

theorem start_eq_behind (a : HookSetup σ) (w : World ι σ) :
    a.start w = (World.blank w.scene).behind (a.start w).events := by
  rw [← a.scene_start w]
  exact World.eq_behind_blank _

/-- A run can be told from the one that begins in the same scene and has nothing before it. -/
theorem run_eq_behind (a : HookSetup σ) (w : World ι σ) :
    a.run env patience t w =
      (execute env patience (t.withHook a.hook) (.blank w.scene)).map
        (Run.behind (a.start w).events) := by
  have hrun := congrArg (execute env patience (t.withHook a.hook)) (a.start_eq_behind w)
  rw [run, equip_eq]
  exact hrun.trans (execute_behind env patience _ _ _)

end HookSetup

/-- **A hook has no say in what a run comes to.**  Whether a pause was asked for, in the environment
or by hand, or an action of any kind, and whether what was found could be used or not: if a run
returns, it returns with any other hook, and both have either failed with one error, in one scene and
after the same events, or succeeded with reports that differ in the elapsed time alone.  Then the
facility has come to the same phase with the same records, the same was done up to the hook, and the
hook was called last.  A pause adds its own length to the time that is reported without one. -/
theorem hook_has_no_say (env : Environment ι σ) (patience : Nat) (t : Transition ι σ)
    (w : World ι σ) (a b : HookSetup σ) {r : Run ι σ} (h : a.run env patience t w = some r) :
    ∃ r', b.run env patience t w = some r' ∧
      Alike t.subject a.hook b.hook (a.start w) (b.start w) r r' ∧
      ∀ (still config : Config) (p p' : Report), a.hook = .pause still → still.pause = none →
        b.hook = .pause config → r.result = .ok p → r'.result = .ok p' →
        p'.elapsed = p.elapsed + config.pause.getD .zero := by
  rw [a.run_eq_behind] at h
  obtain ⟨r, hr, rfl⟩ := Option.map_eq_some_iff.mp h
  obtain ⟨r', hr', halike⟩ := exists_alike a.hook b.hook hr
  have hboth := halike.behind (a.start w).events (b.start w).events
  rw [← a.start_eq_behind, ← b.start_eq_behind] at hboth
  refine ⟨r'.behind (b.start w).events, ?_, hboth, ?_⟩
  · rw [b.run_eq_behind, hr', Option.map_some]
  · intro still config p p' ha hstill hb hp hp'
    rcases hboth.outcome with ⟨e, es, he, -⟩ | ⟨report, es, s, hleft, hright, -⟩
    · rw [hp] at he
      exact absurd he (by simp)
    · have hfirst := Except.ok.inj (hp.symm.trans hleft.result)
      have hsecond := Except.ok.inj (hp'.symm.trans hright.result)
      rw [hfirst, hsecond, ha, hb, Report.later, Report.later, Hook.time, Hook.time, hstill]
      rfl

/-- The way out of the hall with a pause of 250 milliseconds, beside the one with a value in the
environment that is no number: only the elapsed time tells them apart. -/
theorem knocking_with_and_without_pause :
    ∃ r r' p p', HookSetup.run slowDoor 0 ⟨some "soon", none⟩ knocking .fresh = some r ∧
      HookSetup.run slowDoor 0 ⟨none, some (.pause ⟨some 250⟩)⟩ knocking .fresh = some r' ∧
      r.result = .ok p ∧ r'.result = .ok p' ∧ p'.elapsed = p.elapsed + .ofMillis 250 ∧
      r'.transition.facility = r.transition.facility := by
  have hsome : (HookSetup.run slowDoor 0 ⟨some "soon", none⟩ knocking .fresh).map
      (fun r => r.result.isOk) = some true := rfl
  obtain ⟨r, hr, hok⟩ := Option.map_eq_some_iff.1 hsome
  obtain ⟨r', hr', halike, hpause⟩ := hook_has_no_say slowDoor 0 knocking .fresh
    ⟨some "soon", none⟩ ⟨none, some (.pause ⟨some 250⟩)⟩ hr
  rcases halike.outcome with ⟨e, es, he, -⟩ | ⟨report, es, s, hleft, hright, -⟩
  · rw [he] at hok
    exact absurd hok Bool.false_ne_true
  · have helapsed := hpause _ ⟨some 250⟩ _ _ rfl rfl rfl hleft.result hright.result
    refine ⟨r, r', _, _, hr, hr', hleft.result, hright.result, helapsed, ?_⟩
    rw [halike.transition]
    rfl

end

end Transition
end Passage
