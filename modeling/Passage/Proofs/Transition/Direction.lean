/-
# The way in and the way out

A facility declares conditions for entering it and conditions for leaving
it.  A transition looks at those for its own direction and at nothing of
the others: they may be any, they may answer anything, and there may be
more of them or none, and the run is the same, event for event.

Two facts are put together.  A wait goes by the conditions that it is
given: an environment that treats these alike makes the same passes
(`run_of_agreesOn`).  And the waits of a transition are made of the
declarations for its own direction alone (`waits_withElements`).  So the
whole run is the same (`execute_withElements`), and no condition is checked
that was not declared for this direction or required by the transition
itself (`checks_of_execute`).
-/
import Passage.Proofs.Past
import Passage.Proofs.Transition.Declared

namespace Passage
variable {ι σ : Type}

/-! ## Environments that agree -/

/-- Two environments treat some conditions alike: a check of one of them does the same, and it is
described in the same words. -/
structure Environment.AgreesOn (env env' : Environment ι σ) (cs : List ι) : Prop where
  check : ∀ c ∈ cs, ∀ s, env'.check c s = env.check c s
  describe : ∀ c ∈ cs, ∀ s, env'.describe c s = env.describe c s

namespace Wait

section
variable {env env' : Environment ι σ} {cs : List ι}

theorem sample_of_agreesOn (h : env.AgreesOn env' cs) {x : Wait ι} (hx : x.condition ∈ cs)
    (start : Duration) (before : Option Progress) (w : World ι σ) :
    sample env' start x before w = sample env start x before w := by
  have hcheck : w.check env' x.condition = w.check env x.condition := by
    rw [World.check, World.check, h.check x.condition hx]
  rw [sample, sample, hcheck]
  simp only [h.describe x.condition hx]

theorem namedBy_of_agreesOn (h : env.AgreesOn env' cs) {x : Wait ι} (hx : x.condition ∈ cs)
    (q : Progress × World ι σ) : namedBy env' x q = namedBy env x q := by
  rw [namedBy, namedBy, h.describe x.condition hx]

theorem pass_of_agreesOn (h : env.AgreesOn env' cs) (start : Duration)
    {l : List (Wait ι × Option Progress)} (hl : conditionsOf l ⊆ cs) (w : World ι σ) :
    pass env' start l w = pass env start l w := by
  induction l generalizing w with
  | nil => rfl
  | cons head rest ih =>
      obtain ⟨x, before⟩ := head
      obtain ⟨hx, hrest⟩ := List.cons_subset.1 hl
      rw [pass_cons, pass_cons, sample_of_agreesOn h hx, namedBy_of_agreesOn h hx, ih hrest]

theorem conclude_of_agreesOn (h : env.AgreesOn env' cs) (b : Budget) (passes : Nat)
    {p : Pass ι σ} (hp : conditionsOf (carry p) ⊆ cs) :
    conclude env' b passes p = conclude env b passes p := by
  have htable : tableOf env' p.world.scene p.watched = tableOf env p.world.scene p.watched := by
    refine congrArg Table.ofRows (List.map_congr_left fun x hx => ?_)
    have hmem : x.1.condition ∈ cs := by
      refine hp (List.mem_map.2 ⟨(x.1, some x.2), ?_, rfl⟩)
      exact List.mem_map_of_mem hx
    rw [rowOf, rowOf, h.describe _ hmem]
  rw [conclude, conclude, htable]

theorem poll_of_agreesOn (h : env.AgreesOn env' cs) (b : Budget) (rounds passes : Nat)
    {l : List (Wait ι × Option Progress)} (hl : conditionsOf l ⊆ cs) (w : World ι σ) :
    poll env' b rounds passes l w = poll env b rounds passes l w := by
  induction rounds generalizing passes l w with
  | zero => rfl
  | succ rounds ih =>
      have hcarry : conditionsOf (carry (pass env b.start l w)) ⊆ cs := by
        rw [conditionsOf_carry]
        exact hl
      rw [poll_succ, poll_succ, pass_of_agreesOn h b.start hl, conclude_of_agreesOn h b _ hcarry,
        ih _ hcarry]

/-- A wait goes by its own conditions. -/
theorem run_of_agreesOn (patience : Nat) {waits : List (Wait ι)}
    (h : env.AgreesOn env' (waits.map Wait.condition)) (timeout : Duration) (w : World ι σ) :
    run env' patience waits timeout w = run env patience waits timeout w := by
  refine poll_of_agreesOn h _ _ _ ?_ _
  rw [conditionsOf_fresh]
  exact List.Subset.refl _

end

theorem mem_of_checked_mem_laps {c : ι} {cs : List ι} {ds : List Duration}
    (h : Event.checked c ∈ laps cs ds) : c ∈ cs := by
  have h' : (∃ d, d ∈ ds) ∧ c ∈ cs ∨ c ∈ cs := by simpa [laps] using h
  rcases h' with ⟨-, hc⟩ | hc
  · exact hc
  · exact hc

end Wait

/-! ## Declarations for one direction -/

/-- The condition that an element has for entering, or the one for leaving. -/
def Element.conditionFor : Kind → Element ι → Option ι
  | .checkIn => Element.enter
  | .checkOut => Element.exit

namespace Elements

/-- The conditions for entering, or for leaving, that belong to no element. -/
def othersFor : Kind → Elements ι → List ι
  | .checkIn => Elements.enter
  | .checkOut => Elements.exit

/-- Two declarations differ in the conditions for the other direction at most: they have the same
elements in the same order, with the same conditions for this one. -/
structure SameFor (k : Kind) (es es' : Elements ι) : Prop where
  elements : es'.inState.map (fun e => (e.id, e.conditionFor k)) =
    es.inState.map fun e => (e.id, e.conditionFor k)
  others : es'.othersFor k = es.othersFor k

end Elements

namespace Transition

theorem facilityConditions_eq (k : Kind) (es : Elements ι) :
    facilityConditions k es = es.inState.filterMap (Element.conditionFor k) ++ es.othersFor k := by
  cases k with
  | checkIn => rfl
  | checkOut => rfl

theorem facilityConditions_of_sameFor {k : Kind} {es es' : Elements ι} (h : es.SameFor k es') :
    facilityConditions k es' = facilityConditions k es := by
  have hsnd := congrArg (List.filterMap Prod.snd) h.elements
  rw [List.filterMap_map, List.filterMap_map] at hsnd
  rw [facilityConditions_eq, facilityConditions_eq, h.others]
  exact congrArg (· ++ es.othersFor k) hsnd

/-! ## Runs on other declarations -/

/-- The same transition of a facility that declares something else. -/
def withElements (t : Transition ι σ) (es : Elements ι) : Transition ι σ :=
  { t with facility := { t.facility with elements := es } }

/-- The same outcome for a facility that declares something else. -/
def Run.withElements (r : Run ι σ) (es : Elements ι) : Run ι σ :=
  { r with transition := r.transition.withElements es }

section
variable {env env' : Environment ι σ} {patience : Nat} {t : Transition ι σ} {es : Elements ι}

theorem waits_withElements (h : t.facility.elements.SameFor t.kind es) :
    (t.withElements es).waits = t.waits := by
  show (facilityConditions t.kind es).map _ ++ _ = _
  rw [facilityConditions_of_sameFor h]
  rfl

theorem attempt_withElements (henv : env.AgreesOn env' (t.waits.map Wait.condition))
    (hes : t.facility.elements.SameFor t.kind es) (number : Nat) (w : World ι σ) :
    attempt env' patience (t.withElements es) number w = attempt env patience t number w := by
  show Wait.run env' patience (t.withElements es).waits t.options.timeout _ = _
  rw [waits_withElements hes, Wait.run_of_agreesOn patience henv]
  rfl

theorem attempts_withElements (henv : env.AgreesOn env' (t.waits.map Wait.condition))
    (hes : t.facility.elements.SameFor t.kind es) (spare : Nat) :
    ∀ (number : Nat) (w : World ι σ),
      attempts env' patience (t.withElements es) spare number w =
        attempts env patience t spare number w := by
  induction spare with
  | zero =>
      intro number w
      rw [attempts, attempts, attempt_withElements henv hes]
  | succ spare ih =>
      intro number w
      rw [attempts, attempts, attempt_withElements henv hes]
      cases attempt env patience t number w with
      | none => rfl
      | some x =>
          obtain ⟨result, after⟩ := x
          cases result with
          | ok report => rfl
          | error failure => exact ih (number + 1) _

theorem closing_withElements (t : Transition ι σ) (es : Elements ι) (w v : World ι σ)
    (o : Outcome) : (t.withElements es).closing w o v = (t.closing w o v).withElements es := by
  rw [closing, closing]
  cases o.result with
  | ok report => rfl
  | error failure => rfl

/-- A run is the same whatever is declared for the other direction. -/
theorem execute_withElements (henv : env.AgreesOn env' (t.waits.map Wait.condition))
    (hes : t.facility.elements.SameFor t.kind es) (w : World ι σ) :
    execute env' patience (t.withElements es) w =
      (execute env patience t w).map fun r => r.withElements es := by
  cases h : t.refusal? with
  | some e =>
      have h' : (t.withElements es).refusal? = some e := h
      rw [execute_of_refusal h, execute_of_refusal h']
      rfl
  | none =>
      have h' : (t.withElements es).refusal? = none := h
      by_cases hp : t.facility.phase = t.kind.before
      · have hp' : (t.withElements es).facility.phase = (t.withElements es).kind.before := hp
        have htries : attempts env' patience ((t.withElements es).begun w)
            ((t.withElements es).options.tries - 1) 1 ((t.withElements es).started w) =
              attempts env patience (t.begun w) (t.options.tries - 1) 1 (t.started w) :=
          attempts_withElements (t := t.begun w) henv hes _ 1 (t.started w)
        rw [execute_of_right_phase h hp, execute_of_right_phase h' hp', htries, Option.map_map]
        exact congrArg (Option.map · _) (funext fun x => closing_withElements t es w x.2 x.1)
      · have hp' : (t.withElements es).facility.phase ≠ (t.withElements es).kind.before := hp
        rw [execute_of_wrong_phase h hp, execute_of_wrong_phase h' hp']
        rfl

/-! ## What is checked -/

theorem mem_of_checked_mem_tryDeeds {c : ι} {x : Try ι σ} (h : .checked c ∈ tryDeeds env t x) :
    c ∈ t.waits.map Wait.condition := by
  rw [tryDeeds] at h
  rcases List.mem_append.1 h with h | h
  · cases t.trigger <;> simp at h
  · cases hend : x.ending with
    | none =>
        rw [hend] at h
        exact absurd h List.not_mem_nil
    | some e =>
        rw [hend] at h
        exact Wait.mem_of_checked_mem_laps h

/-- A run checks the conditions that it waits for, and no others. -/
theorem checks_of_execute {w : World ι σ} {r : Run ι σ} (hr : execute env patience t w = some r) :
    ∃ added, r.world.events = w.events ++ added ∧
      ∀ c, .checked c ∈ added → c ∈ t.waits.map Wait.condition := by
  -- What is added are the events of the same run with nothing before it.
  rw [w.eq_behind_blank, execute_behind] at hr
  obtain ⟨bare, hbare, rfl⟩ := Option.map_eq_some_iff.1 hr
  refine ⟨bare.world.events, World.events_behind _ _, ?_⟩
  intro c hc
  have hdeed : .checked c ∈ bare.world.deeds := List.mem_filter.2 ⟨hc, rfl⟩
  rw [(deeds_execute hbare).2] at hdeed
  rcases List.mem_append.1 hdeed with hdeed | hdeed
  · rcases List.mem_append.1 hdeed with hdeed | hdeed
    · exact absurd hdeed List.not_mem_nil
    · obtain ⟨x, -, hx⟩ := List.mem_flatMap.1 hdeed
      exact mem_of_checked_mem_tryDeeds hx
  · cases bare.result.isOk <;> simp [hookDeeds] at hdeed

/-- Each condition that a transition waits for was declared for its direction, or is required by
the transition itself. -/
theorem mem_waits_iff {c : ι} : c ∈ t.waits.map Wait.condition ↔
    (∃ e ∈ t.facility.elements.inState, e.conditionFor t.kind = some c) ∨
      c ∈ t.facility.elements.othersFor t.kind ∨ c ∈ t.required := by
  rw [waits, facilityConditions_eq]
  simp [Function.comp_def]

end

/-- **What is declared for one direction has no say in the other.**  Let two facilities declare the
same elements in the same order with the same conditions for the direction of a transition, and let
the conditions for the other direction be any, with whatever behaviour.  Then the run on the one is
the run on the other: it returns if the other does, with the same result, stage, phase and history,
in the same scene and after the same events.  And every condition that it checks was declared for
its own direction, or is required by the transition itself. -/
theorem other_direction_has_no_say (env env' : Environment ι σ) (patience : Nat)
    {t : Transition ι σ} (es : Elements ι) (w : World ι σ)
    (hes : t.facility.elements.SameFor t.kind es)
    (henv : env.AgreesOn env' (t.waits.map Wait.condition)) :
    execute env' patience (t.withElements es) w =
      (execute env patience t w).map (fun r => r.withElements es) ∧
    ∀ r, execute env patience t w = some r →
      ∃ added, r.world.events = w.events ++ added ∧
        ∀ c, .checked c ∈ added →
          (∃ e ∈ t.facility.elements.inState, e.conditionFor t.kind = some c) ∨
            c ∈ t.facility.elements.othersFor t.kind ∨ c ∈ t.required := by
  refine ⟨execute_withElements henv hes w, ?_⟩
  intro r hr
  obtain ⟨added, hadded, hchecks⟩ := checks_of_execute hr
  exact ⟨added, hadded, fun c hc => mem_waits_iff.1 (hchecks c hc)⟩

/-- An environment in which some conditions raise an alarm: each check of one of them takes a second
and reports an error. -/
def alarmed (cs : List Nat) (env : Environment Nat Nat) : Environment Nat Nat where
  describe c s := if c ∈ cs then "alarm" else env.describe c s
  check c s := if c ∈ cs then ⟨.plain .error s.wall, .ofSecs 1, 0, s.state⟩ else env.check c s

theorem agreesOn_alarmed {env : Environment Nat Nat} {cs alarms : List Nat}
    (h : ∀ c ∈ cs, c ∉ alarms) : env.AgreesOn (alarmed alarms env) cs where
  check c hc _ := if_neg (h c hc)
  describe c hc _ := if_neg (h c hc)

/-- The crowded hall with alarms at the conditions for entering, some of which are new. -/
def guardedIn : Elements Nat :=
  ⟨[⟨"door", none, some 1⟩, ⟨"window", some 4, none⟩, ⟨"door", some 7, some 1⟩], [9, 4], [2]⟩

/-- The crowded hall with an alarm at the one condition for leaving that is left. -/
def guardedOut : Elements Nat :=
  ⟨[⟨"door", some 7, none⟩, ⟨"window", some 9, some 5⟩, ⟨"door", none, none⟩], [8], []⟩

/-- The way into the crowded hall. -/
def cramming : Transition Nat Nat :=
  { squeezing with kind := .checkIn, facility := { crowdedHall with phase := .new } }

/-- The way out of the hall is the same with alarms at all conditions for entering, and the way in
with alarms at those for leaving; no alarm is raised. -/
theorem alarms_stay_silent :
    (∃ r, execute heavyDoor 0 squeezing .fresh = some r ∧ r.result.isOk = true ∧
      execute (alarmed [4, 7, 8, 9] heavyDoor) 0 (squeezing.withElements guardedIn) .fresh =
        some (r.withElements guardedIn) ∧
      ∀ c, .checked c ∈ r.world.events → c ∈ [1, 2, 3]) ∧
    ∃ r, execute heavyDoor 0 cramming .fresh = some r ∧ r.result.isOk = true ∧
      execute (alarmed [2, 5] heavyDoor) 0 (cramming.withElements guardedOut) .fresh =
        some (r.withElements guardedOut) ∧
      ∀ c, .checked c ∈ r.world.events → c ∈ [1, 3, 7, 8, 9] := by
  refine ⟨?_, ?_⟩
  · obtain ⟨hsame, hchecks⟩ := other_direction_has_no_say heavyDoor
      (alarmed [4, 7, 8, 9] heavyDoor) 0 (t := squeezing) guardedIn .fresh ⟨rfl, rfl⟩
      (agreesOn_alarmed (by decide))
    have hsome : (execute heavyDoor 0 squeezing .fresh).map
        (fun r => r.result.isOk) = some true := rfl
    obtain ⟨r, hr, hok⟩ := Option.map_eq_some_iff.1 hsome
    rw [hr] at hsame
    obtain ⟨added, hadded, hdeclared⟩ := hchecks r hr
    refine ⟨r, hr, hok, hsame, fun c hc => ?_⟩
    have hmem : Event.checked c ∈ added := by
      rw [hadded] at hc
      exact hc
    have hwaits := mem_waits_iff.2 (hdeclared c hmem)
    exact (by decide : ∀ c ∈ squeezing.waits.map Wait.condition, c ∈ [1, 2, 3]) c hwaits
  · obtain ⟨hsame, hchecks⟩ := other_direction_has_no_say heavyDoor
      (alarmed [2, 5] heavyDoor) 0 (t := cramming) guardedOut .fresh ⟨rfl, rfl⟩
      (agreesOn_alarmed (by decide))
    have hsome : (execute heavyDoor 0 cramming .fresh).map
        (fun r => r.result.isOk) = some true := rfl
    obtain ⟨r, hr, hok⟩ := Option.map_eq_some_iff.1 hsome
    rw [hr] at hsame
    obtain ⟨added, hadded, hdeclared⟩ := hchecks r hr
    refine ⟨r, hr, hok, hsame, fun c hc => ?_⟩
    have hmem : Event.checked c ∈ added := by
      rw [hadded] at hc
      exact hc
    have hwaits := mem_waits_iff.2 (hdeclared c hmem)
    exact (by decide : ∀ c ∈ cramming.waits.map Wait.condition, c ∈ [1, 3, 7, 8, 9]) c hwaits

end Transition
end Passage
