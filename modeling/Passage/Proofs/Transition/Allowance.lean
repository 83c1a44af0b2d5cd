/-
# More tries

The number of tries that are allowed does one thing: it ends a run that has
not succeeded by then.  Up to there a run with few tries and one with many
do the same, try for try, though their notices name different numbers; this
holds for a single try, which is made on its own, as for any number that the
loop counts up to (`tryAll_eq`).

So the tries of the longer run are those of the shorter one, and more of
them only if the last of these has failed (`exists_later`).  What a run
comes to is what its last try makes of it (`execute_of_last`).  Hence a run
that succeeds would have succeeded with more tries as well, at the same try
and with the same report; and one that fails would have failed later, or
succeeded later (`more_tries_only_come_later`).

The two runs tell their ids and their numbers of tries in their events;
`bare` takes both away.
-/
import Passage.Proofs.Past
import Passage.Proofs.Transition.Tries

namespace Passage
variable {ι σ : Type}

/-! ## Events without numbers of tries -/

/-- A notice without the number of tries that are allowed. -/
def Notice.bare : Notice → Notice
  | .tryWaiting number _ facility => .tryWaiting number 0 facility
  | .tryFailed number _ reason => .tryFailed number 0 reason
  | n => n

/-- An event without the id of its run, and without the number of tries that are allowed. -/
def Event.bare : Event ι → Event ι
  | .noted n => .noted n.bare
  | .spanOpened _ subject => .spanOpened "" subject
  | e => e

namespace World

/-- The world with all its events bare. -/
def bare (w : World ι σ) : World ι σ := { w with past := w.past.map Event.bare }

theorem events_bare (w : World ι σ) : w.bare.events = w.events.map Event.bare := by
  rw [events, events, List.map_reverse]
  rfl

theorem bare_note (w : World ι σ) (n : Notice) : (w.note n).bare = w.bare.note n.bare := rfl

theorem bare_behind (es : List (Event ι)) (w : World ι σ) :
    (w.behind es).bare = w.bare.behind (es.map Event.bare) := by
  simp [bare, behind]

theorem bare_fire (trigger : Option (Trigger σ)) (number : Nat) (w : World ι σ) :
    (w.fire trigger number).bare = w.bare.fire trigger number := by
  cases trigger with
  | none => rfl
  | some f => rfl

section
variable {v w : World ι σ}

theorem scene_of_bare (h : v.bare = w.bare) : v.scene = w.scene := by
  show v.bare.scene = w.bare.scene
  rw [h]

theorem events_of_bare (h : v.bare = w.bare) :
    v.events.map Event.bare = w.events.map Event.bare := by
  rw [← events_bare, ← events_bare, h]

/-- What is added to two worlds behind the same events is bare in the same way. -/
theorem bare_behind_of_bare (h : v.bare = w.bare) (u : World ι σ) :
    (u.behind v.events).bare = (u.behind w.events).bare := by
  rw [bare_behind, bare_behind, events_of_bare h]

end

end World

/-- What a wait has come to, with all events bare. -/
def Wait.bare (e : Wait.Result × World ι σ) : Wait.Result × World ι σ := (e.1, e.2.bare)

/-- A try with all events bare, those before it included. -/
def Try.bare (x : Try ι σ) : Try ι σ := ⟨x.number, x.before.bare, x.ending.map Wait.bare⟩

/-- A wait does not look at what the notices before it have named. -/
theorem Wait.bare_run (env : Environment ι σ) (patience : Nat) (waits : List (Wait ι))
    (timeout : Duration) {v w : World ι σ} (h : v.bare = w.bare) :
    (Wait.run env patience waits timeout v).map Wait.bare =
      (Wait.run env patience waits timeout w).map Wait.bare := by
  have hpast : ∀ u : World ι σ, Wait.run env patience waits timeout u =
      (Wait.run env patience waits timeout (.blank u.scene)).map
        fun x => (x.1, x.2.behind u.events) := by
    intro u
    rw [← Wait.run_behind, ← World.eq_behind_blank]
  rw [hpast v, hpast w, World.scene_of_bare h, Option.map_map, Option.map_map]
  refine congrArg (Option.map · _) (funext fun x => ?_)
  exact Prod.ext rfl (World.bare_behind_of_bare h x.2)

namespace Transition

theorem bare_callHook (hook : Hook σ) (subject : String) {v w : World ι σ} (h : v.bare = w.bare) :
    (callHook hook subject v).bare = (callHook hook subject w).bare := by
  have hpast : ∀ u : World ι σ, callHook hook subject u =
      (callHook hook subject (.blank u.scene)).behind u.events := by
    intro u
    rw [← callHook_behind, ← World.eq_behind_blank]
  rw [hpast v, hpast w, World.scene_of_bare h]
  exact World.bare_behind_of_bare h _

/-! ## Two numbers of tries -/

/-- The same transition under another id, with another number of tries allowed. -/
def budgeted (t : Transition ι σ) (id : String) (tries : Nat) : Transition ι σ :=
  { t with id := id, options := { t.options with tries := tries } }

theorem refusal?_budgeted (t : Transition ι σ) (a b : String) {n m : Nat} (hn : 1 ≤ n)
    (hm : 1 ≤ m) : (t.budgeted b m).refusal? = (t.budgeted a n).refusal? := by
  have hn' : (t.budgeted a n).options.tries ≠ 0 := Nat.ne_of_gt hn
  have hm' : (t.budgeted b m).options.tries ≠ 0 := Nat.ne_of_gt hm
  have hviolations : (t.budgeted b m).options.violations = (t.budgeted a n).options.violations := by
    rw [Options.violations, Options.violations, if_neg hn', if_neg hm']
    rfl
  rw [refusal?, refusal?, Options.isValid, Options.isValid, hviolations]
  rfl

section
variable {env : Environment ι σ} {patience : Nat} {t : Transition ι σ} {v w : World ι σ}

variable (env patience t) in
theorem bare_attempt (a b : String) (n m number : Nat) (h : v.bare = w.bare) :
    (attempt env patience (t.budgeted b m) number v).map Wait.bare =
      (attempt env patience (t.budgeted a n) number w).map Wait.bare := by
  have hwaiting : ((t.budgeted b m).waiting number v).bare =
      ((t.budgeted a n).waiting number w).bare := by
    rw [waiting, waiting, World.bare_note, World.bare_note, World.bare_note, World.bare_note,
      World.bare_fire, World.bare_fire, h]
    rfl
  exact Wait.bare_run env patience t.waits t.options.timeout hwaiting

theorem bare_retrying (a b : String) (n m number : Nat) (failure : Wait.Failure)
    (h : v.bare = w.bare) :
    ((t.budgeted b m).retrying number failure v).bare =
      ((t.budgeted a n).retrying number failure w).bare := by
  rw [retrying, retrying, World.bare_note, World.bare_note, h]
  rfl

theorem attempt_eq_some_of_bare (a b : String) (n m number : Nat) (h : v.bare = w.bare)
    {result : Wait.Result} {after : World ι σ}
    (hw : attempt env patience (t.budgeted a n) number w = some (result, after)) :
    ∃ after', after'.bare = after.bare ∧
      attempt env patience (t.budgeted b m) number v = some (result, after') := by
  have hsame := bare_attempt env patience t a b n m number h
  rw [hw] at hsame
  obtain ⟨⟨result', after'⟩, hv, hbare⟩ := Option.map_eq_some_iff.1 hsame
  obtain ⟨rfl, hafter⟩ := Prod.mk.inj hbare
  exact ⟨after', hafter, hv⟩

/-! ## Rows of tries -/

theorem triesFrom_of_stop {number : Nat}
    (h : ∀ failure after, attempt env patience t number w ≠ some (.error failure, after))
    (spare : Nat) :
    triesFrom env patience t spare number w = [⟨number, w, attempt env patience t number w⟩] := by
  cases spare with
  | zero => rfl
  | succ spare =>
      rw [triesFrom]
      cases hend : attempt env patience t number w with
      | none => rfl
      | some e =>
          obtain ⟨result, after⟩ := e
          cases result with
          | ok report => rfl
          | error failure => exact absurd hend (h failure after)

theorem triesFrom_succ {number : Nat} {failure : Wait.Failure} {after : World ι σ}
    (h : attempt env patience t number w = some (.error failure, after)) (spare : Nat) :
    triesFrom env patience t (spare + 1) number w =
      ⟨number, w, attempt env patience t number w⟩ ::
        triesFrom env patience t spare (number + 1) (t.retrying number failure after) := by
  rw [triesFrom, h]

theorem bare_first (a b : String) (n m number : Nat) (h : v.bare = w.bare) :
    Try.bare ⟨number, v, attempt env patience (t.budgeted b m) number v⟩ =
      Try.bare ⟨number, w, attempt env patience (t.budgeted a n) number w⟩ := by
  rw [Try.bare, Try.bare, h, bare_attempt env patience t a b n m number h]

/-- Where a try does not fail, both rows end with it. -/
theorem bare_triesFrom_of_stop (a b : String) (n m : Nat) {number : Nat} (h : v.bare = w.bare)
    (hstop : ∀ failure after,
      attempt env patience (t.budgeted a n) number w ≠ some (.error failure, after))
    (spare more : Nat) :
    (triesFrom env patience (t.budgeted b m) more number v).map Try.bare =
      (triesFrom env patience (t.budgeted a n) spare number w).map Try.bare := by
  have hstop' : ∀ failure after,
      attempt env patience (t.budgeted b m) number v ≠ some (.error failure, after) := by
    intro failure after hv
    obtain ⟨after', -, hw⟩ := attempt_eq_some_of_bare b a m n number h.symm hv
    exact hstop failure after' hw
  rw [triesFrom_of_stop hstop, triesFrom_of_stop hstop', List.map_singleton, List.map_singleton,
    bare_first a b n m number h]

/-- Where a try does not fail, there are no later ones. -/
theorem exists_later_of_stop (a b : String) (n m : Nat) {number : Nat} (h : v.bare = w.bare)
    (hstop : ∀ failure after,
      attempt env patience (t.budgeted a n) number w ≠ some (.error failure, after))
    (spare more : Nat) :
    ∃ later, (triesFrom env patience (t.budgeted b m) more number v).map Try.bare =
        (triesFrom env patience (t.budgeted a n) spare number w).map Try.bare ++ later ∧
      (later ≠ [] → ∃ x failure after,
        (triesFrom env patience (t.budgeted a n) spare number w).getLast? = some x ∧
        x.ending = some (.error failure, after)) := by
  have hsame := bare_triesFrom_of_stop a b n m h hstop spare more
  exact ⟨[], by rw [hsame, List.append_nil], fun hne => absurd rfl hne⟩

variable (env patience t) in
/-- A longer row of tries is a shorter one and then later tries; there are later ones only if the
last of the shorter one has failed. -/
theorem exists_later (a b : String) (n m : Nat) (spare : Nat) :
    ∀ {more : Nat}, spare ≤ more → ∀ (number : Nat) {v w : World ι σ}, v.bare = w.bare →
      ∃ later, (triesFrom env patience (t.budgeted b m) more number v).map Try.bare =
          (triesFrom env patience (t.budgeted a n) spare number w).map Try.bare ++ later ∧
        (later ≠ [] → ∃ x failure after,
          (triesFrom env patience (t.budgeted a n) spare number w).getLast? = some x ∧
          x.ending = some (.error failure, after)) := by
  -- On the tries that the shorter run has left; the two rows part only where it has none.
  induction spare with
  | zero =>
      intro more _ number v w h
      by_cases hfailed : ∃ failure after,
          attempt env patience (t.budgeted a n) number w = some (.error failure, after)
      · obtain ⟨failure, after, hw⟩ := hfailed
        have hlast : ∃ x failure after,
            (triesFrom env patience (t.budgeted a n) 0 number w).getLast? = some x ∧
              x.ending = some (.error failure, after) := ⟨_, failure, after, rfl, hw⟩
        cases more with
        | zero => exact ⟨[], congrArg (· :: []) (bare_first a b n m number h), fun _ => hlast⟩
        | succ more =>
            obtain ⟨after', -, hv⟩ := attempt_eq_some_of_bare a b n m number h hw
            rw [triesFrom_succ hv, List.map_cons, bare_first a b n m number h]
            exact ⟨_, rfl, fun _ => hlast⟩
      · exact exists_later_of_stop a b n m h
          (fun failure after hw => hfailed ⟨failure, after, hw⟩) 0 more
  | succ spare ih =>
      intro more hle number v w h
      by_cases hfailed : ∃ failure after,
          attempt env patience (t.budgeted a n) number w = some (.error failure, after)
      · obtain ⟨failure, after, hw⟩ := hfailed
        obtain ⟨after', hafter, hv⟩ := attempt_eq_some_of_bare a b n m number h hw
        obtain ⟨more, rfl⟩ := Nat.exists_eq_add_of_le' (Nat.le_trans (Nat.succ_pos spare) hle)
        obtain ⟨later, hlater, hlast⟩ := ih (Nat.le_of_succ_le_succ hle) (number + 1)
          (bare_retrying a b n m number failure hafter)
        refine ⟨later, ?_, fun hne => ?_⟩
        · rw [triesFrom_succ hv, triesFrom_succ hw, List.map_cons, List.map_cons, hlater,
            bare_first a b n m number h]
          rfl
        · obtain ⟨x, failure', after'', hx, hend⟩ := hlast hne
          refine ⟨x, failure', after'', ?_, hend⟩
          rw [triesFrom_succ hw, List.getLast?_cons, hx]
          rfl
      · exact exists_later_of_stop a b n m h
          (fun failure after hw => hfailed ⟨failure, after, hw⟩) (spare + 1) more

/-! ## Two runs -/

/-- What a run comes to is what its last try makes of it. -/
theorem execute_of_last {x : Try ι σ} (h : t.refusal? = none)
    (hp : t.facility.phase = t.kind.before) (hx : (ledger env patience t w).getLast? = some x) :
    execute env patience t w = x.ending.map fun e => t.closing w ⟨x.number, e.1⟩ e.2 := by
  have hmade := tried env patience (t.begun w) (t.options.tries - 1) 1 (t.started w)
  obtain ⟨y, hy, -, hout, -⟩ := hmade.getLast?
  rw [← ledger_eq h hp, hx] at hy
  obtain rfl := Option.some.inj hy
  rw [execute_of_right_phase h hp, hout, Option.map_map]
  rfl

variable (env patience w) in
/-- The ledger of a run with more tries is that of the run with fewer tries and then later tries,
for which the last one that was allowed has failed. -/
theorem exists_later_of_ledger (a b : String) {n m : Nat} (hn : 1 ≤ n) (hle : n ≤ m)
    (h : (t.budgeted a n).refusal? = none) (hp : t.facility.phase = t.kind.before) :
    ∃ later, (ledger env patience (t.budgeted b m) w).map Try.bare =
        (ledger env patience (t.budgeted a n) w).map Try.bare ++ later ∧
      (later ≠ [] → (ledger env patience (t.budgeted a n) w).length = n ∧ ∃ x failure after,
        (ledger env patience (t.budgeted a n) w).getLast? = some x ∧
        x.ending = some (.error failure, after)) := by
  have h' : (t.budgeted b m).refusal? = none :=
    (refusal?_budgeted t a b hn (Nat.le_trans hn hle)).trans h
  rw [ledger_eq h hp, ledger_eq h' hp]
  have hstarted : ((t.budgeted b m).started w).bare = ((t.budgeted a n).started w).bare := rfl
  obtain ⟨later, hlater, hlast⟩ := exists_later env patience (t.begun w) a b n m (n - 1)
    (Nat.sub_le_sub_right hle 1) 1 hstarted
  refine ⟨later, hlater, fun hne => ?_⟩
  obtain ⟨x, failure, after, hx, hend⟩ := hlast hne
  have hmade := tried env patience ((t.budgeted a n).begun w) (n - 1) 1 ((t.budgeted a n).started w)
  obtain ⟨y, hy, -, -, hfull⟩ := hmade.getLast?
  obtain rfl := Option.some.inj (hx.symm.trans hy)
  exact ⟨(hfull failure after hend).trans (Nat.sub_add_cancel hn), x, failure, after, hx, hend⟩

/-- `r'` has come to the same as `r` under the given id. -/
structure Renamed (id : String) (r r' : Run ι σ) : Prop where
  result : r'.result = r.result.map fun report => { report with id := id }
  facility : r'.transition.facility = r.transition.facility
  stage : r'.transition.stage = r.transition.stage
  bare : r'.world.bare = r.world.bare

theorem renamed_closing (a b : String) (n m : Nat) (o : Outcome) {u u' : World ι σ}
    (hbare : u'.bare = u.bare) :
    Renamed b ((t.budgeted a n).closing w o u) ((t.budgeted b m).closing w o u') := by
  rw [closing, closing]
  cases o.result with
  | ok report =>
      have harrived : (t.arrived u').bare = (t.arrived u).bare := by
        rw [arrived, arrived, World.bare_note, World.bare_note, World.bare_note, World.bare_note,
          hbare]
      have hhook := bare_callHook t.hook t.subject harrived
      have hnow : (callHook t.hook t.subject (t.arrived u')).now =
          (callHook t.hook t.subject (t.arrived u)).now :=
        congrArg Scene.now (World.scene_of_bare hhook)
      have hwall : u'.wall = u.wall := congrArg Scene.wall (World.scene_of_bare hbare)
      refine ⟨?_, ?_, rfl, ?_⟩
      · show Except.ok (Report.mk b t.kind t.facility.name o.attempts
            ((callHook t.hook t.subject (t.arrived u')).elapsedSince w.now) report) = _
        rw [World.elapsedSince, hnow]
        rfl
      · show (t.begun w).facility.moved t.kind.done o.attempts u'.wall = _
        rw [hwall]
        rfl
      · show (callHook t.hook t.subject (t.arrived u')).bare.record .spanLeft = _
        rw [hhook]
        rfl
  | error failure =>
      refine ⟨rfl, rfl, rfl, ?_⟩
      show u'.bare.record .spanLeft = _
      rw [hbare]
      rfl

/-- If the last tries of two runs are the same, then so is what the runs come to. -/
theorem renamed_of_last (a b : String) {n m : Nat} {x x' : Try ι σ}
    (h : (t.budgeted a n).refusal? = none) (h' : (t.budgeted b m).refusal? = none)
    (hp : t.facility.phase = t.kind.before)
    (hx : (ledger env patience (t.budgeted a n) w).getLast? = some x)
    (hx' : (ledger env patience (t.budgeted b m) w).getLast? = some x') (hbare : x'.bare = x.bare) :
    (execute env patience (t.budgeted a n) w = none →
      execute env patience (t.budgeted b m) w = none) ∧
    ∀ r, execute env patience (t.budgeted a n) w = some r →
      ∃ r', execute env patience (t.budgeted b m) w = some r' ∧ Renamed b r r' := by
  have hnumber : x'.bare.number = x.bare.number := by rw [hbare]
  have hending : x'.bare.ending = x.bare.ending := by rw [hbare]
  change x'.number = x.number at hnumber
  change x'.ending.map Wait.bare = x.ending.map Wait.bare at hending
  rw [execute_of_last h hp hx, execute_of_last h' hp hx']
  refine ⟨fun hnone => ?_, fun r hr => ?_⟩
  · rw [Option.map_eq_none_iff.1 hnone] at hending
    rw [Option.map_eq_none_iff.1 hending]
    rfl
  · obtain ⟨⟨result, after⟩, hend, rfl⟩ := Option.map_eq_some_iff.1 hr
    rw [hend] at hending
    obtain ⟨⟨result', after'⟩, hend', hsame⟩ := Option.map_eq_some_iff.1 hending
    obtain ⟨rfl, hafter⟩ := Prod.mk.inj hsame
    refine ⟨_, by rw [hend']; rfl, ?_⟩
    rw [hnumber]
    exact renamed_closing a b n m _ hafter

variable (env patience w) in
theorem exists_last_of_ledger (h : t.refusal? = none) (hp : t.facility.phase = t.kind.before) :
    ∃ x, (ledger env patience t w).getLast? = some x := by
  obtain ⟨x, hx, -⟩ :=
    (tried env patience (t.begun w) (t.options.tries - 1) 1 (t.started w)).getLast?
  rw [ledger_eq h hp]
  exact ⟨x, hx⟩

/-- What a run comes to that makes tries, by the number of tries that it has made. -/
theorem result_of_execute {r : Run ι σ} (h : t.refusal? = none)
    (hp : t.facility.phase = t.kind.before) (hr : execute env patience t w = some r) :
    (∃ report, r.result = .ok report ∧ report.attempts = (ledger env patience t w).length) ∨
      ∃ failure, r.result = .error (.unmet t.kind t.facility.text t.options.tries failure) := by
  obtain ⟨o, v, hov, rfl⟩ := closing_of_execute h hp hr
  obtain ⟨x, -, -, hnum, hfull⟩ := getLast?_ledger h hp hov
  rw [closing]
  cases hres : o.result with
  | ok report => exact Or.inl ⟨_, rfl, hnum⟩
  | error failure =>
      refine Or.inr ⟨failure, ?_⟩
      rw [hnum, hfull failure hres]

/-- A run that has failed for its waits tells of all the tries that were allowed. -/
theorem names_of_unmet {r : Run ι σ} {kind : Kind} {facility : String} {attempts : Nat}
    {failure : Wait.Failure} (h : t.refusal? = none) (hp : t.facility.phase = t.kind.before)
    (hr : execute env patience t w = some r)
    (hunmet : r.result = .error (.unmet kind facility attempts failure)) :
    kind = t.kind ∧ facility = t.facility.text ∧ attempts = t.options.tries := by
  rcases result_of_execute h hp hr with ⟨report, hok, -⟩ | ⟨failure', herr⟩
  · exact absurd (hunmet.symm.trans hok) (by simp)
  · obtain ⟨rfl, rfl, rfl, -⟩ :=
      TransitionError.unmet.inj (Except.error.inj (hunmet.symm.trans herr))
    exact ⟨rfl, rfl, rfl⟩

theorem exists_last_of_bare {made made' : List (Try ι σ)} {x : Try ι σ}
    (h : made'.map Try.bare = made.map Try.bare) (hx : made.getLast? = some x) :
    ∃ x', made'.getLast? = some x' ∧ x'.bare = x.bare := by
  have hlast := congrArg List.getLast? h
  rw [List.getLast?_map, List.getLast?_map, hx] at hlast
  exact Option.map_eq_some_iff.1 hlast

variable (env patience w) in
/-- A run that is refused, or in the wrong phase, is the same with any number of tries. -/
theorem renamed_of_no_tries (a b : String) {n m : Nat} (hn : 1 ≤ n) (hm : 1 ≤ m)
    (hmake : ¬ ((t.budgeted a n).refusal? = none ∧ t.facility.phase = t.kind.before)) :
    ∃ r r', execute env patience (t.budgeted a n) w = some r ∧
      execute env patience (t.budgeted b m) w = some r' ∧ Renamed b r r' ∧
      ∃ e, r.result = .error e ∧ e.failure? = none := by
  have hsame := refusal?_budgeted t a b hn hm
  cases h : (t.budgeted a n).refusal? with
  | some e =>
      have h' := hsame.trans h
      exact ⟨_, _, execute_of_refusal h, execute_of_refusal h', ⟨rfl, rfl, rfl, rfl⟩, e, rfl,
        failure?_of_refusal h⟩
  | none =>
      have h' := hsame.trans h
      have hp : t.facility.phase ≠ t.kind.before := fun hp => hmake ⟨h, hp⟩
      exact ⟨_, _, execute_of_wrong_phase h hp, execute_of_wrong_phase h' hp,
        ⟨rfl, rfl, rfl, rfl⟩, _, rfl, rfl⟩

end

/-- What a run with `m` tries has in common with one with `n` tries, under the ids `b` and `a`. -/
structure Outlasts (env : Environment ι σ) (patience : Nat) (t : Transition ι σ) (w : World ι σ)
    (a b : String) (n m : Nat) : Prop where
  /-- The first `n` tries are the same, down to each event but for the numbers that are told. -/
  tries : (ledger env patience (t.budgeted a n) w).map Try.bare =
    ((ledger env patience (t.budgeted b m) w).map Try.bare).take n
  /-- A wait that does not end in the one does not end in the other. -/
  endless : execute env patience (t.budgeted a n) w = none →
    execute env patience (t.budgeted b m) w = none
  /-- If the run with `n` tries has succeeded, the other one has come to the same. -/
  succeeded : ∀ r report, execute env patience (t.budgeted a n) w = some r →
    r.result = .ok report → ∃ r', execute env patience (t.budgeted b m) w = some r' ∧
      r'.result = .ok { report with id := b } ∧ Renamed b r r'
  /-- If it has failed after its tries, the other one does return if its waits have deadlines, and
  has succeeded after more tries or has failed after all of its own. -/
  failed : ∀ r kind facility attempts failure, execute env patience (t.budgeted a n) w = some r →
    r.result = .error (.unmet kind facility attempts failure) → attempts = n ∧
    ((∀ x ∈ ledger env patience (t.budgeted b m) w,
        (Clock.deadline? (x.before.fire t.trigger x.number).now t.options.timeout).isSome = true) →
      (execute env patience (t.budgeted b m) w).isSome = true) ∧
    ∀ r', execute env patience (t.budgeted b m) w = some r' →
      (∃ report, r'.result = .ok report ∧ n < report.attempts) ∨
        ∃ failure, r'.result = .error (.unmet kind facility m failure)
  /-- If it has failed for another reason, the other one has failed for the same. -/
  refused : ∀ r e, execute env patience (t.budgeted a n) w = some r → r.result = .error e →
    e.failure? = none → ∃ r', execute env patience (t.budgeted b m) w = some r' ∧ Renamed b r r'

section
variable {env : Environment ι σ} {patience : Nat} {t : Transition ι σ} {w : World ι σ}
  {a b : String} {n m : Nat}

theorem outlasts_of_no_tries (hn : 1 ≤ n) (hm : 1 ≤ m)
    (hmake : ¬ ((t.budgeted a n).refusal? = none ∧ t.facility.phase = t.kind.before)) :
    Outlasts env patience t w a b n m := by
  have hmake' : ¬ ((t.budgeted b m).refusal? = none ∧ t.facility.phase = t.kind.before) := by
    rw [refusal?_budgeted t a b hn hm]
    exact hmake
  obtain ⟨r, r', hr, hr', hsame, e, hres, hfailure⟩ :=
    renamed_of_no_tries env patience w a b hn hm hmake
  refine ⟨?_, ?_, ?_, ?_, ?_⟩
  · rw [ledger_eq_nil hmake, ledger_eq_nil hmake', List.map_nil, List.take_nil]
  · intro hnone
    exact absurd (hnone.symm.trans hr) (by simp)
  · intro r₀ report hr₀ hok
    obtain rfl := Option.some.inj (hr.symm.trans hr₀)
    exact absurd (hres.symm.trans hok) (by simp)
  · intro r₀ kind facility attempts failure hr₀ hunmet
    obtain rfl := Option.some.inj (hr.symm.trans hr₀)
    obtain rfl := Except.error.inj (hres.symm.trans hunmet)
    exact absurd hfailure (by simp [TransitionError.failure?])
  · intro r₀ e₀ hr₀ _ _
    obtain rfl := Option.some.inj (hr.symm.trans hr₀)
    exact ⟨r', hr', hsame⟩

/-- If both runs have made the same tries, the last of these decides both. -/
theorem outlasts_of_same_tries (h : (t.budgeted a n).refusal? = none)
    (h' : (t.budgeted b m).refusal? = none) (hp : t.facility.phase = t.kind.before)
    (hmade : (ledger env patience (t.budgeted b m) w).map Try.bare =
      (ledger env patience (t.budgeted a n) w).map Try.bare) :
    Outlasts env patience t w a b n m := by
  have htries : Tries env patience (t.budgeted a n) w (ledger env patience (t.budgeted a n) w) :=
    tries_ledger h hp
  obtain ⟨x, hx⟩ := exists_last_of_ledger env patience w h hp
  obtain ⟨x', hx', hbare⟩ := exists_last_of_bare hmade hx
  obtain ⟨hnone, hsome⟩ := renamed_of_last a b h h' hp hx hx' hbare
  refine ⟨?_, hnone, ?_, ?_, fun r _ hr _ _ => hsome r hr⟩
  · rw [hmade, List.take_of_length_le]
    rw [List.length_map]
    exact htries.within
  · intro r report hr hok
    obtain ⟨r', hr', hsame⟩ := hsome r hr
    have hresult := hsame.result
    rw [hok] at hresult
    exact ⟨r', hr', hresult, hsame⟩
  · intro r kind facility attempts failure hr hunmet
    obtain ⟨r₁, hr₁, hsame⟩ := hsome r hr
    have hresult := hsame.result
    rw [hunmet] at hresult
    obtain ⟨rfl, rfl, rfl⟩ := names_of_unmet h hp hr hunmet
    refine ⟨rfl, execute_isSome_of_deadlines h' hp, fun r' hr' => Or.inr ?_⟩
    obtain rfl := Option.some.inj (hr₁.symm.trans hr')
    rcases result_of_execute h' hp hr' with ⟨report, hok, -⟩ | hunmet'
    · exact absurd (hresult.symm.trans hok) (by simp [Except.map])
    · exact hunmet'

/-- If one run has made more tries, the other one has used up its own. -/
theorem outlasts_of_more_tries (h : (t.budgeted a n).refusal? = none)
    (h' : (t.budgeted b m).refusal? = none) (hp : t.facility.phase = t.kind.before)
    {later : List (Try ι σ)} (hnil : later ≠ [])
    (hmade : (ledger env patience (t.budgeted b m) w).map Try.bare =
      (ledger env patience (t.budgeted a n) w).map Try.bare ++ later)
    (hlength : (ledger env patience (t.budgeted a n) w).length = n)
    {x : Try ι σ} {failure : Wait.Failure} {after : World ι σ}
    (hx : (ledger env patience (t.budgeted a n) w).getLast? = some x)
    (hend : x.ending = some (.error failure, after)) : Outlasts env patience t w a b n m := by
  have hmore : n < (ledger env patience (t.budgeted b m) w).length := by
    have hsum := congrArg List.length hmade
    rw [List.length_append, List.length_map, List.length_map, hlength] at hsum
    have hpos := List.length_pos_of_ne_nil hnil
    omega
  have hrun : execute env patience (t.budgeted a n) w =
      some ((t.budgeted a n).closing w ⟨x.number, .error failure⟩ after) := by
    rw [execute_of_last h hp hx, hend]
    rfl
  refine ⟨?_, ?_, ?_, ?_, ?_⟩
  · rw [hmade, List.take_left' (by rw [List.length_map, hlength])]
  · intro hnone
    exact absurd (hnone.symm.trans hrun) (by simp)
  · intro r report hr hok
    obtain rfl := Option.some.inj (hrun.symm.trans hr)
    exact absurd hok (by simp [closing])
  · intro r kind facility attempts failure' hr hunmet
    obtain ⟨rfl, rfl, rfl⟩ := names_of_unmet h hp hr hunmet
    refine ⟨rfl, execute_isSome_of_deadlines h' hp, fun r' hr' => ?_⟩
    rcases result_of_execute h' hp hr' with ⟨report, hok, hcount⟩ | hunmet'
    · exact Or.inl ⟨report, hok, hmore.trans_eq hcount.symm⟩
    · exact Or.inr hunmet'
  · intro r e hr he hfailure
    obtain ⟨report, hok, -⟩ | ⟨failure', herr⟩ := result_of_execute h hp hr
    · exact absurd (he.symm.trans hok) (by simp)
    · obtain rfl := Except.error.inj (herr.symm.trans he)
      exact absurd hfailure (by simp [TransitionError.failure?])

end

/-- **More tries come later, and change nothing before.**  A run with `n` tries makes the first `n`
tries of a run with more.  If it succeeds, the longer run has come to the same, at the same try and
with the same report under its own id; if none of its tries has succeeded, the longer run has
succeeded after more than `n` tries or has failed after all of its own.  This holds for a single try
as well, although it is not made by the loop that makes those of the longer run. -/
theorem more_tries_only_come_later (env : Environment ι σ) (patience : Nat) (t : Transition ι σ)
    (w : World ι σ) (a b : String) {n m : Nat} (hn : 1 ≤ n) (hle : n ≤ m) :
    Outlasts env patience t w a b n m := by
  have hm : 1 ≤ m := Nat.le_trans hn hle
  by_cases hmake : (t.budgeted a n).refusal? = none ∧ t.facility.phase = t.kind.before
  · obtain ⟨h, hp⟩ := hmake
    have h' := (refusal?_budgeted t a b hn hm).trans h
    obtain ⟨later, hlater, hfailed⟩ :=
      exists_later_of_ledger env patience w a b hn hle h hp
    by_cases hnil : later = []
    · rw [hnil, List.append_nil] at hlater
      exact outlasts_of_same_tries h h' hp hlater
    · obtain ⟨hlength, x, failure, after, hx, hend⟩ := hfailed hnil
      exact outlasts_of_more_tries h h' hp hnil hlater hlength hx hend
  · exact outlasts_of_no_tries hn hm hmake

/-- The door opens for the second knock: with one try that is too late, and a third try is not
made. -/
theorem knocking_once_twice_and_thrice :
    (∃ r r' failure report, execute slowDoor 0 (knocking.budgeted "once" 1) .fresh = some r ∧
      r.result = .error (.unmet .checkOut "<F: hall>" 1 failure) ∧
      execute slowDoor 0 (knocking.budgeted "thrice" 3) .fresh = some r' ∧
      r'.result = .ok report ∧ 1 < report.attempts) ∧
    ∃ r r' report, execute slowDoor 0 (knocking.budgeted "twice" 2) .fresh = some r ∧
      r.result = .ok report ∧
      execute slowDoor 0 (knocking.budgeted "thrice" 3) .fresh = some r' ∧
      r'.result = .ok { report with id := "thrice" } ∧ r'.world.bare = r.world.bare := by
  refine ⟨?_, ?_⟩
  · have hboth := more_tries_only_come_later slowDoor 0 knocking .fresh "once" "thrice"
      (Nat.le_refl 1) (by decide : 1 ≤ 3)
    have hone : (execute slowDoor 0 (knocking.budgeted "once" 1) .fresh).map
        (fun r => r.result.isOk) = some false := rfl
    have hthree : (execute slowDoor 0 (knocking.budgeted "thrice" 3) .fresh).map
        (fun r => r.result.isOk) = some true := rfl
    obtain ⟨r, hr, hbad⟩ := Option.map_eq_some_iff.1 hone
    obtain ⟨r', hr', hgood⟩ := Option.map_eq_some_iff.1 hthree
    rcases result_of_execute rfl rfl hr with ⟨report, hok, -⟩ | ⟨failure, hunmet⟩
    · rw [hok] at hbad
      exact absurd hbad.symm Bool.false_ne_true
    obtain ⟨-, -, hlonger⟩ := hboth.failed r _ _ _ failure hr hunmet
    rcases hlonger r' hr' with ⟨report, hok, hmore⟩ | ⟨failure', herr⟩
    · exact ⟨r, r', failure, report, hr, hunmet, hr', hok, hmore⟩
    · rw [herr] at hgood
      exact absurd hgood Bool.false_ne_true
  · have hboth := more_tries_only_come_later slowDoor 0 knocking .fresh "twice" "thrice"
      (by decide : 1 ≤ 2) (by decide : 2 ≤ 3)
    have htwo : (execute slowDoor 0 (knocking.budgeted "twice" 2) .fresh).map
        (fun r => r.result.isOk) = some true := rfl
    obtain ⟨r, hr, hgood⟩ := Option.map_eq_some_iff.1 htwo
    cases hres : r.result with
    | error e =>
        rw [hres] at hgood
        exact absurd hgood Bool.false_ne_true
    | ok report =>
        obtain ⟨r', hr', hok, hsame⟩ := hboth.succeeded r report hr hres
        exact ⟨r, r', report, hr, hres, hr', hok, hsame.bare⟩

end Transition
end Passage
