/-
# What a run does

The deeds of a run follow from its ledger: for each try the trigger is
fired, if there is one, and then the wait makes its laps (`tryDeeds`);
after a try that has succeeded the hook is called (`hookDeeds`), and what it
does to the scene is the last thing that is done (`scene_execute`).  Nothing
is done between two tries, and nothing behind the last one that has failed.

The main statement is `deeds_in_order`, for a wait and for a whole run.
Both are exact: a lap checks all conditions, those that hold already and
those behind one that has reported an error included, and there is no sleep
but the one between two laps.
-/
import Passage.Proofs.Transition.Tries
import Passage.Proofs.Wait.Deeds

namespace Passage
variable {ι σ : Type}

/-- The sleep of a hook that has a pause to make. -/
def Hook.sleeps : Hook σ → List Duration
  | .pause config => config.pause.toList.filter fun d => d.nanos ≠ 0
  | .action _ => []

namespace Transition

/-- What is done in a try: the trigger is fired, and the wait makes its laps. -/
def tryDeeds (env : Environment ι σ) (t : Transition ι σ) (x : Try ι σ) : List (Event ι) :=
  (if t.trigger.isSome then [.fired x.number] else []) ++
    match x.ending with
    | none => []
    | some (result, _) =>
      Wait.laps (t.waits.map Wait.condition)
        ((Wait.napsOf env t.waits t.options.timeout (x.before.fire t.trigger x.number).scene
          (result.passes - 1)).map Wait.Nap.length)

/-- What is done when a try has succeeded: the hook is called, and it makes its pause. -/
def hookDeeds (hook : Hook σ) (subject : String) : List (Event ι) :=
  .hooked subject :: hook.sleeps.map .slept

theorem deeds_callHook (hook : Hook σ) (subject : String) (w : World ι σ) :
    (callHook hook subject w).deeds = w.deeds ++ hookDeeds hook subject := by
  have hcall : (w.record (.hooked subject)).deeds = w.deeds ++ [.hooked subject] :=
    w.deeds_record (.hooked subject)
  cases hook with
  | action act => exact hcall
  | pause config =>
      cases h : config.pause with
      | none =>
          rw [callHook_of_no_pause h, hcall]
          simp [hookDeeds, Hook.sleeps, h]
      | some d =>
          rw [callHook_of_pause h]
          by_cases hd : d.nanos = 0
          · rw [World.sleep, if_pos hd, World.deeds_note, hcall]
            simp [hookDeeds, Hook.sleeps, h, hd]
          · rw [World.deeds_sleep hd, World.deeds_note, hcall]
            simp [hookDeeds, Hook.sleeps, h, hd]

section
variable {env : Environment ι σ} {patience : Nat} {t : Transition ι σ}

theorem deeds_attempt {number : Nat} {w w' : World ι σ} {res : Wait.Result}
    (h : attempt env patience t number w = some (res, w')) :
    w'.deeds = w.deeds ++ tryDeeds env t ⟨number, w, some (res, w')⟩ := by
  have hrun := Wait.deeds_run h
  rw [hrun, World.deeds_note, World.deeds_note, World.deeds_fire, List.append_assoc]
  rfl

variable {spare number : Nat} {w v : World ι σ} {made : List (Try ι σ)} {o : Outcome}

/-- Tries follow each other, and nothing is done between them. -/
theorem Tried.deeds (h : Tried env patience t spare number w made (some (o, v))) :
    v.deeds = w.deeds ++ made.flatMap (tryDeeds env t) := by
  generalize ho : some (o, v) = out at h
  induction h with
  | @last spare number w ending he _ =>
      obtain ⟨⟨res, after⟩, hend, hov⟩ := Option.map_eq_some_iff.mp ho.symm
      obtain ⟨-, rfl⟩ := Prod.mk.inj hov
      rw [deeds_attempt (he.trans hend), hend]
      simp
  | @retry spare number w after failure made out he _ ih =>
      rw [ih ho, retrying, World.deeds_note, deeds_attempt he, List.flatMap_cons,
        List.append_assoc]

/-- If tries come to something, the wait of each of them has come to an end. -/
theorem Tried.isSome_ending (h : Tried env patience t spare number w made (some (o, v))) :
    ∀ x ∈ made, x.ending.isSome = true := by
  generalize ho : some (o, v) = out at h
  induction h with
  | last _ _ =>
      intro x hx
      obtain rfl := List.mem_singleton.mp hx
      obtain ⟨e, hend, -⟩ := Option.map_eq_some_iff.mp ho.symm
      exact Option.isSome_iff_exists.2 ⟨e, hend⟩
  | retry _ _ ih =>
      intro x hx
      rcases List.mem_cons.mp hx with rfl | hx
      · rfl
      · exact ih ho x hx

theorem deeds_opened (t : Transition ι σ) (w : World ι σ) : (t.opened w).deeds = w.deeds := by
  rw [World.deeds, events_opened, List.filter_append]
  exact List.append_nil _

theorem deeds_started (t : Transition ι σ) (w : World ι σ) : (t.started w).deeds = w.deeds := by
  rw [started, World.deeds_note, World.deeds_note, deeds_opened]

theorem deeds_closing (t : Transition ι σ) (w v : World ι σ) (o : Outcome) :
    (t.closing w o v).world.deeds =
      v.deeds ++ (if (t.closing w o v).result.isOk then hookDeeds t.hook t.subject else []) := by
  rw [closing]
  cases o.result with
  | ok report =>
      show ((callHook t.hook t.subject (t.arrived v)).record .spanLeft).deeds = _
      rw [World.deeds_record, deeds_callHook, arrived, World.deeds_note, World.deeds_note]
      exact List.append_nil _
  | error failure => exact v.deeds_record .spanLeft

/-- What a run has done that returns: its tries, and then the hook if one of them has succeeded. -/
theorem deeds_execute {r : Run ι σ} (hr : execute env patience t w = some r) :
    (∀ x ∈ ledger env patience t w, x.ending.isSome = true ∧
      x.ending = Wait.run env patience t.waits t.options.timeout (t.waiting x.number x.before)) ∧
    r.world.deeds = w.deeds ++ (ledger env patience t w).flatMap (tryDeeds env t) ++
      (if r.result.isOk then hookDeeds t.hook t.subject else []) := by
  by_cases hmake : t.refusal? = none ∧ t.facility.phase = t.kind.before
  · obtain ⟨h, hp⟩ := hmake
    obtain ⟨o, v, hov, rfl⟩ := closing_of_execute h hp hr
    have hmade := tried env patience (t.begun w) (t.options.tries - 1) 1 (t.started w)
    rw [hov, ← ledger_eq h hp] at hmade
    refine ⟨fun x hx => ⟨hmade.isSome_ending x hx, (tries_ledger h hp).waits x hx⟩, ?_⟩
    rw [deeds_closing, hmade.deeds, deeds_started]
    rfl
  · have hnone : ledger env patience t w = [] := ledger_eq_nil hmake
    rw [hnone]
    refine ⟨fun x hx => absurd hx List.not_mem_nil, ?_⟩
    cases h : t.refusal? with
    | some e =>
        rw [execute_of_refusal h] at hr
        obtain rfl := Option.some.inj hr
        simp [Except.isOk, Except.toBool]
    | none =>
        rw [execute_of_wrong_phase h fun hp => hmake ⟨h, hp⟩] at hr
        obtain rfl := Option.some.inj hr
        rw [World.deeds_record, deeds_opened]
        simp [Event.isDeed, Except.isOk, Except.toBool]

/-- What a run has left that returns: the scene of its last try, and what the hook has made of it if
that try has succeeded. -/
theorem scene_execute {r : Run ι σ} (hr : execute env patience t w = some r) {x : Try ι σ}
    {result : Wait.Result} {after : World ι σ}
    (hx : (ledger env patience t w).getLast? = some x) (hend : x.ending = some (result, after)) :
    r.world.scene =
      if r.result.isOk then t.hook.leave t.subject after.scene else after.scene := by
  by_cases hmake : t.refusal? = none ∧ t.facility.phase = t.kind.before
  · obtain ⟨h, hp⟩ := hmake
    obtain ⟨o, v, hov, rfl⟩ := closing_of_execute h hp hr
    obtain ⟨y, hy, hlast, -, -⟩ := getLast?_ledger h hp hov
    obtain rfl := Option.some.inj (hy.symm.trans hx)
    obtain ⟨-, rfl⟩ := Prod.mk.inj (Option.some.inj (hlast.symm.trans hend))
    exact scene_closing t w v o
  · rw [ledger_eq_nil hmake] at hx
    exact absurd hx (by simp)

end

/-- **All is done in one order.**  A wait that returns after some passes has checked all its
conditions in order in each of them, with one sleep between two passes and none elsewhere; so a
condition that is listed more than once is checked as often in each pass.  A run that returns has
fired its trigger and has waited for each of its tries, and has then called its hook if a try has
succeeded; what it leaves is the scene of the last try, as the hook has left it if it was called. -/
theorem deeds_in_order [DecidableEq ι] (env : Environment ι σ) (patience : Nat) :
    (∀ (waits : List (Wait ι)) (timeout : Duration) (w w' : World ι σ) (res : Wait.Result),
      Wait.run env patience waits timeout w = some (res, w') →
      (Wait.napsOf env waits timeout w.scene (res.passes - 1)).length + 1 = res.passes ∧
      w'.deeds = w.deeds ++ Wait.laps (waits.map Wait.condition)
        ((Wait.napsOf env waits timeout w.scene (res.passes - 1)).map Wait.Nap.length) ∧
      ∀ c, w'.deeds.count (.checked c) =
        w.deeds.count (.checked c) + (waits.map Wait.condition).count c * res.passes) ∧
    ∀ (t : Transition ι σ) (w : World ι σ) (r : Run ι σ), execute env patience t w = some r →
      (∀ x ∈ ledger env patience t w, x.ending.isSome = true ∧
        x.ending = Wait.run env patience t.waits t.options.timeout (t.waiting x.number x.before)) ∧
      r.world.deeds = w.deeds ++ (ledger env patience t w).flatMap (tryDeeds env t) ++
        (if r.result.isOk then hookDeeds t.hook t.subject else []) ∧
      ∀ x result after, (ledger env patience t w).getLast? = some x →
        x.ending = some (result, after) →
        r.world.scene =
          if r.result.isOk then t.hook.leave t.subject after.scene else after.scene := by
  refine ⟨?_, fun t w r hr => ⟨(deeds_execute hr).1, (deeds_execute hr).2,
    fun x result after hx hend => scene_execute hr hx hend⟩⟩
  intro waits timeout w w' res h
  obtain ⟨p, hpasses, -⟩ := Wait.exists_round_of_run h
  have hlength :
      (Wait.napsOf env waits timeout w.scene (res.passes - 1)).length + 1 = res.passes := by
    rw [Wait.napsOf, Wait.length_napsAt, hpasses]
    rfl
  have hdeeds := Wait.deeds_run h
  refine ⟨hlength, hdeeds, fun c => ?_⟩
  rw [hdeeds, List.count_append, Wait.count_checked_laps, List.length_map, hlength]

/-- Two tries of the way out of the hall, with the knocks, the checks and the one sleep, and then
the hook; and a wait of four passes for two doors that have one condition. -/
theorem deeds_of_knocking :
    (∃ r, execute slowDoor 0 knocking .fresh = some r ∧
      r.world.deeds = [.fired 1, .checked (), .slept (.ofMillis 50), .checked (), .fired 2,
        .checked (), .hooked "check-out <F: hall>"]) ∧
    ∃ res w', Wait.run Wait.flicker 0 Wait.twoDoors (.ofMillis 150) .fresh = some (res, w') ∧
      res.passes = 4 ∧ w'.deeds.count (.checked ()) = 8 := by
  obtain ⟨-, hrun⟩ := deeds_in_order (ι := Unit) slowDoor 0
  refine ⟨?_, ?_⟩
  · have hsome : (execute slowDoor 0 knocking .fresh).map
        (fun r => r.result.isOk) = some true := rfl
    obtain ⟨r, hr, hok⟩ := Option.map_eq_some_iff.1 hsome
    obtain ⟨-, hdeeds, -⟩ := hrun knocking .fresh r hr
    rw [hok] at hdeeds
    exact ⟨r, hr, hdeeds⟩
  · have hsome : (Wait.run Wait.flicker 0 Wait.twoDoors (.ofMillis 150) .fresh).map
        (fun x => x.1.passes) = some 4 := rfl
    obtain ⟨⟨res, w'⟩, h, hpasses⟩ := Option.map_eq_some_iff.1 hsome
    obtain ⟨-, -, hcount⟩ := (deeds_in_order Wait.flicker 0).1 _ _ _ _ _ h
    change res.passes = 4 at hpasses
    refine ⟨res, w', h, hpasses, ?_⟩
    rw [hcount (), hpasses]
    rfl

end Transition
end Passage
