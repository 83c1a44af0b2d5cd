/-
# What a run says of its failures

A run that is not refused opens one span, and all that it says and does is
said and done inside it, whichever way it comes to its end.  Each try that
fails is told of exactly once: in a warning if another try follows it, and
in the error that the run returns if it is the last one.

`warnings_of_tries` is the induction over the tries: their warnings are
those of all tries but the last.  Nothing else warns, neither a wait nor
the marking of the facility nor the hook (`Event.Plain`), and so it holds
for the whole run (`each_failure_is_told_once`).
-/
import Passage.Proofs.Transition.Tries

namespace Passage
variable {ι σ : Type}

/-! ## Events inside a span -/

namespace Event

/-- The warning that is given. -/
def warning? : Event ι → Option Notice
  | noted n => if n.level = .warn then some n else none
  | _ => none

/-- A span is opened, entered or left. -/
def ofSpan : Event ι → Bool
  | spanOpened .. | spanEntered | spanLeft => true
  | _ => false

/-- Nothing is warned of, and the span stays as it is. -/
def Plain (e : Event ι) : Prop := e.warning? = none ∧ e.ofSpan = false

theorem InWait.plain {e : Event ι} (h : e.InWait) : e.Plain := by
  cases h <;> exact ⟨rfl, rfl⟩

theorem InPause.plain {e : Event ι} (h : e.InPause) : e.Plain := by
  cases h <;> exact ⟨rfl, rfl⟩

/-- Plain events have no warnings. -/
theorem warnings_of_plain {es : List (Event ι)} (h : ∀ e ∈ es, e.Plain) :
    es.filterMap warning? = [] :=
  List.filterMap_eq_nil_iff.2 fun e he => (h e he).1

end Event

namespace Transition

/-- The notice warns that the try has failed, one of so many, and why. -/
structure Warns (tries : Nat) (n : Notice) (x : Try ι σ) : Prop where
  level : n.level = .warn
  message : n.message = "Try #" ++ Decimal.text x.number ++ " failed"
  /-- The reason is the one for which the wait of this very try has failed. -/
  fields : ∃ failure after, x.ending = some (.error failure, after) ∧
    n.fields = [("try_number", .count x.number), ("tries", .count tries),
      ("error", .text failure.reason.text)]

theorem warns_tryFailed (number tries : Nat) (w after : World ι σ) (failure : Wait.Failure) :
    Warns tries (.tryFailed number tries failure.reason.text)
      ⟨number, w, some (.error failure, after)⟩ where
  level := rfl
  message := by
    show "Try " ++ ("#" ++ Decimal.text number) ++ " failed" = _
    rw [← String.append_assoc]
    rfl
  fields := ⟨failure, after, rfl, rfl⟩

theorem Warns.fields_eq {tries : Nat} {n : Notice} {x : Try ι σ} {failure : Wait.Failure}
    {after : World ι σ} (h : Warns tries n x) (hx : x.ending = some (.error failure, after)) :
    n.fields = [("try_number", .count x.number), ("tries", .count tries),
      ("error", .text failure.reason.text)] := by
  obtain ⟨failure', after', hx', hfields⟩ := h.fields
  rw [hx] at hx'
  obtain rfl := Except.error.inj (Prod.mk.inj (Option.some.inj hx')).1
  exact hfields

section
variable {env : Environment ι σ} {patience : Nat} {t : Transition ι σ} {w : World ι σ}

/-! ## Tries -/

/-- A try on its own warns of nothing, not even of its failure. -/
theorem plain_attempt {number : Nat} {w' : World ι σ} {res : Wait.Result}
    (h : attempt env patience t number w = some (res, w')) : World.Adds Event.Plain w w' := by
  obtain ⟨es, he, hes⟩ := events_attempt h
  refine ⟨_, he, ?_⟩
  intro e hmem
  rcases List.mem_append.1 hmem with hmem | hmem
  · rcases List.mem_append.1 hmem with hmem | hmem
    · cases htrigger : t.trigger.isSome with
      | false => simp [htrigger] at hmem
      | true =>
          simp only [htrigger, if_true, List.mem_singleton] at hmem
          subst hmem
          exact ⟨rfl, rfl⟩
    · simp only [List.mem_cons, List.not_mem_nil, or_false] at hmem
      rcases hmem with rfl | rfl | rfl <;> exact ⟨rfl, rfl⟩
  · exact (hes e hmem).plain

/-- There is one warning for each try but the last, in the order of the tries. -/
theorem warnings_of_tries {spare number : Nat} {made : List (Try ι σ)} {o : Outcome}
    {v : World ι σ} (h : Tried env patience t spare number w made (some (o, v))) :
    ∃ es, v.events = w.events ++ es ∧ (∀ e ∈ es, e.ofSpan = false) ∧
      List.Forall₂ (Warns t.options.tries) (es.filterMap Event.warning?) made.dropLast := by
  generalize ho : some (o, v) = out at h
  induction h with
  | @last spare number w ending he _ =>
      obtain ⟨⟨res, after⟩, hend, hov⟩ := Option.map_eq_some_iff.1 ho.symm
      obtain ⟨-, rfl⟩ := Prod.mk.inj hov
      obtain ⟨es, hes, hplain⟩ := plain_attempt (he.trans hend)
      refine ⟨es, hes, fun e hmem => (hplain e hmem).2, ?_⟩
      rw [Event.warnings_of_plain hplain]
      exact .nil
  | @retry spare number w after failure made out he hrest ih =>
      obtain ⟨es, hes, hplain⟩ := plain_attempt he
      obtain ⟨fs, hfs, hspan, hwarn⟩ := ih ho
      refine ⟨es ++ .noted (.tryFailed number t.options.tries failure.reason.text) :: fs, ?_, ?_,
        ?_⟩
      · rw [hfs, retrying, World.events_note, hes]
        simp
      · intro e hmem
        rcases List.mem_append.1 hmem with hmem | hmem
        · exact (hplain e hmem).2
        · rcases List.mem_cons.1 hmem with rfl | hmem
          · rfl
          · exact hspan e hmem
      · -- The next try follows, so this one is not the last.
        obtain ⟨ending, hhead⟩ := hrest.head?
        have hne : made ≠ [] := by
          rintro rfl
          exact absurd hhead (by simp)
        rw [List.filterMap_append, Event.warnings_of_plain hplain, List.nil_append,
          List.dropLast_cons_of_ne_nil hne]
        exact .cons (warns_tryFailed number t.options.tries w after failure) hwarn

/-! ## The whole run -/

/-- Behind the tries there is nothing that warns, and then the span is left. -/
theorem plain_closing (t : Transition ι σ) (w v : World ι σ) (o : Outcome) :
    ∃ es, (t.closing w o v).world.events = v.events ++ es ++ [.spanLeft] ∧ ∀ e ∈ es, e.Plain := by
  cases h : o.result with
  | error failure => exact ⟨[], by rw [events_closing_error h, List.append_nil], by simp⟩
  | ok report =>
      obtain ⟨es, he, hes⟩ := events_closing_ok (t := t) (w := w) (v := v) h
      refine ⟨_, by rw [he, List.append_assoc v.events], ?_⟩
      intro e hmem
      rcases List.mem_append.1 hmem with hmem | hmem
      · simp only [List.mem_cons, List.not_mem_nil, or_false] at hmem
        rcases hmem with rfl | rfl | rfl <;> exact ⟨rfl, rfl⟩
      · exact (hes e hmem).plain

/-- The events of a run lie in one span, with the warnings of the tries that another one follows. -/
theorem warnings_of_execute {r : Run ι σ} (h : t.refusal? = none)
    (hr : execute env patience t w = some r) :
    ∃ inside, r.world.events =
        w.events ++ [.spanOpened t.id t.subject, .spanEntered] ++ inside ++ [.spanLeft] ∧
      (∀ e ∈ inside, e.ofSpan = false) ∧
      List.Forall₂ (Warns t.options.tries) (inside.filterMap Event.warning?)
        (ledger env patience t w).dropLast := by
  by_cases hp : t.facility.phase = t.kind.before
  · obtain ⟨o, v, hov, rfl⟩ := closing_of_execute h hp hr
    have hmade := tried env patience (t.begun w) (t.options.tries - 1) 1 (t.started w)
    rw [hov, ← ledger_eq h hp] at hmade
    obtain ⟨es, he, hspan, hwarn⟩ := warnings_of_tries hmade
    obtain ⟨fs, hf, hplain⟩ := plain_closing t w v o
    refine ⟨.noted (.phaseChanged t.facility.name t.facility.phase t.kind.during) ::
      .noted (.beginning t.kind t.facility.text) :: (es ++ fs), ?_, ?_, ?_⟩
    · rw [hf, he, events_started]
      simp
    · intro e hmem
      simp only [List.mem_cons, List.mem_append] at hmem
      rcases hmem with rfl | rfl | hmem | hmem
      · rfl
      · rfl
      · exact hspan e hmem
      · exact (hplain e hmem).2
    · rw [List.filterMap_cons_none rfl, List.filterMap_cons_none rfl, List.filterMap_append,
        Event.warnings_of_plain hplain, List.append_nil]
      exact hwarn
  · rw [execute_of_wrong_phase h hp] at hr
    obtain rfl := Option.some.inj hr
    refine ⟨[], ?_, by simp, ?_⟩
    · rw [World.events_record, events_opened]
      simp
    · rw [ledger_eq_nil fun hmake => hp hmake.2]
      exact .nil

/-- The failure of the last try, and no other, is the one that the error of the run carries. -/
theorem unmet_iff_last_failed {r : Run ι σ} (h : t.refusal? = none)
    (hr : execute env patience t w = some r) (failure : Wait.Failure) :
    r.result = .error (.unmet t.kind t.facility.text (ledger env patience t w).length failure) ↔
      ∃ x after, (ledger env patience t w).getLast? = some x ∧
        x.ending = some (.error failure, after) := by
  by_cases hp : t.facility.phase = t.kind.before
  · obtain ⟨o, v, hov, rfl⟩ := closing_of_execute h hp hr
    obtain ⟨x, hx, hend, hnum, -⟩ := getLast?_ledger h hp hov
    have hlast : (∃ y after, (ledger env patience t w).getLast? = some y ∧
        y.ending = some (.error failure, after)) ↔ o.result = .error failure := by
      constructor
      · rintro ⟨y, after, hy, hfailed⟩
        obtain rfl := Option.some.inj (hx.symm.trans hy)
        exact congrArg Prod.fst (Option.some.inj (hend.symm.trans hfailed))
      · intro hres
        exact ⟨x, v, hx, hend.trans (congrArg (fun q => some (q, v)) hres)⟩
    rw [hlast, closing]
    cases hres : o.result with
    | ok report => simp
    | error failure' => simp [hnum]
  · rw [execute_of_wrong_phase h hp] at hr
    obtain rfl := Option.some.inj hr
    rw [ledger_eq_nil fun hmake => hp hmake.2]
    simp

end

/-- **Each failure of a try is told exactly once.**  A run that is not refused lies in one span,
which is opened, entered and left once.  For each of its tries but the last there is one warning, in
the order of the tries, with the number of the try and the reason for which it has failed; there is
no other warning.  If the last try has failed, the error of the run carries its failure. -/
theorem each_failure_is_told_once (env : Environment ι σ) (patience : Nat) {t : Transition ι σ}
    {w : World ι σ} {r : Run ι σ} (hs : t.stage = .notStarted) (hv : t.options.isValid = true)
    (hr : execute env patience t w = some r) :
    (∃ inside, r.world.events =
        w.events ++ [.spanOpened t.id t.subject, .spanEntered] ++ inside ++ [.spanLeft] ∧
      (∀ e ∈ inside, e.ofSpan = false) ∧
      List.Forall₂ (Warns t.options.tries) (inside.filterMap Event.warning?)
        (ledger env patience t w).dropLast) ∧
    ((ledger env patience t w).map Try.number = List.range' 1 (ledger env patience t w).length ∧
      (ledger env patience t w).IsChain (Follows t) ∧
      ∀ x ∈ ledger env patience t w, x.ending =
        Wait.run env patience t.waits t.options.timeout (t.waiting x.number x.before)) ∧
    ∀ failure,
      r.result = .error (.unmet t.kind t.facility.text (ledger env patience t w).length failure) ↔
        ∃ x after, (ledger env patience t w).getLast? = some x ∧
          x.ending = some (.error failure, after) := by
  have h := refusal?_eq_none hs hv
  refine ⟨warnings_of_execute h hr, ?_, unmet_iff_last_failed h hr⟩
  by_cases hp : t.facility.phase = t.kind.before
  · have htries : Tries env patience t w (ledger env patience t w) := tries_ledger h hp
    exact ⟨htries.numbers, htries.follows, htries.waits⟩
  · rw [ledger_eq_nil fun hmake => hp hmake.2]
    exact ⟨rfl, .nil, by simp⟩

/-- A door that stays shut, and jams at the third check. -/
def jammedDoor : Environment Unit Nat :=
  .reciting fun n => if n = 2 then .error else .notFulfilled

/-- Of three tries at the jammed door the first one runs out of time and the second one meets the
error; both are warned of.  The third one runs out of time again, and that is the error of the
run. -/
theorem failures_at_jammedDoor :
    ∃ r inside failure, execute jammedDoor 0 knocking .fresh = some r ∧
      r.world.events = [.spanOpened "knock" "check-out <F: hall>", .spanEntered] ++ inside ++
        [.spanLeft] ∧
      (inside.filterMap Event.warning?).map Notice.fields =
        [[("try_number", .count 1), ("tries", .count 3),
            ("error", .text "Did not meet all conditions within 50ms")],
          [("try_number", .count 2), ("tries", .count 3),
            ("error", .text "Condition 'door' reported an error")]] ∧
      r.result = .error (.unmet .checkOut "<F: hall>" 3 failure) ∧
      failure.reason = .timeout (.ofMillis 50) := by
  have hsome : (execute jammedDoor 0 knocking .fresh).isSome = true := rfl
  obtain ⟨r, hr⟩ := Option.isSome_iff_exists.1 hsome
  obtain ⟨⟨inside, hevents, -, hwarn⟩, -, herror⟩ :=
    each_failure_is_told_once jammedDoor 0 rfl rfl hr
  have hmade : ∃ x y z f₁ f₂ f₃ a₁ a₂ a₃, ledger jammedDoor 0 knocking .fresh = [x, y, z] ∧
      (x.ending = some (.error f₁, a₁) ∧ y.ending = some (.error f₂, a₂) ∧
        z.ending = some (.error f₃, a₃)) ∧ (x.number = 1 ∧ y.number = 2) ∧
      f₁.reason = .timeout (.ofMillis 50) ∧ f₂.reason = .conditionError "door" ∧
      f₃.reason = .timeout (.ofMillis 50) :=
    ⟨_, _, _, _, _, _, _, _, _, rfl, ⟨rfl, rfl, rfl⟩, ⟨rfl, rfl⟩, rfl, rfl, rfl⟩
  obtain ⟨x, y, z, f₁, f₂, f₃, a₁, a₂, a₃, hledger, ⟨hx, hy, hz⟩, ⟨hone, htwo⟩, h₁, h₂, h₃⟩ := hmade
  rw [hledger] at hwarn herror
  refine ⟨r, inside, f₃, hr, hevents, ?_, (herror f₃).2 ⟨z, a₃, rfl, hz⟩, h₃⟩
  obtain ⟨n, rest, hn, hrest, hall⟩ := List.forall₂_cons_right_iff.1 hwarn
  obtain ⟨m, none, hm, hnone, rfl⟩ := List.forall₂_cons_right_iff.1 hrest
  obtain rfl := List.forall₂_nil_right_iff.1 hnone
  rw [hall, List.map_cons, List.map_cons, hn.fields_eq hx, hm.fields_eq hy, hone, htwo, h₁, h₂]
  rfl

end Transition
end Passage
