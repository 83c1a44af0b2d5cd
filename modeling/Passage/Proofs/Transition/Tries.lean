/-
# The tries of a run

`ledger` lists the tries that a run makes: for each its number, the world
in which it begins, and what its wait has come to.  The recursion that
makes the tries keeps no such list; it returns what the last one has come
to (`Tried.getLast?`).

`Tries` says what a ledger looks like.  The tries are numbered from 1; the
first begins where the facility has just been marked; each waits, for the
same conditions and the full timeout, in the scene that the trigger has
left; the next one begins where a failed one has ended; and there are at
most as many as the options allow.  The main statement is
`execute_makes_tries`: a run comes to what the last entry of such a ledger
says, and it has fired the trigger and begun to wait once for each entry.
A single try is not made by the loop that makes several, and still all this
holds for it as well (`tryAll_eq`).
-/
import Passage.Proofs.Trace
import Passage.Proofs.Transition.Course
import Mathlib.Data.List.Chain

namespace Passage
variable {ι σ : Type}

/-- A try: its number, the world in which it begins, and what its wait has come to, if it is
over. -/
structure Try (ι σ : Type) where
  number : Nat
  before : World ι σ
  ending : Option (Wait.Result × World ι σ)

/-- The wait of a try has met its conditions. -/
def Try.Succeeded (x : Try ι σ) : Prop := ∃ report after, x.ending = some (.ok report, after)

/-! ## Firing -/

namespace World

theorem events_fire (trigger : Option (Trigger σ)) (number : Nat) (w : World ι σ) :
    (w.fire trigger number).events =
      w.events ++ (if trigger.isSome then [.fired number] else []) := by
  cases trigger with
  | none => simp [fire]
  | some f => simp [fire]

end World

namespace Transition

/-! ## One try -/

/-- The world in which the wait of a try begins: the trigger has been fired. -/
def waiting (t : Transition ι σ) (number : Nat) (w : World ι σ) : World ι σ :=
  ((w.fire t.trigger number).note (.triggered t.kind t.facility.text)).note
    (.tryWaiting number t.options.tries t.facility.text)

theorem scene_waiting_of_trigger {t : Transition ι σ} {f : Trigger σ} (h : t.trigger = some f)
    (number : Nat) (w : World ι σ) :
    (t.waiting number w).scene = w.scene.after (f number w.scene) := by
  rw [waiting, h]
  rfl

theorem scene_waiting_of_no_trigger {t : Transition ι σ} (h : t.trigger = none) (number : Nat)
    (w : World ι σ) : (t.waiting number w).scene = w.scene := by
  rw [waiting, h]
  rfl

/-- The world in which the next try begins, when one has failed. -/
def retrying (t : Transition ι σ) (number : Nat) (failure : Wait.Failure) (w : World ι σ) :
    World ι σ :=
  w.note (.tryFailed number t.options.tries failure.reason.text)

theorem events_attempt {env : Environment ι σ} {patience : Nat} {t : Transition ι σ} {number : Nat}
    {w w' : World ι σ} {res : Wait.Result}
    (h : attempt env patience t number w = some (res, w')) :
    ∃ es, w'.events = w.events ++ ((if t.trigger.isSome then [.fired number] else []) ++
        [.noted (.triggered t.kind t.facility.text),
          .noted (.tryWaiting number t.options.tries t.facility.text),
          .noted (.waitBegun t.waits.length t.options.timeout)] ++ es) ∧
      ∀ e ∈ es, e.InWait := by
  obtain ⟨es, he, hes⟩ := Wait.adds_run h
  refine ⟨es, ?_, hes⟩
  rw [he]
  simp [World.events_fire]

/-- Among the events of a try, one fires the trigger if there is one, one begins the wait, and
none calls the hook. -/
theorem counts_attempt {env : Environment ι σ} {patience : Nat} {t : Transition ι σ} {number : Nat}
    {w w' : World ι σ} {res : Wait.Result}
    (h : attempt env patience t number w = some (res, w')) :
    ∃ es, w'.events = w.events ++ es ∧
      es.filterMap Event.fired? = (if t.trigger.isSome then [number] else []) ∧
      es.countP Event.beginsWait = 1 ∧ es.filterMap Event.hooked? = [] := by
  obtain ⟨es, he, hes⟩ := events_attempt h
  refine ⟨_, he, ?_, ?_, ?_⟩
  · have hnone : es.filterMap Event.fired? = [] :=
      List.filterMap_eq_nil_iff.mpr fun e he => (hes e he).fired?
    rw [List.filterMap_append, hnone, List.append_nil]
    cases t.trigger <;> rfl
  · have hnone : es.countP Event.beginsWait = 0 :=
      List.countP_eq_zero.mpr fun e he => by simp [(hes e he).beginsWait]
    rw [List.countP_append, hnone]
    cases t.trigger <;> rfl
  · have hnone : es.filterMap Event.hooked? = [] :=
      List.filterMap_eq_nil_iff.mpr fun e he => (hes e he).hooked?
    rw [List.filterMap_append, hnone, List.append_nil]
    cases t.trigger <;> rfl

/-! ## Try after try -/

/-- The try with the given number, and those that follow as long as tries fail, `spare` of them
at most. -/
def triesFrom (env : Environment ι σ) (patience : Nat) (t : Transition ι σ) :
    Nat → Nat → World ι σ → List (Try ι σ)
  | 0, number, w => [⟨number, w, attempt env patience t number w⟩]
  | spare + 1, number, w =>
    ⟨number, w, attempt env patience t number w⟩ ::
      match attempt env patience t number w with
      | some (.error failure, w') =>
        triesFrom env patience t spare (number + 1) (t.retrying number failure w')
      | _ => []

/-- `y` is the try after `x`, which has failed. -/
def Follows (t : Transition ι σ) (x y : Try ι σ) : Prop :=
  ∃ failure after, x.ending = some (.error failure, after) ∧
    y.number = x.number + 1 ∧ y.before = t.retrying x.number failure after

section
variable {env : Environment ι σ} {patience : Nat} {t : Transition ι σ}

/-- How tries go on, together with what they come to.  A try that has not failed is the last one,
and so is one that has none to spare; after any other that has failed comes the next. -/
inductive Tried (env : Environment ι σ) (patience : Nat) (t : Transition ι σ) :
    Nat → Nat → World ι σ → List (Try ι σ) → Option (Outcome × World ι σ) → Prop
  | last {spare number : Nat} {w : World ι σ} {ending : Option (Wait.Result × World ι σ)} :
      attempt env patience t number w = ending →
      (∀ failure after, ending = some (.error failure, after) → spare = 0) →
      Tried env patience t spare number w [⟨number, w, ending⟩]
        (ending.map fun e => (⟨number, e.1⟩, e.2))
  | retry {spare number : Nat} {w after : World ι σ} {failure : Wait.Failure}
      {made : List (Try ι σ)} {out : Option (Outcome × World ι σ)} :
      attempt env patience t number w = some (.error failure, after) →
      Tried env patience t spare (number + 1) (t.retrying number failure after) made out →
      Tried env patience t (spare + 1) number w
        (⟨number, w, some (.error failure, after)⟩ :: made) out

theorem tried (env : Environment ι σ) (patience : Nat) (t : Transition ι σ) (spare : Nat) :
    ∀ (number : Nat) (w : World ι σ),
      Tried env patience t spare number w (triesFrom env patience t spare number w)
        (attempts env patience t spare number w) := by
  induction spare with
  | zero =>
      intro number w
      rw [attempts, triesFrom]
      cases h : attempt env patience t number w with
      | none => exact .last h fun _ _ _ => rfl
      | some e =>
          obtain ⟨result, after⟩ := e
          cases result with
          | ok report => exact .last h fun _ _ _ => rfl
          | error failure => exact .last h fun _ _ _ => rfl
  | succ spare ih =>
      intro number w
      rw [attempts, triesFrom]
      cases h : attempt env patience t number w with
      | none => exact .last h fun _ _ hf => absurd hf (by simp)
      | some e =>
          obtain ⟨result, after⟩ := e
          cases result with
          | ok report => exact .last h fun _ _ hf => absurd hf (by simp)
          | error failure => exact .retry h (ih _ _)

/-! ## What a list of tries looks like -/

variable {spare number : Nat} {w : World ι σ} {made : List (Try ι σ)}
  {out : Option (Outcome × World ι σ)}

theorem Tried.head? (h : Tried env patience t spare number w made out) :
    ∃ ending, made.head? = some ⟨number, w, ending⟩ := by
  cases h with
  | last _ _ => exact ⟨_, rfl⟩
  | retry _ _ => exact ⟨_, rfl⟩

theorem Tried.ending (h : Tried env patience t spare number w made out) :
    ∀ x ∈ made, x.ending = attempt env patience t x.number x.before := by
  induction h with
  | last he _ =>
      intro x hx
      obtain rfl := List.mem_singleton.mp hx
      exact he.symm
  | retry he _ ih =>
      intro x hx
      rcases List.mem_cons.mp hx with rfl | hx
      · exact he.symm
      · exact ih x hx

theorem Tried.isChain (h : Tried env patience t spare number w made out) :
    made.IsChain (Follows t) := by
  induction h with
  | last _ _ => exact .singleton _
  | @retry _ number _ after failure made _ _ hrest ih =>
      obtain ⟨ending, hhead⟩ := hrest.head?
      cases made with
      | nil => exact absurd hhead (by simp)
      | cons y rest =>
          obtain rfl := Option.some.inj hhead
          exact List.isChain_cons_cons.mpr ⟨⟨failure, after, rfl, rfl, rfl⟩, ih⟩

theorem Tried.numbers (h : Tried env patience t spare number w made out) :
    made.map Try.number = List.range' number made.length := by
  induction h with
  | last _ _ => rfl
  | retry _ _ ih => rw [List.map_cons, ih, List.length_cons, List.range'_succ]

theorem Tried.length_le (h : Tried env patience t spare number w made out) :
    made.length ≤ spare + 1 := by
  induction h with
  | last _ _ => exact Nat.succ_le_succ (Nat.zero_le _)
  | retry _ _ ih => exact Nat.succ_le_succ ih

/-- What tries come to is what their last one has come to; if that one has failed, there was none
to spare. -/
theorem Tried.getLast? (h : Tried env patience t spare number w made out) :
    ∃ x, made.getLast? = some x ∧ x.number + 1 = number + made.length ∧
      out = x.ending.map (fun e => (⟨x.number, e.1⟩, e.2)) ∧
      ∀ failure after, x.ending = some (.error failure, after) → made.length = spare + 1 := by
  induction h with
  | @last spare number w ending _ hl =>
      refine ⟨_, rfl, rfl, rfl, ?_⟩
      intro failure after hf
      rw [hl failure after hf]
      rfl
  | @retry spare number w after failure made out _ hrest ih =>
      obtain ⟨x, hx, hnum, hout, hfull⟩ := ih
      refine ⟨x, ?_, ?_, hout, ?_⟩
      · rw [List.getLast?_cons, hx]
        rfl
      · rw [List.length_cons]
        omega
      · intro failure after hf
        rw [List.length_cons, hfull failure after hf]

theorem Tried.events {o : Outcome} {v : World ι σ}
    (h : Tried env patience t spare number w made (some (o, v))) :
    ∃ es, v.events = w.events ++ es ∧
      es.filterMap Event.fired? = (if t.trigger.isSome then made.map Try.number else []) ∧
      es.countP Event.beginsWait = made.length ∧ es.filterMap Event.hooked? = [] := by
  generalize ho : some (o, v) = out at h
  induction h with
  | @last spare number w ending he _ =>
      obtain ⟨⟨res, after⟩, hend, hov⟩ := Option.map_eq_some_iff.mp ho.symm
      obtain ⟨-, rfl⟩ := Prod.mk.inj hov
      exact counts_attempt (he.trans hend)
  | @retry spare number w after failure made out he _ ih =>
      obtain ⟨es, hes, hfires, hwaits, hhooks⟩ := counts_attempt he
      obtain ⟨fs, hfs, hfires', hwaits', hhooks'⟩ := ih ho
      refine ⟨es ++ .noted (.tryFailed number t.options.tries failure.reason.text) :: fs, ?_, ?_,
        ?_, ?_⟩
      · rw [hfs, retrying, World.events_note, hes]
        simp
      · rw [List.filterMap_append, hfires, List.filterMap_cons_none rfl, hfires']
        cases t.trigger <;> rfl
      · rw [List.countP_append, hwaits, List.countP_cons_of_neg (by simp [Event.beginsWait]),
          hwaits', List.length_cons, Nat.add_comm]
      · rw [List.filterMap_append, hhooks, List.filterMap_cons_none rfl, hhooks']
        rfl

theorem not_succeeded_of_isChain {made : List (Try ι σ)} (h : made.IsChain (Follows t)) :
    ∀ x ∈ made.dropLast, ¬ x.Succeeded := by
  induction made with
  | nil => exact fun x hx => absurd hx List.not_mem_nil
  | cons x rest ih =>
      cases rest with
      | nil => exact fun y hy => absurd hy List.not_mem_nil
      | cons y rest =>
          obtain ⟨⟨failure, after, hend, -⟩, hrest⟩ := List.isChain_cons_cons.mp h
          intro z hz
          rcases List.mem_cons.mp hz with rfl | hz
          · rintro ⟨report, after', hok⟩
            rw [hend] at hok
            exact absurd hok (by simp)
          · exact ih hrest z hz

end

/-! ## The ledger of a run -/

/-- The tries of a run that begins in the given world; there are none if it is refused, or if its
facility is in the wrong phase. -/
def ledger (env : Environment ι σ) (patience : Nat) (t : Transition ι σ) (w : World ι σ) :
    List (Try ι σ) :=
  if t.refusal?.isNone ∧ t.facility.phase = t.kind.before then
    triesFrom env patience (t.begun w) (t.options.tries - 1) 1 (t.started w)
  else []

/-- What the tries of a run look like that begins in the given world. -/
structure Tries (env : Environment ι σ) (patience : Nat) (t : Transition ι σ) (w : World ι σ)
    (made : List (Try ι σ)) : Prop where
  numbers : made.map Try.number = List.range' 1 made.length
  /-- The first one begins where the facility has just been marked. -/
  begins : made.head?.map Try.before = some (t.started w)
  /-- Each one fires the trigger and then waits once, for all conditions and the full timeout. -/
  waits : ∀ x ∈ made, x.ending =
    Wait.run env patience t.waits t.options.timeout (t.waiting x.number x.before)
  /-- The scene in which it waits is the one that the trigger has left, when it was fired where the
  try has begun. -/
  fired : ∀ f, t.trigger = some f → ∀ x ∈ made,
    (t.waiting x.number x.before).scene = x.before.scene.after (f x.number x.before.scene)
  /-- Where there is no trigger it is the one in which the try has begun. -/
  unfired : t.trigger = none → ∀ x ∈ made,
    (t.waiting x.number x.before).scene = x.before.scene
  /-- Each one but the first begins where the one before it has failed. -/
  follows : made.IsChain (Follows t)
  /-- There are no more of them than are allowed. -/
  within : made.length ≤ t.options.tries

theorem one_le_tries {o : Options} (h : o.isValid = true) : 1 ≤ o.tries := by
  refine Nat.pos_of_ne_zero fun h0 => ?_
  have hmem : OptionsViolation.noTries ∈ o.violations := Options.mem_violations_noTries_iff.2 h0
  rw [List.isEmpty_iff.1 h] at hmem
  exact absurd hmem List.not_mem_nil

section
variable {env : Environment ι σ} {patience : Nat} {t : Transition ι σ} {w : World ι σ}

theorem ledger_eq (h : t.refusal? = none) (hp : t.facility.phase = t.kind.before) :
    ledger env patience t w =
      triesFrom env patience (t.begun w) (t.options.tries - 1) 1 (t.started w) := by
  rw [ledger, if_pos ⟨by rw [h]; rfl, hp⟩]

/-- A run that is refused, or in the wrong phase, makes no try. -/
theorem ledger_eq_nil (h : ¬ (t.refusal? = none ∧ t.facility.phase = t.kind.before)) :
    ledger env patience t w = [] := by
  rw [ledger, if_neg]
  rintro ⟨hnone, hp⟩
  exact h ⟨Option.isNone_iff_eq_none.1 hnone, hp⟩

theorem tries_ledger (h : t.refusal? = none) (hp : t.facility.phase = t.kind.before) :
    Tries env patience t w (ledger env patience t w) := by
  have hmade := tried env patience (t.begun w) (t.options.tries - 1) 1 (t.started w)
  rw [ledger_eq h hp]
  refine ⟨hmade.numbers, ?_, hmade.ending, ?_, ?_, hmade.isChain, ?_⟩
  · obtain ⟨ending, hhead⟩ := hmade.head?
    rw [hhead]
    rfl
  · exact fun f hf x _ => scene_waiting_of_trigger hf x.number x.before
  · exact fun hf x _ => scene_waiting_of_no_trigger hf x.number x.before
  · have hone := one_le_tries (of_refusal?_eq_none h).2
    have hle := hmade.length_le
    omega

/-- A run in the right phase that returns has closed with what its last try has come to. -/
theorem closing_of_execute {r : Run ι σ} (h : t.refusal? = none)
    (hp : t.facility.phase = t.kind.before) (hr : execute env patience t w = some r) :
    ∃ o v, attempts env patience (t.begun w) (t.options.tries - 1) 1 (t.started w) = some (o, v) ∧
      r = t.closing w o v := by
  rw [execute_of_right_phase h hp] at hr
  obtain ⟨⟨o, v⟩, hov, rfl⟩ := Option.map_eq_some_iff.mp hr
  exact ⟨o, v, hov, rfl⟩

/-- A run that succeeds was not refused and was in the right phase, and its report carries that of
the last wait. -/
theorem closing_of_ok {r : Run ι σ} {report : Report} (hr : execute env patience t w = some r)
    (hok : r.result = .ok report) :
    t.refusal? = none ∧ t.facility.phase = t.kind.before ∧
      ∃ o v, attempts env patience (t.begun w) (t.options.tries - 1) 1 (t.started w) = some (o, v) ∧
        r = t.closing w o v ∧ o.result = .ok report.wait := by
  cases h : t.refusal? with
  | some e =>
      rw [execute_of_refusal h] at hr
      obtain rfl := Option.some.inj hr
      exact absurd hok (by simp)
  | none =>
      by_cases hp : t.facility.phase = t.kind.before
      · obtain ⟨o, v, hov, rfl⟩ := closing_of_execute h hp hr
        refine ⟨rfl, hp, o, v, hov, rfl, ?_⟩
        cases hres : o.result with
        | ok wait =>
            simp only [closing, hres, Except.ok.injEq] at hok
            rw [← hok]
        | error failure =>
            simp only [closing, hres] at hok
            exact absurd hok (by simp)
      · rw [execute_of_wrong_phase h hp] at hr
        obtain rfl := Option.some.inj hr
        exact absurd hok (by simp)

/-- The last try of a run that returns, and what it has come to. -/
theorem getLast?_ledger {o : Outcome} {v : World ι σ} (h : t.refusal? = none)
    (hp : t.facility.phase = t.kind.before)
    (hov : attempts env patience (t.begun w) (t.options.tries - 1) 1 (t.started w) =
      some (o, v)) :
    ∃ x, (ledger env patience t w).getLast? = some x ∧ x.ending = some (o.result, v) ∧
      o.attempts = (ledger env patience t w).length ∧
      ∀ failure, o.result = .error failure →
        (ledger env patience t w).length = t.options.tries := by
  have hmade := tried env patience (t.begun w) (t.options.tries - 1) 1 (t.started w)
  rw [ledger_eq h hp]
  obtain ⟨x, hx, hnum, hout, hfull⟩ := hmade.getLast?
  obtain ⟨⟨result, after⟩, hend, hpair⟩ := Option.map_eq_some_iff.mp (hout.symm.trans hov)
  obtain ⟨rfl, rfl⟩ := Prod.mk.inj hpair
  refine ⟨x, hx, hend, ?_, ?_⟩
  · show x.number = _
    omega
  · intro failure hf
    have hone := one_le_tries (of_refusal?_eq_none h).2
    have hlen := hfull failure after (hend.trans (congrArg (fun q => some (q, after)) hf))
    omega

theorem events_tries {o : Outcome} {v : World ι σ} (h : t.refusal? = none)
    (hp : t.facility.phase = t.kind.before)
    (hov : attempts env patience (t.begun w) (t.options.tries - 1) 1 (t.started w) =
      some (o, v)) :
    ∃ es, v.events = (t.started w).events ++ es ∧
      es.filterMap Event.fired? =
        (if t.trigger.isSome then List.range' 1 (ledger env patience t w).length else []) ∧
      es.countP Event.beginsWait = (ledger env patience t w).length ∧
      es.filterMap Event.hooked? = [] := by
  have hmade := tried env patience (t.begun w) (t.options.tries - 1) 1 (t.started w)
  rw [hov] at hmade
  obtain ⟨es, he, hfires, hwaits, hhooks⟩ := hmade.events
  rw [hmade.numbers] at hfires
  rw [ledger_eq h hp]
  exact ⟨es, he, hfires, hwaits, hhooks⟩

theorem execute_isSome_of_deadlines (h : t.refusal? = none)
    (hp : t.facility.phase = t.kind.before)
    (hd : ∀ x ∈ ledger env patience t w,
      (Clock.deadline? (x.before.fire t.trigger x.number).now t.options.timeout).isSome = true) :
    (execute env patience t w).isSome = true := by
  have hmade := tried env patience (t.begun w) (t.options.tries - 1) 1 (t.started w)
  obtain ⟨x, hx, -, hout, -⟩ := hmade.getLast?
  rw [← ledger_eq h hp] at hx
  have hmem : x ∈ ledger env patience t w := List.mem_of_getLast? hx
  have hrun : x.ending.isSome = true := by
    rw [(tries_ledger h hp).waits x hmem]
    exact Wait.run_isSome_of_deadline (hd x hmem)
  rw [execute_of_right_phase h hp, hout, Option.isSome_map, Option.isSome_map]
  exact hrun

/-- **A run makes its tries one after another until one succeeds, or none is left.**  Each of them
waits in the scene that its trigger has left.  The last entry of the ledger decides: its number is
the number of tries that the report or the error gives, and its wait is the one that they carry.
Nothing of a try comes after it.  The number of tries that are allowed is any; a single one, which
is made on its own, is no exception. -/
theorem execute_makes_tries (env : Environment ι σ) (patience : Nat) (w : World ι σ)
    (hs : t.stage = .notStarted) (hv : t.options.isValid = true)
    (hp : t.facility.phase = t.kind.before) :
    Tries env patience t w (ledger env patience t w) ∧
    (∀ x ∈ (ledger env patience t w).dropLast, ¬ x.Succeeded) ∧
    ((∀ x ∈ ledger env patience t w,
        (Clock.deadline? (x.before.fire t.trigger x.number).now t.options.timeout).isSome = true) →
      (execute env patience t w).isSome = true) ∧
    ∀ r, execute env patience t w = some r →
      ∃ x result after, (ledger env patience t w).getLast? = some x ∧
        x.ending = some (result, after) ∧
        (match result with
          | .ok report => ∃ elapsed, r.result =
              .ok ⟨t.id, t.kind, t.facility.name, (ledger env patience t w).length, elapsed, report⟩
          | .error failure => (ledger env patience t w).length = t.options.tries ∧
              r.result = .error (.unmet t.kind t.facility.text t.options.tries failure)) ∧
        World.Adds Event.Quiet after r.world ∧
        ∃ es, r.world.events = w.events ++ es ∧
          es.filterMap Event.fired? =
            (if t.trigger.isSome then List.range' 1 (ledger env patience t w).length else []) ∧
          es.countP Event.beginsWait = (ledger env patience t w).length := by
  have h := refusal?_eq_none hs hv
  have hledger : Tries env patience t w (ledger env patience t w) := tries_ledger h hp
  refine ⟨hledger, not_succeeded_of_isChain hledger.follows, execute_isSome_of_deadlines h hp, ?_⟩
  intro r hr
  obtain ⟨o, v, hov, rfl⟩ := closing_of_execute h hp hr
  obtain ⟨x, hx, hend, hnum, hfull⟩ := getLast?_ledger h hp hov
  obtain ⟨es, he, hfires, hwaits, -⟩ := events_tries h hp hov
  refine ⟨x, o.result, v, hx, hend, ?_, quiet_closing t w v o, ?_⟩
  · rw [closing]
    cases hres : o.result with
    | ok report =>
        rw [← hnum]
        exact ⟨_, rfl⟩
    | error failure =>
        have hall := hfull failure hres
        rw [← hall, ← hnum]
        exact ⟨rfl, rfl⟩
  · -- What stands before the tries and after them fires no trigger and begins no wait.
    obtain ⟨tail, htail, hquiet⟩ := quiet_closing t w v o
    have hf : tail.filterMap Event.fired? = [] :=
      List.filterMap_eq_nil_iff.mpr fun e he => (hquiet e he).1
    have hb : tail.countP Event.beginsWait = 0 :=
      List.countP_eq_zero.mpr fun e he => by simp [(hquiet e he).2.2]
    refine ⟨_, by rw [htail, he, events_started, List.append_assoc, List.append_assoc], ?_, ?_⟩
    · rw [List.filterMap_append, List.filterMap_append, hfires, hf, List.append_nil]
      rfl
    · rw [List.countP_append, List.countP_append, hwaits, hb, Nat.add_zero]
      exact Nat.zero_add _

end

/-- A way out of a hall with one door, knocked at before each of at most three tries. -/
def knocking : Transition Unit Nat :=
  { idle "knock" .checkOut (.active "hall") (.pause .default) with
    options := ⟨3, .ofMillis 50⟩
    trigger := some fun _ s => .idle s ()
    required := [()] }

/-- A door that opens after two checks. -/
def slowDoor : Environment Unit Nat :=
  .reciting fun n => if n < 2 then .notFulfilled else .fulfilled

/-- The first try makes both checks before the deadline, and the second one succeeds: the third is
not made. -/
theorem knocking_succeeds_at_second_try :
    ∃ r, execute slowDoor 0 knocking .fresh = some r ∧
      (ledger slowDoor 0 knocking .fresh).length = 2 ∧
      (∃ elapsed report, r.result = .ok ⟨"knock", .checkOut, "hall", 2, elapsed, report⟩) ∧
      ∃ es, r.world.events = World.fresh.events ++ es ∧ es.filterMap Event.fired? = [1, 2] := by
  obtain ⟨-, -, -, hrun⟩ := execute_makes_tries (t := knocking) slowDoor 0 .fresh rfl rfl rfl
  have hsome : (execute slowDoor 0 knocking .fresh).isSome = true := rfl
  have htwo : (ledger slowDoor 0 knocking .fresh).length = 2 := rfl
  obtain ⟨r, hr⟩ := Option.isSome_iff_exists.1 hsome
  obtain ⟨x, result, after, -, -, hres, -, es, hes, hfires, -⟩ := hrun r hr
  rw [htwo] at hres hfires
  refine ⟨r, hr, htwo, ?_, es, hes, hfires⟩
  cases result with
  | ok report =>
      obtain ⟨elapsed, h⟩ := hres
      exact ⟨elapsed, report, h⟩
  | error failure => exact absurd hres.1 (by decide)

end Transition
end Passage
