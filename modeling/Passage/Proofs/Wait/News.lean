/-
# What a wait has to tell

A wait notes when a condition's status has changed.  The status that counts
is the recorded one: the answer of the check, with a note if the condition
has just stopped to hold.  It is compared with the one that was recorded
before, not with the answer of that check, and the times of both are left
out.

`recordAt` gives the recorded statuses of a wait from the answers of its
checks alone, and `noticeAt` what there is to tell of each check.  The
events of a wait are then known one by one (`events_run`): pass after pass
it makes its checks, each with its notice right behind it if there is one,
and it sleeps between the passes.

The text of a status says all but its time (`Status.gate_eq_iff`).  So the
texts that are noted for a wait are those of its recorded statuses, with
repetitions left out (`gates_of_notices`).  The main statement is
`changes_are_told_once`.
-/
import Passage.Proofs.Wait.Deeds
import Passage.Proofs.Wait.Memory
import Passage.Proofs.Wait.Spending
import Mathlib.Data.List.Destutter

namespace Passage
variable {ι σ : Type}

/-! ## Texts of statuses -/

namespace Status

theorem toList_gate (s : Status) :
    s.gate.toList = s.outcome.label.toList ++
      (s.message.map fun m => ' ' :: '|' :: ' ' :: m.toList).getD [] := by
  obtain ⟨outcome, message, timestamp⟩ := s
  cases message with
  | none => simp [gate]
  | some m => simp [gate, String.toList_append]

/-- The labels begin with different letters. -/
theorem outcome_of_gate_eq {s t : Status} (h : s.gate = t.gate) : s.outcome = t.outcome := by
  have hlist := congrArg String.toList h
  rw [toList_gate, toList_gate] at hlist
  cases hs : s.outcome <;> cases ht : t.outcome <;> simp_all [Outcome.label]

theorem message_of_tail_eq {m m' : Option String}
    (h : (m.map fun m => ' ' :: '|' :: ' ' :: m.toList).getD [] =
      (m'.map fun m => ' ' :: '|' :: ' ' :: m.toList).getD []) : m = m' := by
  cases m with
  | none =>
      cases m' with
      | none => rfl
      | some _ => exact absurd h (by simp)
  | some a =>
      cases m' with
      | none => exact absurd h (by simp)
      | some b =>
          have hlist : a.toList = b.toList := by simpa using h
          exact congrArg some (String.ext hlist)

/-- The text of a status says all but its time. -/
theorem gate_eq_iff {s t : Status} : s.gate = t.gate ↔ s.untimed = t.untimed := by
  constructor
  · intro h
    have hout := outcome_of_gate_eq h
    have hlist := congrArg String.toList h
    rw [toList_gate, toList_gate, hout] at hlist
    have hrest := List.append_cancel_left hlist
    have hmessage : s.message = t.message := message_of_tail_eq hrest
    rw [untimed, untimed, hout, hmessage]
  · intro h
    have hgate : ∀ u : Status, u.gate = u.untimed.gate := fun _ => rfl
    rw [hgate s, h, ← hgate t]

end Status

/-- The text of the status that a notice tells of. -/
def Notice.gate? : Notice → Option String
  | statusChanged _ _ gate _ => some gate
  | _ => none

/-! ## Lists without repetitions -/

section
variable {α : Type} [DecidableEq α]

theorem destutter'_concat (l : List α) (a b : α) :
    (l ++ [b]).destutter' (· ≠ ·) a =
      l.destutter' (· ≠ ·) a ++ if (a :: l).getLast? = some b then [] else [b] := by
  induction l generalizing a with
  | nil => by_cases h : a = b <;> simp [h]
  | cons c l ih =>
      rw [List.getLast?_cons_cons]
      by_cases h : a = c
      · subst h
        rw [List.cons_append, List.destutter'_cons_neg _ (by simp),
          List.destutter'_cons_neg _ (by simp), ih]
      · rw [List.cons_append, List.destutter'_cons_pos _ h, List.destutter'_cons_pos _ h, ih]
        rfl

/-- One more element is left out if it is the last one once more. -/
theorem destutter_concat (l : List α) (b : α) :
    (l ++ [b]).destutter (· ≠ ·) =
      l.destutter (· ≠ ·) ++ if l.getLast? = some b then [] else [b] := by
  cases l with
  | nil => rfl
  | cons a l => exact destutter'_concat l a b

end

namespace Wait

/-! ## Recorded statuses -/

/-- The status that is recorded when the checks of a condition have answered as given: the last
answer, with a note if the condition has just stopped to hold. -/
def recorded (ss : List Status) : Option Status :=
  ss.getLast?.map fun s =>
    if (steps ss).getLast?.any regresses then
      { s with message := some (regressedMessage s.message ((steps ss).countP regresses)) }
    else s

/-- The status that is recorded of the wait at the given place after its first `n` checks. -/
def recordAt (env : Environment ι σ) (waits : List (Wait ι)) (timeout : Duration) (s : Scene σ)
    (place n : Nat) : Option Status :=
  recorded ((columnOf env waits timeout s place n).map Sighting.status)

theorem recorded_of_accounts {start : Duration} {xs : List (Sighting σ)} {p : Progress}
    (h : Accounts start xs p) : recorded (xs.map Sighting.status) = some p.last := by
  obtain ⟨x, hx, hout, htime, hmessage⟩ := h.last
  have hlast : (xs.map Sighting.status).getLast? = some x.status := by
    rw [List.getLast?_map, hx]
    rfl
  rw [recorded, hlast, Option.map_some, ← h.regressions]
  obtain ⟨last, checks, firstFulfilledAfter, regressions⟩ := p
  obtain ⟨outcome, message, timestamp⟩ := last
  simp only at hout htime hmessage
  subst hout htime hmessage
  split
  · rfl
  · rfl

theorem isNews_iff {before : Option Progress} {after : Progress} :
    Progress.isNews before after = false ↔
      (before.map Progress.last).map Status.untimed = some after.last.untimed := by
  cases before with
  | none => simp [Progress.isNews]
  | some p => simp [Progress.isNews, Status.untimed]

/-! ## The events of a pass -/

/-- What there is to tell of a check that has shown `y`, by what is remembered. -/
def newsFrom (env : Environment ι σ) (start : Duration) (x : Wait ι × Option Progress)
    (y : Sighting σ) : Option Notice :=
  let elapsed := y.scene.now - start
  let after := Progress.next x.2 y.status elapsed
  if Progress.isNews x.2 after then
    some (.statusChanged x.1.origin (env.describe x.1.condition y.scene) after.last.gate elapsed)
  else none

/-- The events of a check: the check, and behind it what there is to tell. -/
def withNews (c : ι) (n : Option Notice) : List (Event ι) := .checked c :: n.toList.map .noted

theorem events_noteAny (w : World ι σ) (n : Option Notice) :
    (w.noteAny n).events = w.events ++ n.toList.map .noted := by
  cases n with
  | none => exact (List.append_nil _).symm
  | some n => exact World.events_note w n

theorem events_sample (env : Environment ι σ) (start : Duration) (x : Wait ι)
    (before : Option Progress) (w : World ι σ) :
    (sample env start x before w).2.events = w.events ++ withNews x.condition
      (newsFrom env start (x, before) ⟨(env.check x.condition w.scene).value,
        w.scene.after (env.check x.condition w.scene)⟩) := by
  rw [sample_eq, events_noteAny]
  show (w.record (.checked x.condition)).events ++ _ = _
  rw [World.events_record, List.append_assoc]
  rfl

/-- A pass adds the events of its checks, in order. -/
theorem events_pass (env : Environment ι σ) (start : Duration)
    (l : List (Wait ι × Option Progress)) (w : World ι σ) :
    (pass env start l w).world.events = w.events ++
      (List.zipWith (fun x y => withNews x.1.condition (newsFrom env start x y)) l
        (survey env (conditionsOf l) w.scene).sightings).flatten := by
  induction l generalizing w with
  | nil => exact (List.append_nil _).symm
  | cons head rest ih =>
      obtain ⟨x, before⟩ := head
      show (pass env start rest (sample env start x before w).2).world.events = _
      rw [ih, scene_sample, events_sample, List.append_assoc]
      rfl

/-! ## Notices -/

section
variable (env : Environment ι σ) (waits : List (Wait ι)) (timeout : Duration)

/-- What there is to tell of the check with the number `k`, counted from 0, of the wait at the given
place: something if the recorded status, its time apart, is not the one before. -/
def noticeAt (s : Scene σ) (place k : Nat) : Option Notice := do
  let x ← waits[place]?
  let y ← (roundOf env waits timeout s k).sightings[place]?
  let r ← recordAt env waits timeout s place (k + 1)
  if (recordAt env waits timeout s place k).map Status.untimed = some r.untimed then none
  else some (.statusChanged x.origin (env.describe x.condition y.scene) r.gate
    (y.scene.now - s.now))

/-- The events of the pass with the number `k`, counted from 0: the check of each wait, with what
there is to tell of it. -/
def passEvents (s : Scene σ) (k : Nat) : List (Event ι) :=
  waits.zipIdx.flatMap fun x => withNews x.1.condition (noticeAt env waits timeout s x.2 k)

/-- The events of `n` passes and the sleeps behind them. -/
def journal (s : Scene σ) (n : Nat) : List (Event ι) :=
  (List.range n).flatMap fun k => passEvents env waits timeout s k ++
    [.slept ((Budget.mk s.now timeout).napAt (roundOf env waits timeout s k).scene.now).length]

/-- The waits as the pass with the given number finds them. -/
def given (w : World ι σ) : Nat → List (Wait ι × Option Progress)
  | 0 => waits.map fun x => (x, none)
  | n + 1 => carry (passOf env waits timeout w n)

/-- The world in which the pass with the given number begins. -/
def ready (w : World ι σ) : Nat → World ι σ
  | 0 => w.note (.waitBegun waits.length timeout)
  | n + 1 => rest ⟨w.now, timeout⟩ (passOf env waits timeout w n).world

end

section
variable {env : Environment ι σ} {waits : List (Wait ι)} {timeout : Duration} {w : World ι σ}

theorem passOf_eq_pass (n : Nat) : passOf env waits timeout w n =
    pass env w.now (given env waits timeout w n) (ready env waits timeout w n) := by
  cases n with
  | zero => rfl
  | succ n => exact passAt_succ env ⟨w.now, timeout⟩ n _ _

theorem conditionsOf_given (n : Nat) :
    conditionsOf (given env waits timeout w n) = waits.map Wait.condition := by
  cases n with
  | zero => exact conditionsOf_fresh waits
  | succ n => exact (conditionsOf_carry_passAt env _ _ _ n).trans (conditionsOf_fresh waits)

theorem survey_ready (n : Nat) :
    survey env (waits.map Wait.condition) (ready env waits timeout w n).scene =
      roundOf env waits timeout w.scene n := by
  cases n with
  | zero => rfl
  | succ n =>
      rw [ready, scene_rest, (passOf_shows env waits timeout w n).scene]
      exact (roundAt_succ env _ _ _ n).symm

variable (env timeout w) in
/-- What is remembered of a wait after a pass is what is recorded of its checks so far. -/
theorem exists_watched {place : Nat} {x : Wait ι} (hx : waits[place]? = some x) (n : Nat) :
    ∃ p, (passOf env waits timeout w n).watched[place]? = some (x, p) ∧
      recordAt env waits timeout w.scene place (n + 1) = some p.last := by
  have hfresh : (waits.map fun x => (x, (none : Option Progress)))[place]? = some (x, none) := by
    rw [List.getElem?_map, hx]
    rfl
  obtain ⟨p, hp, hacc⟩ := accounts_passAt env ⟨w.now, timeout⟩
    (w.note (.waitBegun waits.length timeout)) hfresh n
  rw [conditionsOf_fresh] at hacc
  exact ⟨p, hp, recorded_of_accounts hacc⟩

variable (env timeout w) in
/-- The next pass begins with what was remembered after the one before. -/
theorem exists_given {place : Nat} {x : Wait ι} (hx : waits[place]? = some x) (n : Nat) :
    ∃ before, (given env waits timeout w n)[place]? = some (x, before) ∧
      before.map Progress.last = recordAt env waits timeout w.scene place n := by
  cases n with
  | zero =>
      refine ⟨none, ?_, rfl⟩
      rw [given, List.getElem?_map, hx]
      rfl
  | succ n =>
      obtain ⟨p, hp, hrecord⟩ := exists_watched env timeout w hx n
      refine ⟨some p, ?_, hrecord.symm⟩
      rw [given, carry, List.getElem?_map, hp]
      rfl

variable (env timeout w) in
theorem exists_sighting {place : Nat} {x : Wait ι} (hx : waits[place]? = some x) (n : Nat) :
    ∃ y, (roundOf env waits timeout w.scene n).sightings[place]? = some y := by
  obtain ⟨hlt, -⟩ := List.getElem?_eq_some_iff.1 hx
  have hlt' : place < (roundOf env waits timeout w.scene n).sightings.length := by
    rw [roundOf, length_sightings_roundAt, List.length_map]
    exact hlt
  exact ⟨_, List.getElem?_eq_getElem hlt'⟩

/-- What is recorded of a check is what is remembered after it. -/
theorem recordAt_succ {place n : Nat} {x : Wait ι} {before : Option Progress} {y : Sighting σ}
    (hx : waits[place]? = some x)
    (hgiven : (given env waits timeout w n)[place]? = some (x, before))
    (hy : (roundOf env waits timeout w.scene n).sightings[place]? = some y) :
    recordAt env waits timeout w.scene place (n + 1) =
      some (Progress.next before y.status (y.scene.now - w.now)).last := by
  obtain ⟨p, hp, hrecord⟩ := exists_watched env timeout w hx n
  obtain ⟨y', hy', hwatched⟩ :=
    getElem?_watched_pass env w.now (ready env waits timeout w n) hgiven
  rw [conditionsOf_given, survey_ready, hy] at hy'
  obtain rfl := Option.some.inj hy'
  rw [passOf_eq_pass, hwatched] at hp
  obtain ⟨-, rfl⟩ := Prod.mk.inj (Option.some.inj hp)
  exact hrecord

/-- What there is to tell by what is remembered is what there is to tell by the answers. -/
theorem newsFrom_given {place n : Nat} {x : Wait ι} {before : Option Progress} {y : Sighting σ}
    (hx : waits[place]? = some x)
    (hgiven : (given env waits timeout w n)[place]? = some (x, before))
    (hbefore : before.map Progress.last = recordAt env waits timeout w.scene place n)
    (hy : (roundOf env waits timeout w.scene n).sightings[place]? = some y) :
    newsFrom env w.now (x, before) y = noticeAt env waits timeout w.scene place n := by
  have hrecord := recordAt_succ hx hgiven hy
  simp only [noticeAt, hx, hy, hrecord, Option.bind_eq_bind, Option.bind_some, ← hbefore]
  rw [newsFrom]
  cases hnews : Progress.isNews before (.next before y.status (y.scene.now - w.now)) with
  | false =>
      rw [if_pos (isNews_iff.1 hnews)]
      rfl
  | true =>
      rw [if_neg fun hsame => absurd (isNews_iff.2 hsame) (by simp [hnews])]
      rfl

/-! ## The events of a wait -/

theorem events_passOf (n : Nat) : (passOf env waits timeout w n).world.events =
    (ready env waits timeout w n).events ++ passEvents env waits timeout w.scene n := by
  rw [passOf_eq_pass, events_pass, conditionsOf_given, survey_ready, passEvents, List.flatMap_def]
  -- Place by place: what is remembered there is what is recorded, so the notices are the same.
  refine congrArg (fun ess => (ready env waits timeout w n).events ++ List.flatten ess) ?_
  refine List.ext_getElem? fun place => ?_
  rw [List.getElem?_zipWith, List.getElem?_map, List.getElem?_zipIdx]
  cases hx : waits[place]? with
  | none =>
      have hlength := congrArg List.length
        (conditionsOf_given n : conditionsOf (given env waits timeout w n) = _)
      rw [conditionsOf, List.length_map, List.length_map] at hlength
      have hgiven : (given env waits timeout w n)[place]? = none := by
        rw [List.getElem?_eq_none_iff, hlength]
        exact List.getElem?_eq_none_iff.1 hx
      rw [hgiven]
      rfl
  | some x =>
      obtain ⟨before, hgiven, hbefore⟩ := exists_given env timeout w hx n
      obtain ⟨y, hy⟩ := exists_sighting env timeout w hx n
      rw [hgiven, hy]
      simp only [Option.map_some, Nat.zero_add]
      rw [newsFrom_given hx hgiven hbefore hy]

theorem events_rest {b : Budget} {v : World ι σ} {d : Duration} (h : b.pause? v.now = some d) :
    (rest b v).events = v.events ++ [.slept (b.napAt v.now).length] := by
  rw [rest_of_pause h, World.sleep, if_neg (Budget.pause?_pos h), World.events_record,
    Budget.napAt, h]
  rfl

/-- As long as no round decides, a pass begins behind the journal of those before it. -/
theorem events_ready {n : Nat}
    (hgo : ∀ m < n, ¬ (roundOf env waits timeout w.scene m).Decides ⟨w.now, timeout⟩) :
    (ready env waits timeout w n).events =
      w.events ++ .noted (.waitBegun waits.length timeout) ::
        journal env waits timeout w.scene n := by
  induction n with
  | zero => exact World.events_note w _
  | succ n ih =>
      have hscene := (passOf_shows env waits timeout w n).scene
      obtain ⟨d, hd⟩ := exists_pause_of_not_decides (hgo n (Nat.lt_succ_self n))
      have hnow : (passOf env waits timeout w n).world.now =
          (roundOf env waits timeout w.scene n).scene.now := congrArg Scene.now hscene
      rw [← hnow] at hd
      rw [ready, events_rest hd, events_passOf, ih fun m hm => hgo m (Nat.lt_succ_of_lt hm),
        journal, journal, List.range_succ, List.flatMap_append, List.flatMap_singleton, hnow]
      simp only [List.append_assoc, List.cons_append]
      rfl

/-- The events of a wait up to the end of a pass. -/
theorem events_passOf_of_go {n : Nat}
    (hgo : ∀ m < n, ¬ (roundOf env waits timeout w.scene m).Decides ⟨w.now, timeout⟩) :
    (passOf env waits timeout w n).world.events =
      w.events ++ .noted (.waitBegun waits.length timeout) ::
        (journal env waits timeout w.scene n ++ passEvents env waits timeout w.scene n) := by
  rw [events_passOf, events_ready hgo, List.append_assoc, List.cons_append]

/-- What is said at the end of a wait. -/
def Result.lastWords : Result → List (Event ι)
  | .ok report => [.noted (.allFulfilled report.passes report.elapsed)]
  | .error _ => []

theorem events_conclude {b : Budget} {passes : Nat} {p : Pass ι σ} {res : Result}
    {v : World ι σ} (h : conclude env b passes p = some (res, v)) :
    v.events = p.world.events ++ res.lastWords := by
  rcases conclude_cases h with ⟨_, -, rfl, rfl⟩ | ⟨-, rfl, rfl⟩
  · exact (List.append_nil _).symm
  · exact World.events_note _ _

/-- All events of a wait that returns. -/
theorem events_run {patience : Nat} {w' : World ι σ} {res : Result}
    (h : run env patience waits timeout w = some (res, w')) :
    w'.events = w.events ++ .noted (.waitBegun waits.length timeout) ::
      (journal env waits timeout w.scene (res.passes - 1) ++
        passEvents env waits timeout w.scene (res.passes - 1) ++ res.lastWords) := by
  obtain ⟨n, -, hgo, hend⟩ := run_eq_some_iff.1 h
  have hpasses := ((passOf_shows env waits timeout w n).of_conclude hend).2.1
  rw [events_conclude hend, events_passOf_of_go hgo, hpasses, Nat.add_sub_cancel,
    List.append_assoc, List.cons_append]

/-! ## One wait among the others -/

variable (env waits timeout) in
/-- The recorded statuses of the wait at the given place, for each of its first `n` checks. -/
def recordsOf (s : Scene σ) (place n : Nat) : List Status :=
  (List.range n).filterMap fun k => recordAt env waits timeout s place (k + 1)

variable (env waits timeout) in
/-- All that there is to tell of the wait at the given place in its first `n` checks. -/
def noticesOf (s : Scene σ) (place n : Nat) : List Notice :=
  (List.range n).filterMap (noticeAt env waits timeout s place)

section
variable {place : Nat} {x : Wait ι}

variable (env timeout w) in
/-- One more check records one more status. -/
theorem exists_record (hx : waits[place]? = some x) (n : Nat) :
    ∃ y r, (roundOf env waits timeout w.scene n).sightings[place]? = some y ∧
      recordAt env waits timeout w.scene place (n + 1) = some r ∧
      recordsOf env waits timeout w.scene place (n + 1) =
        recordsOf env waits timeout w.scene place n ++ [r] := by
  obtain ⟨before, hgiven, -⟩ := exists_given env timeout w hx n
  obtain ⟨y, hy⟩ := exists_sighting env timeout w hx n
  have hrecord := recordAt_succ hx hgiven hy
  refine ⟨y, _, hy, hrecord, ?_⟩
  rw [recordsOf, recordsOf, List.range_succ, List.filterMap_append]
  simp only [List.filterMap_cons, List.filterMap_nil, hrecord]

theorem length_recordsOf (hx : waits[place]? = some x) (n : Nat) :
    (recordsOf env waits timeout w.scene place n).length = n := by
  induction n with
  | zero => rfl
  | succ n ih =>
      obtain ⟨y, r, -, -, hrecords⟩ := exists_record env timeout w hx n
      rw [hrecords, List.length_append, ih]
      rfl

theorem getLast?_recordsOf (hx : waits[place]? = some x) (n : Nat) :
    (recordsOf env waits timeout w.scene place n).getLast? =
      recordAt env waits timeout w.scene place n := by
  cases n with
  | zero => rfl
  | succ n =>
      obtain ⟨y, r, -, hr, hrecords⟩ := exists_record env timeout w hx n
      rw [hrecords, List.getLast?_concat, hr]

theorem getElem?_recordsOf (hx : waits[place]? = some x) {k n : Nat} (hk : k < n) :
    (recordsOf env waits timeout w.scene place n)[k]? =
      recordAt env waits timeout w.scene place (k + 1) := by
  induction n with
  | zero => exact absurd hk (Nat.not_lt_zero k)
  | succ n ih =>
      obtain ⟨y, r, -, hr, hrecords⟩ := exists_record env timeout w hx n
      have hlength : (recordsOf env waits timeout w.scene place n).length = n :=
        length_recordsOf hx n
      rw [hrecords]
      rcases Nat.lt_succ_iff_lt_or_eq.1 hk with hlt | rfl
      · rw [List.getElem?_append_left (by rw [hlength]; exact hlt), ih hlt]
      · rw [List.getElem?_append_right (Nat.le_of_eq hlength), hlength, Nat.sub_self, hr]
        rfl

theorem noticeAt_eq (hx : waits[place]? = some x) {k : Nat} {y : Sighting σ} {r : Status}
    (hy : (roundOf env waits timeout w.scene k).sightings[place]? = some y)
    (hr : recordAt env waits timeout w.scene place (k + 1) = some r) :
    noticeAt env waits timeout w.scene place k =
      if (recordAt env waits timeout w.scene place k).map Status.untimed = some r.untimed then none
      else some (.statusChanged x.origin (env.describe x.condition y.scene) r.gate
        (y.scene.now - w.now)) := by
  simp only [noticeAt, hx, hy, hr, Option.bind_eq_bind, Option.bind_some]
  rfl

/-- The texts that are told of a wait are those of its recorded statuses, without repetitions. -/
theorem gates_of_notices (hx : waits[place]? = some x) (n : Nat) :
    (noticesOf env waits timeout w.scene place n).filterMap Notice.gate? =
      ((recordsOf env waits timeout w.scene place n).map Status.gate).destutter (· ≠ ·) := by
  -- One more check adds a text to both sides, or to neither: the texts of two statuses are the
  -- same if and only if the statuses are, times apart.
  induction n with
  | zero => rfl
  | succ n ih =>
      obtain ⟨y, r, hy, hr, hrecords⟩ := exists_record env timeout w hx n
      have hnotices : noticesOf env waits timeout w.scene place (n + 1) =
          noticesOf env waits timeout w.scene place n ++
            (noticeAt env waits timeout w.scene place n).toList := by
        rw [noticesOf, noticesOf, List.range_succ, List.filterMap_append]
        cases h : noticeAt env waits timeout w.scene place n <;> simp [h]
      have hlast : ((recordsOf env waits timeout w.scene place n).map Status.gate).getLast? =
          some r.gate ↔
            (recordAt env waits timeout w.scene place n).map Status.untimed = some r.untimed := by
        rw [List.getLast?_map, getLast?_recordsOf hx]
        cases recordAt env waits timeout w.scene place n with
        | none => simp
        | some r₀ => simp [Status.gate_eq_iff]
      rw [hnotices, List.filterMap_append, ih, hrecords, List.map_append, List.map_singleton,
        destutter_concat, noticeAt_eq hx hy hr]
      by_cases hsame : (recordAt env waits timeout w.scene place n).map Status.untimed =
          some r.untimed
      · rw [if_pos hsame, if_pos (hlast.2 hsame)]
        rfl
      · rw [if_neg hsame, if_neg fun h => hsame (hlast.1 h)]
        rfl

end

end

/-- **Changes are told once.**  With each check a wait records a status for the condition.  It tells
of the first one, and of each later one that differs from the status recorded before in more than
its time, right behind the check and with the time that has passed by then; and it tells of nothing
else.  So the texts that are told of a condition are those of its recorded statuses without
repetitions.  It is so for a wait that goes on, whatever its deadline, as for one that has ended. -/
theorem changes_are_told_once (env : Environment ι σ) (waits : List (Wait ι)) (timeout : Duration)
    (w : World ι σ) :
    (∀ n, (∀ m < n, ¬ (roundOf env waits timeout w.scene m).Decides ⟨w.now, timeout⟩) →
      (passOf env waits timeout w n).world.events =
        w.events ++ .noted (.waitBegun waits.length timeout) ::
          (journal env waits timeout w.scene n ++ passEvents env waits timeout w.scene n)) ∧
    (∀ patience res w', run env patience waits timeout w = some (res, w') →
      w'.events = w.events ++ .noted (.waitBegun waits.length timeout) ::
        (journal env waits timeout w.scene (res.passes - 1) ++
          passEvents env waits timeout w.scene (res.passes - 1) ++ res.lastWords)) ∧
    ∀ (place : Nat) (x : Wait ι) (n : Nat), waits[place]? = some x →
      (recordsOf env waits timeout w.scene place n).length = n ∧
      (∀ k < n, ∃ p y,
        (passOf env waits timeout w k).watched[place]? = some (x, p) ∧
        (recordsOf env waits timeout w.scene place n)[k]? = some p.last ∧
        (roundOf env waits timeout w.scene k).sightings[place]? = some y ∧
        noticeAt env waits timeout w.scene place k =
          if k ≠ 0 ∧ ((recordsOf env waits timeout w.scene place n)[k - 1]?).map Status.untimed =
              some p.last.untimed then none
          else some (.statusChanged x.origin (env.describe x.condition y.scene) p.last.gate
            (y.scene.now - w.now))) ∧
      (noticesOf env waits timeout w.scene place n).filterMap Notice.gate? =
        ((recordsOf env waits timeout w.scene place n).map Status.gate).destutter (· ≠ ·) := by
  refine ⟨fun n hgo => events_passOf_of_go hgo, fun patience res w' h => events_run h, ?_⟩
  intro place x n hx
  refine ⟨length_recordsOf hx n, ?_, gates_of_notices hx n⟩
  intro k hk
  obtain ⟨p, hp, hrecord⟩ := exists_watched env timeout w hx k
  obtain ⟨y, hy⟩ := exists_sighting env timeout w hx k
  refine ⟨p, y, hp, (getElem?_recordsOf hx hk).trans hrecord, hy, ?_⟩
  rw [noticeAt_eq hx hy hrecord]
  cases k with
  | zero => rfl
  | succ k =>
      have hbefore : (recordsOf env waits timeout w.scene place n)[k + 1 - 1]? =
          recordAt env waits timeout w.scene place (k + 1) :=
        getElem?_recordsOf hx (Nat.lt_of_succ_lt hk)
      rw [hbefore]
      refine if_congr ?_ rfl rfl
      exact (and_iff_right (Nat.succ_ne_zero k)).symm

/-- The door for entering is told of in each of four passes: it is open, it has stopped to be open,
then it is just shut, and it is open again.  Doors that stay shut are told of in the first pass
alone, although each check has its own time. -/
theorem news_of_flicker_and_shutDoors :
    (∃ res w', run flicker 0 twoDoors (.ofMillis 150) .fresh = some (res, w') ∧
      w'.events = .noted (.waitBegun 2 (.ofMillis 150)) ::
        (journal flicker twoDoors (.ofMillis 150) (World.fresh (ι := Unit)).scene 3 ++
          passEvents flicker twoDoors (.ofMillis 150) (World.fresh (ι := Unit)).scene 3 ++
          [.noted (.allFulfilled 4 (.ofMillis 150))]) ∧
      (noticesOf flicker twoDoors (.ofMillis 150) (World.fresh (ι := Unit)).scene 0 4).filterMap
          Notice.gate? =
        ["REQUIRED", "NOT REQ | (regressed, 1 regressions)", "NOT REQ", "REQUIRED"]) ∧
    (passOf shutDoors twoDoors Clock.limit .fresh 1).world.events =
      [.noted (.waitBegun 2 Clock.limit),
        .checked (), .noted (.statusChanged .enter "door" "NOT REQ" .zero),
        .checked (), .noted (.statusChanged .transition "door" "NOT REQ" .zero),
        .slept (.ofMillis 50), .checked (), .checked ()] ∧
    (noticesOf shutDoors twoDoors Clock.limit (World.fresh (ι := Unit)).scene 0 4).filterMap
        Notice.gate? = ["NOT REQ"] := by
  refine ⟨?_, ?_, ?_⟩
  · have hsome : (run flicker 0 twoDoors (.ofMillis 150) .fresh).map
        (fun x => (x.1.passes, x.1.lastWords (ι := Unit))) =
          some (4, [.noted (.allFulfilled 4 (.ofMillis 150))]) := rfl
    obtain ⟨⟨res, w'⟩, h, hres⟩ := Option.map_eq_some_iff.1 hsome
    obtain ⟨hpasses, hlast⟩ := Prod.mk.inj hres
    obtain ⟨-, hends, hplace⟩ :=
      changes_are_told_once flicker twoDoors (.ofMillis 150) .fresh
    have hevents := hends 0 res w' h
    change res.passes = 4 at hpasses
    change res.lastWords = _ at hlast
    rw [hpasses, hlast] at hevents
    obtain ⟨-, -, hgates⟩ := hplace 0 ⟨(), .enter⟩ 4 rfl
    exact ⟨res, w', h, hevents, hgates.trans rfl⟩
  · obtain ⟨hgoes, -, -⟩ := changes_are_told_once shutDoors twoDoors Clock.limit .fresh
    have hgo : ∀ m < 1, ¬ (roundOf shutDoors twoDoors Clock.limit
        (World.fresh (ι := Unit)).scene m).Decides ⟨.zero, Clock.limit⟩ := by
      intro m hm
      obtain rfl := Nat.lt_one_iff.1 hm
      rintro (herr | hall | ⟨d, hd, -⟩)
      · exact absurd herr (by decide)
      · exact absurd hall (by decide)
      · have hnone : Clock.deadline? Duration.zero Clock.limit = none := rfl
        exact absurd (hnone.symm.trans hd) (by simp)
    exact (hgoes 1 hgo).trans rfl
  · obtain ⟨-, -, hplace⟩ := changes_are_told_once shutDoors twoDoors Clock.limit .fresh
    obtain ⟨-, -, hgates⟩ := hplace 0 ⟨(), .enter⟩ 4 rfl
    exact hgates.trans rfl

end Wait
end Passage
