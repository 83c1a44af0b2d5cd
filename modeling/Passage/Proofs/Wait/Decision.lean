/-
# How a wait comes to its end

A wait remembers something of each condition and amends what it records,
so its passes carry more than the rounds they make.  `Shows` says that a
pass tells of a round no more and no less than what a decision needs: the
scene, the outcomes, and whether there was an error.  Every pass shows its
round (`pass_shows`), and from that the verdict on it can be read off the
round alone (`Shows.verdict`).

`poll` makes the passes `passAt` one after another and stops at the first
one that has an end (`poll_eq_some_iff`).  Put together: a wait returns
after the first round that decides, with the ending of that round
(`run_ends_at_first_deciding_round`), and with a deadline it does return
(`run_isSome_of_deadline`).
-/
import Passage.Proofs.Wait.Rounds

namespace Passage
variable {ι σ : Type}
namespace Wait

/-! ## What a sample and a pass see -/

theorem outcome_next (before : Option Progress) (s : Status) (elapsed : Duration) :
    (Progress.next before s elapsed).last.outcome = s.outcome := by
  cases before with
  | none => rfl
  | some p =>
      show (p.observe s elapsed).last.outcome = s.outcome
      by_cases h : p.hasRegressed s
      · simp only [Progress.observe, h, if_true]
        rfl
      · simp only [Progress.observe, h, if_false, Bool.false_eq_true]

theorem isError_of_outcome_eq {s t : Status} (h : s.outcome = t.outcome) :
    s.isError = t.isError := by
  rw [Status.isError, Status.isError, h]

/-- What is remembered of a condition that is checked in the given world. -/
def observed (env : Environment ι σ) (start : Duration) (x : Wait ι) (before : Option Progress)
    (w : World ι σ) : Progress :=
  .next before (env.check x.condition w.scene).value
    ((w.check env x.condition).2.elapsedSince start)

/-- What a sample has to say: something if the recorded status is news. -/
def newsOf (env : Environment ι σ) (start : Duration) (x : Wait ι) (before : Option Progress)
    (w : World ι σ) : Option Notice :=
  let after := observed env start x before w
  let w := (w.check env x.condition).2
  if Progress.isNews before after then
    some (.statusChanged x.origin (env.describe x.condition w.scene) after.last.gate
      (w.elapsedSince start))
  else none

theorem sample_eq (env : Environment ι σ) (start : Duration) (x : Wait ι)
    (before : Option Progress) (w : World ι σ) :
    sample env start x before w =
      (observed env start x before w,
        (w.check env x.condition).2.noteAny (newsOf env start x before w)) := by
  show (if Progress.isNews before (observed env start x before w) then _ else _) = _
  by_cases h : Progress.isNews before (observed env start x before w)
  · simp only [newsOf, h, if_true]
    rfl
  · simp only [newsOf, h, if_false, Bool.false_eq_true]
    rfl

theorem scene_sample (env : Environment ι σ) (start : Duration) (x : Wait ι)
    (before : Option Progress) (w : World ι σ) :
    (sample env start x before w).2.scene = w.scene.after (env.check x.condition w.scene) := by
  rw [sample_eq, World.scene_noteAny]
  rfl

theorem outcome_sample (env : Environment ι σ) (start : Duration) (x : Wait ι)
    (before : Option Progress) (w : World ι σ) :
    (sample env start x before w).1.last.outcome =
      (env.check x.condition w.scene).value.outcome := by
  rw [sample_eq]
  exact outcome_next _ _ _

/-- The description of a condition that has just reported an error. -/
def namedBy (env : Environment ι σ) (x : Wait ι) (q : Progress × World ι σ) : Option String :=
  if q.1.last.isError then some (env.describe x.condition q.2.scene) else none

theorem pass_cons (env : Environment ι σ) (start : Duration) (x : Wait ι)
    (before : Option Progress) (l : List (Wait ι × Option Progress)) (w : World ι σ) :
    pass env start ((x, before) :: l) w =
      ⟨(x, (sample env start x before w).1) ::
          (pass env start l (sample env start x before w).2).watched,
        (namedBy env x (sample env start x before w)).or
          (pass env start l (sample env start x before w).2).errored,
        (pass env start l (sample env start x before w).2).world⟩ := rfl

/-- The conditions of a list of waits, in order. -/
def conditionsOf (l : List (Wait ι × Option Progress)) : List ι := l.map fun x => x.1.condition

/-- A pass tells of a round what a decision needs. -/
structure Shows (p : Pass ι σ) (r : Round σ) : Prop where
  scene : p.world.scene = r.scene
  outcomes : p.watched.map (fun x => x.2.last.outcome) = r.sightings.map (fun x => x.status.outcome)
  errored : p.errored.isSome = r.hasError

theorem pass_shows (env : Environment ι σ) (start : Duration)
    (l : List (Wait ι × Option Progress)) (w : World ι σ) :
    Shows (pass env start l w) (survey env (conditionsOf l) w.scene) := by
  induction l generalizing w with
  | nil => exact ⟨rfl, rfl, rfl⟩
  | cons head rest ih =>
      obtain ⟨x, before⟩ := head
      have hrest := ih (sample env start x before w).2
      have hout := outcome_sample env start x before w
      rw [scene_sample] at hrest
      refine ⟨hrest.scene, ?_, ?_⟩
      · show (sample env start x before w).1.last.outcome :: _ =
          (env.check x.condition w.scene).value.outcome :: _
        rw [hout]
        exact congrArg (_ :: ·) hrest.outcomes
      · show ((namedBy env x (sample env start x before w)).or
          (pass env start rest (sample env start x before w).2).errored).isSome =
            ((env.check x.condition w.scene).value.isError || Round.hasError _)
        rw [Option.isSome_or, ← isError_of_outcome_eq hout, namedBy]
        refine congr (congrArg or ?_) hrest.errored
        by_cases he : (sample env start x before w).1.last.isError
        · simp [he]
        · simp [he]

theorem pass_waits (env : Environment ι σ) (start : Duration)
    (l : List (Wait ι × Option Progress)) (w : World ι σ) :
    (pass env start l w).watched.map Prod.fst = l.map Prod.fst := by
  induction l generalizing w with
  | nil => rfl
  | cons head rest ih => exact congrArg (head.1 :: ·) (ih _)

theorem Shows.all_fulfilled {p : Pass ι σ} {r : Round σ} (h : Shows p r) :
    (p.watched.all fun x => x.2.last.isFulfilled) = r.allFulfilled := by
  have hp : (p.watched.all fun x => x.2.last.isFulfilled) =
      (p.watched.map fun x => x.2.last.outcome).all (· == .fulfilled) := by
    rw [List.all_map]
    rfl
  have hr : r.allFulfilled = (r.sightings.map fun x => x.status.outcome).all (· == .fulfilled) := by
    rw [List.all_map]
    rfl
  rw [hp, hr, h.outcomes]

/-! ## The verdict on a pass is the verdict on its round -/

/-- The kind of ending that a reason stands for. -/
def Reason.ending : Reason → Ending
  | .timeout d => .timeout d
  | .conditionError _ => .conditionError

/-- How a wait has ended. -/
def Result.ending : Result → Ending
  | .ok _ => .fulfilled
  | .error failure => failure.reason.ending

/-- The number of passes that a wait has made. -/
def Result.passes : Result → Nat
  | .ok report => report.passes
  | .error failure => failure.passes

/-- The time that a wait has taken. -/
def Result.elapsed : Result → Duration
  | .ok report => report.elapsed
  | .error failure => failure.elapsed

/-- How a pass ends a wait, if it does; `passes` have been made, this one included. -/
def conclude (env : Environment ι σ) (b : Budget) (passes : Nat) (p : Pass ι σ) :
    Option (Result × World ι σ) :=
  let elapsed := p.world.elapsedSince b.start
  let table := tableOf env p.world.scene p.watched
  match verdict b p with
  | .failed reason => some (.error ⟨reason, elapsed, passes, table⟩, p.world)
  | .fulfilled => some (.ok ⟨elapsed, passes, table⟩, p.world.note (.allFulfilled passes elapsed))
  | .goOn _ => none

/-- All that a pass can do to end a wait: it has failed, and nothing more is said; or all conditions
hold, and this is noted. -/
theorem conclude_cases {env : Environment ι σ} {b : Budget} {passes : Nat} {p : Pass ι σ}
    {res : Result} {w : World ι σ} (h : conclude env b passes p = some (res, w)) :
    (∃ reason, verdict b p = .failed reason ∧ w = p.world ∧
      res = .error ⟨reason, p.world.elapsedSince b.start, passes,
        tableOf env p.world.scene p.watched⟩) ∨
    (verdict b p = .fulfilled ∧
      w = p.world.note (.allFulfilled passes (p.world.elapsedSince b.start)) ∧
      res = .ok ⟨p.world.elapsedSince b.start, passes, tableOf env p.world.scene p.watched⟩) := by
  rw [conclude] at h
  cases hver : verdict b p with
  | failed reason =>
      rw [hver] at h
      obtain ⟨rfl, rfl⟩ := Prod.mk.inj (Option.some.inj h)
      exact Or.inl ⟨reason, rfl, rfl, rfl⟩
  | fulfilled =>
      rw [hver] at h
      obtain ⟨rfl, rfl⟩ := Prod.mk.inj (Option.some.inj h)
      exact Or.inr ⟨rfl, rfl, rfl⟩
  | goOn d =>
      rw [hver] at h
      exact absurd h (by simp)

theorem Shows.verdict {b : Budget} {p : Pass ι σ} {r : Round σ} (h : Shows p r) :
    match Wait.verdict b p with
    | .failed reason => r.Decides b ∧ r.ending b = reason.ending
    | .fulfilled => r.Decides b ∧ r.ending b = .fulfilled
    | .goOn d => ¬ r.Decides b ∧ b.pause? r.scene.now = some d := by
  have hnow : p.world.now = r.scene.now := congrArg Scene.now h.scene
  rw [Wait.verdict]
  cases herr : p.errored with
  | some c =>
      have hr : r.hasError = true := by rw [← h.errored, herr]; rfl
      refine ⟨Or.inl hr, ?_⟩
      rw [Round.ending, if_pos hr]
      rfl
  | none =>
      have hr : r.hasError = false := by rw [← h.errored, herr]; rfl
      rw [h.all_fulfilled, hnow]
      cases hall : r.allFulfilled with
      | true =>
          refine ⟨Or.inr (Or.inl hall), ?_⟩
          simp [Round.ending, hr, hall]
      | false =>
          cases hpause : b.pause? r.scene.now with
          | none =>
              refine ⟨Or.inr (Or.inr (Budget.pause?_eq_none_iff.1 hpause)), ?_⟩
              simp [Round.ending, hr, hall, Reason.ending]
          | some d =>
              refine ⟨?_, rfl⟩
              rintro (he | hf | hx)
              · exact absurd he (by simp [hr])
              · exact absurd hf (by simp [hall])
              · rw [Budget.pause?_eq_none_iff.2 hx] at hpause
                exact absurd hpause (by simp)

theorem Shows.conclude_eq_none_iff {env : Environment ι σ} {b : Budget} {passes : Nat}
    {p : Pass ι σ} {r : Round σ} (h : Shows p r) :
    conclude env b passes p = none ↔ ¬ r.Decides b := by
  have hv := h.verdict (b := b)
  rw [conclude]
  cases hver : Wait.verdict b p with
  | failed reason =>
      rw [hver] at hv
      exact iff_of_false (by simp) (fun hn => hn hv.1)
  | fulfilled =>
      rw [hver] at hv
      exact iff_of_false (by simp) (fun hn => hn hv.1)
  | goOn d =>
      rw [hver] at hv
      exact iff_of_true rfl hv.1

/-- What the end of a wait has from the round that decides. -/
theorem Shows.of_conclude {env : Environment ι σ} {b : Budget} {passes : Nat} {p : Pass ι σ}
    {r : Round σ} (h : Shows p r) {res : Result} {w : World ι σ}
    (hc : conclude env b passes p = some (res, w)) :
    res.ending = r.ending b ∧ res.passes = passes ∧ res.elapsed = r.scene.now - b.start ∧
      w.scene = r.scene := by
  have hv := h.verdict (b := b)
  have htime : p.world.elapsedSince b.start = r.scene.now - b.start :=
    congrArg (Scene.now · - b.start) h.scene
  rcases conclude_cases hc with ⟨reason, hver, rfl, rfl⟩ | ⟨hver, rfl, rfl⟩
  · rw [hver] at hv
    exact ⟨hv.2.symm, rfl, htime, h.scene⟩
  · rw [hver] at hv
    exact ⟨hv.2.symm, rfl, htime, h.scene⟩

/-! ## Pass after pass -/

/-- What the next pass is given of a pass: the same waits, with what is remembered now. -/
def carry (p : Pass ι σ) : List (Wait ι × Option Progress) :=
  p.watched.map fun x => (x.1, some x.2)

/-- The world in which the next pass begins, when one has ended in the given world. -/
def rest (b : Budget) (w : World ι σ) : World ι σ :=
  match b.pause? w.now with
  | none => w
  | some d => w.sleep d

/-- The pass with the given number, counted from 0, in a wait that goes on whatever happens. -/
def passAt (env : Environment ι σ) (b : Budget) :
    List (Wait ι × Option Progress) → World ι σ → Nat → Pass ι σ
  | l, w, 0 => pass env b.start l w
  | l, w, n + 1 =>
    let p := pass env b.start l w
    passAt env b (carry p) (rest b p.world) n

theorem rest_of_pause {b : Budget} {w : World ι σ} {d : Duration} (h : b.pause? w.now = some d) :
    rest b w = w.sleep d := by
  rw [rest, h]

theorem rest_of_no_pause {b : Budget} {w : World ι σ} (h : b.pause? w.now = none) :
    rest b w = w := by
  rw [rest, h]

theorem scene_rest (b : Budget) (w : World ι σ) : (rest b w).scene = b.resume w.scene := by
  cases h : b.pause? w.now with
  | none => rw [rest_of_no_pause h, Budget.resume_of_no_pause h]
  | some d =>
      rw [rest_of_pause h, Budget.resume_of_pause h]
      exact World.scene_sleep (Budget.pause?_pos h) w

theorem conditionsOf_carry (env : Environment ι σ) (start : Duration)
    (l : List (Wait ι × Option Progress)) (w : World ι σ) :
    conditionsOf (carry (pass env start l w)) = conditionsOf l := by
  have h := congrArg (List.map Wait.condition) (pass_waits env start l w)
  simpa [conditionsOf, carry, Function.comp_def] using h

theorem passAt_shows (env : Environment ι σ) (b : Budget) (n : Nat) :
    ∀ (l : List (Wait ι × Option Progress)) (w : World ι σ),
      Shows (passAt env b l w n) (roundAt env b (conditionsOf l) w.scene n) := by
  induction n with
  | zero => exact fun l w => pass_shows env b.start l w
  | succ n ih =>
      intro l w
      have h := ih (carry (pass env b.start l w)) (rest b (pass env b.start l w).world)
      rw [conditionsOf_carry, scene_rest, (pass_shows env b.start l w).scene] at h
      exact h

/-- One pass of `poll`: either it has an end, or the rest of the passes follow. -/
theorem poll_succ (env : Environment ι σ) (b : Budget) (rounds passes : Nat)
    (l : List (Wait ι × Option Progress)) (w : World ι σ) :
    poll env b (rounds + 1) passes l w =
      (conclude env b (passes + 1) (pass env b.start l w)).or
        (poll env b rounds (passes + 1) (carry (pass env b.start l w))
          (rest b (pass env b.start l w).world)) := by
  have hv := (pass_shows env b.start l w).verdict (b := b)
  rw [← (pass_shows env b.start l w).scene] at hv
  rw [poll, conclude]
  cases hver : verdict b (pass env b.start l w) with
  | failed reason => rfl
  | fulfilled => rfl
  | goOn d =>
      rw [hver] at hv
      rw [rest_of_pause hv.2]
      rfl

/-- A wait ends with the first of its passes that has an end. -/
theorem poll_eq_some_iff {env : Environment ι σ} {b : Budget} {out : Result × World ι σ} :
    ∀ {rounds passes : Nat} {l : List (Wait ι × Option Progress)} {w : World ι σ},
      poll env b rounds passes l w = some out ↔
        ∃ n < rounds, (∀ m < n, conclude env b (passes + m + 1) (passAt env b l w m) = none) ∧
          conclude env b (passes + n + 1) (passAt env b l w n) = some out
  | 0, passes, l, w => by
      refine iff_of_false (by simp [poll]) ?_
      rintro ⟨n, hn, -⟩
      exact absurd hn (Nat.not_lt_zero n)
  | rounds + 1, passes, l, w => by
      rw [poll_succ]
      cases hc : conclude env b (passes + 1) (pass env b.start l w) with
      | some o =>
          constructor
          · intro h
            obtain rfl := Option.some.inj h
            exact ⟨0, Nat.succ_pos _, fun m hm => absurd hm (Nat.not_lt_zero m), hc⟩
          · rintro ⟨n, -, hgo, hend⟩
            cases n with
            | zero => exact hc.symm.trans hend
            | succ n =>
                have h0 := hgo 0 (Nat.succ_pos n)
                exact absurd (h0.symm.trans hc) (by simp)
      | none =>
          rw [Option.none_or, poll_eq_some_iff]
          constructor
          · rintro ⟨n, hn, hgo, hend⟩
            refine ⟨n + 1, Nat.succ_lt_succ hn, ?_, ?_⟩
            · intro m hm
              cases m with
              | zero => exact hc
              | succ m =>
                  have h := hgo m (Nat.lt_of_succ_lt_succ hm)
                  rwa [Nat.add_right_comm passes 1 m] at h
            · rwa [Nat.add_right_comm passes 1 n] at hend
          · rintro ⟨n, hn, hgo, hend⟩
            cases n with
            | zero => exact absurd (hc.symm.trans hend) (by simp)
            | succ n =>
                refine ⟨n, Nat.lt_of_succ_lt_succ hn, ?_, ?_⟩
                · intro m hm
                  have h := hgo (m + 1) (Nat.succ_lt_succ hm)
                  rwa [← Nat.add_assoc, Nat.add_right_comm passes m 1] at h
                · rwa [← Nat.add_assoc, Nat.add_right_comm passes n 1] at hend

/-! ## The whole wait -/

/-- The rounds of a wait for the given conditions that begins in the given scene. -/
def roundOf (env : Environment ι σ) (waits : List (Wait ι)) (timeout : Duration) (s : Scene σ)
    (n : Nat) : Round σ :=
  roundAt env ⟨s.now, timeout⟩ (waits.map Wait.condition) s n

theorem conditionsOf_fresh (waits : List (Wait ι)) :
    conditionsOf (waits.map fun x => (x, none)) = waits.map Wait.condition := by
  simp [conditionsOf, Function.comp_def]

/-- The pass with the given number of a wait that begins in the given world. -/
def passOf (env : Environment ι σ) (waits : List (Wait ι)) (timeout : Duration) (w : World ι σ)
    (n : Nat) : Pass ι σ :=
  passAt env ⟨w.now, timeout⟩ (waits.map fun x => (x, none))
    (w.note (.waitBegun waits.length timeout)) n

theorem passOf_shows (env : Environment ι σ) (waits : List (Wait ι)) (timeout : Duration)
    (w : World ι σ) (n : Nat) :
    Shows (passOf env waits timeout w n) (roundOf env waits timeout w.scene n) := by
  have h := passAt_shows env ⟨w.now, timeout⟩ n (waits.map fun x => (x, none))
    (w.note (.waitBegun waits.length timeout))
  rw [conditionsOf_fresh] at h
  exact h

theorem run_eq_some_iff {env : Environment ι σ} {patience : Nat} {waits : List (Wait ι)}
    {timeout : Duration} {w : World ι σ} {out : Result × World ι σ} :
    run env patience waits timeout w = some out ↔
      ∃ n < roundsOf patience ⟨w.now, timeout⟩,
        (∀ m < n, ¬ (roundOf env waits timeout w.scene m).Decides ⟨w.now, timeout⟩) ∧
          conclude env ⟨w.now, timeout⟩ (n + 1) (passOf env waits timeout w n) = some out := by
  rw [run, poll_eq_some_iff]
  have hnone : ∀ m, conclude env ⟨w.now, timeout⟩ (0 + m + 1) (passOf env waits timeout w m) = none ↔
      ¬ (roundOf env waits timeout w.scene m).Decides ⟨w.now, timeout⟩ := fun m =>
    (passOf_shows env waits timeout w m).conclude_eq_none_iff
  refine exists_congr fun n => and_congr_right' (and_congr ?_ ?_)
  · exact forall_congr' fun m => forall_congr' fun _ => hnone m
  · rw [Nat.zero_add]
    rfl

/-- A wait returns if and only if one of the rounds that are followed decides. -/
theorem run_isSome_iff {env : Environment ι σ} {patience : Nat} {waits : List (Wait ι)}
    {timeout : Duration} {w : World ι σ} :
    (run env patience waits timeout w).isSome = true ↔
      ∃ n < roundsOf patience ⟨w.now, timeout⟩,
        (roundOf env waits timeout w.scene n).Decides ⟨w.now, timeout⟩ := by
  constructor
  · intro h
    obtain ⟨out, hout⟩ := Option.isSome_iff_exists.1 h
    obtain ⟨n, hn, -, hend⟩ := run_eq_some_iff.1 hout
    refine ⟨n, hn, Classical.byContradiction fun hgo => ?_⟩
    rw [(passOf_shows env waits timeout w n).conclude_eq_none_iff.2 hgo] at hend
    exact absurd hend (by simp)
  · rintro ⟨n, hn, hdec⟩
    -- The first deciding round is at most the given one, and its pass has an end.
    induction n using Nat.strongRecOn with
    | ind n ih =>
        by_cases hfirst : ∃ m < n, (roundOf env waits timeout w.scene m).Decides ⟨w.now, timeout⟩
        · obtain ⟨m, hm, hdec'⟩ := hfirst
          exact ih m hm (Nat.lt_trans hm hn) hdec'
        · have hgo : ∀ m < n, ¬ (roundOf env waits timeout w.scene m).Decides ⟨w.now, timeout⟩ :=
            fun m hm hd => hfirst ⟨m, hm, hd⟩
          cases hend : conclude env ⟨w.now, timeout⟩ (n + 1) (passOf env waits timeout w n) with
          | none =>
              exact absurd hdec ((passOf_shows env waits timeout w n).conclude_eq_none_iff.1 hend)
          | some out => exact Option.isSome_iff_exists.2 ⟨out, run_eq_some_iff.2 ⟨n, hn, hgo, hend⟩⟩

/-- A wait returns with the first round that decides, if that round is still followed. -/
theorem exists_run_of_decides {env : Environment ι σ} {patience : Nat} {waits : List (Wait ι)}
    {timeout : Duration} {w : World ι σ} {n : Nat} (hn : n < roundsOf patience ⟨w.now, timeout⟩)
    (hgo : ∀ m < n, ¬ (roundOf env waits timeout w.scene m).Decides ⟨w.now, timeout⟩)
    (hdec : (roundOf env waits timeout w.scene n).Decides ⟨w.now, timeout⟩) :
    ∃ res w', run env patience waits timeout w = some (res, w') ∧ res.passes = n + 1 := by
  have hshows := passOf_shows env waits timeout w n
  cases hend : conclude env ⟨w.now, timeout⟩ (n + 1) (passOf env waits timeout w n) with
  | none => exact absurd hdec (hshows.conclude_eq_none_iff.1 hend)
  | some out =>
      obtain ⟨res, w'⟩ := out
      exact ⟨res, w', run_eq_some_iff.2 ⟨n, hn, hgo, hend⟩, (hshows.of_conclude hend).2.1⟩

theorem run_isSome_of_deadline {env : Environment ι σ} {patience : Nat} {waits : List (Wait ι)}
    {timeout : Duration} {w : World ι σ} (h : (Clock.deadline? w.now timeout).isSome = true) :
    (run env patience waits timeout w).isSome = true := by
  obtain ⟨d, hd⟩ := Option.isSome_iff_exists.1 h
  have hd' : (Budget.mk w.now timeout).deadline? = some d := hd
  obtain ⟨n, hn, hdec⟩ := decides_before_passBound env (waits.map Wait.condition) hd'
    (Nat.le_refl w.scene.now.nanos)
  refine run_isSome_iff.2 ⟨n, ?_, hdec⟩
  simp only [roundsOf, hd']
  exact hn

theorem exists_round_of_run {env : Environment ι σ} {patience : Nat} {waits : List (Wait ι)}
    {timeout : Duration} {w w' : World ι σ} {res : Result}
    (h : run env patience waits timeout w = some (res, w')) :
    ∃ p, res.passes = p + 1 ∧
      (roundOf env waits timeout w.scene p).Decides ⟨w.now, timeout⟩ ∧
      (∀ q < p, ¬ (roundOf env waits timeout w.scene q).Decides ⟨w.now, timeout⟩) ∧
      res.ending = (roundOf env waits timeout w.scene p).ending ⟨w.now, timeout⟩ ∧
      w'.scene = (roundOf env waits timeout w.scene p).scene := by
  obtain ⟨p, -, hgo, hend⟩ := run_eq_some_iff.1 h
  have hshows := passOf_shows env waits timeout w p
  obtain ⟨hkind, hpasses, -, hscene⟩ := hshows.of_conclude hend
  refine ⟨p, hpasses, Classical.byContradiction fun hdec => ?_, hgo, hkind, hscene⟩
  rw [hshows.conclude_eq_none_iff.2 hdec] at hend
  exact absurd hend (by simp)

/-- **A wait ends with the first round that decides.**  That is the first round with an error in
it, or in which all conditions hold, or at whose end the time is over; an error in it comes before
success, and success before the deadline.  So success is one round in which all conditions hold,
and no round before the last was such a round or had an error in it. -/
theorem run_ends_at_first_deciding_round {env : Environment ι σ} {patience : Nat}
    {waits : List (Wait ι)} {timeout : Duration} {w w' : World ι σ} {res : Result}
    (h : run env patience waits timeout w = some (res, w')) :
    ∃ p, res.passes = p + 1 ∧
      (roundOf env waits timeout w.scene p).Decides ⟨w.now, timeout⟩ ∧
      (∀ q < p, ¬ (roundOf env waits timeout w.scene q).Decides ⟨w.now, timeout⟩) ∧
      res.ending = (roundOf env waits timeout w.scene p).ending ⟨w.now, timeout⟩ ∧
      (res.ending = .fulfilled → (roundOf env waits timeout w.scene p).allFulfilled = true) ∧
      (∀ q < p, (roundOf env waits timeout w.scene q).hasError = false ∧
        (roundOf env waits timeout w.scene q).allFulfilled = false) ∧
      w'.scene = (roundOf env waits timeout w.scene p).scene := by
  obtain ⟨p, hpasses, hdec, hgo, hkind, hscene⟩ := exists_round_of_run h
  refine ⟨p, hpasses, hdec, hgo, hkind, ?_, ?_, hscene⟩
  · intro hf
    rw [hkind, Round.ending] at hf
    split at hf
    · exact absurd hf (by simp)
    · split at hf
      · assumption
      · exact absurd hf (by simp)
  · intro q hq
    have hq' := hgo q hq
    exact ⟨Bool.eq_false_iff.2 fun he => hq' (Or.inl he),
      Bool.eq_false_iff.2 fun hf => hq' (Or.inr (Or.inl hf))⟩

/-- Two doors that are open in turn, then both shut, then open together. -/
def flicker : Environment Unit Nat :=
  .reciting fun n => if n ∈ [0, 3, 6, 7] then .fulfilled else .notFulfilled

/-- A wait for two doors. -/
def twoDoors : List (Wait Unit) := [⟨(), .enter⟩, ⟨(), .transition⟩]

/-- Each door has been seen open by the end of the second round, but only the fourth one, which
ends at the deadline, sees both of them open. -/
theorem flicker_ends_at_fourth_round :
    ∃ res w', run flicker 0 twoDoors (.ofMillis 150) .fresh = some (res, w') ∧
      res.ending = .fulfilled ∧ res.passes = 4 ∧
      (roundOf flicker twoDoors (.ofMillis 150) (World.fresh (ι := Unit)).scene 3).allFulfilled ∧
      ∀ q < 3, (roundOf flicker twoDoors (.ofMillis 150)
        (World.fresh (ι := Unit)).scene q).allFulfilled = false := by
  have hrun : (run flicker 0 twoDoors (.ofMillis 150) .fresh).isSome = true := rfl
  obtain ⟨⟨res, w'⟩, h⟩ := Option.isSome_iff_exists.1 hrun
  have hres : (run flicker 0 twoDoors (.ofMillis 150) .fresh).map (fun x => (x.1.ending, x.1.passes))
      = some (.fulfilled, 4) := rfl
  rw [h] at hres
  obtain ⟨hkind, hpasses⟩ := Prod.mk.inj (Option.some.inj hres)
  obtain ⟨p, hp, -, -, -, hall, hgo, -⟩ := run_ends_at_first_deciding_round h
  have h3 : p = 3 := by
    have h4 : 4 = p + 1 := hpasses.symm.trans hp
    omega
  subst h3
  exact ⟨res, w', h, hkind, hpasses, hall hkind, fun q hq => (hgo q hq).2⟩

end Wait
end Passage
