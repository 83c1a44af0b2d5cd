/-
# What a wait remembers, apart from the times

Two waits are compared by what they say when all times are left out: of a
status its outcome and its message, of a condition how often it was
checked, how often it stopped to hold, and whether it ever held.  Leaving
out the times goes along with remembering (`Progress.untimed_next`), so
that what is left depends on nothing but the answers of the rounds:
`remembered` is computed from them alone, and it is what the passes of a
wait have in mind (`untimed_watched_passOf`).

The rest of what a wait returns is put in the same terms.  Its table says
of each wait the gist of what is remembered (`gists_of_run`,
`descriptions_of_run`), and the condition that it names is the first one
that has answered with an error in the last round (`named_of_run`).
-/
import Passage.Proofs.Wait.Account

namespace Passage
variable {ι σ α β : Type}

/-! ## Leaving out the times -/

/-- A status without its time. -/
def Status.untimed (s : Status) : Status := { s with timestamp := ⟨0, 0⟩ }

theorem Status.isFulfilled_untimed (s : Status) : s.untimed.isFulfilled = s.isFulfilled := rfl

namespace Wait

/-- What is remembered of a condition, without the times; it is kept whether the condition has
held. -/
def Progress.untimed (p : Progress) : Progress :=
  ⟨p.last.untimed, p.checks, p.firstFulfilledAfter.map fun _ => .zero, p.regressions⟩

theorem Progress.map_momentOf (s : Status) (elapsed : Duration) :
    (momentOf s elapsed).map (fun _ => Duration.zero) = momentOf s.untimed .zero := by
  rw [momentOf, momentOf, Status.isFulfilled_untimed]
  split
  · rfl
  · rfl

theorem Progress.untimed_observe (p : Progress) (s : Status) (elapsed : Duration) :
    (p.observe s elapsed).untimed = p.untimed.observe s.untimed .zero := by
  have hregressed : p.untimed.hasRegressed s.untimed = p.hasRegressed s := rfl
  rw [observe, observe, hregressed, untimed]
  refine congr (congr (congr (congrArg mk ?_) rfl) ?_) rfl
  · cases p.hasRegressed s with
    | true => rfl
    | false => rfl
  · rw [Option.map_or, map_momentOf]
    rfl

/-- What is remembered after a check without the times depends on what was remembered without
them. -/
theorem Progress.untimed_next (before : Option Progress) (s : Status) (elapsed : Duration) :
    (next before s elapsed).untimed = next (before.map untimed) s.untimed .zero := by
  cases before with
  | none =>
      show Progress.mk _ _ ((momentOf s elapsed).map fun _ => .zero) _ = _
      rw [map_momentOf]
      rfl
  | some p => exact untimed_observe p s elapsed

/-! ## The answers of a round -/

namespace Round

/-- The statuses of a round, without their times. -/
def answers (r : Round σ) : List Status := r.sightings.map fun x => x.status.untimed

theorem hasError_eq_any (r : Round σ) : r.hasError = r.answers.any Status.isError := by
  rw [answers, List.any_map]
  rfl

theorem allFulfilled_eq_all (r : Round σ) :
    r.allFulfilled = r.answers.all Status.isFulfilled := by
  rw [answers, List.all_map]
  rfl

/-- The first condition that has answered with an error, and what its check has shown. -/
def culprit? (cs : List ι) (r : Round σ) : Option (ι × Sighting σ) :=
  (cs.zip r.sightings).find? fun x => x.2.status.isError

end Round

/-- The waits with what is remembered of each, without the times, after the round with the given
number. -/
def remembered (waits : List (Wait ι)) (answers : Nat → List Status) :
    Nat → List (Watched ι)
  | 0 => List.zipWith (fun x s => (x, .first s .zero)) waits (answers 0)
  | n + 1 =>
    List.zipWith (fun x s => (x.1, x.2.observe s .zero)) (remembered waits answers n)
      (answers (n + 1))

/-- Only the answers so far count. -/
theorem remembered_congr {waits : List (Wait ι)} {f g : Nat → List Status} {n : Nat}
    (h : ∀ k ≤ n, f k = g k) : remembered waits f n = remembered waits g n := by
  induction n with
  | zero => rw [remembered, remembered, h 0 (Nat.le_refl 0)]
  | succ n ih =>
      rw [remembered, remembered, h (n + 1) (Nat.le_refl _),
        ih fun k hk => h k (Nat.le_succ_of_le hk)]

/-- What is remembered of a condition that has answered as given, check after check. -/
def recalled (answers : Nat → Status) : Nat → Progress
  | 0 => .first (answers 0) .zero
  | n + 1 => (recalled answers n).observe (answers (n + 1)) .zero

/-- If each wait has its own answers, each is remembered by itself. -/
theorem remembered_of_answers {waits : List (Wait ι)} {answers : Nat → List Status}
    {f : Wait ι → Nat → Status} (h : ∀ k, answers k = waits.map fun x => f x k) (n : Nat) :
    remembered waits answers n = waits.map fun x => (x, recalled (f x) n) := by
  induction n with
  | zero =>
      rw [remembered, h, List.zipWith_map_right, List.zipWith_self]
      rfl
  | succ n ih =>
      rw [remembered, ih, h, List.zipWith_map_left, List.zipWith_map_right, List.zipWith_self]
      rfl

theorem untimed_watched_pass (env : Environment ι σ) (start : Duration)
    (l : List (Wait ι × Option Progress)) (w : World ι σ) :
    (pass env start l w).watched.map (fun x => (x.1, x.2.untimed)) =
      List.zipWith (fun x s => (x.1, Progress.next (x.2.map Progress.untimed) s .zero)) l
        (survey env (conditionsOf l) w.scene).answers := by
  rw [watched_pass, List.map_zipWith, Round.answers, List.zipWith_map_right]
  refine congrArg (fun f => List.zipWith f l _) (funext fun x => funext fun y => ?_)
  rw [Progress.untimed_next]

theorem untimed_watched_passAt (env : Environment ι σ) (b : Budget) (waits : List (Wait ι))
    (w : World ι σ) (n : Nat) :
    (passAt env b (waits.map fun x => (x, none)) w n).watched.map (fun x => (x.1, x.2.untimed)) =
      remembered waits
        (fun k => (roundAt env b (waits.map Wait.condition) w.scene k).answers) n := by
  induction n with
  | zero =>
      rw [passAt, untimed_watched_pass, conditionsOf_fresh, List.zipWith_map_left]
      rfl
  | succ n ih =>
      rw [passAt_succ, untimed_watched_pass, conditionsOf_carry_passAt, conditionsOf_fresh, scene_rest,
        (passAt_shows env b n _ w).scene, conditionsOf_fresh, ← roundAt_succ, remembered, ← ih, carry,
        List.zipWith_map_left, List.zipWith_map_left]
      rfl

/-! ## Tables -/

theorem inTableOrder_map (g : β → Origin) (f : α → β) (l : List α) :
    inTableOrder g (l.map f) = (inTableOrder (fun x => g (f x)) l).map f := by
  rw [inTableOrder, inTableOrder, List.map_flatMap]
  refine List.flatMap_congr fun o _ => ?_
  rw [ofOrigin, ofOrigin, List.filter_map]
  rfl

theorem rows_tableOf (env : Environment ι σ) (s : Scene σ) (watched : List (Watched ι)) :
    (tableOf env s watched).rows =
      (inTableOrder (fun x => x.1.origin) watched).map (rowOf env s) := by
  rw [tableOf, rows_ofRows_eq_inTableOrder, inTableOrder_map]
  rfl

/-- What a row says, apart from the times and from the words for its condition. -/
def Row.gist (r : Row) : Origin × Progress := (r.origin, r.progress.untimed)

theorem gists_tableOf (env : Environment ι σ) (s : Scene σ) (watched : List (Watched ι)) :
    (tableOf env s watched).rows.map Row.gist =
      (inTableOrder (fun x => x.1.origin) (watched.map fun x => (x.1, x.2.untimed))).map
        fun x => (x.1.origin, x.2) := by
  rw [rows_tableOf, inTableOrder_map, List.map_map, List.map_map]
  rfl

theorem descriptions_tableOf (env : Environment ι σ) (s : Scene σ) (watched : List (Watched ι)) :
    (tableOf env s watched).rows.map Row.condition =
      (inTableOrder Wait.origin (watched.map Prod.fst)).map
        fun x => env.describe x.condition s := by
  rw [rows_tableOf, inTableOrder_map, List.map_map, List.map_map]
  rfl

/-! ## The named condition -/

/-- The words for the condition that a wait has failed for, if it has reported an error. -/
def Result.named? : Result → Option String
  | .error ⟨.conditionError c, _, _, _⟩ => some c
  | _ => none

theorem verdict_of_errored {b : Budget} {p : Pass ι σ} {c : String} (h : p.errored = some c) :
    verdict b p = .failed (.conditionError c) := by
  rw [verdict, h]

/-- Without an error no condition is named. -/
theorem verdict_of_not_errored {b : Budget} {p : Pass ι σ} (h : p.errored = none) (c : String) :
    verdict b p ≠ .failed (.conditionError c) := by
  rw [verdict, h]
  cases p.watched.all fun x => x.2.last.isFulfilled with
  | true => simp
  | false => cases b.pause? p.world.now <;> simp

theorem named_of_conclude {env : Environment ι σ} {b : Budget} {passes : Nat} {p : Pass ι σ}
    {res : Result} {w : World ι σ} (h : conclude env b passes p = some (res, w)) :
    res.named? = p.errored := by
  rcases conclude_cases h with ⟨reason, hver, -, rfl⟩ | ⟨hver, -, rfl⟩
  · cases herr : p.errored with
    | some c =>
        rw [verdict_of_errored herr] at hver
        obtain rfl := Verdict.failed.inj hver
        rfl
    | none =>
        cases reason with
        | timeout d => rfl
        | conditionError c => exact absurd hver (verdict_of_not_errored herr c)
  · cases herr : p.errored with
    | some c =>
        rw [verdict_of_errored herr] at hver
        exact absurd hver (by simp)
    | none => rfl

/-- A pass names the first condition that has answered with an error. -/
theorem errored_pass (env : Environment ι σ) (start : Duration)
    (l : List (Wait ι × Option Progress)) (w : World ι σ) :
    (pass env start l w).errored =
      ((survey env (conditionsOf l) w.scene).culprit? (conditionsOf l)).map
        fun x => env.describe x.1 x.2.scene := by
  induction l generalizing w with
  | nil => rfl
  | cons head rest ih =>
      obtain ⟨x, before⟩ := head
      have hrest := ih (sample env start x before w).2
      rw [scene_sample] at hrest
      rw [pass_cons, hrest, namedBy, isError_of_outcome_eq (outcome_sample env start x before w),
        scene_sample]
      show Option.or _ _ = Option.map _ (List.find? _ (_ :: _))
      rw [List.find?_cons]
      cases (env.check x.condition w.scene).value.isError with
      | true => rfl
      | false => rfl

/-! ## What a wait returns -/

section
variable {env : Environment ι σ} {patience : Nat} {waits : List (Wait ι)} {timeout : Duration}
  {w w' : World ι σ} {res : Result}

theorem waits_watched_passOf (n : Nat) :
    (passOf env waits timeout w n).watched.map Prod.fst = waits := by
  have h : ∀ n, ((passAt env ⟨w.now, timeout⟩ (waits.map fun x => (x, none))
      (w.note (.waitBegun waits.length timeout)) n).watched.map Prod.fst) = waits := by
    intro n
    induction n with
    | zero => rw [passAt, pass_waits, List.map_map]; exact List.map_id _
    | succ n ih => rw [passAt_succ, pass_waits, carry, List.map_map]; exact ih
  exact h n

/-- The pass with which a wait has ended. -/
theorem exists_conclude_of_run (h : run env patience waits timeout w = some (res, w')) :
    (∀ m < res.passes - 1, ¬ (roundOf env waits timeout w.scene m).Decides ⟨w.now, timeout⟩) ∧
      conclude env ⟨w.now, timeout⟩ res.passes (passOf env waits timeout w (res.passes - 1)) =
        some (res, w') := by
  obtain ⟨n, -, hgo, hend⟩ := run_eq_some_iff.1 h
  have hpasses := ((passOf_shows env waits timeout w n).of_conclude hend).2.1
  rw [hpasses, Nat.add_sub_cancel]
  exact ⟨hgo, hend⟩

theorem passes_le_roundsOf (h : run env patience waits timeout w = some (res, w')) :
    res.passes ≤ roundsOf patience ⟨w.now, timeout⟩ := by
  obtain ⟨n, hn, -, hend⟩ := run_eq_some_iff.1 h
  have hpasses := ((passOf_shows env waits timeout w n).of_conclude hend).2.1
  rw [hpasses]
  exact hn

/-- The rows of a wait say what its rounds have answered. -/
theorem gists_of_run (h : run env patience waits timeout w = some (res, w')) :
    res.table.rows.map Row.gist =
      (inTableOrder (fun x => x.1.origin) (remembered waits
        (fun k => (roundOf env waits timeout w.scene k).answers) (res.passes - 1))).map
          fun x => (x.1.origin, x.2) := by
  rw [table_of_conclude (exists_conclude_of_run h).2, gists_tableOf]
  exact congrArg (fun l => (inTableOrder _ l).map _) (untimed_watched_passAt env _ waits _ _)

/-- Each row has the words for its condition as they are at the end. -/
theorem descriptions_of_run (h : run env patience waits timeout w = some (res, w')) :
    res.table.rows.map Row.condition =
      (inTableOrder Wait.origin waits).map fun x => env.describe x.condition w'.scene := by
  rw [table_of_conclude (exists_conclude_of_run h).2, descriptions_tableOf, waits_watched_passOf]

/-- A wait that fails for an error names the first condition that has reported one in the last
round. -/
theorem named_of_run (h : run env patience waits timeout w = some (res, w')) :
    res.named? =
      ((roundOf env waits timeout w.scene (res.passes - 1)).culprit?
        (waits.map Wait.condition)).map fun x => env.describe x.1 x.2.scene := by
  rw [named_of_conclude (exists_conclude_of_run h).2]
  cases res.passes - 1 with
  | zero =>
      rw [passOf, passAt, errored_pass, conditionsOf_fresh]
      rfl
  | succ n =>
      rw [passOf, passAt_succ, errored_pass, conditionsOf_carry_passAt, conditionsOf_fresh,
        scene_rest, (passAt_shows env _ n _ _).scene, conditionsOf_fresh, ← roundAt_succ]
      rfl

end

end Wait
end Passage
