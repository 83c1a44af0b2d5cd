/-
# Longer timeouts

A wait is compared with one for the same conditions that begins in the same
world and may last longer.  The conditions may look at all that was checked
so far, but not at the clock (`Environment.Clockless`).

The two go abreast: round for round they see the same, and as long as the
shorter wait is not over their clocks read the same as well
(`abreast_roundAt`).  The clocks part when a sleep is cut short at the
deadline of the shorter wait; but such a sleep ends at the deadline, and so
the round behind it is the last one of the shorter wait whatever it sees.
So no round that leaves the shorter wait open ends the longer one, and a
round that has decided the shorter wait by what it has seen decides the
longer one as well (`longer_timeout_keeps_decision`).
-/
import Passage.Proofs.Wait.Memory
import Passage.Proofs.Wait.Spending

namespace Passage
variable {ι σ : Type}

/-- Some conditions do not look at the clock: what a check answers, how long it takes and what
state it leaves depend on the state alone.  The answer is stamped with the time all the same. -/
structure Environment.Clockless (env : Environment ι σ) (cs : List ι) : Prop where
  value : ∀ c ∈ cs, ∀ s s' : Scene σ, s.state = s'.state →
    (env.check c s).value.untimed = (env.check c s').value.untimed
  cost : ∀ c ∈ cs, ∀ s s' : Scene σ, s.state = s'.state →
    (env.check c s).cost = (env.check c s').cost
  state : ∀ c ∈ cs, ∀ s s' : Scene σ, s.state = s'.state →
    (env.check c s).state = (env.check c s').state

theorem Environment.Clockless.tail {env : Environment ι σ} {c : ι} {cs : List ι}
    (h : env.Clockless (c :: cs)) : env.Clockless cs where
  value d hd := h.value d (List.mem_cons_of_mem c hd)
  cost d hd := h.cost d (List.mem_cons_of_mem c hd)
  state d hd := h.state d (List.mem_cons_of_mem c hd)

/-- The descriptions of some conditions do not look at the clock either. -/
def Environment.ClocklessWords (env : Environment ι σ) (cs : List ι) : Prop :=
  ∀ c ∈ cs, ∀ s s' : Scene σ, s.state = s'.state → env.describe c s = env.describe c s'

namespace Wait

/-! ## Rounds that see the same -/

/-- What a check has shown, apart from the times: what was answered, and the state. -/
def Sighting.untimed (x : Sighting σ) : Status × σ := (x.status.untimed, x.scene.state)

/-- Two rounds have seen the same, check for check, apart from the times. -/
structure Round.Like (r r' : Round σ) : Prop where
  sightings : r.sightings.map Sighting.untimed = r'.sightings.map Sighting.untimed
  state : r.scene.state = r'.scene.state

namespace Round.Like
variable {r r' : Round σ}

theorem answers (h : r.Like r') : r.answers = r'.answers := by
  have hfst := congrArg (List.map Prod.fst) h.sightings
  rw [List.map_map, List.map_map] at hfst
  exact hfst

theorem hasError (h : r.Like r') : r.hasError = r'.hasError := by
  rw [hasError_eq_any, hasError_eq_any, h.answers]

theorem allFulfilled (h : r.Like r') : r.allFulfilled = r'.allFulfilled := by
  rw [allFulfilled_eq_all, allFulfilled_eq_all, h.answers]

/-- The same condition is the first to report an error, in the same state, if any does. -/
theorem culprit?_cases (h : r.Like r') (cs : List ι) :
    (r.culprit? cs = none ∧ r'.culprit? cs = none) ∨
      ∃ c ∈ cs, ∃ x x', r.culprit? cs = some (c, x) ∧ r'.culprit? cs = some (c, x') ∧
        x.scene.state = x'.scene.state := by
  have hfind : ∀ q : Round σ, (q.culprit? cs).map (fun x => (x.1, x.2.untimed)) =
      (cs.zip (q.sightings.map Sighting.untimed)).find? fun x => x.2.1.isError := by
    intro q
    rw [List.zip_map_right, List.find?_map]
    rfl
  have hsame : (r.culprit? cs).map (fun x => (x.1, x.2.untimed)) =
      (r'.culprit? cs).map (fun x => (x.1, x.2.untimed)) := by
    rw [hfind, hfind, h.sightings]
  cases hr : r.culprit? cs with
  | none =>
      rw [hr, Option.map_none, eq_comm, Option.map_eq_none_iff] at hsame
      exact Or.inl ⟨rfl, hsame⟩
  | some x =>
      rw [hr, Option.map_some, eq_comm] at hsame
      obtain ⟨y, hy, hxy⟩ := Option.map_eq_some_iff.1 hsame
      obtain ⟨c, x⟩ := x
      obtain ⟨d, y⟩ := y
      obtain ⟨rfl, huntimed⟩ := Prod.mk.inj hxy
      have hmem : d ∈ cs := (List.of_mem_zip (List.mem_of_find?_eq_some hr)).1
      exact Or.inr ⟨d, hmem, x, y, rfl, hy, (congrArg Prod.snd huntimed).symm⟩

/-- An answer that decides a wait decides it in the same way, whatever the budget. -/
theorem ending (h : r.Like r') (hdec : r.hasError = true ∨ r.allFulfilled = true)
    (b b' : Budget) : r'.ending b' = r.ending b := by
  rw [Round.ending, Round.ending, ← h.hasError, ← h.allFulfilled]
  rcases hdec with herr | hall
  · rw [if_pos herr, if_pos herr]
  · rw [if_pos hall, if_pos hall]

end Round.Like

theorem survey_like {env : Environment ι σ} {cs : List ι} (hc : env.Clockless cs)
    {s s' : Scene σ} (hs : s.state = s'.state) : (survey env cs s).Like (survey env cs s') := by
  induction cs generalizing s s' with
  | nil => exact ⟨rfl, hs⟩
  | cons c rest ih =>
      have hvalue := hc.value c List.mem_cons_self s s' hs
      have hstate := hc.state c List.mem_cons_self s s' hs
      have hrest : (survey env rest (s.after (env.check c s))).Like
          (survey env rest (s'.after (env.check c s'))) := ih hc.tail hstate
      refine ⟨?_, hrest.state⟩
      have hfirst : Sighting.untimed ⟨(env.check c s).value, s.after (env.check c s)⟩ =
          Sighting.untimed ⟨(env.check c s').value, s'.after (env.check c s')⟩ :=
        Prod.ext hvalue hstate
      exact List.cons_eq_cons.2 ⟨hfirst, hrest.sightings⟩

/-- Rounds that begin in the same state take the same time. -/
theorem exists_cost_of_surveys {env : Environment ι σ} {cs : List ι} (hc : env.Clockless cs)
    {s s' : Scene σ} (hs : s.state = s'.state) :
    ∃ n, (survey env cs s).scene.now.nanos = s.now.nanos + n ∧
      (survey env cs s').scene.now.nanos = s'.now.nanos + n := by
  induction cs generalizing s s' with
  | nil => exact ⟨0, rfl, rfl⟩
  | cons c rest ih =>
      have hcost := hc.cost c List.mem_cons_self s s' hs
      have hstate := hc.state c List.mem_cons_self s s' hs
      have hafter : (s.after (env.check c s)).state = (s'.after (env.check c s')).state := hstate
      obtain ⟨n, hn, hn'⟩ := ih hc.tail hafter
      refine ⟨(env.check c s).cost.nanos + n, ?_, ?_⟩
      · rw [← Nat.add_assoc]
        exact hn
      · rw [hcost, ← Nat.add_assoc]
        exact hn'

/-! ## Budgets that last longer -/

/-- The second budget has no deadline, or one that is not earlier than that of the first. -/
def Budget.Extends (b b' : Budget) : Prop :=
  ∀ d', b'.deadline? = some d' → ∃ d, b.deadline? = some d ∧ d ≤ d'

theorem extends_of_le {start timeout more : Duration}
    (h : timeout ≤ more ∨ Clock.deadline? start more = none) :
    (Budget.mk start timeout).Extends ⟨start, more⟩ := by
  intro d' hd'
  have hle : timeout.nanos ≤ more.nanos := by
    rcases h with hle | hnone
    · exact hle
    · exact absurd (hd'.symm.trans hnone) (by simp)
  have hreach : start + more < Clock.limit := by
    refine Classical.byContradiction fun hn => ?_
    rw [Budget.deadline?, Clock.deadline?, if_neg hn] at hd'
    exact absurd hd' (by simp)
  have hreach' : start + timeout < Clock.limit :=
    Nat.lt_of_le_of_lt (Nat.add_le_add_left hle start.nanos) hreach
  have hd := deadline?_eq_some hd'
  refine ⟨start + timeout, if_pos hreach', ?_⟩
  rw [Duration.le_iff, hd]
  exact Nat.add_le_add_left hle start.nanos

section
variable {b b' : Budget}

theorem Budget.Extends.no_deadline (h : b.Extends b') (hd : b.deadline? = none) :
    b'.deadline? = none := by
  cases hd' : b'.deadline? with
  | none => rfl
  | some d' =>
      obtain ⟨d, hsome, -⟩ := h d' hd'
      exact absurd (hd.symm.trans hsome) (by simp)

theorem Budget.Extends.not_expired (h : b.Extends b') {now : Duration} (hopen : ¬ b.Expired now) :
    ¬ b'.Expired now := by
  rintro ⟨d', hd', hle'⟩
  obtain ⟨d, hd, hle⟩ := h d' hd'
  exact hopen ⟨d, hd, Nat.le_trans hle hle'⟩

/-- The sleeps of the two budgets end together, or the shorter one ends at the deadline. -/
theorem stop_of_extends (h : b.Extends b') {now : Duration} (hopen : ¬ b.Expired now) :
    (b.napAt now).stop = (b'.napAt now).stop ∨
      (b.Expired (b.napAt now).stop ∧ (b.napAt now).stop ≤ (b'.napAt now).stop) := by
  cases hd : b.deadline? with
  | none =>
      left
      rw [Nap.stop, Nap.stop, nap_of_no_deadline hd, nap_of_no_deadline (h.no_deadline hd)]
      rfl
  | some d =>
      obtain ⟨hlt, hlength⟩ := nap_of_deadline hd hopen
      have hshort : (b.napAt now).length.nanos = min interval.nanos (d.nanos - now.nanos) :=
        congrArg Duration.nanos hlength
      have hlong : (b.napAt now).length.nanos ≤ (b'.napAt now).length.nanos ∧
          (b'.napAt now).length.nanos ≤ interval.nanos := by
        cases hd' : b'.deadline? with
        | none =>
            rw [hshort, nap_of_no_deadline hd']
            exact ⟨Nat.min_le_left _ _, Nat.le_refl _⟩
        | some d' =>
            obtain ⟨-, hlength'⟩ := nap_of_deadline hd' (h.not_expired hopen)
            obtain ⟨e, he, hle⟩ := h d' hd'
            obtain rfl := Option.some.inj (hd.symm.trans he)
            have hle' : d.nanos ≤ d'.nanos := hle
            rw [hshort, hlength']
            simp only [Duration.least, Duration.nanos_sub]
            omega
      by_cases hfull : interval.nanos ≤ d.nanos - now.nanos
      · -- Neither sleep is cut short.
        left
        have hsame : (b.napAt now).length = (b'.napAt now).length := Duration.ext (by omega)
        rw [Nap.stop, Nap.stop, hsame]
        rfl
      · right
        refine ⟨⟨d, hd, ?_⟩, Nat.add_le_add_left hlong.1 now.nanos⟩
        have hlt' : now.nanos < d.nanos := hlt
        show d.nanos ≤ now.nanos + (b.napAt now).length.nanos
        omega

/-! ## Two waits abreast -/

/-- A round of the shorter wait, with the budget `b`, and the round with the same number of the
longer one: they have seen the same, and they end at the same time unless the shorter wait is over
by then. -/
structure Abreast (b : Budget) (r r' : Round σ) : Prop where
  like : r.Like r'
  clock : r.scene.now = r'.scene.now ∨ (b.Expired r.scene.now ∧ r.scene.now ≤ r'.scene.now)

theorem Abreast.now_le {r r' : Round σ} (h : Abreast b r r') : r.scene.now ≤ r'.scene.now := by
  rcases h.clock with heq | ⟨-, hle⟩
  · exact Nat.le_of_eq (congrArg Duration.nanos heq)
  · exact hle

/-- A round that leaves the shorter wait open leaves the longer one open. -/
theorem Abreast.not_decides {r r' : Round σ} (h : Abreast b r r') (hb : b.Extends b')
    (hgo : ¬ r.Decides b) : ¬ r'.Decides b' := by
  have hopen := not_expired_of_not_decides hgo
  rintro (herr | hall | hlate)
  · exact hgo (Or.inl (h.like.hasError.trans herr))
  · exact hgo (Or.inr (Or.inl (h.like.allFulfilled.trans hall)))
  · rcases h.clock with heq | ⟨hlate', -⟩
    · rw [← heq] at hlate
      exact hb.not_expired hopen hlate
    · exact hopen hlate'

theorem abreast_survey {env : Environment ι σ} {cs : List ι} (hc : env.Clockless cs)
    {s s' : Scene σ} (hs : s.state = s'.state)
    (hclock : s.now = s'.now ∨ (b.Expired s.now ∧ s.now ≤ s'.now)) :
    Abreast b (survey env cs s) (survey env cs s') := by
  refine ⟨survey_like hc hs, ?_⟩
  obtain ⟨n, hn, hn'⟩ := exists_cost_of_surveys hc hs
  rcases hclock with heq | ⟨⟨d, hd, hlate⟩, hle⟩
  · exact Or.inl (Duration.ext (by rw [hn, hn', heq]))
  · have hlate' : d.nanos ≤ s.now.nanos := hlate
    have hle' : s.now.nanos ≤ s'.now.nanos := hle
    refine Or.inr ⟨⟨d, hd, ?_⟩, ?_⟩
    · rw [Duration.le_iff, hn]
      omega
    · rw [Duration.le_iff, hn, hn']
      omega

/-- As long as the shorter wait goes on, the two go abreast. -/
theorem abreast_roundAt {env : Environment ι σ} {cs : List ι} (hc : env.Clockless cs)
    (hb : b.Extends b') (s : Scene σ) {n : Nat}
    (hgo : ∀ m < n, ¬ (roundAt env b cs s m).Decides b) :
    Abreast b (roundAt env b cs s n) (roundAt env b' cs s n) := by
  induction n with
  | zero => exact abreast_survey hc rfl (Or.inl rfl)
  | succ n ih =>
      have hlast := ih fun m hm => hgo m (Nat.lt_succ_of_lt hm)
      have hopen := not_expired_of_not_decides (hgo n (Nat.lt_succ_self n))
      have heq := hlast.clock.resolve_right fun hlate => hopen hlate.1
      rw [roundAt_succ, roundAt_succ]
      refine abreast_survey hc ?_ ?_
      · rw [state_resume, state_resume]
        exact hlast.like.state
      · rw [now_resume, now_resume, ← heq]
        exact stop_of_extends hb hopen

end

/-! ## The longer wait -/

section
variable {env : Environment ι σ} {patience : Nat} {waits : List (Wait ι)} {timeout : Duration}
  {w w' : World ι σ} {res : Result}

theorem isTimeout_of_ending {t : Duration} (h : res.ending = .timeout t) : res.isTimeout = true := by
  cases res with
  | ok report => exact absurd h (by simp [Result.ending])
  | error failure =>
      obtain ⟨reason, _, _, _⟩ := failure
      cases reason with
      | timeout t => rfl
      | conditionError c => exact absurd h (by simp [Result.ending, Reason.ending])

/-- A wait that has not run out of time was decided by what its last round has seen. -/
theorem seen_of_not_isTimeout (h : run env patience waits timeout w = some (res, w'))
    (ht : res.isTimeout = false) :
    (roundOf env waits timeout w.scene (res.passes - 1)).hasError = true ∨
      (roundOf env waits timeout w.scene (res.passes - 1)).allFulfilled = true := by
  obtain ⟨p, hpasses, -, -, hending, -⟩ := exists_round_of_run h
  rw [hpasses, Nat.add_sub_cancel]
  refine Classical.byContradiction fun hnone => ?_
  obtain ⟨herr, hall⟩ := not_or.1 hnone
  rw [Round.ending, if_neg herr, if_neg hall] at hending
  exact absurd (ht.symm.trans (isTimeout_of_ending hending)) (by simp)

/-- What a longer wait returns, compared with a shorter one that was decided. -/
structure Extended (env : Environment ι σ) (waits : List (Wait ι)) (res : Result) (s : Scene σ)
    (res' : Result) (s' : Scene σ) : Prop where
  ending : res'.ending = res.ending
  passes : res'.passes = res.passes
  elapsed_le : res.elapsed ≤ res'.elapsed
  state : s'.state = s.state
  /-- If a condition is named, it is the same one, and it is described in the same state. -/
  named : ∀ text, res.named? = some text → ∃ c ∈ waits.map Wait.condition, ∃ at₁ at₂ : Scene σ,
    at₁.state = at₂.state ∧ text = env.describe c at₁ ∧ res'.named? = some (env.describe c at₂)
  /-- The rows say the same, apart from the times, and they stand for the same waits. -/
  gists : res'.table.rows.map Row.gist = res.table.rows.map Row.gist
  descriptions :
    res.table.rows.map Row.condition =
      (inTableOrder Wait.origin waits).map (fun x => env.describe x.condition s) ∧
    res'.table.rows.map Row.condition =
      (inTableOrder Wait.origin waits).map (fun x => env.describe x.condition s')
  /-- If the descriptions do not look at the clock, all words are the same. -/
  words : env.ClocklessWords (waits.map Wait.condition) →
    res'.named? = res.named? ∧ res'.table.rows.map Row.condition = res.table.rows.map Row.condition

/-- What comes of two waits that have ended with rounds that saw the same. -/
theorem extended_of_like {more : Duration} {rounds : Nat} {w'' : World ι σ} {res' : Result}
    (h : run env patience waits timeout w = some (res, w'))
    (h' : run env rounds waits more w = some (res', w'')) (hpasses : res'.passes = res.passes)
    (hdec : (roundOf env waits timeout w.scene (res.passes - 1)).hasError = true ∨
      (roundOf env waits timeout w.scene (res.passes - 1)).allFulfilled = true)
    (habreast : ∀ m ≤ res.passes - 1, Abreast ⟨w.now, timeout⟩
      (roundOf env waits timeout w.scene m) (roundOf env waits more w.scene m)) :
    Extended env waits res w'.scene res' w''.scene := by
  have hlast := habreast (res.passes - 1) (Nat.le_refl _)
  obtain ⟨p, hp, -, -, hending, hscene⟩ := exists_round_of_run h
  obtain ⟨p', hp', -, -, hending', hscene'⟩ := exists_round_of_run h'
  obtain rfl : p' = p := by omega
  have hlike : (roundOf env waits timeout w.scene p').Like (roundOf env waits more w.scene p') := by
    have hlike := hlast.like
    rwa [hp, Nat.add_sub_cancel] at hlike
  have hstate : w''.scene.state = w'.scene.state := by
    rw [hscene, hscene']
    exact hlike.state.symm
  have hnamed := named_of_run h
  have hnamed' := named_of_run h'
  rw [hp, Nat.add_sub_cancel] at hnamed
  rw [hp', Nat.add_sub_cancel] at hnamed'
  have hwords := descriptions_of_run h
  have hwords' := descriptions_of_run h'
  refine ⟨?_, hpasses, ?_, hstate, ?_, ?_, ⟨hwords, hwords'⟩, ?_⟩
  · rw [hp, Nat.add_sub_cancel] at hdec
    rw [hending, hending']
    exact hlike.ending hdec _ _
  · rw [elapsed_of_run h, elapsed_of_run h', hpasses]
    exact Nat.sub_le_sub_right hlast.now_le _
  · intro text htext
    rw [hnamed] at htext
    rcases hlike.culprit?_cases (waits.map Wait.condition) with
      ⟨hnone, -⟩ | ⟨c, hc, x, x', hx, hx', hsame⟩
    · rw [hnone] at htext
      exact absurd htext (by simp)
    · rw [hx] at htext
      obtain rfl := Option.some.inj htext
      refine ⟨c, hc, x.scene, x'.scene, hsame, rfl, ?_⟩
      rw [hnamed', hx']
      rfl
  · rw [gists_of_run h, gists_of_run h', hpasses]
    refine congrArg (fun l => (inTableOrder _ l).map _) (remembered_congr ?_)
    exact fun k hk => (habreast k hk).like.answers.symm
  · intro hclockless
    refine ⟨?_, ?_⟩
    · rw [hnamed, hnamed']
      rcases hlike.culprit?_cases (waits.map Wait.condition) with
        ⟨hnone, hnone'⟩ | ⟨c, hc, x, x', hx, hx', hsame⟩
      · rw [hnone, hnone']
      · rw [hx, hx']
        exact congrArg some (hclockless c hc _ _ hsame).symm
    · rw [hwords, hwords']
      refine List.map_congr_left fun x hx => ?_
      have hmem : x ∈ waits := (perm_inTableOrder _ waits).mem_iff.1 hx
      exact hclockless x.condition (List.mem_map_of_mem hmem) _ _ hstate

end

/-- **A longer timeout does not change what was decided.**  For conditions that do not look at the
clock, a wait that has succeeded, or has failed for an error, comes to the same after as many passes
if it may last longer, and for ever if need be; only times may differ, and it is not over earlier.
A wait that has run out of time makes at least as many passes if it may last longer. -/
theorem longer_timeout_keeps_decision {env : Environment ι σ} {patience : Nat}
    {waits : List (Wait ι)} {timeout more : Duration} {w w' : World ι σ} {res : Result}
    (hc : env.Clockless (waits.map Wait.condition))
    (hmore : timeout ≤ more ∨ Clock.deadline? w.now more = none)
    (h : run env patience waits timeout w = some (res, w')) :
    (res.isTimeout = false →
      ∀ rounds, (Clock.deadline? w.now more = none → res.passes ≤ rounds) →
        ∃ res' w'', run env rounds waits more w = some (res', w'') ∧
          Extended env waits res w'.scene res' w''.scene) ∧
    (res.isTimeout = true →
      ∀ rounds res' w'', run env rounds waits more w = some (res', w'') →
        res.passes ≤ res'.passes) := by
  have hb : (Budget.mk w.now timeout).Extends ⟨w.now, more⟩ := extends_of_le hmore
  obtain ⟨p, hpasses, hdec, hgo, -, -⟩ := exists_round_of_run h
  have habreast : ∀ m ≤ p, Abreast ⟨w.now, timeout⟩ (roundOf env waits timeout w.scene m)
      (roundOf env waits more w.scene m) := by
    intro m hm
    exact abreast_roundAt hc hb w.scene fun k hk => hgo k (Nat.lt_of_lt_of_le hk hm)
  have hgo' : ∀ m < p, ¬ (roundOf env waits more w.scene m).Decides ⟨w.now, more⟩ := by
    intro m hm
    exact (habreast m (Nat.le_of_lt hm)).not_decides hb (hgo m hm)
  refine ⟨?_, ?_⟩
  · intro ht rounds hrounds
    have hseen := seen_of_not_isTimeout h ht
    rw [hpasses, Nat.add_sub_cancel] at hseen
    have hlike := (habreast p (Nat.le_refl p)).like
    have hdec' : (roundOf env waits more w.scene p).Decides ⟨w.now, more⟩ := by
      rw [hlike.hasError, hlike.allFulfilled] at hseen
      exact hseen.imp_right Or.inl
    have hp : p < roundsOf rounds ⟨w.now, more⟩ := by
      rw [roundsOf]
      cases hd : (Budget.mk w.now more).deadline? with
      | none =>
          have henough := hrounds hd
          rw [hpasses] at henough
          exact henough
      | some d => exact lt_passBound_of_not_decides hd (Nat.le_refl w.scene.now.nanos) hgo'
    obtain ⟨res', w'', h', hpasses'⟩ := exists_run_of_decides hp hgo' hdec'
    refine ⟨res', w'', h', extended_of_like h h' (hpasses'.trans hpasses.symm) ?_ ?_⟩
    · exact seen_of_not_isTimeout h ht
    · rw [hpasses, Nat.add_sub_cancel]
      exact habreast
  · intro _ rounds res' w'' h'
    obtain ⟨p', hpasses', hdec', -, -, -⟩ := exists_round_of_run h'
    rw [hpasses, hpasses']
    refine Nat.succ_le_succ (Nat.le_of_not_lt fun hlt => ?_)
    exact hgo' p' hlt hdec'

theorem clockless_reciting (script : Nat → Outcome) (cs : List ι) :
    (Environment.reciting (ι := ι) script).Clockless cs where
  value c _ s s' hs := by
    show Status.untimed (.plain (script s.state) s.wall) = .untimed (.plain (script s'.state) s'.wall)
    rw [hs]
    rfl
  cost _ _ _ _ _ := rfl
  state c _ s s' hs := congrArg (· + 1) hs

/-- The fourth round, in which both doors are open, comes after a short sleep if there are 120
milliseconds, and after a whole one if there is no deadline.  For doors that stay shut a second is
enough for the four passes that there are in 120 milliseconds. -/
theorem flicker_outlasts_timeout :
    (∃ res w' res' w'', run flicker 0 twoDoors (.ofMillis 120) .fresh = some (res, w') ∧
      run flicker 4 twoDoors Clock.limit .fresh = some (res', w'') ∧
      res.elapsed = .ofMillis 120 ∧ res'.elapsed = .ofMillis 150 ∧ res'.passes = 4 ∧
      Extended flicker twoDoors res w'.scene res' w''.scene) ∧
    ∃ res' w'', run shutDoors 0 twoDoors (.ofSecs 1) .fresh = some (res', w'') ∧
      4 ≤ res'.passes := by
  refine ⟨?_, ?_⟩
  · have hshort : (run flicker 0 twoDoors (.ofMillis 120) .fresh).map
        (fun x => (x.1.isTimeout, x.1.passes, x.1.elapsed)) =
          some (false, 4, .ofMillis 120) := rfl
    have hlong : (run flicker 4 twoDoors Clock.limit .fresh).map (fun x => x.1.elapsed) =
        some (.ofMillis 150) := rfl
    obtain ⟨⟨res, w'⟩, h, hres⟩ := Option.map_eq_some_iff.1 hshort
    obtain ⟨ht, hrest⟩ := Prod.mk.inj hres
    obtain ⟨hfour, helapsed⟩ := Prod.mk.inj hrest
    have hnone : Clock.deadline? (World.fresh (ι := Unit)).now Clock.limit = none := rfl
    have hflicker : flicker.Clockless (twoDoors.map Wait.condition) := clockless_reciting _ _
    obtain ⟨hkeeps, -⟩ := longer_timeout_keeps_decision hflicker (Or.inr hnone) h
    obtain ⟨res', w'', h', hext⟩ := hkeeps ht 4 fun _ => Nat.le_of_eq hfour
    rw [h'] at hlong
    exact ⟨res, w', res', w'', h, h', helapsed, Option.some.inj hlong, hext.passes.trans hfour, hext⟩
  · have hshort : (run shutDoors 0 twoDoors (.ofMillis 120) .fresh).map
        (fun x => (x.1.isTimeout, x.1.passes)) = some (true, 4) := rfl
    obtain ⟨⟨res, w'⟩, h, hres⟩ := Option.map_eq_some_iff.1 hshort
    obtain ⟨ht, hfour⟩ := Prod.mk.inj hres
    have hshut : shutDoors.Clockless (twoDoors.map Wait.condition) := clockless_reciting _ _
    have hle : Duration.ofMillis 120 ≤ .ofSecs 1 := by decide
    obtain ⟨-, hmakes⟩ := longer_timeout_keeps_decision hshut (Or.inl hle) h
    have hsome : (run shutDoors 0 twoDoors (.ofSecs 1) .fresh).isSome = true :=
      run_isSome_of_deadline rfl
    obtain ⟨⟨res', w''⟩, h'⟩ := Option.isSome_iff_exists.1 hsome
    refine ⟨res', w'', h', ?_⟩
    have hle := hmakes ht 0 res' w'' h'
    change res.passes = 4 at hfour
    rwa [hfour] at hle

end Wait
end Passage
