/-
# Waits in another order

The conditions of a wait may be listed in any order, if they are different
conditions and each of them goes by its own checks alone: what it answers
and how long it takes is settled by how often it has been checked itself
(`Environment.CountsChecks`).

In another order the checks of a round are made at other times and in other
states.  But by the end of the round each condition has been checked once
more, and the same time has gone by; so the rounds of the two waits have
the same answers in another order and end at the same time
(`rearranged_roundOf`), and a decision does not look at the order
(`Rearranged.decides_iff`).  What is remembered of a condition follows from
its own answers, so that in the end the same is said of each wait
(`order_of_waits_is_free`).
-/
import Passage.Rehearsal
import Passage.Proofs.Wait.Memory
import Passage.Proofs.Wait.Spending

namespace Passage
variable {ι σ : Type}

/-- Each of some conditions goes by its own checks.  `seen` reads from a state how often a condition
has been checked; `answers` and `costs` say what it answers then, and how long it takes. -/
structure Environment.CountsChecks (env : Environment ι σ) (seen : σ → ι → Nat)
    (answers : ι → Nat → Status) (costs : ι → Nat → Duration) (cs : List ι) : Prop where
  value : ∀ c ∈ cs, ∀ s, (env.check c s).value.untimed = (answers c (seen s.state c)).untimed
  cost : ∀ c ∈ cs, ∀ s, (env.check c s).cost = costs c (seen s.state c)
  /-- A check is one more check of its condition, and of no other one. -/
  own : ∀ c ∈ cs, ∀ s, seen (env.check c s).state c = seen s.state c + 1
  others : ∀ c ∈ cs, ∀ d ∈ cs, d ≠ c → ∀ s, seen (env.check c s).state d = seen s.state d

theorem Environment.CountsChecks.of_perm {env : Environment ι σ} {seen : σ → ι → Nat}
    {answers : ι → Nat → Status} {costs : ι → Nat → Duration} {cs cs' : List ι}
    (hc : env.CountsChecks seen answers costs cs) (hp : cs'.Perm cs) :
    env.CountsChecks seen answers costs cs' where
  value c hmem := hc.value c (hp.mem_iff.1 hmem)
  cost c hmem := hc.cost c (hp.mem_iff.1 hmem)
  own c hmem := hc.own c (hp.mem_iff.1 hmem)
  others c hmem d hd := hc.others c (hp.mem_iff.1 hmem) d (hp.mem_iff.1 hd)

namespace Wait

section
variable {env : Environment ι σ} {seen : σ → ι → Nat} {answers : ι → Nat → Status}
  {costs : ι → Nat → Duration} {cs : List ι}

/-! ## One round -/

/-- By the end of a round each of its conditions has been checked once more. -/
theorem seen_survey (hc : env.CountsChecks seen answers costs cs) {l : List ι} (hl : l ⊆ cs)
    (hn : l.Nodup) (s : Scene σ) : ∀ d ∈ cs,
      (d ∈ l → seen (survey env l s).scene.state d = seen s.state d + 1) ∧
      (d ∉ l → seen (survey env l s).scene.state d = seen s.state d) := by
  induction l generalizing s with
  | nil =>
      intro d _
      exact ⟨fun hmem => absurd hmem List.not_mem_nil, fun _ => rfl⟩
  | cons c rest ih =>
      obtain ⟨hfresh, hn⟩ := List.nodup_cons.1 hn
      obtain ⟨hmem, hrest⟩ := List.cons_subset.1 hl
      intro d hd
      obtain ⟨hin, hout⟩ := ih hrest hn (s.after (env.check c s)) d hd
      refine ⟨?_, ?_⟩
      · intro hdl
        rcases List.mem_cons.1 hdl with rfl | hdr
        · exact (hout hfresh).trans (hc.own d hmem s)
        · have hne : d ≠ c := fun he => hfresh (he ▸ hdr)
          exact (hin hdr).trans (congrArg (· + 1) (hc.others c hmem d hd hne s))
      · intro hdl
        obtain ⟨hne, hdr⟩ := not_or.1 (mt List.mem_cons.2 hdl)
        exact (hout hdr).trans (hc.others c hmem d hd hne s)

theorem answers_survey (hc : env.CountsChecks seen answers costs cs) {l : List ι} (hl : l ⊆ cs)
    (hn : l.Nodup) (s : Scene σ) :
    (survey env l s).answers = l.map fun c => (answers c (seen s.state c)).untimed := by
  induction l generalizing s with
  | nil => rfl
  | cons c rest ih =>
      obtain ⟨hfresh, hn⟩ := List.nodup_cons.1 hn
      obtain ⟨hmem, hrest⟩ := List.cons_subset.1 hl
      refine List.cons_eq_cons.2 ⟨hc.value c hmem s, (ih hrest hn _).trans ?_⟩
      refine List.map_congr_left fun d hd => ?_
      have hne : d ≠ c := fun he => hfresh (he ▸ hd)
      exact congrArg (fun k => (answers d k).untimed) (hc.others c hmem d (hrest hd) hne s)

theorem now_survey (hc : env.CountsChecks seen answers costs cs) {l : List ι} (hl : l ⊆ cs)
    (hn : l.Nodup) (s : Scene σ) :
    (survey env l s).scene.now.nanos =
      s.now.nanos + (l.map fun c => (costs c (seen s.state c)).nanos).sum := by
  induction l generalizing s with
  | nil => rfl
  | cons c rest ih =>
      obtain ⟨hfresh, hn⟩ := List.nodup_cons.1 hn
      obtain ⟨hmem, hrest⟩ := List.cons_subset.1 hl
      have hothers : (rest.map fun d => (costs d (seen (env.check c s).state d)).nanos) =
          rest.map fun d => (costs d (seen s.state d)).nanos := by
        refine List.map_congr_left fun d hd => ?_
        have hne : d ≠ c := fun he => hfresh (he ▸ hd)
        rw [hc.others c hmem d (hrest hd) hne s]
      have hfirst : (s.after (env.check c s)).now.nanos =
          s.now.nanos + (costs c (seen s.state c)).nanos := by
        rw [Scene.now_after, hc.cost c hmem s]
        rfl
      show (survey env rest (s.after (env.check c s))).scene.now.nanos = _
      rw [ih hrest hn, hfirst, List.map_cons, List.sum_cons, ← Nat.add_assoc]
      exact congrArg (_ + List.sum ·) hothers

/-! ## Round after round -/

theorem seen_sceneAt (hc : env.CountsChecks seen answers costs cs) (hn : cs.Nodup) (b : Budget)
    (s : Scene σ) (n : Nat) :
    ∀ c ∈ cs, seen (sceneAt env b cs s n).state c = seen s.state c + n := by
  induction n with
  | zero => exact fun _ _ => rfl
  | succ n ih =>
      intro c hmem
      rw [sceneAt, state_resume, roundAt_eq_survey,
        (seen_survey hc (List.Subset.refl cs) hn _ c hmem).1 hmem, ih c hmem]
      rfl

theorem answers_roundAt (hc : env.CountsChecks seen answers costs cs) (hn : cs.Nodup) (b : Budget)
    (s : Scene σ) (n : Nat) :
    (roundAt env b cs s n).answers =
      cs.map fun c => (answers c (seen s.state c + n)).untimed := by
  rw [roundAt_eq_survey, answers_survey hc (List.Subset.refl cs) hn]
  refine List.map_congr_left fun c hmem => ?_
  rw [seen_sceneAt hc hn b s n c hmem]

theorem now_roundAt_eq_sum (hc : env.CountsChecks seen answers costs cs) (hn : cs.Nodup)
    (b : Budget) (s : Scene σ) (n : Nat) :
    (roundAt env b cs s n).scene.now.nanos = (sceneAt env b cs s n).now.nanos +
      (cs.map fun c => (costs c (seen s.state c + n)).nanos).sum := by
  rw [roundAt_eq_survey, now_survey hc (List.Subset.refl cs) hn]
  refine congrArg (_ + List.sum ·) (List.map_congr_left fun c hmem => ?_)
  rw [seen_sceneAt hc hn b s n c hmem]

/-- The order of the conditions leaves no trace in the time. -/
theorem now_roundAt_of_perm (hc : env.CountsChecks seen answers costs cs) (hn : cs.Nodup)
    {cs' : List ι} (hc' : env.CountsChecks seen answers costs cs') (hp : cs'.Perm cs) (b : Budget)
    (s : Scene σ) (n : Nat) :
    (roundAt env b cs' s n).scene.now = (roundAt env b cs s n).scene.now := by
  have hn' : cs'.Nodup := hp.nodup_iff.2 hn
  have hsum : ∀ n, (cs'.map fun c => (costs c (seen s.state c + n)).nanos).sum =
      (cs.map fun c => (costs c (seen s.state c + n)).nanos).sum := fun n =>
    (hp.map _).sum_nat
  induction n with
  | zero =>
      refine Duration.ext ?_
      rw [now_roundAt_eq_sum hc hn, now_roundAt_eq_sum hc' hn', hsum]
      rfl
  | succ n ih =>
      refine Duration.ext ?_
      rw [now_roundAt_eq_sum hc hn, now_roundAt_eq_sum hc' hn', hsum, sceneAt, sceneAt, now_resume,
        now_resume, ih]

end

/-! ## Decisions -/

/-- A round has the answers of another one, in any order, and ends at the same time. -/
structure Rearranged (r' r : Round σ) : Prop where
  answers : r'.answers.Perm r.answers
  now : r'.scene.now = r.scene.now

namespace Rearranged
variable {r r' : Round σ}

theorem hasError (h : Rearranged r' r) : r'.hasError = r.hasError := by
  rw [Round.hasError_eq_any, Round.hasError_eq_any, h.answers.any_eq]

theorem allFulfilled (h : Rearranged r' r) : r'.allFulfilled = r.allFulfilled := by
  rw [Round.allFulfilled_eq_all, Round.allFulfilled_eq_all, h.answers.all_eq]

theorem decides_iff (h : Rearranged r' r) (b : Budget) : r'.Decides b ↔ r.Decides b := by
  rw [Round.Decides, Round.Decides, h.hasError, h.allFulfilled, h.now]

theorem ending (h : Rearranged r' r) (b : Budget) : r'.ending b = r.ending b := by
  rw [Round.ending, Round.ending, h.hasError, h.allFulfilled]

end Rearranged

/-! ## The wait in another order -/

section
variable {env : Environment ι σ} {seen : σ → ι → Nat} {answers : ι → Nat → Status}
  {costs : ι → Nat → Duration} {waits waits' : List (Wait ι)}

theorem rearranged_roundOf (hc : env.CountsChecks seen answers costs (waits.map Wait.condition))
    (hn : (waits.map Wait.condition).Nodup) (hp : waits'.Perm waits) (timeout : Duration)
    (s : Scene σ) (n : Nat) :
    Rearranged (roundOf env waits' timeout s n) (roundOf env waits timeout s n) := by
  have hp' : (waits'.map Wait.condition).Perm (waits.map Wait.condition) := hp.map _
  have hc' := hc.of_perm hp'
  refine ⟨?_, now_roundAt_of_perm hc hn hc' hp' _ s n⟩
  rw [roundOf, roundOf, answers_roundAt hc hn, answers_roundAt hc' (hp'.nodup_iff.2 hn)]
  exact hp'.map _

/-- What a wait in the end says of a condition that has been checked so many times before it. -/
def toldOf (answers : ι → Nat → Status) (seen : σ → ι → Nat) (s : Scene σ) (passes : Nat)
    (x : Wait ι) : Progress :=
  recalled (fun k => (answers x.condition (seen s.state x.condition + k)).untimed) (passes - 1)

/-- The rows of a wait say of each condition what follows from its own answers. -/
theorem gists_of_counts (hc : env.CountsChecks seen answers costs (waits.map Wait.condition))
    (hn : (waits.map Wait.condition).Nodup) {patience : Nat} {timeout : Duration}
    {w w' : World ι σ} {res : Result} (h : run env patience waits timeout w = some (res, w')) :
    res.table.rows.map Row.gist = (inTableOrder Wait.origin waits).map fun x =>
      (x.origin, toldOf answers seen w.scene res.passes x) := by
  have hanswers : ∀ k, (roundOf env waits timeout w.scene k).answers = waits.map fun x =>
      (answers x.condition (seen w.scene.state x.condition + k)).untimed := by
    intro k
    rw [roundOf, answers_roundAt hc hn, List.map_map]
    rfl
  rw [gists_of_run h, remembered_of_answers hanswers, inTableOrder_map, List.map_map]
  rfl

/-- By the end of a wait each condition has been checked once in every pass. -/
theorem seen_of_run (hc : env.CountsChecks seen answers costs (waits.map Wait.condition))
    (hn : (waits.map Wait.condition).Nodup) {patience : Nat} {timeout : Duration}
    {w w' : World ι σ} {res : Result} (h : run env patience waits timeout w = some (res, w')) :
    ∀ c ∈ waits.map Wait.condition,
      seen w'.scene.state c = seen w.scene.state c + res.passes := by
  intro c hmem
  obtain ⟨p, hpasses, -, -, -, hscene⟩ := exists_round_of_run h
  rw [hscene, hpasses, roundOf, roundAt_eq_survey,
    (seen_survey hc (List.Subset.refl _) hn _ c hmem).1 hmem, seen_sceneAt hc hn _ _ p c hmem]
  rfl

end

/-- What a wait and one for the same conditions in another order have in common. -/
structure Reordered (env : Environment ι σ) (waits : List (Wait ι)) (res : Result) (s : Scene σ)
    (waits' : List (Wait ι)) (res' : Result) (s' : Scene σ) : Prop where
  ending : res'.ending = res.ending
  passes : res'.passes = res.passes
  elapsed : res'.elapsed = res.elapsed
  /-- Of each wait the rows say the same, apart from the times; in both tables they stand in the
  order of the origins, and within an origin in that of the list. -/
  gists : ∃ told : Wait ι → Progress,
    res.table.rows.map Row.gist =
      (inTableOrder Wait.origin waits).map (fun x => (x.origin, told x)) ∧
    res'.table.rows.map Row.gist =
      (inTableOrder Wait.origin waits').map (fun x => (x.origin, told x))
  descriptions :
    res.table.rows.map Row.condition =
      (inTableOrder Wait.origin waits).map (fun x => env.describe x.condition s) ∧
    res'.table.rows.map Row.condition =
      (inTableOrder Wait.origin waits').map (fun x => env.describe x.condition s')

/-- **The order of the waits is free.**  If they are for different conditions, each of which goes by
its own checks, a wait for them in another order returns whenever the first one does, in the same
way and after the same time and as many passes; and of each condition it says the same, apart from
the times.  So does its description, if that goes by its own checks too. -/
theorem order_of_waits_is_free {env : Environment ι σ} {seen : σ → ι → Nat}
    {answers : ι → Nat → Status} {costs : ι → Nat → Duration} {patience : Nat}
    {waits waits' : List (Wait ι)} {timeout : Duration} {w w' : World ι σ} {res : Result}
    (hc : env.CountsChecks seen answers costs (waits.map Wait.condition))
    (hn : (waits.map Wait.condition).Nodup) (hp : waits'.Perm waits)
    (h : run env patience waits timeout w = some (res, w')) :
    ∃ res' w'', run env patience waits' timeout w = some (res', w'') ∧
      Reordered env waits res w'.scene waits' res' w''.scene ∧
      ((∀ c ∈ waits.map Wait.condition, ∀ s s' : Scene σ, seen s.state c = seen s'.state c →
          env.describe c s = env.describe c s') →
        ∀ x ∈ waits, env.describe x.condition w''.scene = env.describe x.condition w'.scene) := by
  have hp' : (waits'.map Wait.condition).Perm (waits.map Wait.condition) := hp.map _
  have hc' := hc.of_perm hp'
  have hn' : (waits'.map Wait.condition).Nodup := hp'.nodup_iff.2 hn
  have hrounds := rearranged_roundOf hc hn hp timeout w.scene
  obtain ⟨p, hpasses, hdec, hgo, hending, -⟩ := exists_round_of_run h
  have hlt : p < roundsOf patience ⟨w.now, timeout⟩ := by
    have hle := passes_le_roundsOf h
    rwa [hpasses] at hle
  have hgo' : ∀ m < p, ¬ (roundOf env waits' timeout w.scene m).Decides ⟨w.now, timeout⟩ :=
    fun m hm hd => hgo m hm (((hrounds m).decides_iff _).1 hd)
  obtain ⟨res', w'', h', hpasses'⟩ :=
    exists_run_of_decides hlt hgo' (((hrounds p).decides_iff _).2 hdec)
  have hsame : res'.passes = res.passes := hpasses'.trans hpasses.symm
  refine ⟨res', w'', h', ⟨?_, hsame, ?_, ?_, ?_⟩, ?_⟩
  · obtain ⟨q, hq, -, -, hending', -⟩ := exists_round_of_run h'
    obtain rfl : q = p := Nat.succ.inj (hq.symm.trans hpasses')
    rw [hending, hending', (hrounds q).ending]
  · rw [elapsed_of_run h, elapsed_of_run h', hsame, (hrounds _).now]
  · refine ⟨toldOf answers seen w.scene res.passes, gists_of_counts hc hn h, ?_⟩
    rw [gists_of_counts hc' hn' h', hsame]
  · exact ⟨descriptions_of_run h, descriptions_of_run h'⟩
  · intro hwords x hx
    have hmem : x.condition ∈ waits.map Wait.condition := List.mem_map_of_mem hx
    refine hwords x.condition hmem _ _ ?_
    rw [seen_of_run hc hn h _ hmem, seen_of_run hc' hn' h' _ (hp'.mem_iff.2 hmem), hsame]

end Wait

/-! ## Scripted conditions -/

namespace Rehearsal

theorem untimed_of (o : Outcome) (message : Option String) (t t' : Timestamp) :
    (Status.of o message t).untimed = (Status.of o message t').untimed := by
  cases message with
  | none => rfl
  | some m => rfl

/-- In a rehearsal, conditions with a script go by their own checks. -/
theorem countsChecks {cast : Cast} {cs : List String}
    (hs : ∀ c ∈ cs, ∃ answers cycle stamp, (cast.find c).behaviour = .script answers cycle stamp) :
    (environment cast).CountsChecks State.checksOf
      (fun c n => .of (answer (cast.find c).behaviour n []).outcome
        (answer (cast.find c).behaviour n []).message ⟨0, 0⟩)
      (fun c n => (answer (cast.find c).behaviour n []).cost) cs where
  value c hmem s := by
    obtain ⟨answers, cycle, stamp, hscript⟩ := hs c hmem
    show Status.untimed (check cast c s).value = _
    rw [check, hscript]
    exact untimed_of _ _ _ _
  cost c hmem s := by
    obtain ⟨answers, cycle, stamp, hscript⟩ := hs c hmem
    show (check cast c s).cost = _
    rw [check, hscript]
    rfl
  own c _ s := valueOf_update_self c 0 (· + 1) s.state.checks
  others c _ d _ hne s := valueOf_update_of_ne hne 0 (· + 1) s.state.checks

/-- Two bells; both fail at their third check. -/
def bells : Cast := [
  ("low", ⟨"low bell", false,
    .script [⟨.fulfilled, none, .ofMillis 3⟩, ⟨.notFulfilled, none, ⟨0⟩⟩, ⟨.error, none, ⟨0⟩⟩]
      false none⟩),
  ("high", ⟨"high bell", false,
    .script [⟨.notFulfilled, none, .ofMillis 5⟩, ⟨.fulfilled, none, ⟨0⟩⟩, ⟨.error, none, ⟨0⟩⟩]
      false none⟩)]

/-- A wait for both bells, the low one first. -/
def lowFirst : List (Wait String) := [⟨"low", .exit⟩, ⟨"high", .enter⟩]

/-- Whichever bell is listed first is named for the failure, and all else is the same. -/
theorem bells_in_both_orders :
    ∃ res w' res' w'',
      Wait.run (environment bells) 0 lowFirst (.ofSecs 1) startWorld = some (res, w') ∧
      Wait.run (environment bells) 0 lowFirst.reverse (.ofSecs 1) startWorld = some (res', w'') ∧
      res.named? = some "low bell" ∧ res'.named? = some "high bell" ∧
      res'.passes = 3 ∧ res'.elapsed = .ofMillis 108 ∧
      Wait.Reordered (environment bells) lowFirst res w'.scene lowFirst.reverse res' w''.scene := by
  have hlow : (Wait.run (environment bells) 0 lowFirst (.ofSecs 1) startWorld).map
      (fun x => (x.1.named?, x.1.passes, x.1.elapsed)) =
        some (some "low bell", 3, .ofMillis 108) := rfl
  have hhigh : (Wait.run (environment bells) 0 lowFirst.reverse (.ofSecs 1) startWorld).map
      (fun x => x.1.named?) = some (some "high bell") := rfl
  have hscripts : ∀ c ∈ lowFirst.map Wait.condition, ∃ answers cycle stamp,
      (Cast.find bells c).behaviour = .script answers cycle stamp := by
    intro c hmem
    simp only [lowFirst, List.map_cons, List.map_nil, List.mem_cons, List.not_mem_nil,
      or_false] at hmem
    rcases hmem with rfl | rfl
    · exact ⟨_, _, _, rfl⟩
    · exact ⟨_, _, _, rfl⟩
  obtain ⟨⟨res, w'⟩, h, hres⟩ := Option.map_eq_some_iff.1 hlow
  obtain ⟨hnamed, hrest⟩ := Prod.mk.inj hres
  obtain ⟨hthree, helapsed⟩ := Prod.mk.inj hrest
  obtain ⟨res', w'', h', hsame, -⟩ := Wait.order_of_waits_is_free (countsChecks hscripts) (by decide)
    lowFirst.reverse_perm h
  rw [h'] at hhigh
  exact ⟨res, w', res', w'', h, h', hnamed, Option.some.inj hhigh, hsame.passes.trans hthree,
    hsame.elapsed.trans helapsed, hsame⟩

end Rehearsal
end Passage
