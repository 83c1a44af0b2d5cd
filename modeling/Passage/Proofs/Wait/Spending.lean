/-
# What a wait spends

A wait with a deadline spends no more than its timeout on sleeping, however
long its checks take.  Each sleep lasts one interval, or up to the deadline
if that is nearer (`nap_of_deadline`); the checks between two sleeps only
bring the deadline nearer, so that the sleeps together never reach beyond
it (`totalSleep_le_timeout`), and the rounds never become more than a
timeout of idle rounds would hold.

When checks take no time the clock is moved by the sleeps alone, and the end
of each round is known exactly (`now_roundAt_of_timeless`): a wait that runs
out of time has then used all of its timeout for sleeping, and has made the
largest number of passes.

A wait without a deadline always sleeps a whole interval, and is never over
for want of time.
-/
import Passage.Proofs.Wait.Deeds
import Mathlib.Algebra.Order.Floor.Div

namespace Passage
variable {ι σ : Type}

/-! ## The sleeps of a world -/

/-- How long the run slept. -/
def Event.slept? : Event ι → Option Duration
  | slept d => some d
  | _ => none

namespace World

/-- The sleeps among the events, in order. -/
def sleeps (w : World ι σ) : List Duration := w.events.filterMap Event.slept?

theorem sleeps_eq_filterMap_deeds (w : World ι σ) :
    w.sleeps = w.deeds.filterMap Event.slept? := by
  rw [sleeps, deeds, List.filterMap_filter]
  refine List.filterMap_congr fun e _ => ?_
  cases e <;> rfl

end World

namespace Wait

theorem filterMap_slept_laps (cs : List ι) (ds : List Duration) :
    (laps cs ds).filterMap Event.slept? = ds := by
  have hchecks : (cs.map (Event.checked (ι := ι))).filterMap Event.slept? = [] := by
    rw [List.filterMap_map]
    exact List.filterMap_eq_nil_iff.2 fun _ _ => rfl
  induction ds with
  | nil => exact hchecks
  | cons d ds ih =>
      rw [laps_cons, List.filterMap_append, List.filterMap_append, hchecks, ih]
      rfl

theorem sleeps_of_deeds {w w' : World ι σ} {cs : List ι} {ds : List Duration}
    (h : w'.deeds = w.deeds ++ laps cs ds) : w'.sleeps = w.sleeps ++ ds := by
  rw [World.sleeps_eq_filterMap_deeds, h, List.filterMap_append, filterMap_slept_laps,
    ← World.sleeps_eq_filterMap_deeds]

/-- A wait that returns has slept after each of its rounds but the last. -/
theorem sleeps_run {env : Environment ι σ} {patience : Nat} {waits : List (Wait ι)}
    {timeout : Duration} {w w' : World ι σ} {res : Result}
    (h : run env patience waits timeout w = some (res, w')) :
    w'.sleeps = w.sleeps ++
      (napsOf env waits timeout w.scene (res.passes - 1)).map Nap.length :=
  sleeps_of_deeds (deeds_run h)

/-! ## One sleep -/

/-- The scene in which the round with the given number begins. -/
def sceneAt (env : Environment ι σ) (b : Budget) (cs : List ι) (s : Scene σ) : Nat → Scene σ
  | 0 => s
  | n + 1 => b.resume (roundAt env b cs s n).scene

theorem roundAt_eq_survey (env : Environment ι σ) (b : Budget) (cs : List ι) (s : Scene σ)
    (n : Nat) : roundAt env b cs s n = survey env cs (sceneAt env b cs s n) := by
  cases n with
  | zero => rfl
  | succ n => exact roundAt_succ env b cs s n

/-- The next round begins when the sleep is over. -/
theorem now_resume (b : Budget) (s : Scene σ) : (b.resume s).now = (b.napAt s.now).stop := by
  cases h : b.pause? s.now with
  | none =>
      rw [Budget.resume_of_no_pause h, Nap.stop, Budget.napAt, h]
      rfl
  | some d =>
      rw [Budget.resume_of_pause h, Nap.stop, Budget.napAt, h]
      rfl

theorem state_resume (b : Budget) (s : Scene σ) : (b.resume s).state = s.state := by
  cases h : b.pause? s.now with
  | none => rw [Budget.resume_of_no_pause h]
  | some d =>
      rw [Budget.resume_of_pause h]
      rfl

/-- Before the deadline a sleep lasts one interval, or up to the deadline. -/
theorem nap_of_deadline {b : Budget} {d now : Duration} (hd : b.deadline? = some d)
    (h : ¬ b.Expired now) :
    now.nanos < d.nanos ∧ (b.napAt now).length = interval.least (d - now) := by
  have hlt : ¬ d ≤ now := fun hle => h ⟨d, hd, hle⟩
  refine ⟨Nat.lt_of_not_le hlt, ?_⟩
  simp [Budget.napAt, Budget.pause?, hd, hlt]

theorem nap_of_no_deadline {b : Budget} (hd : b.deadline? = none) (now : Duration) :
    (b.napAt now).length = interval := by
  simp [Budget.napAt, Budget.pause?, hd]

/-- What a sleep may be in a wait with the deadline `d`: it lasts some time, at most one interval,
and is over at the deadline at the latest. -/
structure Nap.Fits (d : Duration) (x : Nap) : Prop where
  pos : 0 < x.length.nanos
  le_interval : x.length ≤ interval
  stop_le : x.stop ≤ d

theorem fits_napAt {b : Budget} {d now : Duration} (hd : b.deadline? = some d)
    (h : ¬ b.Expired now) : (b.napAt now).Fits d := by
  obtain ⟨hlt, hlength⟩ := nap_of_deadline hd h
  have hinterval := nanos_interval
  refine ⟨?_, ?_, ?_⟩
  · rw [hlength]
    simp only [Duration.least, Duration.nanos_sub]
    omega
  · rw [hlength, Duration.le_iff]
    exact Nat.min_le_left _ _
  · rw [Nap.stop, hlength, Duration.le_iff]
    simp only [Budget.napAt, Duration.least, Duration.nanos_add, Duration.nanos_sub]
    omega

/-! ## All sleeps -/

/-- The time that some sleeps last together, in nanoseconds. -/
def totalSleep (xs : List Nap) : Nat := (xs.map fun x => x.length.nanos).sum

theorem napsAt_concat (env : Environment ι σ) (b : Budget) (cs : List ι) (s : Scene σ) (n : Nat) :
    napsAt env b cs s (n + 1) =
      napsAt env b cs s n ++ [b.napAt (roundAt env b cs s n).scene.now] := by
  rw [napsAt, List.range_succ, List.map_append]
  rfl

theorem totalSleep_concat (xs : List Nap) (x : Nap) :
    totalSleep (xs ++ [x]) = totalSleep xs + x.length.nanos := by
  simp [totalSleep]

/-- The clock has been moved by the sleeps, and perhaps by checks. -/
theorem now_add_totalSleep_le (env : Environment ι σ) (b : Budget) (cs : List ι) (s : Scene σ)
    (n : Nat) :
    s.now.nanos + totalSleep (napsAt env b cs s n) ≤ (roundAt env b cs s n).scene.now.nanos := by
  induction n with
  | zero => exact now_le_survey env cs s
  | succ n ih =>
      have hround := now_le_survey env cs (b.resume (roundAt env b cs s n).scene)
      rw [← roundAt_succ, now_resume] at hround
      have hround' : (roundAt env b cs s n).scene.now.nanos +
        (b.napAt (roundAt env b cs s n).scene.now).length.nanos ≤
          (roundAt env b cs s (n + 1)).scene.now.nanos := hround
      rw [napsAt_concat, totalSleep_concat]
      omega

theorem exists_nap {env : Environment ι σ} {b : Budget} {cs : List ι} {s : Scene σ} {n : Nat}
    {x : Nap} (hx : x ∈ napsAt env b cs s n) :
    ∃ k < n, x = b.napAt (roundAt env b cs s k).scene.now := by
  obtain ⟨k, hk, rfl⟩ := List.mem_map.1 hx
  exact ⟨k, List.mem_range.1 hk, rfl⟩

theorem not_expired_of_not_decides {b : Budget} {r : Round σ} (h : ¬ r.Decides b) :
    ¬ b.Expired r.scene.now := fun hx => h (Or.inr (Or.inr hx))

section
variable {env : Environment ι σ} {b : Budget} {cs : List ι} {s : Scene σ} {d : Duration} {n : Nat}

theorem fits_of_mem_napsAt (hd : b.deadline? = some d)
    (hgo : ∀ m < n, ¬ (roundAt env b cs s m).Decides b) : ∀ x ∈ napsAt env b cs s n, x.Fits d := by
  intro x hx
  obtain ⟨k, hk, rfl⟩ := exists_nap hx
  exact fits_napAt hd (not_expired_of_not_decides (hgo k hk))

/-- The last sleep is over at the deadline, and those before it have taken their time from what
was left. -/
theorem totalSleep_le_timeout (hd : b.deadline? = some d) (hs : b.start ≤ s.now)
    (hgo : ∀ m < n, ¬ (roundAt env b cs s m).Decides b) :
    totalSleep (napsAt env b cs s n) ≤ b.timeout.nanos := by
  cases n with
  | zero => exact Nat.zero_le _
  | succ n =>
      have hspent := now_add_totalSleep_le env b cs s n
      have hbefore := not_expired_of_not_decides (hgo n (Nat.lt_succ_self n))
      have hlast := (fits_napAt hd hbefore).stop_le
      have hlast' : (roundAt env b cs s n).scene.now.nanos +
        (b.napAt (roundAt env b cs s n).scene.now).length.nanos ≤ d.nanos := hlast
      have hs' : b.start.nanos ≤ s.now.nanos := hs
      have hsum := deadline?_eq_some hd
      rw [napsAt_concat, totalSleep_concat]
      omega

theorem now_lt_of_not_decides (hd : b.deadline? = some d)
    (h : ¬ (roundAt env b cs s n).Decides b) : (roundAt env b cs s n).scene.now < d :=
  (nap_of_deadline hd (not_expired_of_not_decides h)).1

/-- There are no more rounds before the deadline than intervals that have begun. -/
theorem lt_passBound_of_not_decides (hd : b.deadline? = some d) (hs : b.start ≤ s.now)
    (hgo : ∀ m < n, ¬ (roundAt env b cs s m).Decides b) : n < passBound b.timeout := by
  cases n with
  | zero => exact Nat.succ_pos _
  | succ n =>
      have hround := least_le_now_roundAt env cs hd hs n fun m hm => hgo m (Nat.lt_succ_of_lt hm)
      have hbefore : (roundAt env b cs s n).scene.now.nanos < d.nanos :=
        now_lt_of_not_decides hd (hgo n (Nat.lt_succ_self n))
      have hsum := deadline?_eq_some hd
      simp only [passBound, nanos_interval] at hround ⊢
      omega

/-! ## Checks that take no time -/

/-- No check of a round takes any time: after each of them the clock reads as it did when the
round began. -/
def Timeless (env : Environment ι σ) (b : Budget) (cs : List ι) (s : Scene σ) (n : Nat) : Prop :=
  ∀ x ∈ (roundAt env b cs s n).sightings, x.scene.now = (sceneAt env b cs s n).now

theorem now_of_mem_survey {cs : List ι} {s : Scene σ}
    (h : ∀ c ∈ cs, ∀ s, (env.check c s).cost.nanos = 0) :
    ∀ x ∈ (survey env cs s).sightings, x.scene.now = s.now := by
  induction cs generalizing s with
  | nil => exact fun x hx => absurd hx List.not_mem_nil
  | cons c rest ih =>
      have hfirst : (s.after (env.check c s)).now = s.now := Duration.ext (by
        rw [Scene.now_after, Duration.nanos_add, h c List.mem_cons_self s, Nat.add_zero])
      intro x hx
      rcases List.mem_cons.mp hx with rfl | hx
      · exact hfirst
      · exact (ih (fun c hc => h c (List.mem_cons_of_mem _ hc)) x hx).trans hfirst

theorem timeless_of_cost_eq_zero (h : ∀ c ∈ cs, ∀ s, (env.check c s).cost.nanos = 0) :
    Timeless env b cs s n := by
  rw [Timeless, roundAt_eq_survey]
  exact now_of_mem_survey h

theorem now_survey_of_timeless {cs : List ι} {s : Scene σ}
    (h : ∀ x ∈ (survey env cs s).sightings, x.scene.now = s.now) :
    (survey env cs s).scene.now = s.now := by
  induction cs generalizing s with
  | nil => rfl
  | cons c rest ih =>
      have hfirst : (s.after (env.check c s)).now = s.now := h _ List.mem_cons_self
      have hrest := ih (s := s.after (env.check c s)) fun x hx =>
        (h x (List.mem_cons_of_mem _ hx)).trans hfirst.symm
      exact hrest.trans hfirst

theorem now_roundAt_of_timeless_round (h : Timeless env b cs s n) :
    (roundAt env b cs s n).scene.now = (sceneAt env b cs s n).now := by
  rw [Timeless, roundAt_eq_survey] at h
  rw [roundAt_eq_survey]
  exact now_survey_of_timeless h

/-- Then the clock has been moved by the sleeps alone. -/
theorem now_add_totalSleep_of_timeless (h : ∀ m ≤ n, Timeless env b cs s m) :
    s.now.nanos + totalSleep (napsAt env b cs s n) = (roundAt env b cs s n).scene.now.nanos := by
  induction n with
  | zero => exact congrArg Duration.nanos (now_roundAt_of_timeless_round (h 0 (Nat.le_refl 0))).symm
  | succ n ih =>
      have hearlier := ih fun m hm => h m (Nat.le_succ_of_le hm)
      have hround : (roundAt env b cs s (n + 1)).scene.now =
          (b.napAt (roundAt env b cs s n).scene.now).stop :=
        (now_roundAt_of_timeless_round (h (n + 1) (Nat.le_refl _))).trans (now_resume b _)
      rw [napsAt_concat, totalSleep_concat, hround, ← Nat.add_assoc, hearlier]
      rfl

/-- Then each round ends exactly as many intervals after the start as there were sleeps before it,
or at the deadline. -/
theorem now_roundAt_of_timeless (hd : b.deadline? = some d) (hs : s.now = b.start)
    (hgo : ∀ m < n, ¬ (roundAt env b cs s m).Decides b) (h : ∀ m ≤ n, Timeless env b cs s m) :
    (roundAt env b cs s n).scene.now.nanos =
      min (b.start.nanos + n * interval.nanos) d.nanos := by
  have hsum := deadline?_eq_some hd
  induction n with
  | zero =>
      have hround : (roundAt env b cs s 0).scene.now = s.now :=
        now_roundAt_of_timeless_round (h 0 (Nat.le_refl 0))
      rw [hround, hs]
      omega
  | succ n ih =>
      have hearlier := ih (fun m hm => hgo m (Nat.lt_succ_of_lt hm))
        fun m hm => h m (Nat.le_succ_of_le hm)
      obtain ⟨hlt, hlength⟩ :=
        nap_of_deadline hd (not_expired_of_not_decides (hgo n (Nat.lt_succ_self n)))
      have hround : (roundAt env b cs s (n + 1)).scene.now =
          (b.napAt (roundAt env b cs s n).scene.now).stop :=
        (now_roundAt_of_timeless_round (h (n + 1) (Nat.le_refl _))).trans (now_resume b _)
      rw [hround, Nap.stop, hlength]
      simp only [Budget.napAt, Duration.least, Duration.nanos_add, Duration.nanos_sub, Nat.succ_mul]
      omega

/-- So when the deadline has come all the timeout was slept, and there were as many rounds as
there can be. -/
theorem full_of_timeless (hd : b.deadline? = some d) (hs : s.now = b.start)
    (hgo : ∀ m < n, ¬ (roundAt env b cs s m).Decides b) (h : ∀ m ≤ n, Timeless env b cs s m)
    (hlate : d ≤ (roundAt env b cs s n).scene.now) :
    n + 1 = passBound b.timeout ∧ totalSleep (napsAt env b cs s n) = b.timeout.nanos ∧
      (roundAt env b cs s n).scene.now.nanos = b.start.nanos + b.timeout.nanos := by
  have hlt := lt_passBound_of_not_decides hd (Nat.le_of_eq (congrArg Duration.nanos hs.symm)) hgo
  have hend := now_roundAt_of_timeless hd hs hgo h
  have hslept := now_add_totalSleep_of_timeless h
  have hsum := deadline?_eq_some hd
  have hlate' : d.nanos ≤ (roundAt env b cs s n).scene.now.nanos := hlate
  rw [hs] at hslept
  -- The last of the sleeps has begun before the deadline, and no other one could follow it.
  have hfull : b.timeout.nanos ≤ n * interval.nanos := by omega
  refine ⟨?_, by omega, by omega⟩
  simp only [passBound, nanos_interval] at hlt hfull ⊢
  omega

end

/-! ## The whole wait -/

/-- The wait has run out of time. -/
def Result.isTimeout : Result → Bool
  | .ok _ => false
  | .error failure => failure.reason.isTimeout

theorem passBound_eq_ceilDiv (timeout : Duration) :
    passBound timeout = timeout.nanos ⌈/⌉ interval.nanos + 1 := by
  have hpos : 1 ≤ interval.nanos := by decide
  rw [passBound, Nat.ceilDiv_eq_add_pred_div, Nat.add_sub_assoc hpos]

/-- A wait that is over does not look at the rounds that it might have made. -/
theorem poll_mono {env : Environment ι σ} {b : Budget} {rounds more passes : Nat}
    {l : List (Wait ι × Option Progress)} {w : World ι σ} {out : Result × World ι σ}
    (h : poll env b rounds passes l w = some out) (hle : rounds ≤ more) :
    poll env b more passes l w = some out := by
  obtain ⟨n, hn, hend⟩ := poll_eq_some_iff.1 h
  exact poll_eq_some_iff.2 ⟨n, Nat.lt_of_lt_of_le hn hle, hend⟩

section
variable {env : Environment ι σ} {patience : Nat} {waits : List (Wait ι)} {timeout : Duration}
  {w w' : World ι σ} {res : Result}

theorem elapsed_of_run (h : run env patience waits timeout w = some (res, w')) :
    res.elapsed = (roundOf env waits timeout w.scene (res.passes - 1)).scene.now - w.now := by
  obtain ⟨p, -, -, hend⟩ := run_eq_some_iff.1 h
  obtain ⟨-, hpasses, helapsed, -⟩ := (passOf_shows env waits timeout w p).of_conclude hend
  rw [helapsed, hpasses]
  rfl

/-- The clock does not run back in a wait. -/
theorem now_le_of_run (h : run env patience waits timeout w = some (res, w')) : w.now ≤ w'.now := by
  obtain ⟨p, -, -, -, -, hscene⟩ := exists_round_of_run h
  have hround := now_add_totalSleep_le env ⟨w.now, timeout⟩ (waits.map Wait.condition) w.scene p
  show w.scene.now ≤ w'.scene.now
  rw [hscene]
  exact Nat.le_trans (Nat.le_add_right _ _) hround

/-- A wait that has run out of time has come to its deadline at the end of its last round. -/
theorem expired_of_isTimeout (h : run env patience waits timeout w = some (res, w'))
    (ht : res.isTimeout = true) :
    (Budget.mk w.now timeout).Expired
      (roundOf env waits timeout w.scene (res.passes - 1)).scene.now := by
  obtain ⟨p, hpasses, hdec, -, hending, -⟩ := exists_round_of_run h
  rw [hpasses, Nat.add_sub_cancel]
  have hlate : ∃ t, res.ending = .timeout t := by
    cases res with
    | ok report => exact absurd ht (by simp [Result.isTimeout])
    | error failure =>
        obtain ⟨reason, _, _, _⟩ := failure
        cases reason with
        | timeout t => exact ⟨t, rfl⟩
        | conditionError c => exact absurd ht (by simp [Result.isTimeout, Reason.isTimeout])
  obtain ⟨t, hlate⟩ := hlate
  rw [hlate] at hending
  rcases hdec with herr | hall | hexpired
  · simp [Round.ending, herr] at hending
  · by_cases herr : (roundOf env waits timeout w.scene p).hasError
    · simp [Round.ending, herr] at hending
    · simp [Round.ending, herr, hall] at hending
  · exact hexpired

/-- What a wait with the deadline `d` has spent when it returns. -/
structure Spent (env : Environment ι σ) (waits : List (Wait ι)) (timeout : Duration) (s : Scene σ)
    (d : Duration) (res : Result) : Prop where
  passes_le : res.passes ≤ timeout.nanos ⌈/⌉ interval.nanos + 1
  /-- Each sleep lasts some time, at most one interval, and is over at the deadline. -/
  fits : ∀ x ∈ napsOf env waits timeout s (res.passes - 1), x.Fits d
  total_le : totalSleep (napsOf env waits timeout s (res.passes - 1)) ≤ timeout.nanos
  /-- Every round but the last has ended before the deadline. -/
  before : ∀ k < res.passes - 1, (roundOf env waits timeout s k).scene.now < d
  late : res.isTimeout = true →
    d ≤ (roundOf env waits timeout s (res.passes - 1)).scene.now ∧ timeout ≤ res.elapsed
  /-- If no check takes any time, a wait that runs out of time has slept all the time. -/
  idle : res.isTimeout = true →
    (∀ k < res.passes, Timeless env ⟨s.now, timeout⟩ (waits.map Wait.condition) s k) →
    res.passes = timeout.nanos ⌈/⌉ interval.nanos + 1 ∧
      totalSleep (napsOf env waits timeout s (res.passes - 1)) = timeout.nanos ∧
      res.elapsed = timeout

theorem spent_of_run {d : Duration} (hd : Clock.deadline? w.now timeout = some d)
    (h : run env patience waits timeout w = some (res, w')) :
    Spent env waits timeout w.scene d res := by
  have hd' : (Budget.mk w.scene.now timeout).deadline? = some d := hd
  have hsum : d.nanos = w.scene.now.nanos + timeout.nanos := deadline?_eq_some hd'
  have hstart : (Budget.mk w.scene.now timeout).start ≤ w.scene.now := Nat.le_refl _
  obtain ⟨p, hpasses, -, hgo, -, -⟩ := exists_round_of_run h
  have hp : res.passes - 1 = p := by rw [hpasses, Nat.add_sub_cancel]
  have helapsed := congrArg Duration.nanos (elapsed_of_run h)
  rw [hp, Duration.nanos_sub] at helapsed
  have hlate : res.isTimeout = true → d ≤ (roundOf env waits timeout w.scene p).scene.now := by
    intro ht
    obtain ⟨d', hd'', hle⟩ := expired_of_isTimeout h ht
    rw [hp] at hle
    obtain rfl := Option.some.inj (hd'.symm.trans hd'')
    exact hle
  have hlt := lt_passBound_of_not_decides hd' hstart hgo
  refine ⟨?_, ?_, ?_, ?_, ?_, ?_⟩
  · rw [hpasses, ← passBound_eq_ceilDiv]
    exact hlt
  · rw [hp]
    exact fits_of_mem_napsAt hd' hgo
  · rw [hp]
    exact totalSleep_le_timeout hd' hstart hgo
  · rw [hp]
    exact fun k hk => now_lt_of_not_decides hd' (hgo k hk)
  · intro ht
    rw [hp]
    have hle : d.nanos ≤ (roundOf env waits timeout w.scene p).scene.now.nanos := hlate ht
    refine ⟨hle, ?_⟩
    rw [Duration.le_iff, helapsed]
    exact Nat.le_sub_of_add_le' (hsum ▸ hle)
  · intro ht htimeless
    rw [hp]
    obtain ⟨hrounds, hslept, hstop⟩ := full_of_timeless hd' rfl hgo
      (fun m hm => htimeless m (hpasses ▸ Nat.lt_succ_of_le hm)) (hlate ht)
    refine ⟨?_, hslept, Duration.ext (helapsed.trans ?_)⟩
    · rw [hpasses, ← passBound_eq_ceilDiv]
      exact hrounds
    · exact (congrArg (· - w.now.nanos) hstop).trans (Nat.add_sub_cancel_left _ _)

/-- A wait without a deadline sleeps whole intervals, for as long as it goes on. -/
theorem lengths_napsOf (hd : Clock.deadline? w.now timeout = none) (n : Nat) :
    (napsOf env waits timeout w.scene n).map Nap.length = List.replicate n interval := by
  have hd' : (Budget.mk w.scene.now timeout).deadline? = none := hd
  refine List.eq_replicate_iff.2 ⟨?_, ?_⟩
  · rw [List.length_map, napsOf, length_napsAt]
  · intro d hmem
    obtain ⟨x, hx, rfl⟩ := List.mem_map.1 hmem
    obtain ⟨k, -, rfl⟩ := exists_nap hx
    exact nap_of_no_deadline hd' _

end

/-- **A wait keeps to its timeout.**  With a deadline it does return, after at most as many passes
as intervals begin in the timeout and one more, however long its checks take and however many
rounds it might make; what it has spent by then is `Spent`.  Without one it sleeps whole intervals
and never runs out of time. -/
theorem wait_keeps_to_timeout (env : Environment ι σ) (patience : Nat) (waits : List (Wait ι))
    (timeout : Duration) (w : World ι σ) :
    (∀ d, Clock.deadline? w.now timeout = some d →
      ∃ res w', run env patience waits timeout w = some (res, w') ∧
        (∀ rounds ≥ timeout.nanos ⌈/⌉ interval.nanos + 1,
          poll env ⟨w.now, timeout⟩ rounds 0 (waits.map fun x => (x, none))
            (w.note (.waitBegun waits.length timeout)) = some (res, w')) ∧
        w'.sleeps = w.sleeps ++
          (napsOf env waits timeout w.scene (res.passes - 1)).map Nap.length ∧
        w'.scene = (roundOf env waits timeout w.scene (res.passes - 1)).scene ∧
        Spent env waits timeout w.scene d res) ∧
    (Clock.deadline? w.now timeout = none →
      (∀ n, (∀ m < n, ¬ (roundOf env waits timeout w.scene m).Decides ⟨w.now, timeout⟩) →
        (passOf env waits timeout w n).world.sleeps = w.sleeps ++ List.replicate n interval) ∧
      ∀ res w', run env patience waits timeout w = some (res, w') →
        w'.sleeps = w.sleeps ++ List.replicate (res.passes - 1) interval ∧
        res.isTimeout = false) := by
  refine ⟨?_, ?_⟩
  · intro d hd
    have hsome : (Clock.deadline? w.now timeout).isSome = true := by rw [hd]; rfl
    have hreturns : (run env patience waits timeout w).isSome = true := run_isSome_of_deadline hsome
    obtain ⟨⟨res, w'⟩, h⟩ := Option.isSome_iff_exists.1 hreturns
    refine ⟨res, w', h, ?_, sleeps_run h, ?_, spent_of_run hd h⟩
    · intro rounds hrounds
      refine poll_mono h ?_
      have hd' : (Budget.mk w.now timeout).deadline? = some d := hd
      rw [roundsOf, hd', passBound_eq_ceilDiv]
      exact hrounds
    · obtain ⟨p, hpasses, -, -, -, hscene⟩ := exists_round_of_run h
      rw [hpasses, Nat.add_sub_cancel]
      exact hscene
  · intro hd
    refine ⟨fun n hgo => ?_, fun res w' h => ⟨?_, ?_⟩⟩
    · rw [sleeps_of_deeds (deeds_passOf hgo), lengths_napsOf hd]
    · rw [sleeps_run h, lengths_napsOf hd]
    · refine Bool.eq_false_iff.2 fun ht => ?_
      obtain ⟨d, hd', -⟩ := expired_of_isTimeout h ht
      exact absurd (hd'.symm.trans hd) (by simp)

/-- Two doors that stay shut. -/
def shutDoors : Environment Unit Nat := .reciting fun _ => .notFulfilled

/-- In 120 milliseconds there is time for four passes, and the last sleep is a short one.  A wait
without a deadline for the doors that open together in the fourth round sleeps three whole
intervals. -/
theorem shutDoors_take_all_time :
    (∃ res w', run shutDoors 0 twoDoors (.ofMillis 120) .fresh = some (res, w') ∧
      res.passes = 4 ∧ res.elapsed = .ofMillis 120 ∧
      w'.sleeps = [.ofMillis 50, .ofMillis 50, .ofMillis 20]) ∧
    ∃ res w', run flicker 9 twoDoors Clock.limit .fresh = some (res, w') ∧
      w'.sleeps = [.ofMillis 50, .ofMillis 50, .ofMillis 50] := by
  refine ⟨?_, ?_⟩
  · obtain ⟨res, w', h, -, hsleeps, -, hspent⟩ :=
      (wait_keeps_to_timeout shutDoors 0 twoDoors (.ofMillis 120) .fresh).1 _ rfl
    have hlate : (run shutDoors 0 twoDoors (.ofMillis 120) .fresh).map
        (fun x => x.1.isTimeout) = some true := rfl
    rw [h] at hlate
    obtain ⟨hpasses, -, helapsed⟩ := hspent.idle (Option.some.inj hlate)
      fun k _ => timeless_of_cost_eq_zero fun _ _ _ => rfl
    have hfour : res.passes = 4 := hpasses.trans (by rw [← passBound_eq_ceilDiv]; rfl)
    rw [hfour] at hsleeps
    exact ⟨res, w', h, hfour, helapsed, hsleeps⟩
  · have hsome : (run flicker 9 twoDoors Clock.limit .fresh).map
        (fun x => x.1.passes) = some 4 := rfl
    obtain ⟨⟨res, w'⟩, h, hpasses⟩ := Option.map_eq_some_iff.1 hsome
    obtain ⟨hsleeps, -⟩ :=
      ((wait_keeps_to_timeout flicker 9 twoDoors Clock.limit .fresh).2 rfl).2 res w' h
    change res.passes = 4 at hpasses
    rw [hpasses] at hsleeps
    exact ⟨res, w', h, hsleeps⟩

end Wait
end Passage
