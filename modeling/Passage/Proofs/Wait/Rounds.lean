/-
# Rounds of checks

What happens to the scene while a wait goes on, told without anything that
the wait remembers, says or decides: `survey` checks a list of conditions
once, and `roundAt` is the round with a given number, counted from 0, of a
wait that never stops.

A wait is compared with this sequence.  `Decides` says of a round that it
ends a wait, and `ending` how; both look at the statuses that were
answered in that one round and at the clock, and at nothing else.

The clock facts at the end are what termination rests on: as long as no
round decides, the `n`-th one ends no earlier than `n` pauses after the
start, or at the deadline (`least_le_now_roundAt`), so that with a
deadline the round with number `passBound - 1` decides at the latest
(`decides_before_passBound`).
-/
import Passage.Wait.Polling

namespace Passage
variable {ι σ α : Type}

/-! ## Scenes -/

namespace Scene

def now (s : Scene σ) : Duration := s.clock.monotonic

def wall (s : Scene σ) : Timestamp := s.clock.wall

/-- The scene after an action has answered. -/
def after (s : Scene σ) (r : Reply σ α) : Scene σ := ⟨s.clock.run r.cost r.drift, r.state⟩

/-- The scene after some time in which nothing else happens. -/
def later (s : Scene σ) (d : Duration) : Scene σ := { s with clock := s.clock.advance d }

@[simp] theorem now_after (s : Scene σ) (r : Reply σ α) : (s.after r).now = s.now + r.cost := rfl

@[simp] theorem now_later (s : Scene σ) (d : Duration) : (s.later d).now = s.now + d := rfl

end Scene

namespace World

@[simp] theorem scene_settle (w : World ι σ) (r : Reply σ α) :
    (w.settle r).scene = w.scene.after r := rfl

@[simp] theorem scene_noteAny (w : World ι σ) (n : Option Notice) :
    (w.noteAny n).scene = w.scene := by
  cases n with
  | none => rfl
  | some _ => rfl

theorem scene_sleep {d : Duration} (h : d.nanos ≠ 0) (w : World ι σ) :
    (w.sleep d).scene = w.scene.later d := by
  rw [sleep, if_neg h]
  rfl

end World

namespace Wait

/-! ## One round -/

/-- What a check has shown: the status that it answered, and the scene that it left. -/
structure Sighting (σ : Type) where
  status : Status
  scene : Scene σ

/-- One check of each condition, in order, and the scene at the end. -/
structure Round (σ : Type) where
  sightings : List (Sighting σ)
  scene : Scene σ

/-- Checks a list of conditions once. -/
def survey (env : Environment ι σ) : List ι → Scene σ → Round σ
  | [], s => ⟨[], s⟩
  | c :: rest, s =>
    let r := env.check c s
    let later := survey env rest (s.after r)
    ⟨⟨r.value, s.after r⟩ :: later.sightings, later.scene⟩

namespace Round

/-- Some status of the round is an error. -/
def hasError (r : Round σ) : Bool := r.sightings.any fun x => x.status.isError

/-- All statuses of the round say that their conditions hold. -/
def allFulfilled (r : Round σ) : Bool := r.sightings.all fun x => x.status.isFulfilled

/-- The scenes that a round goes through, its last one included. -/
def scenes (r : Round σ) : List (Scene σ) := r.sightings.map Sighting.scene ++ [r.scene]

end Round

theorem now_le_survey (env : Environment ι σ) (cs : List ι) (s : Scene σ) :
    s.now ≤ (survey env cs s).scene.now := by
  induction cs generalizing s with
  | nil => exact Nat.le_refl _
  | cons c rest ih => exact Nat.le_trans (Nat.le_add_right _ _) (ih (s.after (env.check c s)))

/-! ## When the time is over -/

theorem nanos_interval : interval.nanos = 50000000 := rfl

namespace Budget

/-- There is a deadline, and the clock has reached it. -/
def Expired (b : Budget) (now : Duration) : Prop := ∃ d, b.deadline? = some d ∧ d ≤ now

theorem pause?_eq_none_iff {b : Budget} {now : Duration} :
    b.pause? now = none ↔ b.Expired now := by
  cases hd : b.deadline? with
  | none => simp [pause?, Expired, hd]
  | some d =>
      by_cases h : d ≤ now
      · simp [pause?, Expired, hd, h]
      · simp [pause?, Expired, hd, h]

theorem pause?_pos {b : Budget} {now p : Duration} (h : b.pause? now = some p) :
    p.nanos ≠ 0 := by
  cases hd : b.deadline? with
  | none =>
      rw [pause?, hd] at h
      obtain rfl := Option.some.inj h
      decide
  | some d =>
      by_cases hle : d ≤ now
      · simp [pause?, hd, hle] at h
      · simp only [pause?, hd, hle, if_false, Option.some.injEq] at h
        subst h
        have hlt : ¬ d.nanos ≤ now.nanos := hle
        simp only [Duration.least, nanos_interval, Duration.nanos_sub]
        omega

/-- The scene in which the next round begins, when one has ended in the given scene. -/
def resume (b : Budget) (s : Scene σ) : Scene σ :=
  match b.pause? s.now with
  | none => s
  | some d => s.later d

theorem resume_of_pause {b : Budget} {s : Scene σ} {d : Duration} (h : b.pause? s.now = some d) :
    b.resume s = s.later d := by
  rw [resume, h]

theorem resume_of_no_pause {b : Budget} {s : Scene σ} (h : b.pause? s.now = none) :
    b.resume s = s := by
  rw [resume, h]

end Budget

/-! ## Round after round -/

/-- The round with the given number, counted from 0, in a wait that goes on whatever happens. -/
def roundAt (env : Environment ι σ) (b : Budget) (cs : List ι) : Scene σ → Nat → Round σ
  | s, 0 => survey env cs s
  | s, n + 1 => roundAt env b cs (b.resume (survey env cs s).scene) n

theorem roundAt_succ (env : Environment ι σ) (b : Budget) (cs : List ι) (s : Scene σ) (n : Nat) :
    roundAt env b cs s (n + 1) = survey env cs (b.resume (roundAt env b cs s n).scene) := by
  induction n generalizing s with
  | zero => rfl
  | succ n ih => exact ih _

/-- How a wait can end. -/
inductive Ending where
  | conditionError
  | fulfilled
  | timeout (timeout : Duration)
  deriving DecidableEq, Repr

namespace Round

/-- The round ends a wait: a condition reports an error, or all of them hold, or the time is over
at its end. -/
def Decides (b : Budget) (r : Round σ) : Prop :=
  r.hasError = true ∨ r.allFulfilled = true ∨ b.Expired r.scene.now

/-- How a wait ends that this round ends: an error comes first, then that all conditions hold. -/
def ending (b : Budget) (r : Round σ) : Ending :=
  if r.hasError then .conditionError
  else if r.allFulfilled then .fulfilled
  else .timeout b.timeout

end Round

/-- The scenes that a wait of `n` rounds goes through. -/
def scenesOf (env : Environment ι σ) (b : Budget) (cs : List ι) (s : Scene σ) (n : Nat) :
    List (Scene σ) :=
  (List.range n).flatMap fun k => (roundAt env b cs s k).scenes

theorem mem_scenesOf {env : Environment ι σ} {b : Budget} {cs : List ι} {s : Scene σ} {k n : Nat}
    (h : k < n) : (roundAt env b cs s k).scene ∈ scenesOf env b cs s n := by
  refine List.mem_flatMap.2 ⟨k, List.mem_range.2 h, ?_⟩
  exact List.mem_append_right _ List.mem_cons_self

/-! ## The deadline is reached -/

theorem deadline?_eq_some {b : Budget} {d : Duration} (h : b.deadline? = some d) :
    d.nanos = b.start.nanos + b.timeout.nanos := by
  rw [Budget.deadline?, Clock.deadline?] at h
  split at h
  · obtain rfl := Option.some.inj h
    rfl
  · exact absurd h (by simp)

/-- A pause before the deadline brings the clock on by one interval, or to the deadline. -/
theorem least_le_now_resume {b : Budget} {d : Duration} (hd : b.deadline? = some d)
    {s : Scene σ} (h : ¬ b.Expired s.now) :
    min (s.now.nanos + interval.nanos) d.nanos ≤ (b.resume s).now.nanos := by
  have hlt : ¬ d ≤ s.now := fun hle => h ⟨d, hd, hle⟩
  have hp : b.pause? s.now = some (interval.least (d - s.now)) := by
    simp [Budget.pause?, hd, hlt]
  have hlt' : ¬ d.nanos ≤ s.now.nanos := hlt
  rw [Budget.resume_of_pause hp, Scene.now_later]
  simp only [Duration.least, Duration.nanos_add, Duration.nanos_sub]
  omega

/-- As long as no round decides, the `n`-th one ends at least `n` pauses after the start, or at
the deadline if that comes first. -/
theorem least_le_now_roundAt (env : Environment ι σ) (cs : List ι) {b : Budget} {s : Scene σ}
    {d : Duration} (hd : b.deadline? = some d) (hs : b.start ≤ s.now) :
    ∀ n, (∀ m < n, ¬ (roundAt env b cs s m).Decides b) →
      min (b.start.nanos + n * interval.nanos) d.nanos ≤ (roundAt env b cs s n).scene.now.nanos
  | 0, _ => by
      have h := Nat.le_trans hs (now_le_survey env cs s)
      have h' : b.start.nanos ≤ (roundAt env b cs s 0).scene.now.nanos := h
      omega
  | n + 1, hgo => by
      have ih := least_le_now_roundAt env cs hd hs n
        fun m hm => hgo m (Nat.lt_succ_of_lt hm)
      have hopen : ¬ b.Expired (roundAt env b cs s n).scene.now := fun he =>
        hgo n (Nat.lt_succ_self n) (Or.inr (Or.inr he))
      have hnext := least_le_now_resume hd hopen
      have hround := now_le_survey env cs (b.resume (roundAt env b cs s n).scene)
      rw [← roundAt_succ] at hround
      have hround' : (b.resume (roundAt env b cs s n).scene).now.nanos ≤
        (roundAt env b cs s (n + 1)).scene.now.nanos := hround
      rw [Nat.succ_mul]
      omega

theorem decides_before_passBound (env : Environment ι σ) (cs : List ι) {b : Budget} {s : Scene σ}
    {d : Duration} (hd : b.deadline? = some d) (hs : b.start ≤ s.now) :
    ∃ n < passBound b.timeout, (roundAt env b cs s n).Decides b := by
  -- If none of the earlier rounds decides, the last one does: it ends at the deadline or later.
  refine Classical.byContradiction fun hnone => ?_
  have hgo : ∀ n < passBound b.timeout, ¬ (roundAt env b cs s n).Decides b := by
    intro n hn hdec
    exact hnone ⟨n, hn, hdec⟩
  have hb : passBound b.timeout - 1 < passBound b.timeout :=
    Nat.sub_lt (Nat.succ_pos _) Nat.one_pos
  have hlate := least_le_now_roundAt env cs hd hs (passBound b.timeout - 1)
    fun m hm => hgo m (Nat.lt_trans hm hb)
  refine hgo _ hb (Or.inr (Or.inr ⟨d, hd, ?_⟩))
  show d.nanos ≤ _
  have hsum := deadline?_eq_some hd
  simp only [passBound, nanos_interval] at hlate ⊢
  omega

end Wait

/-! ## An environment from a script -/

/-- Conditions that answer from one script: the check with the number `n`, counted from 0 over all
conditions, has the outcome `script n`.  A check takes no time. -/
def Environment.reciting (script : Nat → Outcome) : Environment ι Nat where
  describe _ _ := "door"
  check _ s := ⟨.plain (script s.state) s.wall, ⟨0⟩, 0, s.state + 1⟩

/-- A world in which nothing has happened, with no check made so far. -/
def World.fresh : World ι Nat := ⟨⟨⟨⟨0⟩, ⟨0, 0⟩⟩, 0⟩, []⟩

end Passage
