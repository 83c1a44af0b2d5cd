/-
# What a wait does

Some events of a run are deeds: a condition is checked, the run sleeps, the
trigger is fired, the hook is called.  The others only say something, or
belong to a span.

A wait does one thing after another in laps.  `laps cs ds` is the list of
its deeds: all conditions in order and then a sleep, for each of the sleeps
`ds`, and at the end all conditions once more.  `deeds_run` says that every
wait that returns has done exactly this, with one sleep less than it has
made passes.

The sleeps themselves are `napsOf`: each begins where a round has ended and
lasts as long as the budget allows.  A sleep of no time would be no event,
but there is none: a round that does not decide leaves some time to sleep
(`Budget.pause?_pos`).
-/
import Passage.Proofs.Trace
import Mathlib.Data.List.Count

namespace Passage
variable {ι σ : Type}

/-! ## Deeds -/

/-- The event is something that is done, and not only said. -/
def Event.isDeed : Event ι → Bool
  | checked _ | slept _ | fired _ | hooked _ => true
  | noted _ | spanOpened .. | spanEntered | spanLeft => false

namespace World

/-- The deeds among the events, in the order in which they were done. -/
def deeds (w : World ι σ) : List (Event ι) := w.events.filter Event.isDeed

theorem deeds_record (w : World ι σ) (e : Event ι) :
    (w.record e).deeds = w.deeds ++ [e].filter Event.isDeed := by
  rw [deeds, events_record, List.filter_append]
  rfl

@[simp] theorem deeds_note (w : World ι σ) (n : Notice) : (w.note n).deeds = w.deeds := by
  rw [note, deeds_record]
  exact List.append_nil _

@[simp] theorem deeds_noteAny (w : World ι σ) (n : Option Notice) :
    (w.noteAny n).deeds = w.deeds := by
  cases n with
  | none => rfl
  | some n => exact deeds_note w n

theorem deeds_check (env : Environment ι σ) (c : ι) (w : World ι σ) :
    (w.check env c).2.deeds = w.deeds ++ [.checked c] :=
  deeds_record w (.checked c)

theorem deeds_sleep {d : Duration} (h : d.nanos ≠ 0) (w : World ι σ) :
    (w.sleep d).deeds = w.deeds ++ [.slept d] := by
  rw [sleep, if_neg h]
  exact deeds_record (w.advance d) (.slept d)

theorem deeds_fire (trigger : Option (Trigger σ)) (number : Nat) (w : World ι σ) :
    (w.fire trigger number).deeds =
      w.deeds ++ (if trigger.isSome then [.fired number] else []) := by
  cases trigger with
  | none => exact (List.append_nil _).symm
  | some f => exact deeds_record w (.fired number)

end World

namespace Wait

/-! ## Sleeps -/

/-- A sleep: the reading of the clock at which it begins, and how long it lasts. -/
structure Nap where
  start : Duration
  length : Duration
  deriving DecidableEq, Repr

/-- The reading of the clock at which a sleep is over. -/
def Nap.stop (x : Nap) : Duration := x.start + x.length

/-- The sleep after a round that has ended at the given reading. -/
def Budget.napAt (b : Budget) (now : Duration) : Nap := ⟨now, (b.pause? now).getD .zero⟩

/-- The sleeps after each of the first `n` rounds. -/
def napsAt (env : Environment ι σ) (b : Budget) (cs : List ι) (s : Scene σ) (n : Nat) : List Nap :=
  (List.range n).map fun k => b.napAt (roundAt env b cs s k).scene.now

/-- The sleeps of a wait for the given conditions that begins in the given scene, after each of
its first `n` rounds. -/
def napsOf (env : Environment ι σ) (waits : List (Wait ι)) (timeout : Duration) (s : Scene σ)
    (n : Nat) : List Nap :=
  napsAt env ⟨s.now, timeout⟩ (waits.map Wait.condition) s n

theorem length_napsAt (env : Environment ι σ) (b : Budget) (cs : List ι) (s : Scene σ) (n : Nat) :
    (napsAt env b cs s n).length = n := by
  rw [napsAt, List.length_map, List.length_range]

/-- The first sleep comes after the first round, and the others are those of the wait that goes on
behind it. -/
theorem napsAt_succ (env : Environment ι σ) (b : Budget) (cs : List ι) (s : Scene σ) (n : Nat) :
    napsAt env b cs s (n + 1) = b.napAt (survey env cs s).scene.now ::
      napsAt env b cs (b.resume (survey env cs s).scene) n := by
  rw [napsAt, List.range_succ_eq_map, List.map_cons, List.map_map]
  rfl

theorem exists_pause_of_not_decides {b : Budget} {r : Round σ} (h : ¬ r.Decides b) :
    ∃ d, b.pause? r.scene.now = some d := by
  cases hp : b.pause? r.scene.now with
  | none => exact absurd (Or.inr (Or.inr (Budget.pause?_eq_none_iff.1 hp))) h
  | some d => exact ⟨d, rfl⟩

/-! ## Laps -/

/-- All conditions in order and then a sleep, for each of the sleeps, and then all conditions once
more. -/
def laps (cs : List ι) (ds : List Duration) : List (Event ι) :=
  ds.flatMap (fun d => cs.map .checked ++ [.slept d]) ++ cs.map .checked

theorem laps_cons (cs : List ι) (d : Duration) (ds : List Duration) :
    laps cs (d :: ds) = cs.map .checked ++ [.slept d] ++ laps cs ds := by
  rw [laps, List.flatMap_cons, List.append_assoc]
  rfl

theorem count_checked_laps [DecidableEq ι] (c : ι) (cs : List ι) (ds : List Duration) :
    (laps cs ds).count (.checked c) = cs.count c * (ds.length + 1) := by
  have hlap : (cs.map Event.checked).count (.checked c) = cs.count c :=
    List.count_map_of_injective cs Event.checked (fun _ _ h => Event.checked.inj h) c
  induction ds with
  | nil => rw [List.length_nil, Nat.zero_add, Nat.mul_one, ← hlap]; rfl
  | cons d ds ih =>
      rw [laps_cons, List.count_append, List.count_append, ih, hlap,
        List.count_singleton, List.length_cons, Nat.mul_succ (cs.count c) (ds.length + 1)]
      simp [Nat.add_comm]

/-! ## The deeds of a wait -/

theorem deeds_sample (env : Environment ι σ) (start : Duration) (x : Wait ι)
    (before : Option Progress) (w : World ι σ) :
    (sample env start x before w).2.deeds = w.deeds ++ [.checked x.condition] := by
  rw [sample_eq, World.deeds_noteAny, World.deeds_check]

/-- A pass checks each condition once, in order, whatever the others have answered. -/
theorem deeds_pass (env : Environment ι σ) (start : Duration)
    (l : List (Wait ι × Option Progress)) (w : World ι σ) :
    (pass env start l w).world.deeds = w.deeds ++ (conditionsOf l).map .checked := by
  induction l generalizing w with
  | nil => exact (List.append_nil _).symm
  | cons head rest ih =>
      obtain ⟨x, before⟩ := head
      show (pass env start rest (sample env start x before w).2).world.deeds = _
      rw [ih, deeds_sample, List.append_assoc]
      rfl

theorem deeds_rest {b : Budget} {w : World ι σ} {d : Duration} (h : b.pause? w.now = some d) :
    (rest b w).deeds = w.deeds ++ [.slept (b.napAt w.now).length] := by
  rw [rest_of_pause h, World.deeds_sleep (Budget.pause?_pos h), Budget.napAt, h]
  rfl

/-- As long as no round decides, the passes make one lap after another. -/
theorem deeds_passAt (env : Environment ι σ) (b : Budget) (n : Nat) :
    ∀ (l : List (Wait ι × Option Progress)) (w : World ι σ),
      (∀ m < n, ¬ (roundAt env b (conditionsOf l) w.scene m).Decides b) →
      (passAt env b l w n).world.deeds =
        w.deeds ++ laps (conditionsOf l)
          ((napsAt env b (conditionsOf l) w.scene n).map Nap.length) := by
  induction n with
  | zero => exact fun l w _ => deeds_pass env b.start l w
  | succ n ih =>
      intro l w hgo
      have hscene := (pass_shows env b.start l w).scene
      obtain ⟨d, hd⟩ := exists_pause_of_not_decides (hgo 0 (Nat.succ_pos n))
      have hnow : (pass env b.start l w).world.now =
          (survey env (conditionsOf l) w.scene).scene.now := congrArg Scene.now hscene
      have hpause : b.pause? (pass env b.start l w).world.now = some d := by
        rw [hnow]
        exact hd
      have hrest := ih (carry (pass env b.start l w)) (rest b (pass env b.start l w).world)
      rw [conditionsOf_carry, scene_rest, hscene] at hrest
      rw [passAt, hrest fun m hm => hgo (m + 1) (Nat.succ_lt_succ hm), deeds_rest hpause,
        deeds_pass, napsAt_succ, List.map_cons, laps_cons, hnow]
      simp only [List.append_assoc]

theorem deeds_conclude {env : Environment ι σ} {b : Budget} {passes : Nat} {p : Pass ι σ}
    {res : Result} {w : World ι σ} (h : conclude env b passes p = some (res, w)) :
    w.deeds = p.world.deeds := by
  rcases conclude_cases h with ⟨_, -, rfl, -⟩ | ⟨-, rfl, -⟩
  · rfl
  · exact World.deeds_note _ _

/-- What a wait has done by the end of a pass, if no earlier one was its last. -/
theorem deeds_passOf {env : Environment ι σ} {waits : List (Wait ι)} {timeout : Duration}
    {w : World ι σ} {n : Nat}
    (hgo : ∀ m < n, ¬ (roundOf env waits timeout w.scene m).Decides ⟨w.now, timeout⟩) :
    (passOf env waits timeout w n).world.deeds = w.deeds ++ laps (waits.map Wait.condition)
      ((napsOf env waits timeout w.scene n).map Nap.length) := by
  have hdeeds := deeds_passAt env ⟨w.now, timeout⟩ n (waits.map fun x => (x, none))
    (w.note (.waitBegun waits.length timeout))
  rw [conditionsOf_fresh] at hdeeds
  rw [passOf, hdeeds hgo, World.deeds_note]
  rfl

/-- A wait that returns has made its laps and has done nothing else. -/
theorem deeds_run {env : Environment ι σ} {patience : Nat} {waits : List (Wait ι)}
    {timeout : Duration} {w w' : World ι σ} {res : Result}
    (h : run env patience waits timeout w = some (res, w')) :
    w'.deeds = w.deeds ++ laps (waits.map Wait.condition)
      ((napsOf env waits timeout w.scene (res.passes - 1)).map Nap.length) := by
  obtain ⟨n, -, hgo, hend⟩ := run_eq_some_iff.1 h
  have hpasses := ((passOf_shows env waits timeout w n).of_conclude hend).2.1
  rw [deeds_conclude hend, deeds_passOf hgo, hpasses, Nat.add_sub_cancel]

end Wait
end Passage
