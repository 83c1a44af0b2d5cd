/-
# The life of a facility

A facility is created, and then things happen to it: it is marked by hand,
transitions are run on it, it is given other elements, and between all
this the world goes on.  `Move` lists what can happen, `applyAll` lets
moves happen one after another, and `visited` lists the scenes that are
seen on the way.

`Facility.Kept` is the invariant: the history tells how the facility came
from its first phase to the current one, and the times in it are readings
of the wall clock, in the order in which they were taken.  One move keeps
it (`Kept.apply`), and so do many (`Kept.applyAll`); what they make of a
new facility, or of an active one, is `history_of_moves`.
-/
import Passage.Proofs.Chronicle
import Passage.Proofs.Transition.Tries

namespace Passage
variable {ι σ : Type}

/-! ## What a run sees -/

namespace Transition

/-- The scenes of a try: the one that the trigger has left, and those of the wait. -/
def tryScenes (env : Environment ι σ) (t : Transition ι σ) (x : Try ι σ) : List (Scene σ) :=
  let s := (x.before.fire t.trigger x.number).scene
  s :: match x.ending with
    | none => []
    | some (result, _) =>
      Wait.scenesOf env ⟨s.now, t.options.timeout⟩ (t.waits.map Wait.condition) s result.passes

/-- The scenes of all tries of a run. -/
def scenes (env : Environment ι σ) (patience : Nat) (t : Transition ι σ) (w : World ι σ) :
    List (Scene σ) :=
  (ledger env patience t w).flatMap (tryScenes env t)

/-- The scene in which the last wait of a run has ended is one of them. -/
theorem mem_scenes {env : Environment ι σ} {patience : Nat} {t : Transition ι σ} {w v : World ι σ}
    {o : Outcome} (h : t.refusal? = none) (hp : t.facility.phase = t.kind.before)
    (hov : attempts env patience (t.begun w) (t.options.tries - 1) 1 (t.started w) =
      some (o, v)) :
    v.scene ∈ scenes env patience t w := by
  obtain ⟨x, hx, hend, -, -⟩ := getLast?_ledger h hp hov
  have hmem : x ∈ ledger env patience t w := List.mem_of_getLast? hx
  have hrun := (tries_ledger h hp).waits x hmem
  rw [hend] at hrun
  obtain ⟨p, hpasses, -, -, -, hscene⟩ := Wait.exists_round_of_run hrun.symm
  refine List.mem_flatMap.mpr ⟨x, hmem, ?_⟩
  rw [tryScenes, hend, hscene]
  refine List.mem_cons_of_mem _ (Wait.mem_scenesOf ?_)
  rw [hpasses]
  exact Nat.lt_succ_self p

end Transition

/-! ## Moves -/

/-- A facility, and the world that it is in. -/
structure Site (ι σ : Type) where
  facility : Facility ι
  world : World ι σ

/-- Something that happens to a facility, or around it. -/
inductive Move (ι σ : Type) where
  /-- The facility is marked by hand. -/
  | mark (target : Phase) (attempt : Nat)
  /-- A transition is run on the facility, with whatever options, conditions and stage. -/
  | run (t : Transition ι σ)
  /-- The facility is given other elements. -/
  | declare (elements : Elements ι)
  /-- Something else happens, and leaves this scene. -/
  | elapse (scene : Scene σ)

namespace Move

/-- What a move makes of a facility and its world; nothing comes out of a run that does not
return.  A refused marking leaves the facility as it was. -/
def apply (env : Environment ι σ) (patience : Nat) : Move ι σ → Site ι σ → Option (Site ι σ)
  | mark target attempt, s =>
    match Transition.mark s.facility target attempt s.world with
    | (.ok f, w) => some ⟨f, w⟩
    | (.error _, w) => some ⟨s.facility, w⟩
  | run t, s =>
    (Transition.execute env patience { t with facility := s.facility } s.world).map fun r =>
      ⟨r.transition.facility, r.world⟩
  | declare elements, s => some ⟨{ s.facility with elements := elements }, s.world⟩
  | elapse scene, s => some ⟨s.facility, { s.world with scene := scene }⟩

/-- The scenes that are seen while a move is under way. -/
def during (env : Environment ι σ) (patience : Nat) : Move ι σ → Site ι σ → List (Scene σ)
  | run t, s => Transition.scenes env patience { t with facility := s.facility } s.world
  | _, _ => []

/-- What moves make of a facility and its world, one after another. -/
def applyAll (env : Environment ι σ) (patience : Nat) :
    List (Move ι σ) → Site ι σ → Option (Site ι σ)
  | [], s => some s
  | m :: rest, s => (m.apply env patience s).bind (applyAll env patience rest)

/-- The scenes that are seen from the first of some moves to the end of the last. -/
def visited (env : Environment ι σ) (patience : Nat) : List (Move ι σ) → Site ι σ → List (Scene σ)
  | [], s => [s.world.scene]
  | m :: rest, s => s.world.scene :: (m.during env patience s ++
    match m.apply env patience s with
    | none => []
    | some s' => visited env patience rest s')

theorem apply_mark_of_next {env : Environment ι σ} {patience : Nat} {s : Site ι σ} {target : Phase}
    (h : s.facility.phase.next = some target) (attempt : Nat) :
    (mark target attempt).apply env patience s =
      some ⟨s.facility.moved target attempt s.world.wall,
        s.world.note (.phaseChanged s.facility.name s.facility.phase target)⟩ := by
  rw [apply, Transition.mark_of_next h]

theorem apply_mark_of_ne_next {env : Environment ι σ} {patience : Nat} {s : Site ι σ}
    {target : Phase} (h : s.facility.phase.next ≠ some target) (attempt : Nat) :
    (mark target attempt).apply env patience s = some s := by
  rw [apply, Transition.mark_of_ne_next h]

/-- A run that is refused, or in the wrong phase, leaves the facility as it was. -/
theorem apply_run_of_wrong_phase (env : Environment ι σ) (patience : Nat) {s : Site ι σ}
    {t : Transition ι σ} (hp : s.facility.phase ≠ t.kind.before) :
    ∃ w, (run t).apply env patience s = some ⟨s.facility, w⟩ := by
  cases h : ({ t with facility := s.facility } : Transition ι σ).refusal? with
  | some e =>
      rw [apply, Transition.execute_of_refusal h]
      exact ⟨_, rfl⟩
  | none =>
      rw [apply, Transition.execute_of_wrong_phase h hp]
      exact ⟨_, rfl⟩

end Move

/-! ## The invariant -/

/-- The history of the facility tells how it came from the first phase to the current one, and
the times in it are among the given readings, in their order. -/
structure Facility.Kept (first : Phase) (readings : List Timestamp) (f : Facility ι) : Prop where
  tells : f.history.Tells first f.phase
  stamps : f.history.stamps.Sublist readings

namespace Facility

theorem kept_inPhase (name : String) (first : Phase) :
    (inPhase name first : Facility ι).Kept first [] :=
  ⟨History.tells_empty first, .refl _⟩

variable {first : Phase} {readings : List Timestamp} {f : Facility ι}

theorem Kept.mono {more : List Timestamp} (h : f.Kept first readings)
    (hs : readings.Sublist more) : f.Kept first more :=
  ⟨h.tells, h.stamps.trans hs⟩

/-- An accepted marking takes one more reading. -/
theorem Kept.moved {target : Phase} (h : f.Kept first readings)
    (hnext : f.phase.next = some target) (attempt : Nat) (now : Timestamp) :
    (f.moved target attempt now).Kept first (readings ++ [now]) := by
  refine ⟨h.tells.record hnext now attempt, ?_⟩
  show ((f.history.changes ++ [_]).map PhaseChange.timestamp).Sublist _
  rw [List.map_append]
  exact h.stamps.append (.refl _)

/-- A run takes a reading when it begins, and if a try succeeds another one when the last wait
is over. -/
theorem Kept.execute {env : Environment ι σ} {patience : Nat} {t : Transition ι σ} {w : World ι σ}
    {r : Transition.Run ι σ} (h : t.facility.Kept first readings)
    (hr : t.execute env patience w = some r) :
    r.transition.facility.Kept first
      (readings ++ (w.scene :: t.scenes env patience w).map Scene.wall) := by
  cases href : t.refusal? with
  | some e =>
      rw [Transition.execute_of_refusal href] at hr
      obtain rfl := Option.some.inj hr
      exact h.mono (List.sublist_append_left _ _)
  | none =>
      by_cases hp : t.facility.phase = t.kind.before
      · obtain ⟨o, v, hov, rfl⟩ := Transition.closing_of_execute href hp hr
        have hbegun : (t.begun w).facility.Kept first (readings ++ [w.wall]) :=
          h.moved (Kind.next_eq_during_iff.mpr hp) 0 w.wall
        cases hres : o.result with
        | ok report =>
            have harrived := hbegun.moved (Kind.next_during t.kind) o.attempts v.wall
            have hmem := Transition.mem_scenes href hp hov
            have hlast : [v.wall].Sublist ((t.scenes env patience w).map Scene.wall) :=
              List.singleton_sublist.mpr (List.mem_map_of_mem hmem)
            rw [Transition.closing, hres]
            -- The first reading opens the run; the second is one of those that its waits leave.
            refine harrived.mono ?_
            rw [List.append_assoc]
            exact (List.Sublist.refl readings).append (hlast.cons_cons w.wall)
        | error failure =>
            rw [Transition.closing, hres]
            refine hbegun.mono ?_
            exact (List.Sublist.refl readings).append ((List.nil_sublist _).cons_cons w.wall)
      · rw [Transition.execute_of_wrong_phase href hp] at hr
        obtain rfl := Option.some.inj hr
        exact h.mono (List.sublist_append_left _ _)

theorem Kept.apply {env : Environment ι σ} {patience : Nat} {m : Move ι σ} {s s' : Site ι σ}
    (h : s.facility.Kept first readings) (hm : m.apply env patience s = some s') :
    s'.facility.Kept first
      (readings ++ (s.world.scene :: m.during env patience s).map Scene.wall) := by
  cases m with
  | mark target attempt =>
      by_cases hnext : s.facility.phase.next = some target
      · rw [Move.apply_mark_of_next hnext] at hm
        obtain rfl := Option.some.inj hm
        exact h.moved hnext attempt s.world.wall
      · rw [Move.apply_mark_of_ne_next hnext] at hm
        obtain rfl := Option.some.inj hm
        exact h.mono (List.sublist_append_left _ _)
  | run t =>
      obtain ⟨r, hr, rfl⟩ := Option.map_eq_some_iff.mp hm
      exact Kept.execute (t := { t with facility := s.facility }) h hr
  | declare elements =>
      obtain rfl := Option.some.inj hm
      exact ⟨h.tells, h.stamps.trans (List.sublist_append_left _ _)⟩
  | elapse scene =>
      obtain rfl := Option.some.inj hm
      exact h.mono (List.sublist_append_left _ _)

theorem Kept.applyAll {env : Environment ι σ} {patience : Nat} {moves : List (Move ι σ)}
    {s s' : Site ι σ} (h : s.facility.Kept first readings)
    (hm : Move.applyAll env patience moves s = some s') :
    s'.facility.Kept first (readings ++ (Move.visited env patience moves s).map Scene.wall) := by
  induction moves generalizing s readings with
  | nil =>
      obtain rfl := Option.some.inj hm
      exact h.mono (List.sublist_append_left _ _)
  | cons m rest ih =>
      obtain ⟨next, hnext, hrest⟩ := Option.bind_eq_some_iff.mp hm
      have hkept := ih (h.apply hnext) hrest
      rw [List.append_assoc, ← List.map_append] at hkept
      rw [Move.visited, hnext]
      exact hkept

end Facility

/-! ## What a facility has recorded -/

/-- **The history of a facility is one walk through the phases.**  Whatever happens to a facility
that was created as new or as active, in whatever order, its changes lead from its first phase to
the current one without a gap; so no phase comes twice in its path, and it has at most four
changes, or two if it was created as active.  A marking that does not ask for the next phase is
refused, by hand and in a transition, and the facility stays as it was.  The changes are stamped
with readings of the wall clock, in the order in which those were taken.  If that clock is never
seen to go back, no change is stamped before an earlier one, and the time of the first change moved
by the duration of the history is the time of the last; here neither time is one of a leap second,
which no clock shows. -/
theorem history_of_moves (env : Environment ι σ) (patience : Nat) {name : String}
    {start : Facility ι} (hstart : start = .new name ∨ start = .active name) {w : World ι σ}
    {moves : List (Move ι σ)} {s : Site ι σ}
    (h : Move.applyAll env patience moves ⟨start, w⟩ = some s) :
    s.facility.history.Tells start.phase s.facility.phase ∧
    (s.facility.history.path = [] ∨
      Phase.Walk start.phase s.facility.phase s.facility.history.path) ∧
    s.facility.history.path.Nodup ∧
    s.facility.history.changes.length ≤ 4 ∧
    (start.phase = .active → s.facility.history.changes.length ≤ 2) ∧
    (∀ target attempt, s.facility.phase.next ≠ some target →
      (Move.mark target attempt).apply env patience s = some s) ∧
    (∀ t : Transition ι σ, s.facility.phase ≠ t.kind.before →
      ∃ v, (Move.run t).apply env patience s = some ⟨s.facility, v⟩) ∧
    s.facility.history.stamps.Sublist
      ((Move.visited env patience moves ⟨start, w⟩).map Scene.wall) ∧
    (((Move.visited env patience moves ⟨start, w⟩).map Scene.wall).Pairwise Timestamp.NotAfter →
      s.facility.history.stamps.Pairwise Timestamp.NotAfter ∧
      ∀ a b, s.facility.history.changes.head? = some a →
        s.facility.history.changes.getLast? = some b →
        a.timestamp.IsOrdinary → b.timestamp.IsOrdinary →
        ∃ d, s.facility.history.duration? = some d ∧
          b.timestamp = a.timestamp.shift d.nanos) := by
  have hbegin : start.Kept start.phase [] := by
    rcases hstart with rfl | rfl
    · exact Facility.kept_inPhase name .new
    · exact Facility.kept_inPhase name .active
  obtain ⟨htells, hstamps⟩ := Facility.Kept.applyAll (s := ⟨start, w⟩) hbegin h
  have hlength := htells.length_changes
  have hfinal := Phase.rank_le s.facility.phase
  have hwalk : s.facility.history.path = [] ∨
      Phase.Walk start.phase s.facility.phase s.facility.history.path := by
    by_cases hne : s.facility.history.changes = []
    · exact Or.inl (by rw [History.path, hne]; rfl)
    · exact Or.inr (htells.walk hne)
  refine ⟨htells, hwalk, ?_, ?_, ?_, ?_, ?_, hstamps, ?_⟩
  · rcases hwalk with hnil | hwalk
    · rw [hnil]
      exact List.nodup_nil
    · exact hwalk.nodup
  · exact Nat.le_trans (Nat.le_add_left _ _) (hlength.trans_le hfinal)
  · intro hactive
    rw [hactive] at hlength
    simp only [Phase.rank] at hlength hfinal
    omega
  · intro target attempt hnext
    exact Move.apply_mark_of_ne_next hnext attempt
  · intro t hp
    exact Move.apply_run_of_wrong_phase env patience hp
  · intro hclock
    have hsorted := hclock.sublist hstamps
    exact ⟨hsorted, fun a b ha hb hfirst hlast =>
      History.duration?_eq_some ha hb hsorted hfirst hlast⟩

/-- Leaving a hall, with a marking before it that is refused and one hour in which nothing
happens. -/
def departure : List (Move Unit Nat) :=
  [.mark .finished 7, .elapse ⟨⟨.ofSecs 3600, ⟨3600, 0⟩⟩, 0⟩, .run Transition.knocking]

/-- The hall that is left in the second try has a history of two changes, 50 milliseconds apart. -/
theorem history_of_departure :
    ∃ s, Move.applyAll Transition.slowDoor 0 departure ⟨.active "hall", .fresh⟩ = some s ∧
      s.facility.history.path = [.active, .transitioningFrom, .finished] ∧
      Phase.Walk .active .finished s.facility.history.path ∧
      s.facility.history.stamps.Pairwise Timestamp.NotAfter ∧
      s.facility.history.duration? = some (.ofMillis 50) := by
  have hsome : (Move.applyAll Transition.slowDoor 0 departure
      ⟨.active "hall", .fresh⟩).isSome = true := rfl
  obtain ⟨s, hs⟩ := Option.isSome_iff_exists.mp hsome
  obtain ⟨-, hwalk, -, -, -, -, -, -, htimes⟩ :=
    history_of_moves Transition.slowDoor 0 (Or.inr rfl) hs
  have hclock : ((Move.visited Transition.slowDoor 0 departure
      ⟨.active "hall", .fresh⟩).map Scene.wall).Pairwise Timestamp.NotAfter := by decide
  obtain ⟨hsorted, hduration⟩ := htimes hclock
  have hend : (Move.applyAll Transition.slowDoor 0 departure ⟨.active "hall", .fresh⟩).map
      (fun s => (s.facility.phase, s.facility.history)) = some (.finished,
        ⟨[⟨.active, .transitioningFrom, ⟨3600, 0⟩, 0⟩,
          ⟨.transitioningFrom, .finished, ⟨3600, 50000000⟩, 2⟩]⟩) := rfl
  rw [hs] at hend
  obtain ⟨hphase, hhistory⟩ := Prod.mk.inj (Option.some.inj hend)
  change s.facility.phase = _ at hphase
  change s.facility.history = _ at hhistory
  rw [hphase] at hwalk
  rw [hhistory] at hwalk hduration hsorted
  refine ⟨s, hs, ?_⟩
  rw [hhistory]
  refine ⟨rfl, hwalk.resolve_left (List.cons_ne_nil _ _), hsorted, ?_⟩
  obtain ⟨d, hd, hexact⟩ := hduration _ _ rfl rfl (by decide) (by decide)
  have hfifty : (Timestamp.mk 3600 0).difference ((Timestamp.mk 3600 0).shift d.nanos) = 50000000 :=
    (congrArg (Timestamp.mk 3600 0).difference hexact).symm
  rw [Timestamp.difference_shift (by decide)] at hfifty
  rw [hd]
  exact congrArg some (Duration.ext (Int.ofNat_inj.mp hfifty))

end Passage
