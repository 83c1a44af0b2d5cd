/-
# What a table says of its waits

A wait remembers little of each condition, and amends the status that it
remembers.  What a row has to say is said here from the checks alone:
`columnOf` lists what the checks of one condition have shown, pass after
pass, and `Accounts` says how status, counts and time of a row follow from
such a list.  One more check keeps an account true (`Accounts.observe`);
the amended status does no harm, because a note never changes an outcome.

Rows are found by the places of their waits in the list, since a wait may
be listed twice.  A table puts them in groups
(`rows_ofRows_eq_inTableOrder`), and so the rows are those of the waits in
the order `inTableOrder` (`table_accounts_for_waits`).
-/
import Passage.Proofs.Wait.Decision
import Mathlib.Data.List.Forall2

namespace Passage
variable {ι σ α : Type}

namespace Wait

/-! ## The groups of a table -/

theorem place_of_forall_le {r : Row} {rows : List Row}
    (h : ∀ s ∈ rows, r.origin.rank ≤ s.origin.rank) : Table.place r rows = r :: rows := by
  cases rows with
  | nil => rfl
  | cons s rest => rw [Table.place, if_pos (h s List.mem_cons_self)]

theorem place_append_of_lt {r : Row} {before : List Row}
    (h : ∀ s ∈ before, s.origin.rank < r.origin.rank) (rows : List Row) :
    Table.place r (before ++ rows) = before ++ Table.place r rows := by
  induction before with
  | nil => rfl
  | cons s rest ih =>
      have hs : ¬ r.origin.rank ≤ s.origin.rank := Nat.not_le_of_lt (h s List.mem_cons_self)
      rw [List.cons_append, Table.place, if_neg hs, ih fun x hx => h x (List.mem_cons_of_mem _ hx)]
      rfl

/-- What has the given origin, in order. -/
def ofOrigin (f : α → Origin) (l : List α) (o : Origin) : List α := l.filter fun x => f x == o

/-- The origins in the order of tables. -/
def origins : List Origin := [.enter, .exit, .transition]

/-- What is for entering, then what is for leaving, then what is for the transition. -/
def inTableOrder (f : α → Origin) (l : List α) : List α := origins.flatMap (ofOrigin f l)

theorem origin_of_mem_ofOrigin {f : α → Origin} {l : List α} {o : Origin} {x : α}
    (h : x ∈ ofOrigin f l o) : f x = o :=
  eq_of_beq (List.mem_filter.1 h).2

theorem mem_origins (o : Origin) : o ∈ origins := by
  cases o <;> decide

theorem perm_inTableOrder (f : α → Origin) (l : List α) : (inTableOrder f l).Perm l := by
  induction l with
  | nil => exact .refl _
  | cons x rest ih =>
      refine List.Perm.trans ?_ (ih.cons x)
      cases h : f x with
      | enter => simp [inTableOrder, ofOrigin, origins, h]
      | exit => simp [inTableOrder, ofOrigin, origins, h]
      | transition =>
          -- Two groups stand before the one that the element goes to.
          have hmove : ((ofOrigin f rest .enter ++ ofOrigin f rest .exit) ++
              x :: ofOrigin f rest .transition).Perm
                (x :: ((ofOrigin f rest .enter ++ ofOrigin f rest .exit) ++
                  ofOrigin f rest .transition)) := List.perm_middle
          simpa [inTableOrder, ofOrigin, origins, h] using hmove

/-- A row is placed in front of its own group, if the groups come in the order of their origins. -/
theorem place_groups {r : Row} {os : List Origin} (hos : os.Pairwise fun a b => a.rank < b.rank)
    (hr : r.origin ∈ os) (rows : List Row) :
    Table.place r (os.flatMap (ofOrigin Row.origin rows)) =
      os.flatMap (ofOrigin Row.origin (r :: rows)) := by
  induction os with
  | nil => exact absurd hr List.not_mem_nil
  | cons o os ih =>
      obtain ⟨hlt, hos⟩ := List.pairwise_cons.1 hos
      rw [List.flatMap_cons, List.flatMap_cons]
      by_cases ho : r.origin = o
      · -- The row goes to the front of this group; no later group is for its origin.
        have hmine : ofOrigin Row.origin (r :: rows) o = r :: ofOrigin Row.origin rows o := by
          simp [ofOrigin, ho]
        have hothers : os.flatMap (ofOrigin Row.origin (r :: rows)) =
            os.flatMap (ofOrigin Row.origin rows) := by
          refine List.flatMap_congr fun p hp => ?_
          have hne : r.origin ≠ p := fun he =>
            absurd (hlt p hp) (by rw [← he, ho]; exact Nat.lt_irrefl _)
          simp [ofOrigin, hne]
        rw [hmine, hothers, List.cons_append]
        refine place_of_forall_le fun s hs => ?_
        rcases List.mem_append.1 hs with hs | hs
        · have hsame : r.origin = s.origin := ho.trans (origin_of_mem_ofOrigin hs).symm
          exact Nat.le_of_eq (congrArg Origin.rank hsame)
        · obtain ⟨p, hp, hs⟩ := List.mem_flatMap.1 hs
          rw [origin_of_mem_ofOrigin hs, ho]
          exact Nat.le_of_lt (hlt p hp)
      · have hmem : r.origin ∈ os := (List.mem_cons.1 hr).resolve_left ho
        have hmine : ofOrigin Row.origin (r :: rows) o = ofOrigin Row.origin rows o := by
          simp [ofOrigin, ho]
        rw [hmine, place_append_of_lt (fun s hs => ?_), ih hos hmem]
        rw [origin_of_mem_ofOrigin hs]
        exact hlt _ hmem

/-- A table lists its rows group after group, each in the order in which they came. -/
theorem rows_ofRows_eq_inTableOrder (rows : List Row) :
    (Table.ofRows rows).rows = inTableOrder Row.origin rows := by
  induction rows with
  | nil => rfl
  | cons r rest ih =>
      show Table.place r (Table.ofRows rest).rows = _
      rw [ih, inTableOrder, place_groups (by decide) (mem_origins r.origin)]
      rfl

/-! ## What the checks of one condition have shown -/

/-- What the checks of the condition at the given place have shown in the first `n` rounds. -/
def columnAt (env : Environment ι σ) (b : Budget) (cs : List ι) (s : Scene σ) (place n : Nat) :
    List (Sighting σ) :=
  (List.range n).filterMap fun k => (roundAt env b cs s k).sightings[place]?

/-- What the checks of the wait at the given place have shown in the first `n` passes. -/
def columnOf (env : Environment ι σ) (waits : List (Wait ι)) (timeout : Duration) (s : Scene σ)
    (place n : Nat) : List (Sighting σ) :=
  columnAt env ⟨s.now, timeout⟩ (waits.map Wait.condition) s place n

/-- Each status with the one that came after it. -/
def steps (ss : List Status) : List (Status × Status) := ss.zip ss.tail

/-- A condition held, and did not hold any more at its next check. -/
def regresses (x : Status × Status) : Bool := x.1.isFulfilled && !x.2.isFulfilled

/-- The message of a status in which a condition has stopped to hold for the `n`-th time, cut to
300 characters. -/
def regressedMessage (message : Option String) (n : Nat) : String :=
  let note := "(regressed, " ++ Decimal.text n ++ " regressions)"
  let text := match message with
    | some m => m ++ "  " ++ note
    | none => note
  String.ofList (text.toList.take 300)

/-- What is remembered of a condition is what there is to say when its checks have shown `xs`, in a
wait that began at `start`. -/
structure Accounts (start : Duration) (xs : List (Sighting σ)) (p : Progress) : Prop where
  checks : p.checks = xs.length
  regressions : p.regressions = (steps (xs.map Sighting.status)).countP regresses
  /-- A condition that held once counts as having held, whatever it did later. -/
  firstFulfilledAfter : p.firstFulfilledAfter =
    (xs.find? fun x => x.status.isFulfilled).map fun x => x.scene.now - start
  /-- The last status is kept, but for a note on it if the condition has just stopped to hold. -/
  last : ∃ x, xs.getLast? = some x ∧
    p.last.outcome = x.status.outcome ∧ p.last.timestamp = x.status.timestamp ∧
    p.last.message =
      if (steps (xs.map Sighting.status)).getLast?.any regresses then
        some (regressedMessage x.status.message p.regressions)
      else x.status.message

/-- What a row says of its condition. -/
def Row.progress (r : Row) : Progress := ⟨r.status, r.checks, r.firstFulfilledAfter, r.regressions⟩

theorem isFulfilled_of_outcome_eq {s t : Status} (h : s.outcome = t.outcome) :
    s.isFulfilled = t.isFulfilled := by
  rw [Status.isFulfilled, Status.isFulfilled, h]

theorem steps_concat {ss : List Status} {a : Status} (h : ss.getLast? = some a) (s : Status) :
    steps (ss ++ [s]) = steps ss ++ [(a, s)] := by
  induction ss with
  | nil => exact absurd h (by simp)
  | cons b rest ih =>
      cases rest with
      | nil =>
          obtain rfl : b = a := Option.some.inj h
          rfl
      | cons c rest =>
          exact congrArg ((b, c) :: ·) (ih (List.getLast?_cons_cons.symm.trans h))

theorem message_regressed (s : Status) (n : Nat) :
    (Progress.regressed s n).message = some (regressedMessage s.message n) := by
  obtain ⟨outcome, message, timestamp⟩ := s
  cases message <;> rfl

theorem accounts_first (start : Duration) (x : Sighting σ) :
    Accounts start [x] (.first x.status (x.scene.now - start)) where
  checks := rfl
  regressions := rfl
  firstFulfilledAfter := by
    show Progress.momentOf x.status (x.scene.now - start) = _
    rw [Progress.momentOf]
    cases h : x.status.isFulfilled <;> simp [h]
  last := ⟨x, rfl, rfl, rfl, rfl⟩

/-- One more check keeps the account. -/
theorem Accounts.observe {start : Duration} {xs : List (Sighting σ)} {p : Progress}
    (h : Accounts start xs p) (x : Sighting σ) :
    Accounts start (xs ++ [x]) (p.observe x.status (x.scene.now - start)) := by
  obtain ⟨y, hy, hout, -, -⟩ := h.last
  have hlast : (xs.map Sighting.status).getLast? = some y.status := by
    rw [List.getLast?_map, hy]
    rfl
  have hsteps : steps ((xs ++ [x]).map Sighting.status) =
      steps (xs.map Sighting.status) ++ [(y.status, x.status)] := by
    rw [List.map_append]
    exact steps_concat hlast x.status
  -- The remembered status may have a note, but it has the outcome of the last check.
  have hregressed : p.hasRegressed x.status = regresses (y.status, x.status) := by
    rw [Progress.hasRegressed, regresses, isFulfilled_of_outcome_eq hout]
  refine ⟨?_, ?_, ?_, ?_⟩
  · show p.checks + 1 = _
    rw [h.checks, List.length_append]
    rfl
  · show (if p.hasRegressed x.status then p.regressions + 1 else p.regressions) = _
    rw [hsteps, List.countP_append, List.countP_singleton, hregressed, h.regressions]
    split <;> rfl
  · show p.firstFulfilledAfter.or (Progress.momentOf x.status (x.scene.now - start)) = _
    rw [List.find?_append, Option.map_or, h.firstFulfilledAfter, Progress.momentOf]
    cases hx : x.status.isFulfilled <;> simp [hx]
  · refine ⟨x, List.getLast?_concat, ?_, ?_, ?_⟩
    · exact outcome_next (some p) x.status _
    · show (if p.hasRegressed x.status then _ else _ : Status).timestamp = _
      split <;> rfl
    · rw [hsteps, List.getLast?_concat, Option.any_some, ← hregressed]
      show (if p.hasRegressed x.status then _ else _ : Status).message =
        if _ then some (regressedMessage _ (if p.hasRegressed x.status then _ else _)) else _
      cases p.hasRegressed x.status with
      | true => exact message_regressed x.status (p.regressions + 1)
      | false => rfl

/-! ## What the passes remember -/

theorem length_sightings (env : Environment ι σ) (cs : List ι) (s : Scene σ) :
    (survey env cs s).sightings.length = cs.length := by
  induction cs generalizing s with
  | nil => rfl
  | cons c rest ih => exact congrArg (· + 1) (ih _)

theorem length_sightings_roundAt (env : Environment ι σ) (b : Budget) (cs : List ι) (s : Scene σ)
    (n : Nat) : (roundAt env b cs s n).sightings.length = cs.length := by
  cases n with
  | zero => exact length_sightings env cs s
  | succ n => rw [roundAt_succ, length_sightings]

/-- A pass gives each condition what its own check has shown. -/
theorem watched_pass (env : Environment ι σ) (start : Duration)
    (l : List (Wait ι × Option Progress)) (w : World ι σ) :
    (pass env start l w).watched =
      List.zipWith (fun x y => (x.1, Progress.next x.2 y.status (y.scene.now - start))) l
        (survey env (conditionsOf l) w.scene).sightings := by
  induction l generalizing w with
  | nil => rfl
  | cons head rest ih =>
      obtain ⟨x, before⟩ := head
      have hrest := ih (sample env start x before w).2
      rw [scene_sample] at hrest
      have hfirst : (sample env start x before w).1 = observed env start x before w := by
        rw [sample_eq]
      rw [pass_cons, hrest, hfirst]
      rfl

theorem getElem?_watched_pass (env : Environment ι σ) (start : Duration)
    {l : List (Wait ι × Option Progress)} (w : World ι σ) {place : Nat} {x : Wait ι}
    {before : Option Progress} (h : l[place]? = some (x, before)) :
    ∃ y, (survey env (conditionsOf l) w.scene).sightings[place]? = some y ∧
      (pass env start l w).watched[place]? =
        some (x, .next before y.status (y.scene.now - start)) := by
  obtain ⟨hlt, -⟩ := List.getElem?_eq_some_iff.1 h
  have hlt' : place < (survey env (conditionsOf l) w.scene).sightings.length := by
    rw [length_sightings, conditionsOf, List.length_map]
    exact hlt
  refine ⟨_, List.getElem?_eq_getElem hlt', ?_⟩
  rw [watched_pass, List.getElem?_zipWith, h, List.getElem?_eq_getElem hlt']

theorem passAt_succ (env : Environment ι σ) (b : Budget) (n : Nat) :
    ∀ (l : List (Wait ι × Option Progress)) (w : World ι σ),
      passAt env b l w (n + 1) = pass env b.start (carry (passAt env b l w n))
        (rest b (passAt env b l w n).world) := by
  induction n with
  | zero => exact fun _ _ => rfl
  | succ n ih => exact fun l w => ih _ _

theorem conditionsOf_carry_passAt (env : Environment ι σ) (b : Budget)
    (l : List (Wait ι × Option Progress)) (w : World ι σ) (n : Nat) :
    conditionsOf (carry (passAt env b l w n)) = conditionsOf l := by
  induction n with
  | zero => exact conditionsOf_carry env b.start l w
  | succ n ih => rw [passAt_succ, conditionsOf_carry, ih]

theorem columnAt_succ {env : Environment ι σ} {b : Budget} {cs : List ι} {s : Scene σ}
    {place n : Nat} {x : Sighting σ} (h : (roundAt env b cs s n).sightings[place]? = some x) :
    columnAt env b cs s place (n + 1) = columnAt env b cs s place n ++ [x] := by
  simp [columnAt, List.range_succ, h]

/-- After each pass there is for each wait what its checks so far have to say. -/
theorem accounts_passAt (env : Environment ι σ) (b : Budget) {l : List (Wait ι × Option Progress)}
    (w : World ι σ) {place : Nat} {x : Wait ι} (hx : l[place]? = some (x, none)) (n : Nat) :
    ∃ p, (passAt env b l w n).watched[place]? = some (x, p) ∧
      Accounts b.start (columnAt env b (conditionsOf l) w.scene place (n + 1)) p := by
  induction n with
  | zero =>
      obtain ⟨y, hy, hwatched⟩ := getElem?_watched_pass env b.start w hx
      refine ⟨_, hwatched, ?_⟩
      rw [columnAt_succ hy]
      exact accounts_first b.start y
  | succ n ih =>
      obtain ⟨p, hp, hacc⟩ := ih
      have hcarry : (carry (passAt env b l w n))[place]? = some (x, some p) := by
        rw [carry, List.getElem?_map, hp]
        rfl
      obtain ⟨y, hy, hwatched⟩ :=
        getElem?_watched_pass env b.start (rest b (passAt env b l w n).world) hcarry
      rw [conditionsOf_carry_passAt, scene_rest, (passAt_shows env b n l w).scene,
        ← roundAt_succ] at hy
      refine ⟨_, passAt_succ env b n l w ▸ hwatched, ?_⟩
      rw [columnAt_succ hy]
      exact hacc.observe y

theorem length_watched_passAt (env : Environment ι σ) (b : Budget)
    (l : List (Wait ι × Option Progress)) (w : World ι σ) (n : Nat) :
    (passAt env b l w n).watched.length = l.length := by
  have h := congrArg List.length (conditionsOf_carry_passAt env b l w n)
  simpa [conditionsOf, carry] using h

/-! ## The table of a wait -/

/-- The table that a wait has to show. -/
def Result.table : Result → Table
  | .ok report => report.table
  | .error failure => failure.table

theorem table_of_conclude {env : Environment ι σ} {b : Budget} {passes : Nat} {p : Pass ι σ}
    {res : Result} {w : World ι σ} (h : conclude env b passes p = some (res, w)) :
    res.table = tableOf env w.scene p.watched := by
  rcases conclude_cases h with ⟨_, -, rfl, rfl⟩ | ⟨-, rfl, rfl⟩
  · rfl
  · rfl

theorem length_columnAt (env : Environment ι σ) (b : Budget) {cs : List ι} (s : Scene σ)
    {place : Nat} (h : place < cs.length) (n : Nat) :
    (columnAt env b cs s place n).length = n := by
  induction n with
  | zero => rfl
  | succ n ih =>
      have hlt : place < (roundAt env b cs s n).sightings.length := by
        rw [length_sightings_roundAt]
        exact h
      rw [columnAt_succ (List.getElem?_eq_getElem hlt), List.length_append, ih]
      rfl

/-- What the row `r` says of a wait and its place in the list, in a wait of so many passes that
began in the scene `first` and has ended in `last`. -/
structure Row.Tells (env : Environment ι σ) (waits : List (Wait ι)) (timeout : Duration)
    (first last : Scene σ) (passes : Nat) (r : Row) (x : Wait ι × Nat) : Prop where
  origin : r.origin = x.1.origin
  /-- The condition is described as it is at the end. -/
  condition : r.condition = env.describe x.1.condition last
  checks : r.checks = passes
  accounts : Accounts first.now (columnOf env waits timeout first x.2 passes) r.progress

section
variable {env : Environment ι σ} {patience : Nat} {waits : List (Wait ι)} {timeout : Duration}
  {w w' : World ι σ}

/-- The rows as they come out of a pass, one for each wait. -/
theorem tells_rows (n : Nat) (s : Scene σ) :
    List.Forall₂ (Row.Tells env waits timeout w.scene s (n + 1))
      ((passOf env waits timeout w n).watched.map (rowOf env s)) waits.zipIdx := by
  refine List.forall₂_iff_get.2 ⟨?_, ?_⟩
  · rw [List.length_map, passOf, length_watched_passAt, List.length_map, List.length_zipIdx]
  · intro place hrow hplace
    have hlt : place < waits.length := by rwa [List.length_zipIdx] at hplace
    have hx : (waits.map fun x => (x, (none : Option Progress)))[place]? =
        some (waits[place], none) := by
      rw [List.getElem?_map, List.getElem?_eq_getElem hlt]
      rfl
    obtain ⟨p, hp, hacc⟩ := accounts_passAt env ⟨w.now, timeout⟩
      (w.note (.waitBegun waits.length timeout)) hx n
    rw [conditionsOf_fresh] at hacc
    obtain ⟨_, hwatched⟩ := List.getElem?_eq_some_iff.1 hp
    have hget : ((passOf env waits timeout w n).watched.map (rowOf env s))[place] =
        rowOf env s (waits[place], p) := by
      rw [List.getElem_map]
      exact congrArg (rowOf env s) hwatched
    simp only [List.get_eq_getElem, List.getElem_zipIdx, Nat.zero_add]
    rw [hget]
    refine ⟨rfl, rfl, ?_, hacc⟩
    show p.checks = n + 1
    rw [hacc.checks, length_columnAt]
    rwa [List.length_map]

/-- Rows that stand for waits stand for them in the table as well. -/
theorem forall₂_table {R : Row → Wait ι × Nat → Prop} {rows : List Row}
    {l : List (Wait ι × Nat)} (h : List.Forall₂ R rows l)
    (horigin : ∀ r x, R r x → r.origin = x.1.origin) :
    List.Forall₂ R (Table.ofRows rows).rows (inTableOrder (fun x => x.1.origin) l) := by
  rw [rows_ofRows_eq_inTableOrder, inTableOrder]
  refine List.rel_flatMap (R := Eq) (List.forall₂_refl origins) ?_
  rintro o _ rfl
  refine List.rel_filter ?_ h
  intro r x hr
  show (r.origin == o) = true ↔ (x.1.origin == o) = true
  rw [horigin r x hr]

end

/-- **A table accounts for each wait.**  There is one row for each wait of the list, in the order
of the origins and within an origin in the order of the list; and it says what the checks of this
one wait have shown, from the first pass to the last. -/
theorem table_accounts_for_waits {env : Environment ι σ} {patience : Nat} {waits : List (Wait ι)}
    {timeout : Duration} {w w' : World ι σ} {res : Result}
    (h : run env patience waits timeout w = some (res, w')) :
    (inTableOrder (fun x => x.1.origin) waits.zipIdx).Perm waits.zipIdx ∧
      List.Forall₂ (Row.Tells env waits timeout w.scene w'.scene res.passes) res.table.rows
        (inTableOrder (fun x => x.1.origin) waits.zipIdx) := by
  refine ⟨perm_inTableOrder _ _, ?_⟩
  obtain ⟨n, -, -, hend⟩ := run_eq_some_iff.1 h
  have hpasses := ((passOf_shows env waits timeout w n).of_conclude hend).2.1
  rw [table_of_conclude hend, hpasses, tableOf]
  exact forall₂_table (tells_rows n w'.scene) fun r x hr => hr.origin

/-- Of two doors that stop to hold, the one for entering comes first in the table, and has a note:
it has stopped to hold in the last pass. -/
theorem table_accounts_for_flicker :
    ∃ res w' enter crossing,
      run flicker 0 [⟨(), .transition⟩, ⟨(), .enter⟩] (.ofMillis 100) .fresh = some (res, w') ∧
      res.table.rows = [enter, crossing] ∧
      enter.origin = .enter ∧ enter.regressions = 1 ∧
      enter.firstFulfilledAfter = some (.ofMillis 50) ∧
      enter.status.message = some "(regressed, 1 regressions)" ∧
      crossing.origin = .transition ∧ crossing.regressions = 1 ∧
      crossing.firstFulfilledAfter = some .zero ∧ crossing.status.message = none := by
  have hsome : (run flicker 0 [⟨(), .transition⟩, ⟨(), .enter⟩] (.ofMillis 100) .fresh).map
      (fun x => x.1.passes) = some 3 := rfl
  obtain ⟨⟨res, w'⟩, h, hpasses⟩ := Option.map_eq_some_iff.1 hsome
  obtain ⟨-, hrows⟩ := table_accounts_for_waits h
  change res.passes = 3 at hpasses
  rw [hpasses] at hrows
  obtain ⟨enter, rest, henter, hrest, hall⟩ := List.forall₂_cons_right_iff.1 hrows
  obtain ⟨crossing, last, hcrossing, hlast, rfl⟩ := List.forall₂_cons_right_iff.1 hrest
  obtain rfl := List.forall₂_nil_right_iff.1 hlast
  obtain ⟨x, hx, -, -, hmessage⟩ := henter.accounts.last
  obtain ⟨y, hy, -, -, hplain⟩ := hcrossing.accounts.last
  refine ⟨res, w', enter, crossing, h, hall, henter.origin, henter.accounts.regressions,
    henter.accounts.firstFulfilledAfter, ?_, hcrossing.origin, hcrossing.accounts.regressions,
    hcrossing.accounts.firstFulfilledAfter, ?_⟩
  · rw [henter.accounts.regressions, ← Option.some.inj hx] at hmessage
    exact hmessage
  · rw [hcrossing.accounts.regressions, ← Option.some.inj hy] at hplain
    exact hplain

end Wait
end Passage
