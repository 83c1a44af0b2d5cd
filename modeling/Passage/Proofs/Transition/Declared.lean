/-
# What is declared is what is waited for

The waits of a transition are declared in three places, and come in this
order: the conditions of the facility's elements, those of the facility
itself, and those of the transition.  Within each place they come in the
order of their declaration (`Elements.declareAll`).

The first two places have one origin and the third has another, which
ranks behind it.  So the waits are in the order of tables from the
beginning (`pairwise_waits`), and a table does not move any row
(`rows_ofRows_of_pairwise`): in each try its rows are those of the waits,
one for each, in the same order (`tells_of_run`).  The main statement is
`rows_as_declared`.
-/
import Passage.Proofs.Transition.Deeds
import Passage.Proofs.Wait.Account

namespace Passage
variable {ι σ : Type}

/-! ## Declarations -/

/-- Something that is declared for a facility. -/
inductive Declaration (ι : Type) where
  | element (e : Element ι)
  | enter (c : ι)
  | exit (c : ι)

namespace Declaration

def element? : Declaration ι → Option (Element ι)
  | element e => some e
  | _ => none

def enter? : Declaration ι → Option ι
  | enter c => some c
  | _ => none

def exit? : Declaration ι → Option ι
  | exit c => some c
  | _ => none

end Declaration

namespace Elements

def apply (es : Elements ι) : Declaration ι → Elements ι
  | .element e => es.declare e
  | .enter c => es.declareEnter c
  | .exit c => es.declareExit c

/-- Makes declarations, one after another. -/
def declareAll (es : Elements ι) (ds : List (Declaration ι)) : Elements ι := ds.foldl apply es

/-- Each kind of declaration keeps its own order. -/
theorem declareAll_eq (es : Elements ι) (ds : List (Declaration ι)) :
    es.declareAll ds = ⟨es.inState ++ ds.filterMap Declaration.element?,
      es.enter ++ ds.filterMap Declaration.enter?, es.exit ++ ds.filterMap Declaration.exit?⟩ := by
  induction ds generalizing es with
  | nil => simp [declareAll]
  | cons d ds ih =>
      have hrest : es.declareAll (d :: ds) = (es.apply d).declareAll ds := rfl
      rw [hrest, ih]
      -- The new entry is the last of its kind so far; the other two kinds stay as they are.
      cases d with
      | element e => exact congrArg (Elements.mk · _ _) (List.append_assoc es.inState [e] _)
      | enter c => exact congrArg (Elements.mk _ · _) (List.append_assoc es.enter [c] _)
      | exit c => exact congrArg (Elements.mk _ _ ·) (List.append_assoc es.exit [c] _)

end Elements

/-! ## Rows that are in order -/

namespace Wait

/-- A table does not move rows that come in the order of their origins. -/
theorem rows_ofRows_of_pairwise {rows : List Row}
    (h : rows.Pairwise fun r s => r.origin.rank ≤ s.origin.rank) :
    (Table.ofRows rows).rows = rows := by
  induction rows with
  | nil => rfl
  | cons r rest ih =>
      obtain ⟨hle, hrest⟩ := List.pairwise_cons.1 h
      show Table.place r (Table.ofRows rest).rows = r :: rest
      rw [ih hrest, place_of_forall_le hle]

section
variable {env : Environment ι σ} {waits : List (Wait ι)} {timeout : Duration}
  {first last : Scene σ} {passes : Nat} {rows : List Row}

/-- Rows that tell of waits have their origins and their descriptions, one for one. -/
theorem map_of_tells
    (h : List.Forall₂ (Row.Tells env waits timeout first last passes) rows waits.zipIdx) :
    rows.map (fun r => (r.origin, r.condition)) =
      waits.map fun x => (x.origin, env.describe x.condition last) := by
  have hsame : List.Forall₂ (fun r (x : Wait ι × Nat) =>
      (r.origin, r.condition) = (x.1.origin, env.describe x.1.condition last)) rows
        waits.zipIdx :=
    h.imp fun r x hr => Prod.ext hr.origin hr.condition
  have heq := List.forall₂_eq_eq_eq ▸
    List.forall₂_map_left_iff.2 (List.forall₂_map_right_iff.2 hsame)
  have hfst := congrArg (List.map fun x : Wait ι => (x.origin, env.describe x.condition last))
    (List.zipIdx_map_fst 0 waits)
  rw [List.map_map] at hfst
  exact heq.trans hfst

end

/-- Waits in the order of tables have their rows in the same order. -/
theorem tells_of_run {env : Environment ι σ} {patience : Nat} {waits : List (Wait ι)}
    {timeout : Duration} {w w' : World ι σ} {res : Result}
    (horder : waits.Pairwise fun x y => x.origin.rank ≤ y.origin.rank)
    (h : run env patience waits timeout w = some (res, w')) :
    List.Forall₂ (Row.Tells env waits timeout w.scene w'.scene res.passes) res.table.rows
      waits.zipIdx := by
  obtain ⟨n, -, -, hend⟩ := run_eq_some_iff.1 h
  have hpasses := ((passOf_shows env waits timeout w n).of_conclude hend).2.1
  have htells : List.Forall₂ (Row.Tells env waits timeout w.scene w'.scene (n + 1))
      ((passOf env waits timeout w n).watched.map (rowOf env w'.scene)) waits.zipIdx :=
    tells_rows n w'.scene
  have horigins : ((passOf env waits timeout w n).watched.map (rowOf env w'.scene)).map
      Row.origin = waits.map Wait.origin := by
    have hmap := congrArg (List.map Prod.fst) (map_of_tells htells)
    simpa [Function.comp_def] using hmap
  rw [table_of_conclude hend, hpasses, tableOf, rows_ofRows_of_pairwise]
  · exact htells
  · rw [← List.pairwise_map (f := Row.origin) (R := fun a b => a.rank ≤ b.rank), horigins,
      List.pairwise_map]
    exact horder

end Wait

namespace Transition

theorem rank_origin_le (k : Kind) : k.origin.rank ≤ Origin.transition.rank := by
  cases k <;> decide

/-- The conditions of the facility come before those of the transition, in tables as well. -/
theorem pairwise_waits (t : Transition ι σ) :
    t.waits.Pairwise fun x y => x.origin.rank ≤ y.origin.rank := by
  refine List.pairwise_append.2 ⟨?_, ?_, ?_⟩
  · exact List.pairwise_map.2 (List.pairwise_of_forall fun _ _ => Nat.le_refl _)
  · exact List.pairwise_map.2 (List.pairwise_of_forall fun _ _ => Nat.le_refl _)
  · intro x hx y hy
    obtain ⟨c, -, rfl⟩ := List.mem_map.1 hx
    obtain ⟨d, -, rfl⟩ := List.mem_map.1 hy
    exact rank_origin_le t.kind

/-- The table of the wait that a run has ended with. -/
def Run.table? (r : Run ι σ) : Option Wait.Table :=
  match r.result with
  | .ok report => some report.wait.table
  | .error e => e.failure?.map Wait.Failure.table

section
variable {env : Environment ι σ} {patience : Nat} {t : Transition ι σ} {w : World ι σ}

/-- A run that has made tries ends with the table of the last one. -/
theorem table?_of_execute {r : Run ι σ} (h : t.refusal? = none)
    (hp : t.facility.phase = t.kind.before) (hr : execute env patience t w = some r) :
    ∃ x result after, (ledger env patience t w).getLast? = some x ∧
      x.ending = some (result, after) ∧ r.table? = some result.table := by
  obtain ⟨o, v, hov, rfl⟩ := closing_of_execute h hp hr
  obtain ⟨x, hx, hend, -, -⟩ := getLast?_ledger h hp hov
  refine ⟨x, o.result, v, hx, hend, ?_⟩
  rw [Run.table?, closing]
  cases o.result with
  | ok report => rfl
  | error failure => rfl

/-- In each try of a run the table has the rows of the waits, one for each. -/
theorem tells_of_mem_ledger {r : Run ι σ} (hr : execute env patience t w = some r) {x : Try ι σ}
    (hx : x ∈ ledger env patience t w) :
    ∃ result after, x.ending = some (result, after) ∧
      List.Forall₂ (Wait.Row.Tells env t.waits t.options.timeout
        (x.before.fire t.trigger x.number).scene after.scene result.passes)
        result.table.rows t.waits.zipIdx := by
  obtain ⟨hsome, hwait⟩ := (deeds_execute hr).1 x hx
  obtain ⟨⟨result, after⟩, hend⟩ := Option.isSome_iff_exists.1 hsome
  have htells := Wait.tells_of_run t.pairwise_waits (hwait.symm.trans hend)
  exact ⟨result, after, hend, htells⟩

end

/-- **The rows of a table are what was declared.**  Declarations of each kind keep their order.  A
transition waits for the conditions of the elements that have one, then for those of the facility,
then for its own; for leaving, no element counts as persisting.  In each try the table has a row for
each of these waits, in the same order, and a row tells of the checks of the wait at its own place,
also where a condition is listed again.  A run that has made tries ends with the table of the
last one. -/
theorem rows_as_declared (env : Environment ι σ) (patience : Nat) :
    (∀ ds : List (Declaration ι),
      (Elements.empty.declareAll ds).inState = ds.filterMap Declaration.element? ∧
      (Elements.empty.declareAll ds).enter = ds.filterMap Declaration.enter? ∧
      (Elements.empty.declareAll ds).exit = ds.filterMap Declaration.exit?) ∧
    (∀ t : Transition ι σ, t.waits =
      (match t.kind with
        | .checkIn =>
          (t.facility.elements.inState.filterMap Element.enter ++ t.facility.elements.enter).map
            fun c => ⟨c, .enter⟩
        | .checkOut =>
          (t.facility.elements.inState.filterMap Element.exit ++ t.facility.elements.exit).map
            fun c => ⟨c, .exit⟩) ++
        t.required.map fun c => ⟨c, .transition⟩) ∧
    ∀ (t : Transition ι σ) (w : World ι σ) (r : Run ι σ), t.stage = .notStarted →
      t.options.isValid = true → t.facility.phase = t.kind.before →
      execute env patience t w = some r →
      (∀ x ∈ ledger env patience t w, ∃ result after, x.ending = some (result, after) ∧
        result.table.rows.map (fun row => (row.origin, row.condition)) =
          t.waits.map (fun y => (y.origin, env.describe y.condition after.scene)) ∧
        List.Forall₂ (Wait.Row.Tells env t.waits t.options.timeout
          (x.before.fire t.trigger x.number).scene after.scene result.passes)
          result.table.rows t.waits.zipIdx) ∧
      ∃ x result after, (ledger env patience t w).getLast? = some x ∧
        x.ending = some (result, after) ∧ r.table? = some result.table := by
  refine ⟨?_, ?_, ?_⟩
  · intro ds
    rw [Elements.declareAll_eq]
    exact ⟨rfl, rfl, rfl⟩
  · intro t
    rw [waits]
    cases t.kind with
    | checkIn => rfl
    | checkOut => rfl
  · intro t w r hs hv hp hr
    refine ⟨fun x hx => ?_, table?_of_execute (refusal?_eq_none hs hv) hp hr⟩
    obtain ⟨result, after, hend, htells⟩ := tells_of_mem_ledger hr hx
    exact ⟨result, after, hend, Wait.map_of_tells htells, htells⟩

/-- A hall that is declared out of order: two elements of one name share a condition for leaving,
and a third one has none. -/
def crowdedHall : Facility Nat :=
  { (.active "hall" : Facility Nat) with
    elements := Elements.empty.declareAll [.exit 2, .element ⟨"door", some 7, some 1⟩, .enter 8,
      .element ⟨"window", some 9, none⟩, .element ⟨"door", none, some 1⟩] }

/-- The way out of the crowded hall, with two conditions of its own. -/
def squeezing : Transition Nat Nat :=
  { idle "squeeze" .checkOut crowdedHall (.pause .default) with
    options := ⟨2, .ofMillis 50⟩
    required := [1, 3] }

/-- A door that opens after ten checks. -/
def heavyDoor : Environment Nat Nat :=
  .reciting fun n => if n < 10 then .notFulfilled else .fulfilled

/-- In the second try all of the five waits have a row, those for one condition and those of one
description included. -/
theorem rows_of_squeezing :
    squeezing.waits = [⟨1, .exit⟩, ⟨1, .exit⟩, ⟨2, .exit⟩, ⟨1, .transition⟩, ⟨3, .transition⟩] ∧
    (ledger heavyDoor 0 squeezing .fresh).length = 2 ∧
    ∃ r table, execute heavyDoor 0 squeezing .fresh = some r ∧ r.table? = some table ∧
      table.rows.map (fun row => (row.origin, row.condition)) =
        [(.exit, "door"), (.exit, "door"), (.exit, "door"), (.transition, "door"),
          (.transition, "door")] := by
  obtain ⟨-, hwaits, hrun⟩ := rows_as_declared heavyDoor 0
  have hsome : (execute heavyDoor 0 squeezing .fresh).isSome = true := rfl
  obtain ⟨r, hr⟩ := Option.isSome_iff_exists.1 hsome
  obtain ⟨hrows, x, result, after, hx, hend, htable⟩ := hrun squeezing .fresh r rfl rfl rfl hr
  obtain ⟨result', after', hend', hsame, -⟩ := hrows x (List.mem_of_getLast? hx)
  obtain ⟨rfl, rfl⟩ := Prod.mk.inj (Option.some.inj (hend.symm.trans hend'))
  exact ⟨hwaits squeezing, rfl, r, result.table, hr, htable, hsame⟩

end Transition
end Passage
