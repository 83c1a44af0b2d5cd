/-
# The condition that a wait fails for

A wait that fails for an error names one condition, and its table has a
row for every wait.  The name is found while the conditions are checked,
in the order of the list (`culprit?_eq_some`); the rows come later, in the
order of the origins.  The two belong together all the same.

The row of the wait at a place of the list is `Table.rowFor?`, which does
not look at descriptions; there is one for each place, and every row is
one of these (`exists_rowFor`, `exists_place_of_row`).  Its status is that
of the wait's check in the last round, so the rows with errors are the
conditions that have answered with one there (`belongsTo_of_tells`).  If
descriptions tell the waits apart, looking up the named condition finds
the row of the culprit: `named_condition_is_found`.
-/
import Passage.Proofs.Wait.Reordering
import Passage.Proofs.Wait.News

namespace Passage
variable {ι σ α κ : Type}

namespace Wait

/-! ## Looking up what has a key of its own -/

theorem find?_eq_some_iff_of_nodup [DecidableEq κ] {key : α → κ} {l : List α}
    (hl : (l.map key).Nodup) {k : κ} {a : α} :
    l.find? (fun b => key b == k) = some a ↔ a ∈ l ∧ key a = k := by
  constructor
  · intro h
    have hkey : (key a == k) = true := List.find?_some (p := fun b => key b == k) h
    exact ⟨List.mem_of_find?_eq_some h, eq_of_beq hkey⟩
  · rintro ⟨ha, rfl⟩
    cases h : l.find? (fun b => key b == key a) with
    | none => exact absurd (beq_self_eq_true (key a)) (List.find?_eq_none.1 h a ha)
    | some b =>
        have hkey : (key b == key a) = true := List.find?_some (p := fun b => key b == key a) h
        rw [List.inj_on_of_nodup_map hl (List.mem_of_find?_eq_some h) ha (eq_of_beq hkey)]

/-! ## The row of a wait -/

/-- The row of the wait at the given place of the list: the one that stands in the table where the
wait stands in the order of tables. -/
def Table.rowFor? (t : Table) (waits : List (Wait ι)) (place : Nat) : Option Row :=
  ((t.rows.zip (inTableOrder (fun x => x.1.origin) waits.zipIdx)).find?
    fun p => p.2.2 == place).map Prod.fst

/-- No place of the list comes twice in the order of tables. -/
theorem nodup_places (waits : List (Wait ι)) :
    ((inTableOrder (fun x => x.1.origin) waits.zipIdx).map Prod.snd).Nodup := by
  have hperm := (perm_inTableOrder (fun x : Wait ι × Nat => x.1.origin) waits.zipIdx).map Prod.snd
  rw [hperm.nodup_iff, List.zipIdx_map_snd]
  exact List.nodup_range'

section
variable {waits : List (Wait ι)} {t : Table} {R : Row → Wait ι × Nat → Prop}

/-- If there is a row for each wait, each has the one that stands at its place. -/
theorem rowFor?_of_mem_zip
    (h : List.Forall₂ R t.rows (inTableOrder (fun x => x.1.origin) waits.zipIdx)) {r : Row}
    {x : Wait ι × Nat}
    (hr : (r, x) ∈ t.rows.zip (inTableOrder (fun x => x.1.origin) waits.zipIdx)) :
    t.rowFor? waits x.2 = some r := by
  have hkeys : ((t.rows.zip (inTableOrder (fun x => x.1.origin) waits.zipIdx)).map
      fun p => p.2.2).Nodup := by
    have hplaces := nodup_places waits
    rw [← List.map_snd_zip (Nat.le_of_eq h.length_eq.symm), List.map_map] at hplaces
    exact hplaces
  rw [Table.rowFor?, (find?_eq_some_iff_of_nodup hkeys).2 ⟨hr, rfl⟩]
  rfl

theorem exists_rowFor (h : List.Forall₂ R t.rows (inTableOrder (fun x => x.1.origin) waits.zipIdx))
    {place : Nat} {x : Wait ι} (hx : waits[place]? = some x) :
    ∃ r ∈ t.rows, t.rowFor? waits place = some r ∧ R r (x, place) := by
  have hmem : (x, place) ∈ inTableOrder (fun x => x.1.origin) waits.zipIdx :=
    (perm_inTableOrder _ _).mem_iff.2 (List.mk_mem_zipIdx_iff_getElem?.2 hx)
  rw [← List.map_snd_zip (Nat.le_of_eq h.length_eq.symm)] at hmem
  obtain ⟨⟨r, _⟩, hr, rfl⟩ := List.mem_map.1 hmem
  exact ⟨r, (List.of_mem_zip hr).1, rowFor?_of_mem_zip h hr, (List.forall₂_iff_zip.1 h).2 hr⟩

theorem exists_place_of_row
    (h : List.Forall₂ R t.rows (inTableOrder (fun x => x.1.origin) waits.zipIdx)) {r : Row}
    (hr : r ∈ t.rows) :
    ∃ place x, waits[place]? = some x ∧ t.rowFor? waits place = some r ∧ R r (x, place) := by
  rw [← List.map_fst_zip (Nat.le_of_eq h.length_eq)] at hr
  obtain ⟨⟨_, x, place⟩, hzip, rfl⟩ := List.mem_map.1 hr
  have hx := (perm_inTableOrder _ _).mem_iff.1 (List.of_mem_zip hzip).2
  exact ⟨place, x, List.mk_mem_zipIdx_iff_getElem?.1 hx, rowFor?_of_mem_zip h hzip,
    (List.forall₂_iff_zip.1 h).2 hzip⟩

end

/-! ## The last round -/

/-- The last of the rounds that a wait has made. -/
def lastRound (env : Environment ι σ) (waits : List (Wait ι)) (timeout : Duration) (s : Scene σ)
    (res : Result) : Round σ :=
  roundOf env waits timeout s (res.passes - 1)

/-- The row belongs to the check of the wait `x` that has shown `y`. -/
structure Row.BelongsTo (r : Row) (x : Wait ι) (y : Sighting σ) : Prop where
  origin : r.origin = x.origin
  outcome : r.status.outcome = y.status.outcome
  timestamp : r.status.timestamp = y.status.timestamp

/-- The wait at this place is the first one of the list whose check in the round has shown an
error. -/
structure Round.FirstError (round : Round σ) (waits : List (Wait ι)) (place : Nat) (x : Wait ι)
    (y : Sighting σ) : Prop where
  wait : waits[place]? = some x
  sighting : round.sightings[place]? = some y
  isError : y.status.isError = true
  first : ∀ k < place, ∀ z, round.sightings[k]? = some z → z.status.isError = false

/-- In all scenes of the round each condition is described by its name. -/
def Round.Names (env : Environment ι σ) (waits : List (Wait ι)) (round : Round σ)
    (name : ι → String) : Prop :=
  ∀ x ∈ waits, ∀ s ∈ round.scenes, env.describe x.condition s = name x.condition

theorem culprit?_eq_some {waits : List (Wait ι)} {round : Round σ} {c : ι} {y : Sighting σ}
    (h : round.culprit? (waits.map Wait.condition) = some (c, y)) :
    ∃ place x, x.condition = c ∧ round.FirstError waits place x y := by
  obtain ⟨herror, place, hlt, hplace, hfirst⟩ := List.find?_eq_some_iff_getElem.1 h
  have hzip := List.getElem?_zip_eq_some.1 (List.getElem?_eq_some_iff.2 ⟨hlt, hplace⟩)
  rw [List.getElem?_map] at hzip
  obtain ⟨x, hx, hc⟩ := Option.map_eq_some_iff.1 hzip.1
  refine ⟨place, x, hc, hx, hzip.2, herror, ?_⟩
  intro k hk z hz
  have hpair := hfirst k hk
  rw [List.getElem_zip, Bool.not_eq_true'] at hpair
  rw [← (List.getElem?_eq_some_iff.1 hz).2]
  exact hpair

theorem isError_of_culprit?_eq_none {waits : List (Wait ι)} {round : Round σ}
    (h : round.culprit? (waits.map Wait.condition) = none) {place : Nat} {x : Wait ι}
    {y : Sighting σ} (hx : waits[place]? = some x) (hy : round.sightings[place]? = some y) :
    y.status.isError = false := by
  have hc : (waits.map Wait.condition)[place]? = some x.condition := by
    rw [List.getElem?_map, hx]
    rfl
  have hmem : (x.condition, y) ∈ (waits.map Wait.condition).zip round.sightings :=
    List.mem_of_getElem? (List.getElem?_zip_eq_some.2 ⟨hc, hy⟩)
  exact Bool.eq_false_iff.2 (List.find?_eq_none.1 h _ hmem)

section
variable {env : Environment ι σ} {patience : Nat} {waits : List (Wait ι)} {timeout : Duration}
  {w w' : World ι σ} {res : Result}

theorem one_le_passes (h : run env patience waits timeout w = some (res, w')) : 1 ≤ res.passes := by
  obtain ⟨p, hp, -⟩ := exists_round_of_run h
  omega

theorem scene_mem_lastRound (h : run env patience waits timeout w = some (res, w')) :
    w'.scene ∈ (lastRound env waits timeout w.scene res).scenes := by
  obtain ⟨p, hp, -, -, -, hscene⟩ := exists_round_of_run h
  have hlast : lastRound env waits timeout w.scene res = roundOf env waits timeout w.scene p := by
    rw [lastRound, hp, Nat.add_sub_cancel]
  rw [hlast, hscene]
  exact List.mem_append_right _ List.mem_cons_self

/-- The rows are those that the last pass has made for its waits, put in the order of tables. -/
theorem tells_table_of_run (h : run env patience waits timeout w = some (res, w')) :
    List.Forall₂ (Row.Tells env waits timeout w.scene w'.scene res.passes) res.table.rows
      (inTableOrder (fun x => x.1.origin) waits.zipIdx) := by
  obtain ⟨-, hend⟩ := exists_conclude_of_run h
  have hrows : List.Forall₂ (Row.Tells env waits timeout w.scene w'.scene (res.passes - 1 + 1))
      ((passOf env waits timeout w (res.passes - 1)).watched.map (rowOf env w'.scene))
        waits.zipIdx :=
    tells_rows (res.passes - 1) w'.scene
  rw [Nat.sub_add_cancel (one_le_passes h)] at hrows
  rw [table_of_conclude hend, tableOf]
  exact forall₂_table hrows fun r x hr => hr.origin

/-- A row belongs to the last check of its wait. -/
theorem belongsTo_of_tells (h : run env patience waits timeout w = some (res, w')) {r : Row}
    {s : Scene σ} {place : Nat} {x : Wait ι} (hx : waits[place]? = some x)
    (hr : Row.Tells env waits timeout w.scene s res.passes r (x, place)) :
    ∃ y, (lastRound env waits timeout w.scene res).sightings[place]? = some y ∧
      r.BelongsTo x y := by
  obtain ⟨y, hy⟩ := exists_sighting env timeout w hx (res.passes - 1)
  have hcolumn : columnOf env waits timeout w.scene place res.passes =
      columnOf env waits timeout w.scene place (res.passes - 1) ++ [y] := by
    have hsucc := columnAt_succ hy
    rw [Nat.sub_add_cancel (one_le_passes h)] at hsucc
    exact hsucc
  obtain ⟨y', hlast, houtcome, htimestamp, -⟩ := hr.accounts.last
  rw [hcolumn, List.getLast?_concat] at hlast
  obtain rfl := Option.some.inj hlast
  exact ⟨y, hy, hr.origin, houtcome, htimestamp⟩

/-- Descriptions that tell the waits apart tell the rows apart. -/
theorem nodup_conditions (h : run env patience waits timeout w = some (res, w')) {name : ι → String}
    (hname : (lastRound env waits timeout w.scene res).Names env waits name)
    (hd : (waits.map fun x => name x.condition).Nodup) :
    (res.table.rows.map Row.condition).Nodup := by
  have hsame : (waits.map fun x => env.describe x.condition w'.scene) =
      waits.map fun x => name x.condition :=
    List.map_congr_left fun x hx => hname x hx w'.scene (scene_mem_lastRound h)
  rw [descriptions_of_run h, ((perm_inTableOrder _ _).map _).nodup_iff, hsame]
  exact hd

end

/-- **The named condition is found in the table.**  Each row belongs to the check of one wait in the
last round.  If the wait has not failed for an error, no row has one.  If it has, the condition
named is that of the first wait, in the order of the list, that has answered with an error in the
last round; and if the descriptions do not change, the row of this wait has that description.  If
they tell the waits apart besides, looking up the named condition finds just this row, wherever in
the table it is. -/
theorem named_condition_is_found {env : Environment ι σ} {patience : Nat} {waits : List (Wait ι)}
    {timeout : Duration} {w w' : World ι σ} {res : Result}
    (h : run env patience waits timeout w = some (res, w')) :
    (∀ r ∈ res.table.rows, ∃ place x y, waits[place]? = some x ∧
      res.table.rowFor? waits place = some r ∧
      (lastRound env waits timeout w.scene res).sightings[place]? = some y ∧ r.BelongsTo x y) ∧
    (res.named? = none → ∀ r ∈ res.table.rows, r.status.isError = false) ∧
    ∀ c, res.named? = some c → ∃ place x y r,
      (lastRound env waits timeout w.scene res).FirstError waits place x y ∧
      c = env.describe x.condition y.scene ∧
      r ∈ res.table.rows ∧ res.table.rowFor? waits place = some r ∧ r.status.isError = true ∧
      ∀ name, (lastRound env waits timeout w.scene res).Names env waits name →
        c = name x.condition ∧ r.condition = c ∧
        ((waits.map fun x => name x.condition).Nodup → res.table.find? c = some r) := by
  have hrows := tells_table_of_run h
  have hnamed : res.named? = ((lastRound env waits timeout w.scene res).culprit?
      (waits.map Wait.condition)).map fun x => env.describe x.1 x.2.scene := named_of_run h
  refine ⟨?_, ?_, ?_⟩
  · intro r hr
    obtain ⟨place, x, hx, hfor, htells⟩ := exists_place_of_row hrows hr
    obtain ⟨y, hy, hbelongs⟩ := belongsTo_of_tells h hx htells
    exact ⟨place, x, y, hx, hfor, hy, hbelongs⟩
  · intro hnone r hr
    rw [hnamed, Option.map_eq_none_iff] at hnone
    obtain ⟨place, x, hx, -, htells⟩ := exists_place_of_row hrows hr
    obtain ⟨y, hy, hbelongs⟩ := belongsTo_of_tells h hx htells
    exact (isError_of_outcome_eq hbelongs.outcome).trans (isError_of_culprit?_eq_none hnone hx hy)
  · intro c hc
    rw [hnamed] at hc
    obtain ⟨⟨i, y⟩, hculprit, hwords⟩ := Option.map_eq_some_iff.1 hc
    obtain ⟨place, x, rfl, hfirst⟩ := culprit?_eq_some hculprit
    obtain ⟨r, hmem, hfor, htells⟩ := exists_rowFor hrows hfirst.wait
    obtain ⟨y', hy', hbelongs⟩ := belongsTo_of_tells h hfirst.wait htells
    obtain rfl : y = y' := Option.some.inj (hfirst.sighting.symm.trans hy')
    have herror : r.status.isError = true :=
      (isError_of_outcome_eq hbelongs.outcome).trans hfirst.isError
    refine ⟨place, x, y, r, hfirst, hwords.symm, hmem, hfor, herror, ?_⟩
    intro name hname
    -- The name was taken in the scene of the check, and the row was made at the end.
    have hx : x ∈ waits := List.mem_of_getElem? hfirst.wait
    have hscene : y.scene ∈ (lastRound env waits timeout w.scene res).scenes :=
      List.mem_append_left _ (List.mem_map_of_mem (List.mem_of_getElem? hfirst.sighting))
    have hthen : c = name x.condition := hwords.symm.trans (hname x hx y.scene hscene)
    have hnow : r.condition = c :=
      (htells.condition.trans (hname x hx w'.scene (scene_mem_lastRound h))).trans hthen.symm
    refine ⟨hthen, hnow, ?_⟩
    intro hd
    exact (find?_eq_some_iff_of_nodup (nodup_conditions h hname hd)).2 ⟨hmem, hnow⟩

end Wait

namespace Rehearsal

/-- The bells are described by their names, whatever happens. -/
theorem names_of_bells (round : Wait.Round State) :
    round.Names (environment bells) lowFirst fun id => (bells.find id).name := by
  intro x hx s _
  simp only [lowFirst, List.mem_cons, List.not_mem_nil, or_false] at hx
  rcases hx with rfl | rfl
  · rfl
  · rfl

/-- Both bells have failed, and the low one is named: its row has been moved behind that of the
high bell, which is for entering, and it is the one that is found. -/
theorem low_bell_is_found :
    ∃ res w' high low,
      Wait.run (environment bells) 0 lowFirst (.ofSecs 1) startWorld = some (res, w') ∧
      res.named? = some "low bell" ∧ res.table.rows = [high, low] ∧
      high.status.isError = true ∧ low.status.isError = true ∧
      res.table.find? "low bell" = some low := by
  have hsome : (Wait.run (environment bells) 0 lowFirst (.ofSecs 1) startWorld).map
      (fun x => (x.1.named?, x.1.table.rows.map fun r => (r.condition, r.status.isError))) =
        some (some "low bell", [("high bell", true), ("low bell", true)]) := rfl
  obtain ⟨⟨res, w'⟩, h, hres⟩ := Option.map_eq_some_iff.1 hsome
  obtain ⟨hnamed, hrows⟩ := Prod.mk.inj hres
  obtain ⟨high, rest, htable, hhigh, hrest⟩ := List.map_eq_cons_iff.1 hrows
  obtain ⟨low, last, rfl, hlow, hlast⟩ := List.map_eq_cons_iff.1 hrest
  obtain rfl := List.map_eq_nil_iff.1 hlast
  obtain ⟨-, -, hculprit⟩ := Wait.named_condition_is_found h
  obtain ⟨place, x, y, r, -, -, hmem, -, -, hsteady⟩ := hculprit _ hnamed
  obtain ⟨-, hwords, hfind⟩ := hsteady _ (names_of_bells _)
  change res.table.rows = [high, low] at htable
  obtain ⟨hhigh, hhigherror⟩ := Prod.mk.inj hhigh
  have hr : r = low := by
    rw [htable, List.mem_cons, List.mem_singleton] at hmem
    rcases hmem with rfl | rfl
    · exact absurd (hhigh.symm.trans hwords) (by decide)
    · rfl
  exact ⟨res, w', high, low, h, hnamed, htable, hhigherror, (Prod.mk.inj hlow).2,
    hr ▸ hfind (by decide)⟩

end Rehearsal
end Passage
