/-
# The message of a transition that has failed for its waits

The message is put together from four texts, one inside the other: that
of the error, of the failure, of the table and of a row.  It begins with a
line about the last wait as a whole, and has one more line for each of the
conditions waited for (`Failure.firstLine`, `Row.line`).

  `ne_nil_of_run`        only a wait for something can fail, so there is
                         a row to show
  `lines_message`        the lines of the message, if nothing that it
                         quotes has a line break of its own
  `quotesLines_of_run`   nothing has, if no condition comes with one

The last of these is needed because a message in a table may be amended,
and because the condition that an error is blamed on is described at
another time than its row.  The main statement is
`message_accounts_for_waits`.
-/
import Passage.Proofs.Text.Lines
import Passage.Proofs.Transition.Allowance
import Passage.Proofs.Wait.Culprit

namespace Passage
variable {ι σ : Type}

open Text (IsLine isLine_append isLine_decimal)

/-! ## Texts of one line -/

namespace Duration

theorem isLine_amount (whole places rest : Nat) {unit : String} (h : IsLine unit) :
    IsLine (amount whole places rest unit) := by
  have hdigits : ∀ c ∈ ((Decimal.padded places rest).reverse.dropWhile (· == '0')).reverse,
      c.isDigit = true := by
    intro c hc
    have hmem := (List.dropWhile_sublist _).mem (List.mem_reverse.1 hc)
    exact Decimal.isDigit_of_mem_padded (List.mem_reverse.1 hmem)
  have hpoint : IsLine "." := by decide
  simp only [amount, isLine_append]
  refine ⟨⟨isLine_decimal whole, ?_⟩, h⟩
  split
  · decide
  · exact isLine_append.2 ⟨hpoint, Text.isLine_of_digits hdigits⟩

theorem isLine_text (d : Duration) : IsLine d.text := by
  unfold text
  repeat' split
  · exact isLine_amount _ _ _ (by decide)
  · exact isLine_amount _ _ _ (by decide)
  · exact isLine_amount _ _ _ (by decide)
  · exact isLine_amount _ _ _ (by decide)

end Duration

theorem Kind.isLine_verb (k : Kind) : IsLine k.verb := by
  cases k <;> decide

theorem Origin.isLine_name (o : Origin) : IsLine o.name := by
  cases o <;> decide

theorem Status.isLine_gate {s : Status} (h : ∀ m ∈ s.message, IsLine m) : IsLine s.gate := by
  have hlabel : IsLine s.outcome.label := by cases s.outcome <;> decide
  rw [gate]
  cases hm : s.message with
  | none => exact hlabel
  | some m =>
      have hbar : IsLine " | " := by decide
      exact isLine_append.2 ⟨isLine_append.2 ⟨hlabel, hbar⟩, h m hm⟩

namespace Wait.Reason

theorem isLine_timeout (d : Duration) : IsLine (text (.timeout d)) := by
  have htext : text (.timeout d) = "Did not meet all conditions within " ++ d.text := rfl
  rw [htext, isLine_append]
  exact ⟨by decide, d.isLine_text⟩

theorem isLine_conditionError {c : String} (h : IsLine c) : IsLine (text (.conditionError c)) := by
  have htext : text (.conditionError c) = "Condition '" ++ c ++ "' reported an error" := rfl
  rw [htext, isLine_append, isLine_append]
  exact ⟨⟨by decide, h⟩, by decide⟩

end Wait.Reason

/-! ## The lines of a message -/

namespace Wait

/-- The line of a row: its condition with origin and description, how it stands, and how often it
was checked; how often it has stopped to hold is said only if it ever has. -/
def Row.line (r : Row) : String :=
  "    [" ++ r.origin.name ++ "] " ++ r.condition ++ ": <Gate: " ++ r.status.gate ++ "> (" ++
    Decimal.text r.checks ++ " checks" ++
    (if 0 < r.regressions then ", " ++ Decimal.text r.regressions ++ " regressions" else "") ++ ")"

/-- The line about the last wait: the facility, the number of tries, and why, after what time and
how many passes the wait has failed. -/
def Failure.firstLine (kind : Kind) (facility : String) (tries : Nat) (f : Failure) : String :=
  "Failed to " ++ kind.verb ++ " <F: " ++ facility ++ "> after " ++ Decimal.text tries ++
    " tries: " ++ f.reason.text ++ " (elapsed " ++ f.elapsed.text ++ ", " ++
    Decimal.text f.passes ++ " passes)"

/-- What a failure quotes has no line break: the condition it is blamed on, and the description and
the message of each row. -/
structure Failure.QuotesLines (f : Failure) : Prop where
  blamed : ∀ c, f.reason = .conditionError c → IsLine c
  conditions : ∀ r ∈ f.table.rows, IsLine r.condition
  messages : ∀ r ∈ f.table.rows, ∀ m ∈ r.status.message, IsLine m

theorem Row.line_eq (r : Row) : r.line = "    " ++ r.text := by
  have hregressions : Row.regressionsText r.regressions =
      if 0 < r.regressions then ", " ++ Decimal.text r.regressions ++ " regressions" else "" := by
    rw [Row.regressionsText]
    by_cases h : r.regressions = 0
    · rw [if_pos h, if_neg (by omega)]
    · rw [if_neg h, if_pos (by omega)]
  have hmargin : "    [" = "    " ++ "[" := by decide
  delta line text
  rw [← hregressions, hmargin]
  simp only [String.append_assoc]

theorem Row.line_ne_empty (r : Row) : r.line ≠ "" := by
  have hmargin : "    " ≠ "" := by decide
  rw [line_eq]
  exact fun h => hmargin (String.append_eq_empty_iff.1 h).1

theorem Row.isLine_line {r : Row} (hc : IsLine r.condition)
    (hm : ∀ m ∈ r.status.message, IsLine m) : IsLine r.line := by
  delta line
  simp only [isLine_append, and_assoc]
  refine ⟨by decide, r.origin.isLine_name, by decide, hc, by decide, Status.isLine_gate hm,
    by decide, isLine_decimal _, by decide, ?_, by decide⟩
  split
  · simp only [isLine_append, and_assoc]
    exact ⟨by decide, isLine_decimal _, by decide⟩
  · decide

theorem Failure.isLine_firstLine {f : Failure} (h : ∀ c, f.reason = .conditionError c → IsLine c)
    (kind : Kind) {facility : String} (hf : IsLine facility) (tries : Nat) :
    IsLine (f.firstLine kind facility tries) := by
  have hreason : IsLine f.reason.text := by
    cases hr : f.reason with
    | timeout d => exact Reason.isLine_timeout d
    | conditionError c => exact Reason.isLine_conditionError (h c hr)
  delta firstLine
  simp only [isLine_append, and_assoc]
  exact ⟨by decide, kind.isLine_verb, by decide, hf, by decide, isLine_decimal _, by decide,
    hreason, by decide, f.elapsed.isLine_text, by decide, isLine_decimal _, by decide⟩

/-- The text of a table that is not empty is made of the lines of its rows. -/
theorem Table.text_eq {t : Table} (h : t.rows ≠ []) :
    t.text = "\n".intercalate (t.rows.map Row.line) := by
  have hlines : t.lines = t.rows.map Row.line := by
    rw [lines, isEmpty, if_neg (by simpa using h)]
    exact List.map_congr_left fun r _ => r.line_eq.symm
  rw [text, hlines]

end Wait

namespace TransitionError
open Wait (Failure)

/-- The message is that of the failure, behind a heading. -/
theorem message_eq (kind : Kind) (facility : String) (tries : Nat) (failure : Failure) :
    message (.unmet kind facility tries failure) =
      unmetHeading kind facility tries ++ failure.text := rfl

theorem message_unmet {failure : Failure} (h : failure.table.rows ≠ []) (kind : Kind)
    (facility : String) (tries : Nat) :
    message (.unmet kind ("<F: " ++ facility ++ ">") tries failure) =
      "\n".intercalate
        (failure.firstLine kind facility tries :: failure.table.rows.map Wait.Row.line) := by
  have hopen : " <F: " = " " ++ "<F: " := by decide
  have hclose : "> after " = ">" ++ " after " := by decide
  rw [String.intercalate_cons_of_ne_nil (mt List.map_eq_nil_iff.1 h), ← Wait.Table.text_eq h,
    message_eq]
  delta unmetHeading Failure.text Failure.headline Failure.firstLine
  rw [hopen, hclose]
  simp only [String.append_assoc]

/-- The lines of a message that quotes nothing with a line break. -/
theorem lines_message {failure : Failure} (h : failure.table.rows ≠ []) (kind : Kind)
    {facility : String} (hf : IsLine facility) (tries : Nat) (hq : failure.QuotesLines) :
    Text.lines (message (.unmet kind ("<F: " ++ facility ++ ">") tries failure)) =
      failure.firstLine kind facility tries :: failure.table.rows.map Wait.Row.line := by
  rw [message_unmet h, Text.lines_intercalate (List.cons_ne_nil _ _)]
  intro l hl
  rcases List.mem_cons.1 hl with rfl | hl
  · exact Failure.isLine_firstLine hq.blamed kind hf tries
  · obtain ⟨r, hr, rfl⟩ := List.mem_map.1 hl
    exact Wait.Row.isLine_line (hq.conditions r hr) (hq.messages r hr)

end TransitionError

/-! ## What a failed wait quotes -/

/-- The descriptions and the messages of the conditions waited for have no line breaks, whenever
they are asked for. -/
structure Environment.SpeaksInLines (env : Environment ι σ) (waits : List (Wait ι)) : Prop where
  descriptions : ∀ x ∈ waits, ∀ s, IsLine (env.describe x.condition s)
  messages : ∀ x ∈ waits, ∀ s, ∀ m ∈ (env.check x.condition s).value.message, IsLine m

namespace Wait

/-- What is seen in a round was answered by a check of one of the conditions. -/
theorem exists_check_of_mem_roundAt {env : Environment ι σ} {b : Budget} {cs : List ι}
    {s : Scene σ} {n : Nat} {y : Sighting σ} (h : y ∈ (roundAt env b cs s n).sightings) :
    ∃ c ∈ cs, ∃ s', y.status = (env.check c s').value := by
  have hsurvey : ∀ (cs : List ι) (s : Scene σ), y ∈ (survey env cs s).sightings →
      ∃ c ∈ cs, ∃ s', y.status = (env.check c s').value := by
    intro cs
    induction cs with
    | nil => exact fun s hy => absurd hy List.not_mem_nil
    | cons c rest ih =>
        intro s hy
        rcases List.mem_cons.1 hy with rfl | hy
        · exact ⟨c, List.mem_cons_self, s, rfl⟩
        · obtain ⟨d, hd, hcheck⟩ := ih _ hy
          exact ⟨d, List.mem_cons_of_mem c hd, hcheck⟩
  cases n with
  | zero => exact hsurvey cs s h
  | succ n =>
      rw [roundAt_succ] at h
      exact hsurvey cs _ h

/-- Neither the note on a message nor its cut makes a line break. -/
theorem isLine_regressedMessage {message : Option String} (h : ∀ m ∈ message, IsLine m) (n : Nat) :
    IsLine (regressedMessage message n) := by
  have hnote : IsLine ("(regressed, " ++ Decimal.text n ++ " regressions)") :=
    isLine_append.2 ⟨isLine_append.2 ⟨by decide, isLine_decimal n⟩, by decide⟩
  have hcut : ∀ {s : String}, IsLine s → IsLine (String.ofList (s.toList.take 300)) :=
    fun hs => Text.isLine_ofList.2 fun hbreak => hs (List.mem_of_mem_take hbreak)
  cases message with
  | none => exact hcut hnote
  | some m =>
      have hgap : IsLine "  " := by decide
      exact hcut (isLine_append.2 ⟨isLine_append.2 ⟨h m rfl, hgap⟩, hnote⟩)

section
variable {env : Environment ι σ} {patience : Nat} {waits : List (Wait ι)} {timeout : Duration}
  {w w' : World ι σ} {failure : Failure}

/-- The message of a row has no line break, if those of its condition have none. -/
theorem isLine_message_of_tells (h : env.SpeaksInLines waits) {s : Scene σ} {passes : Nat} {r : Row}
    {x : Wait ι × Nat} (hr : Row.Tells env waits timeout w.scene s passes r x) :
    ∀ m ∈ r.status.message, IsLine m := by
  obtain ⟨y, hlast, -, -, hmessage⟩ := hr.accounts.last
  have hy : ∀ m ∈ y.status.message, IsLine m := by
    obtain ⟨k, -, hround⟩ := List.mem_filterMap.1 (List.mem_of_getLast? hlast)
    obtain ⟨c, hc, s', hcheck⟩ := exists_check_of_mem_roundAt (List.mem_of_getElem? hround)
    obtain ⟨x, hx, rfl⟩ := List.mem_map.1 hc
    rw [hcheck]
    exact h.messages x hx s'
  show ∀ m ∈ r.progress.last.message, IsLine m
  rw [hmessage]
  split
  · rintro m ⟨⟩
    exact isLine_regressedMessage hy r.progress.regressions
  · exact hy

/-- There is nothing to fail for in a wait for nothing. -/
theorem ne_nil_of_run (h : run env patience waits timeout w = some (.error failure, w')) :
    waits ≠ [] := by
  rintro rfl
  obtain ⟨p, -, -, -, hending, -⟩ := exists_round_of_run h
  have hnone : (roundOf env [] timeout w.scene p).sightings = [] :=
    List.length_eq_zero_iff.1 (length_sightings_roundAt env _ [] w.scene p)
  rw [Round.ending, Round.hasError, Round.allFulfilled, hnone] at hending
  cases hr : failure.reason <;> simp [Result.ending, hr, Reason.ending] at hending

/-- A failed wait has a row for each of its conditions. -/
theorem length_rows_of_run (h : run env patience waits timeout w = some (.error failure, w')) :
    failure.table.rows.length = waits.length := by
  have hrows : failure.table.rows.length = _ := (tells_table_of_run h).length_eq
  rw [hrows, (perm_inTableOrder _ _).length_eq, List.length_zipIdx]

theorem quotesLines_of_run (h : run env patience waits timeout w = some (.error failure, w'))
    (hlines : env.SpeaksInLines waits) : failure.QuotesLines := by
  have hrows : ∀ r ∈ failure.table.rows, ∃ x ∈ waits, ∃ place passes,
      Row.Tells env waits timeout w.scene w'.scene passes r (x, place) := by
    intro r hr
    obtain ⟨place, x, hx, -, htells⟩ := exists_place_of_row (tells_table_of_run h) hr
    exact ⟨x, List.mem_of_getElem? hx, place, _, htells⟩
  constructor
  · intro c hc
    have hnamed : Result.named? (.error failure) = some c := by
      obtain ⟨reason, elapsed, passes, table⟩ := failure
      obtain rfl := hc
      rfl
    rw [named_of_run h] at hnamed
    obtain ⟨⟨i, y⟩, hculprit, rfl⟩ := Option.map_eq_some_iff.1 hnamed
    obtain ⟨place, x, rfl, hfirst⟩ := culprit?_eq_some hculprit
    exact hlines.descriptions x (List.mem_of_getElem? hfirst.wait) y.scene
  · intro r hr
    obtain ⟨x, hx, place, passes, htells⟩ := hrows r hr
    rw [htells.condition]
    exact hlines.descriptions x hx w'.scene
  · intro r hr
    obtain ⟨x, hx, place, passes, htells⟩ := hrows r hr
    exact isLine_message_of_tells hlines htells

end
end Wait

namespace Transition

section
variable {env : Environment ι σ} {patience : Nat} {t : Transition ι σ} {w : World ι σ}
  {r : Run ι σ} {kind : Kind} {facility : String} {attempts : Nat} {failure : Wait.Failure}

/-- A run that has failed for its waits has made its tries, and the last one has failed so. -/
theorem last_of_unmet (hr : execute env patience t w = some r)
    (hunmet : r.result = .error (.unmet kind facility attempts failure)) :
    t.refusal? = none ∧ t.facility.phase = t.kind.before ∧
      ∃ x after, (ledger env patience t w).getLast? = some x ∧
        x.ending = some (.error failure, after) := by
  cases h : t.refusal? with
  | some e =>
      rw [execute_of_refusal h] at hr
      obtain rfl := Option.some.inj hr
      obtain rfl := Except.error.inj hunmet
      exact absurd (failure?_of_refusal h) (by simp [TransitionError.failure?])
  | none =>
      by_cases hp : t.facility.phase = t.kind.before
      · obtain ⟨o, v, hov, rfl⟩ := closing_of_execute h hp hr
        obtain ⟨x, hx, hend, -⟩ := getLast?_ledger h hp hov
        refine ⟨rfl, hp, x, v, hx, ?_⟩
        cases hres : o.result with
        | ok report =>
            simp only [closing, hres] at hunmet
            exact absurd hunmet (by simp)
        | error failure' =>
            simp only [closing, hres, Except.error.injEq] at hunmet
            obtain ⟨-, -, -, rfl⟩ := TransitionError.unmet.inj hunmet
            rw [hend, hres]
      · rw [execute_of_wrong_phase h hp] at hr
        obtain rfl := Option.some.inj hr
        exact absurd hunmet (by simp)

end

/-- **The message accounts for every wait.**  A run that has failed for its waits names its
facility and all the tries that were allowed, and carries the failure of its last wait; the table is
not empty, and has a row for each condition, which tells how that wait has found it.  If the
facility's name and what the conditions say is free of line breaks, the message has a line for the
last wait as a whole, then one for each row, and nothing behind them.  The failure on its own reads
as the message does without the heading. -/
theorem message_accounts_for_waits {env : Environment ι σ} {patience : Nat} {t : Transition ι σ}
    {w : World ι σ} {r : Run ι σ} {kind : Kind} {facility : String} {attempts : Nat}
    {failure : Wait.Failure} (hr : execute env patience t w = some r)
    (hunmet : r.result = .error (.unmet kind facility attempts failure)) :
    (kind = t.kind ∧ facility = t.facility.text ∧ attempts = t.options.tries) ∧
    (∃ x after, (ledger env patience t w).getLast? = some x ∧
      x.ending = some (.error failure, after) ∧
      x.ending = Wait.run env patience t.waits t.options.timeout (t.waiting x.number x.before) ∧
      List.Forall₂ (Wait.Row.Tells env t.waits t.options.timeout (t.waiting x.number x.before).scene
        after.scene failure.passes) failure.table.rows
        (Wait.inTableOrder (fun y => y.1.origin) t.waits.zipIdx)) ∧
    failure.table.rows ≠ [] ∧ failure.table.rows.length = t.waits.length ∧
    (env.SpeaksInLines t.waits → failure.QuotesLines) ∧
    (IsLine t.facility.name → failure.QuotesLines →
      Text.lines (TransitionError.message (.unmet kind facility attempts failure)) =
        failure.firstLine t.kind t.facility.name t.options.tries ::
          failure.table.rows.map Wait.Row.line ∧
      (Text.lines (TransitionError.message (.unmet kind facility attempts failure))).length =
        1 + t.waits.length ∧
      (TransitionError.message (.unmet kind facility attempts failure)).toList.getLast? ≠
        some '\n') ∧
    TransitionError.failure? (.unmet kind facility attempts failure) = some failure ∧
    TransitionError.message (.unmet kind facility attempts failure) =
      "Failed to " ++ t.kind.verb ++ " " ++ t.facility.text ++ " after " ++
        Decimal.text t.options.tries ++ " tries: " ++ failure.text := by
  obtain ⟨h, hp, x, after, hx, hend⟩ := last_of_unmet hr hunmet
  obtain ⟨rfl, rfl, rfl⟩ := names_of_unmet h hp hr hunmet
  have hwait := (tries_ledger h hp).waits x (List.mem_of_getLast? hx)
  have hran := hwait.symm.trans hend
  have hlength := Wait.length_rows_of_run hran
  have hne : failure.table.rows ≠ [] := by
    rw [← List.length_pos_iff, hlength, List.length_pos_iff]
    exact Wait.ne_nil_of_run hran
  refine ⟨⟨rfl, rfl, rfl⟩, ⟨x, after, hx, hend, hwait, Wait.tells_table_of_run hran⟩, hne, hlength,
    Wait.quotesLines_of_run hran, ?_, rfl, rfl⟩
  intro hname hquotes
  have hlines : Text.lines (TransitionError.message
      (.unmet t.kind t.facility.text t.options.tries failure)) = _ :=
    TransitionError.lines_message hne t.kind hname t.options.tries hquotes
  refine ⟨hlines, ?_, ?_⟩
  · rw [hlines, List.length_cons, List.length_map, hlength, Nat.add_comm]
  · -- The last line is that of a row, which is never empty.
    obtain ⟨row, hrow⟩ := List.getLast?_isSome.2 hne |> Option.isSome_iff_exists.1
    refine Text.ne_break_of_getLast?_lines (l := row.line) ?_ row.line_ne_empty
    rw [hlines, List.getLast?_cons, List.getLast?_map, hrow]
    rfl

/-- What a door that is found open once and then shut has to say, or a bell that is never rung. -/
def slammed (door : Bool) (checks : Nat) : Timestamp → Status :=
  if door then
    if checks = 0 then .plain .fulfilled else .withMessage .notFulfilled "shut"
  else .plain .notFulfilled

def slammedDoor : Environment Bool Nat where
  describe door _ := if door then "door" else "bell"
  check door s := ⟨slammed door s.state s.clock.wall, ⟨0⟩, 0, s.state + 1⟩

/-- A way out of a hall, past the door and the bell, tried once for 50 milliseconds. -/
def leaving : Transition Bool Nat :=
  { idle "leave" .checkOut (.active "hall") (.pause .default) with
    options := ⟨1, .ofMillis 50⟩
    required := [true, false] }

theorem speaksInLines_slammedDoor : slammedDoor.SpeaksInLines leaving.waits := by
  constructor
  · intro x _ s
    have hnames : ∀ door : Bool, IsLine (if door then "door" else "bell") := by decide
    exact hnames x.condition
  · intro x _ s m hm
    have hshut : IsLine "shut" := by decide
    have hmessage : m ∈ (slammed x.condition s.state s.clock.wall).message := hm
    rw [slammed] at hmessage
    split at hmessage
    · split at hmessage
      · exact absurd hmessage (by simp [Status.plain, Status.Draft.start, Status.Draft.build])
      · obtain rfl : "shut" = m := Option.some.inj hmessage
        exact hshut
    · exact absurd hmessage (by simp [Status.plain, Status.Draft.start, Status.Draft.build])

/-- The door stops to hold at the second check, and the bell has nothing to say; both have their
lines in the message. -/
theorem message_at_slammedDoor :
    ∃ r failure, execute slammedDoor 0 leaving .fresh = some r ∧
      r.result = .error (.unmet .checkOut "<F: hall>" 1 failure) ∧
      Text.lines (TransitionError.message (.unmet .checkOut "<F: hall>" 1 failure)) =
        ["Failed to exit <F: hall> after 1 tries: Did not meet all conditions within 50ms " ++
            "(elapsed 50ms, 2 passes)",
          "    [TRANSITION] door: <Gate: NOT REQ | shut  (regressed, 1 regressions)> " ++
            "(2 checks, 1 regressions)",
          "    [TRANSITION] bell: <Gate: NOT REQ> (2 checks)"] := by
  have hrun : ∃ r failure, execute slammedDoor 0 leaving .fresh = some r ∧
      r.result = .error (.unmet .checkOut "<F: hall>" 1 failure) ∧
      failure.firstLine .checkOut "hall" 1 =
        "Failed to exit <F: hall> after 1 tries: Did not meet all conditions within 50ms " ++
          "(elapsed 50ms, 2 passes)" ∧
      failure.table.rows.map Wait.Row.line =
        ["    [TRANSITION] door: <Gate: NOT REQ | shut  (regressed, 1 regressions)> " ++
            "(2 checks, 1 regressions)",
          "    [TRANSITION] bell: <Gate: NOT REQ> (2 checks)"] :=
    ⟨_, _, rfl, rfl, by decide +kernel, by decide +kernel⟩
  obtain ⟨r, failure, hr, hunmet, hfirst, hrows⟩ := hrun
  obtain ⟨-, -, -, -, hquotes, hlines, -⟩ := message_accounts_for_waits hr hunmet
  have hname : IsLine leaving.facility.name := by decide
  refine ⟨r, failure, hr, hunmet, ?_⟩
  rw [(hlines hname (hquotes speaksInLines_slammedDoor)).1, hrows]
  exact congrArg (· :: _) hfirst

end Transition
end Passage
