/-
# What the text of a report tells

The report of a wait is written as JSON, and the text tells all of it: the
fields, and the rows in their order.  The text tells which JSON value was
written (`Json.injective_render`), so what is left to see is that no two
reports are written as the same value.

Each type has a lemma that says so of its own form.  A duration is told by
its seconds and the rest, and a value that may be missing by null or
something that is never null.  A point in time is told by its written form
if it lies in year 0 or later, and not in a leap second
(`Timestamp.eq_of_chars_eq`); this is the only thing to be asked of a
report (`Report.Dated`).
-/
import Passage.Proofs.Json.Compact
import Passage.Proofs.Time.Reading
import Passage.Wait.Table

namespace Passage

variable {α : Type}

/-! ## The forms of single values -/

theorem Origin.eq_of_name_eq : ∀ {o p : Origin}, o.name = p.name → o = p := by
  rintro (_ | _ | _) (_ | _ | _) h <;> first | rfl | exact absurd h (by decide)

theorem Outcome.eq_of_name_eq : ∀ {o p : Outcome}, o.name = p.name → o = p := by
  rintro (_ | _ | _) (_ | _ | _) h <;> first | rfl | exact absurd h (by decide)

theorem Duration.injective_toJson : Function.Injective toJson := by
  intro d e h
  simp only [toJson, Json.object.injEq, List.cons.injEq, Prod.mk.injEq, Json.number.injEq,
    true_and, and_true] at h
  rw [← ofParts_secs_subsecNanos d, ← ofParts_secs_subsecNanos e, h.1, h.2]

/-- A missing value is told from one that is there, if none is written as null. -/
theorem Json.injective_ofOption {f : α → Json} (hf : Function.Injective f)
    (hnull : ∀ a, f a ≠ .null) : Function.Injective (ofOption f) := by
  rintro (_ | a) (_ | b) h
  · rfl
  · exact absurd h.symm (hnull b)
  · exact absurd h (hnull a)
  · exact congrArg some (hf h)

theorem Json.injective_message : Function.Injective (ofOption Json.text) :=
  injective_ofOption (fun _ _ => Json.text.inj) fun _ h => Json.noConfusion h

theorem Json.injective_moment : Function.Injective (ofOption Duration.toJson) :=
  injective_ofOption Duration.injective_toJson fun _ h => Json.noConfusion h

/-- A point in time that its written form tells: from year 0 on, and in an ordinary second. -/
structure Timestamp.Dated (t : Timestamp) : Prop where
  ordinary : t.IsOrdinary
  fromZero : 0 ≤ (Date.ofDay t.day).year

instance (t : Timestamp) : Decidable t.Dated :=
  decidable_of_iff (t.nanos < Duration.perSecond ∧ 0 ≤ (Date.ofDay t.day).year)
    ⟨fun h => ⟨h.1, h.2⟩, fun h => ⟨h.ordinary, h.fromZero⟩⟩

theorem Timestamp.Dated.eq_of_text_eq {t u : Timestamp} (ht : t.Dated) (hu : u.Dated)
    (h : t.text = u.text) : t = u :=
  eq_of_chars_eq ht.ordinary hu.ordinary ht.fromZero hu.fromZero (String.ofList_inj.1 h)

theorem Status.eq_of_toJson_eq {s t : Status} (hs : s.timestamp.Dated) (ht : t.timestamp.Dated)
    (h : s.toJson = t.toJson) : s = t := by
  obtain ⟨outcome, message, timestamp⟩ := s
  obtain ⟨outcome', message', timestamp'⟩ := t
  simp only [toJson, Json.object.injEq, List.cons.injEq, Prod.mk.injEq, Json.text.injEq,
    true_and, and_true] at h
  obtain ⟨houtcome, hmessage, htimestamp⟩ := h
  obtain rfl := Outcome.eq_of_name_eq houtcome
  obtain rfl := Json.injective_message hmessage
  obtain rfl : timestamp = timestamp' := hs.eq_of_text_eq ht htimestamp
  rfl

namespace Wait

/-! ## Rows, tables and reports -/

theorem Row.eq_of_toJson_eq {r s : Row} (hr : r.status.timestamp.Dated)
    (hs : s.status.timestamp.Dated) (h : r.toJson = s.toJson) : r = s := by
  obtain ⟨origin, condition, status, checks, first, regressions⟩ := r
  obtain ⟨origin', condition', status', checks', first', regressions'⟩ := s
  simp only [toJson, Json.object.injEq, List.cons.injEq, Prod.mk.injEq, Json.text.injEq,
    Json.number.injEq, true_and, and_true] at h
  obtain ⟨horigin, rfl, hstatus, rfl, hfirst, rfl⟩ := h
  obtain rfl := Origin.eq_of_name_eq horigin
  obtain rfl : status = status' := Status.eq_of_toJson_eq hr hs hstatus
  obtain rfl := Json.injective_moment hfirst
  rfl

theorem Row.eq_of_map_toJson_eq {rows rows' : List Row}
    (hr : ∀ r ∈ rows, r.status.timestamp.Dated) (hs : ∀ r ∈ rows', r.status.timestamp.Dated)
    (h : rows.map Row.toJson = rows'.map Row.toJson) : rows = rows' := by
  induction rows generalizing rows' with
  | nil => exact (List.map_eq_nil_iff.1 h.symm).symm
  | cons r rows ih =>
      cases rows' with
      | nil => exact absurd h (List.cons_ne_nil _ _)
      | cons s rows' =>
          obtain ⟨hrow, hrest⟩ := List.cons.inj h
          rw [List.forall_mem_cons] at hr hs
          rw [Row.eq_of_toJson_eq hr.1 hs.1 hrow, ih hr.2 hs.2 hrest]

theorem Table.eq_of_toJson_eq {t u : Table} (ht : ∀ r ∈ t.rows, r.status.timestamp.Dated)
    (hu : ∀ r ∈ u.rows, r.status.timestamp.Dated) (h : t.toJson = u.toJson) : t = u := by
  obtain ⟨rows⟩ := t
  obtain ⟨rows'⟩ := u
  obtain rfl : rows = rows' := Row.eq_of_map_toJson_eq ht hu (Json.list.inj h)
  rfl

/-- The statuses of a report were made at times that their written forms tell. -/
def Report.Dated (r : Report) : Prop := ∀ row ∈ r.table.rows, row.status.timestamp.Dated

theorem Report.eq_of_toJson_eq {r s : Report} (hr : r.Dated) (hs : s.Dated)
    (h : r.toJson = s.toJson) : r = s := by
  obtain ⟨elapsed, passes, table⟩ := r
  obtain ⟨elapsed', passes', table'⟩ := s
  simp only [toJson, Json.object.injEq, List.cons.injEq, Prod.mk.injEq, Json.number.injEq,
    true_and, and_true] at h
  obtain ⟨helapsed, rfl, htable⟩ := h
  obtain rfl := Duration.injective_toJson helapsed
  obtain rfl : table = table' := Table.eq_of_toJson_eq hr hs htable
  rfl

/-- **The text of a report tells all of it.**  Whatever characters the descriptions and the messages
have, the text is JSON; and two reports have the same text only if they are the same, in every field
and in the order of their rows. -/
theorem text_tells_report (r s : Report) :
    Json.IsJson (Json.render r.toJson) ∧
      (r.Dated → s.Dated → (Json.render r.toJson = Json.render s.toJson ↔ r = s)) := by
  refine ⟨Json.isJson_render r.toJson, fun hr hs => ⟨fun h => ?_, fun h => h ▸ rfl⟩⟩
  exact Report.eq_of_toJson_eq hr hs (Json.injective_render h)

/-- A row whose description has quotes, a backslash and a control character in it. -/
def strangeRow (message : Option String) : Row :=
  ⟨.exit, "a \"door\" \\ \x07", ⟨.notFulfilled, message, ⟨1704067200, 5⟩⟩, 2, some ⟨1⟩, 1⟩

def strangeReport (message : Option String) : Report := ⟨.ofMillis 50, 2, ⟨[strangeRow message]⟩⟩

/-- The text tells a message that is empty from one that is missing. -/
theorem text_tells_strangeReport :
    Json.IsJson (Json.render (strangeReport (some "")).toJson) ∧
      Json.render (strangeReport (some "")).toJson ≠ Json.render (strangeReport none).toJson := by
  have hmoment : Timestamp.Dated ⟨1704067200, 5⟩ := by decide
  have hdated : ∀ message, (strangeReport message).Dated := by
    intro message row hrow
    obtain rfl := List.mem_singleton.1 hrow
    exact hmoment
  obtain ⟨hjson, htells⟩ := text_tells_report (strangeReport (some "")) (strangeReport none)
  exact ⟨hjson, (htells (hdated _) (hdated _)).not.2 (by decide)⟩

end Wait
end Passage
