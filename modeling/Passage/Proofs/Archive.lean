/-
# Histories kept as text

A history may be written down and read again later.  Nothing is lost on
the way: `written_is_read_back`.  What is asked of a change is only that
it can be told in the written form (`PhaseChange.IsWritable`); its phases
need not follow each other, nor fit those of the changes before it.
-/
import Passage.Proofs.Json.Reading
import Passage.Proofs.Time.Reading
import Passage.History

namespace Passage

open Json (Reads)

theorem Phase.lookup_name (p : Phase) : Phase.choices.lookup p.name = some p := by
  cases p <;> rfl

/-- The written form can tell of the change: its time is a plain one, and its try fits into 64
bits. -/
structure PhaseChange.IsWritable (c : PhaseChange) : Prop where
  timestamp : c.timestamp.IsPlain
  attempt : c.attempt < Json.Numeral.wordLimit

def History.IsWritable (h : History) : Prop := ∀ c ∈ h.changes, c.IsWritable

namespace PhaseChange

instance (c : PhaseChange) : Decidable c.IsWritable :=
  decidable_of_iff (c.timestamp.IsPlain ∧ c.attempt < Json.Numeral.wordLimit)
    ⟨fun h => ⟨h.1, h.2⟩, fun h => ⟨h.timestamp, h.attempt⟩⟩

theorem reads_timestamp {t : Timestamp} (h : t.IsPlain) : Reads readTimestamp (.text t.text) t := by
  intro rest hr
  have htext : t.text.toList = t.chars := String.toList_ofList
  rw [readTimestamp, Json.reads_text t.text rest hr]
  simp only [bind, Except.bind, htext, Timestamp.ofChars?_chars h]

/-- The members of a change are read in the order in which they are written. -/
theorem reads_toJson {c : PhaseChange} (h : c.IsWritable) : Reads form.read c.toJson c := by
  have hdraft : form.finish ⟨some c.source, some c.target, some c.timestamp, some c.attempt⟩ =
      some c := rfl
  refine Json.reads_record (r := form) ?_ hdraft
  refine .cons rfl rfl
    (Json.reads_ofField (Json.reads_choice (Phase.lookup_name c.source)) _ _ _ _) ?_
  refine .cons rfl rfl
    (Json.reads_ofField (Json.reads_choice (Phase.lookup_name c.target)) _ _ _ _) ?_
  refine .cons rfl rfl (Json.reads_ofField (reads_timestamp h.timestamp) _ _ _ _) ?_
  exact .cons rfl rfl (Json.reads_ofField (Json.reads_natural h.attempt) _ _ _ _) .nil

end PhaseChange

instance (h : History) : Decidable h.IsWritable :=
  inferInstanceAs (Decidable (∀ c ∈ h.changes, c.IsWritable))

theorem History.reads_toJson {h : History} (hw : h.IsWritable) :
    Reads form.read h.toJson h := by
  have hchanges : Reads (Json.readList PhaseChange.form.read)
      (.list (h.changes.map PhaseChange.toJson)) h.changes :=
    Json.reads_list fun c hc => PhaseChange.reads_toJson (hw c hc)
  have hdraft : form.finish ⟨some h.changes⟩ = some h := rfl
  refine Json.reads_record (r := form) ?_ hdraft
  exact .cons rfl rfl (Json.reads_ofField hchanges _ _ _ _) .nil

/-- **What is written is read back.**  The text of a history gives the same history again, however
long it is and whatever phases its changes name, and so does the text of a single change.  The
points in time in them come back to the nanosecond, though they are written with 0, 3, 6 or 9
digits after the point, and with a sign from year 10000 on. -/
theorem written_is_read_back :
    (∀ h : History, h.IsWritable → History.ofJson (Json.render h.toJson) = .ok h) ∧
    (∀ c : PhaseChange, c.IsWritable → PhaseChange.ofJson (Json.render c.toJson) = .ok c) ∧
    ∀ t : Timestamp, t.IsPlain →
      Timestamp.ofText? t.text = some t ∧
      Timestamp.fractionDigits t.chars ∈ [0, 3, 6, 9] ∧
      (t.chars.head? = some '+' ↔ 10000 ≤ (Date.ofDay t.day).year) := by
  refine ⟨fun h hw => Json.readWhole_render (History.reads_toJson hw),
    fun c hc => Json.readWhole_render (PhaseChange.reads_toJson hc), fun t ht => ⟨?_, ?_, ?_⟩⟩
  · rw [Timestamp.ofText?, Timestamp.text, String.toList_ofList]
    exact Timestamp.ofChars?_chars ht
  · exact Timestamp.fractionDigits_chars ht.ordinary
  · exact t.head?_chars_eq_plus

/-- The last nanosecond of the last year. -/
def lastMoment : Timestamp := ⟨8210266876799, 999999999⟩

/-- A change that no facility makes, by the largest try there is. -/
def lastChange : PhaseChange := ⟨.new, .finished, lastMoment, 18446744073709551615⟩

/-- Three changes that do not follow each other: on the leap day of year 0, a millisecond before
year 10000, and at the last moment. -/
def patchwork : History :=
  ⟨[⟨.finished, .new, ⟨-62162121600, 0⟩, 0⟩, ⟨.active, .active, ⟨253402300799, 999000000⟩, 3⟩,
    lastChange]⟩

theorem patchwork_is_read_back :
    (patchwork.IsWritable ∧ History.ofJson (Json.render patchwork.toJson) = .ok patchwork) ∧
    (lastChange.IsWritable ∧ PhaseChange.ofJson (Json.render lastChange.toJson) = .ok lastChange) ∧
    lastMoment.IsPlain ∧ lastMoment.text = "+262142-12-31T23:59:59.999999999Z" ∧
    Timestamp.ofText? lastMoment.text = some lastMoment := by
  obtain ⟨hhistory, hchange, htime⟩ := written_is_read_back
  have hpatchwork : patchwork.IsWritable := by decide
  have hlast : lastChange.IsWritable := by decide
  have htext : lastMoment.text = "+262142-12-31T23:59:59.999999999Z" := by decide
  obtain ⟨hread, -, -⟩ := htime lastMoment hlast.timestamp
  exact ⟨⟨hpatchwork, hhistory patchwork hpatchwork⟩, ⟨hlast, hchange lastChange hlast⟩,
    hlast.timestamp, htext, hread⟩

end Passage
