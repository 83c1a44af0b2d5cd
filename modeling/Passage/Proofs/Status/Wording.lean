/-
# The wording of a status

A status may be frozen and opened again any number of times while it is
worked on, and each time its message is cut.  None of this is seen in the
end: the message is the text that was set last and all notes that came
after it (`pieces`), joined and then cut once.

The reason is that cutting a text before something is put behind it makes
no difference once the whole is cut (`truncate_append`).  So it is enough
to follow the text that is never cut (`Revision.rewrite`), of which the
message is always the cut form (`Workshop.Keeps`).

Outcome and time are simpler: no step changes the outcome, and the time is
that of the first freezing (`stamps_run`).  All of it together is
`wording_of_revisions`.
-/
import Passage.Status.Revision
import Mathlib.Data.List.DropRight

namespace Passage.Status

/-! ## What is said -/

/-- The text that a step sets. -/
def Revision.text? : Revision → Option String
  | message s => some s
  | _ => none

/-- The note that a step adds. -/
def Revision.note? : Revision → Option String
  | amend note => some note
  | _ => none

/-- The text that was set last; the given one if no step has set any. -/
def lastText (first : Option String) (steps : List Revision) : Option String :=
  (steps.filterMap Revision.text?).getLast?.or first

/-- The notes that were added after the last text was set. -/
def lateNotes (steps : List Revision) : List String :=
  (steps.rtakeWhile fun r => r.text?.isNone).filterMap Revision.note?

/-- All that the final message is made of. -/
def pieces (first : Option String) (steps : List Revision) : List String :=
  (lastText first steps).toList ++ lateNotes steps

/-- Pieces with two blanks between them; no pieces are no text, but an empty piece is one. -/
def joined : List String → Option String
  | [] => none
  | ps => some (String.intercalate "  " ps)

/-- How a status is begun: as a draft that is left open, or made at once, with a message or without
one. -/
inductive Beginning where
  | opened
  | made (message : Option String)
  deriving DecidableEq, Repr

namespace Beginning

def form (o : Outcome) (now : Timestamp) : Beginning → Form
  | opened => .draft (.start o)
  | made m => .frozen (.of o m now)

def message : Beginning → Option String
  | opened => none
  | made m => m

end Beginning

/-! ## Cutting -/

theorem toList_truncate (s : String) : (truncate s).toList = s.toList.take maxMessageLength :=
  String.toList_ofList

theorem truncate_truncate (s : String) : truncate (truncate s) = truncate s := by
  refine String.toList_injective ?_
  rw [toList_truncate, toList_truncate, List.take_take, Nat.min_self]

/-- Cutting a text before something is put behind it makes no difference to the cut whole. -/
theorem truncate_append (s t : String) : truncate (truncate s ++ t) = truncate (s ++ t) := by
  refine String.toList_injective ?_
  rw [toList_truncate, toList_truncate, String.toList_append, String.toList_append,
    toList_truncate, List.take_append, List.take_append, List.take_take, Nat.min_self,
    List.length_take]
  -- What is left for the second part is nothing as soon as the first part is cut.
  rcases Nat.le_total s.toList.length maxMessageLength with h | h
  · rw [Nat.min_eq_right h]
  · rw [Nat.min_eq_left h, Nat.sub_self, Nat.sub_eq_zero_of_le h]

theorem truncate_of_short {s : String} (h : s.toList.length ≤ maxMessageLength) :
    truncate s = s := by
  refine String.toList_injective ?_
  rw [toList_truncate, List.take_of_length_le h]

/-- A note behind two messages that are the same when cut. -/
theorem truncate_amendedMessage {m m' : Option String} (h : m.map truncate = m'.map truncate)
    (note : String) :
    truncate (Draft.amendedMessage m note) = truncate (Draft.amendedMessage m' note) := by
  cases m with
  | none =>
      obtain rfl : m' = none := Option.map_eq_none_iff.1 h.symm
      rfl
  | some s =>
      obtain ⟨s', rfl, hs⟩ := Option.map_eq_some_iff.1 h.symm
      show truncate (s ++ amendSeparator ++ note) = truncate (s' ++ amendSeparator ++ note)
      rw [String.append_assoc, String.append_assoc, ← truncate_append s, ← truncate_append s', hs]

/-! ## The text that is never cut -/

/-- The text after a step, if it is never cut. -/
def Revision.rewrite (text : Option String) : Revision → Option String
  | message s => some s
  | amend note => some (Draft.amendedMessage text note)
  | reopen | build | advance _ => text

theorem joined_concat (ps : List String) (note : String) :
    joined (ps ++ [note]) = some (Draft.amendedMessage (joined ps) note) := by
  cases ps with
  | nil => exact congrArg some String.intercalate_singleton
  | cons p ps =>
      have hne : p :: ps ≠ [] := List.cons_ne_nil p ps
      have hlast : [note] ≠ [] := List.cons_ne_nil note []
      show some (String.intercalate "  " ((p :: ps) ++ [note])) = _
      rw [String.intercalate_append_of_ne_nil hne hlast, String.intercalate_singleton]
      rfl

/-- A step that sets no text leaves the last text, and adds its note if it has one. -/
theorem pieces_concat_of_no_text (first : Option String) (steps : List Revision) {r : Revision}
    (h : r.text? = none) :
    pieces first (steps ++ [r]) = pieces first steps ++ r.note?.toList := by
  have hlate : lateNotes (steps ++ [r]) = lateNotes steps ++ r.note?.toList := by
    rw [lateNotes, List.rtakeWhile_concat_pos _ _ _ (by rw [h]; rfl), List.filterMap_append]
    cases hnote : r.note? <;> simp [lateNotes, hnote]
  rw [pieces, pieces, hlate, lastText, lastText, List.filterMap_append]
  simp [h]

/-- A step that sets a text leaves nothing of what was said before. -/
theorem pieces_concat_message (first : Option String) (steps : List Revision) (s : String) :
    pieces first (steps ++ [.message s]) = [s] := by
  have hlate : lateNotes (steps ++ [.message s]) = [] := by
    rw [lateNotes, List.rtakeWhile_concat_neg _ _ _ (by simp [Revision.text?])]
    rfl
  rw [pieces, hlate, lastText, List.filterMap_append]
  simp [Revision.text?]

/-- The text that is never cut has all the pieces. -/
theorem foldl_rewrite (first : Option String) (steps : List Revision) :
    steps.foldl Revision.rewrite first = joined (pieces first steps) := by
  induction steps using List.reverseRecOn with
  | nil =>
      cases first with
      | none => rfl
      | some s => exact congrArg some String.intercalate_singleton.symm
  | append_singleton steps r ih =>
      rw [List.foldl_append, ih]
      cases r with
      | message s =>
          rw [pieces_concat_message]
          exact congrArg some String.intercalate_singleton.symm
      | amend note =>
          rw [pieces_concat_of_no_text first steps rfl]
          exact (joined_concat (pieces first steps) note).symm
      | reopen =>
          rw [pieces_concat_of_no_text first steps rfl]
          exact congrArg joined (List.append_nil _).symm
      | build =>
          rw [pieces_concat_of_no_text first steps rfl]
          exact congrArg joined (List.append_nil _).symm
      | advance d =>
          rw [pieces_concat_of_no_text first steps rfl]
          exact congrArg joined (List.append_nil _).symm

theorem foldl_rewrite_eq_none_iff {first : Option String} {steps : List Revision} :
    steps.foldl Revision.rewrite first = none ↔
      first = none ∧ ∀ r ∈ steps, r.text? = none ∧ r.note? = none := by
  induction steps generalizing first with
  | nil => simp
  | cons r rest ih =>
      rw [List.foldl_cons, ih, List.forall_mem_cons]
      cases r <;> simp [Revision.rewrite, Revision.text?, Revision.note?]

/-- Freezing changes nothing of it. -/
theorem foldl_rewrite_filter (first : Option String) (steps : List Revision) :
    (steps.filter (· ≠ .build)).foldl Revision.rewrite first =
      steps.foldl Revision.rewrite first := by
  induction steps generalizing first with
  | nil => rfl
  | cons r rest ih =>
      by_cases h : r = .build
      · subst h
        exact ih first
      · rw [List.filter_cons_of_pos (by simpa using h)]
        exact ih _

/-! ## What a step keeps -/

/-- The work has the given outcome, its message is the given text up to cutting, and what is frozen
is cut. -/
structure Workshop.Keeps (o : Outcome) (text : Option String) (w : Workshop) : Prop where
  outcome : w.form.toDraft.outcome = o
  message : w.form.toDraft.message.map truncate = text.map truncate
  short : ∀ s, w.form = .frozen s → ∀ m, s.message = some m → m.toList.length ≤ maxMessageLength

namespace Workshop
variable {o : Outcome} {text : Option String} {w : Workshop}

/-- A draft that has just been worked on. -/
theorem keeps_draft {d : Draft} {clock : Clock} (ho : d.outcome = o)
    (hm : d.message.map truncate = text.map truncate) : Keeps o text ⟨.draft d, clock⟩ where
  outcome := ho
  message := hm
  short s h := by cases h

theorem Keeps.apply (h : Keeps o text w) (r : Revision) : Keeps o (r.rewrite text) (w.apply r) := by
  cases r with
  | message s => exact keeps_draft h.outcome rfl
  | amend note =>
      exact keeps_draft h.outcome (congrArg some (truncate_amendedMessage h.message note))
  | reopen => exact keeps_draft h.outcome h.message
  | build =>
      refine ⟨h.outcome, ?_, ?_⟩
      · show (w.form.toDraft.message.map truncate).map truncate = text.map truncate
        rw [h.message, Option.map_map]
        exact congrArg (Option.map · text) (funext truncate_truncate)
      · intro s hs m hm
        obtain rfl := Form.frozen.inj hs
        exact length_message_build hm
  | advance d => exact ⟨h.outcome, h.message, h.short⟩

theorem Keeps.run (h : Keeps o text w) (steps : List Revision) :
    Keeps o (steps.foldl Revision.rewrite text) (w.run steps) := by
  induction steps generalizing text w with
  | nil => exact h
  | cons r rest ih => exact ih (h.apply r)

/-- The message that is shown is the cut form of the text. -/
theorem Keeps.message_view (h : Keeps o text w) : w.view.message = text.map truncate := by
  rw [← h.message]
  cases hw : w.form with
  | draft d =>
      rw [view, hw]
      rfl
  | frozen s =>
      rw [view, hw]
      show s.message = s.message.map truncate
      cases hm : s.message with
      | none => rfl
      | some m => exact congrArg some (truncate_of_short (h.short s hw m hm)).symm

theorem Keeps.outcome_view (h : Keeps o text w) : w.view.outcome = o := by
  rw [← h.outcome]
  cases hw : w.form with
  | draft d =>
      rw [view, hw]
      rfl
  | frozen s =>
      rw [view, hw]
      rfl

theorem keeps_form (b : Beginning) (o : Outcome) (clock : Clock) :
    Keeps o b.message ⟨b.form o clock.wall, clock⟩ := by
  cases b with
  | opened => exact keeps_draft rfl rfl
  | made m =>
      -- What is made at once is a draft with its message that is frozen.
      have hbuilt : Beginning.form o clock.wall (.made m) =
          .frozen ((Draft.mk o m none).build clock.wall) := by
        cases m <;> rfl
      have hdraft : Keeps o m ⟨.draft ⟨o, m, none⟩, clock⟩ := keeps_draft rfl rfl
      rw [hbuilt]
      exact hdraft.apply .build

/-! ## The time of the first freezing -/

/-- Once there is a stamp, it stays. -/
theorem stamp_run {t : Timestamp} (h : w.form.toDraft.timestamp = some t)
    (steps : List Revision) : (w.run steps).form.toDraft.timestamp = some t := by
  induction steps generalizing w with
  | nil => exact h
  | cons r rest ih =>
      refine ih ?_
      cases r with
      | message s => exact h
      | amend note => exact h
      | reopen => exact h
      | build =>
          show some (w.form.toDraft.timestamp.getD w.clock.wall) = some t
          rw [h]
          rfl
      | advance d => exact h

/-- As long as nothing is frozen, there is no stamp. -/
theorem stamp_run_of_not_mem {steps : List Revision} (h : w.form.toDraft.timestamp = none)
    (hopen : .build ∉ steps) : (w.run steps).form.toDraft.timestamp = none := by
  induction steps generalizing w with
  | nil => exact h
  | cons r rest ih =>
      rw [List.mem_cons, not_or] at hopen
      refine ih ?_ hopen.2
      cases r with
      | message s => exact h
      | amend note => exact h
      | reopen => exact h
      | build => exact absurd rfl hopen.1
      | advance d => exact h

theorem run_append (w : Workshop) (steps more : List Revision) :
    w.run (steps ++ more) = (w.run steps).run more :=
  List.foldl_append

theorem timestamp_of_frozen {s : Status} (h : w.form = .frozen s) :
    w.form.toDraft.timestamp = some s.timestamp := by
  rw [h]
  rfl

/-- What is frozen in the end, when nothing was stamped before, has the time of the first
freezing. -/
theorem stamp_of_first_build {steps : List Revision} {s : Status}
    (h : w.form.toDraft.timestamp = none) (hs : (w.run steps).form = .frozen s) :
    ∃ before after, steps = before ++ .build :: after ∧ .build ∉ before ∧
      s.timestamp = (w.run before).clock.wall := by
  have hbuild : .build ∈ steps := by
    by_contra hopen
    have hnone := stamp_run_of_not_mem h hopen
    rw [timestamp_of_frozen hs] at hnone
    exact absurd hnone (by simp)
  obtain ⟨before, after, rfl, hopen⟩ := List.eq_append_cons_of_mem hbuild
  have hnone := stamp_run_of_not_mem h hopen
  have hfrozen : ((w.run before).apply .build).form.toDraft.timestamp =
      some (w.run before).clock.wall := by
    show some ((w.run before).form.toDraft.timestamp.getD (w.run before).clock.wall) = _
    rw [hnone]
    rfl
  have hkept := stamp_run hfrozen after
  rw [run_append] at hs
  exact ⟨before, after, rfl, hopen, Option.some.inj ((timestamp_of_frozen hs).symm.trans hkept)⟩

end Workshop

/-- The stamp `t` is the time of the first freezing: that of the beginning if the status was made
at once, and else that of the first step that freezes. -/
def Beginning.Stamps (b : Beginning) (first : Workshop) (steps : List Revision) (t : Timestamp) :
    Prop :=
  match b with
  | .made _ => t = first.clock.wall
  | .opened => ∃ before after, steps = before ++ .build :: after ∧ .build ∉ before ∧
      t = (first.run before).clock.wall

theorem stamps_run (b : Beginning) (o : Outcome) (clock : Clock) {steps : List Revision}
    {s : Status} (h : (Workshop.run ⟨b.form o clock.wall, clock⟩ steps).form = .frozen s) :
    b.Stamps ⟨b.form o clock.wall, clock⟩ steps s.timestamp := by
  cases b with
  | opened => exact Workshop.stamp_of_first_build rfl h
  | made m =>
      have hfirst : (Beginning.form o clock.wall (.made m)).toDraft.timestamp =
          some clock.wall := by
        cases m <;> rfl
      have hkept := Workshop.stamp_run (w := ⟨_, clock⟩) hfirst steps
      exact Option.some.inj ((Workshop.timestamp_of_frozen h).symm.trans hkept)

theorem amend_amend (d : Draft) (a c : String) :
    (d.amend a).amend c = d.amend (a ++ "  " ++ c) := by
  cases hm : d.message with
  | none => simp [Draft.amend, Draft.amendedMessage, amendSeparator, hm]
  | some m => simp [Draft.amend, Draft.amendedMessage, amendSeparator, hm, String.append_assoc]

/-! ## The final wording -/

/-- **Freezing on the way is not seen in the end.**  However a status is begun and worked on, its
message is that of the text that was set last and the notes after it, joined and cut to 300
characters; there is none only if no text was ever set and no note added.  Whatever is frozen on
the way has a short message, the first outcome and the first stamp; and two notes one after another
are one note. -/
theorem wording_of_revisions (b : Beginning) (o : Outcome) (clock : Clock)
    (steps : List Revision) :
    let first : Workshop := ⟨b.form o clock.wall, clock⟩
    (first.run steps).view.message =
      (joined (pieces b.message steps)).map (fun s => String.ofList (s.toList.take 300)) ∧
    ((first.run steps).view.message = none ↔
      b.message = none ∧ ∀ r ∈ steps, r.text? = none ∧ r.note? = none) ∧
    (first.run (steps.filter (· ≠ .build))).view.message = (first.run steps).view.message ∧
    (first.run steps).view.outcome = o ∧
    (∀ s, (first.run steps).form = .frozen s →
      (∀ m, s.message = some m → m.toList.length ≤ 300) ∧ s.outcome = o ∧
      b.Stamps first steps s.timestamp) ∧
    ∀ a c, first.run (steps ++ [.amend a, .amend c]) =
      first.run (steps ++ [.amend (a ++ "  " ++ c)]) := by
  intro first
  have hfirst : first.Keeps o b.message := Workshop.keeps_form b o clock
  have hrun := hfirst.run steps
  refine ⟨?_, ?_, ?_, hrun.outcome_view, ?_, ?_⟩
  · rw [hrun.message_view, foldl_rewrite]
    rfl
  · rw [hrun.message_view, Option.map_eq_none_iff]
    exact foldl_rewrite_eq_none_iff
  · rw [(hfirst.run (steps.filter (· ≠ .build))).message_view, hrun.message_view,
      foldl_rewrite_filter]
  · intro s hs
    refine ⟨hrun.short s hs, ?_, stamps_run b o clock hs⟩
    have ho := hrun.outcome
    rw [hs] at ho
    exact ho
  · intro a c
    rw [Workshop.run_append, Workshop.run_append]
    exact congrArg (fun d => Workshop.mk (.draft d) (first.run steps).clock)
      (amend_amend (first.run steps).form.toDraft a c)

/-- A message with room for one more character. -/
def longMessage : String := String.ofList (List.replicate 299 'é')

/-- An error with the long message, made at the beginning of the year 2024. -/
def longError : Workshop :=
  ⟨.frozen (.of .error (some longMessage) ⟨1704067200, 0⟩), ⟨⟨0⟩, ⟨1704067200, 0⟩⟩⟩

/-- Two notes, with time passing before them, and with a freezing after each. -/
def secondThoughts : List Revision :=
  [.advance (.ofMillis 5), .amend "gone", .build, .reopen, .amend "for good", .build]

/-- Of both notes to the long message only the first blank before them is left, and the stamp is
from before the five milliseconds; an empty message is still a message. -/
theorem wording_of_secondThoughts :
    (∃ s, (longError.run secondThoughts).form = .frozen s ∧
      s.message = some (longMessage ++ " ") ∧ s.outcome = .error ∧ s.timestamp = ⟨1704067200, 0⟩) ∧
    (Workshop.run ⟨.frozen (.of .fulfilled (some "") ⟨0, 0⟩), ⟨⟨0⟩, ⟨0, 0⟩⟩⟩
      [.amend "B"]).view.message = some "  B" := by
  refine ⟨?_, ?_⟩
  · obtain ⟨hmessage, -, -, -, hfrozen, -⟩ := wording_of_revisions (.made (some longMessage)) .error
      ⟨⟨0⟩, ⟨1704067200, 0⟩⟩ secondThoughts
    have hview : (longError.run secondThoughts).form =
        .frozen (longError.run secondThoughts).view := rfl
    obtain ⟨-, ho, ht⟩ := hfrozen _ hview
    refine ⟨_, hview, hmessage.trans ?_, ho, ht⟩
    have hpieces : pieces (some longMessage) secondThoughts =
        [longMessage, "gone", "for good"] := rfl
    have hlength : longMessage.toList.length = 299 :=
      (congrArg List.length String.toList_ofList).trans List.length_replicate
    rw [Beginning.message, hpieces]
    generalize longMessage = m at hlength ⊢
    have htext : (String.intercalate "  " [m, "gone", "for good"]).toList =
        m.toList ++ "  gone  for good".toList := by
      simp
    refine congrArg some (String.toList_injective ?_)
    show (String.ofList (List.take 300 (String.intercalate "  " [m, "gone", "for good"]).toList)).toList
      = _
    rw [htext, show 300 = m.toList.length + 1 by rw [hlength], List.take_length_add_append,
      String.toList_ofList, String.toList_append]
    rfl
  · exact (wording_of_revisions (.made (some "")) .fulfilled ⟨⟨0⟩, ⟨0, 0⟩⟩ [.amend "B"]).1

end Passage.Status
