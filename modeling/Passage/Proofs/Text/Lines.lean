/-
# The lines of a text

A text has one line more than it has line breaks, so a text that ends with
a line break has an empty last line (`ne_break_of_getLast?_lines`).  Lines
that are put together with line breaks are found again, if there is at
least one and none of them has a break of its own (`lines_intercalate`).
-/
import Passage.Text.Decimal

namespace Passage.Text

/-- The text has no line break. -/
def IsLine (s : String) : Prop := '\n' ∉ s.toList

instance (s : String) : Decidable (IsLine s) := inferInstanceAs (Decidable ('\n' ∉ s.toList))

/-- What stands before, between and behind the line breaks of a text. -/
def lines (s : String) : List String := (s.toList.splitOn '\n').map String.ofList

@[simp] theorem isLine_append {s t : String} : IsLine (s ++ t) ↔ IsLine s ∧ IsLine t := by
  rw [IsLine, IsLine, IsLine, String.toList_append, List.mem_append, not_or]

theorem isLine_ofList {s : List Char} : IsLine (String.ofList s) ↔ '\n' ∉ s := by
  rw [IsLine, String.toList_ofList]

theorem isLine_of_digits {ds : List Char} (h : ∀ c ∈ ds, c.isDigit = true) :
    IsLine (String.ofList ds) := by
  rw [isLine_ofList]
  intro hbreak
  exact absurd (h '\n' hbreak) (by decide)

theorem isLine_decimal (n : Nat) : IsLine (Decimal.text n) :=
  isLine_of_digits fun _ hc => Decimal.isDigit_of_mem_digits hc

theorem lines_intercalate {ls : List String} (hne : ls ≠ []) (h : ∀ l ∈ ls, IsLine l) :
    lines ("\n".intercalate ls) = ls := by
  have hbreak : "\n".toList = ['\n'] := rfl
  have hfree : ∀ cs ∈ ls.map String.toList, '\n' ∉ cs := List.forall_mem_map.2 h
  rw [lines, String.toList_intercalate, hbreak,
    List.splitOn_intercalate '\n' hfree (mt List.map_eq_nil_iff.1 hne), List.map_map]
  simp [Function.comp_def]

/-- A text does not end with a line break if its last line is not empty. -/
theorem ne_break_of_getLast?_lines {s l : String} (h : (lines s).getLast? = some l) (hne : l ≠ "") :
    s.toList.getLast? ≠ some '\n' := by
  intro hend
  obtain ⟨before, hs⟩ := List.getLast?_eq_some_iff.1 hend
  have hlines : lines s = lines (String.ofList before) ++ [""] := by
    rw [lines, lines, hs, String.toList_ofList, List.splitOn_eq_splitOnP, List.splitOn_eq_splitOnP,
      List.splitOnP_append_cons (p := (· == '\n')) before [] rfl, List.map_append]
    rfl
  rw [hlines, List.getLast?_concat] at h
  exact hne (Option.some.inj h).symm

end Passage.Text
