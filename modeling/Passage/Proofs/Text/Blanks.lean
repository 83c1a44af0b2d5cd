/-
# Blanks around a text

Trimming takes off blanks and nothing else (`exists_blanks_trim`), and it
takes off all of them that stand around a text without blanks
(`trim_append`).  Digits are no blanks, so a text that begins with digits
stays as it is on the left (`trimLeft_of_digits`).
-/
import Passage.Text.Blank
import Mathlib.Data.List.TakeWhile

namespace Passage.Text

theorem isBlank_of_isDigit {c : Char} (h : c.isDigit = true) : isBlank c = false := by
  simp only [Char.isDigit, Bool.and_eq_true, decide_eq_true_eq] at h
  have hlow : 48 ≤ c.toNat := h.1
  have hhigh : c.toNat ≤ 57 := h.2
  simp only [isBlank, Bool.or_eq_false_iff, Bool.and_eq_false_iff, decide_eq_false_iff_not,
    beq_eq_false_iff_ne, ne_eq]
  omega

/-- Trimming takes off nothing but blanks. -/
theorem exists_blanks_trim (s : List Char) :
    ∃ before after, (∀ c ∈ before, isBlank c = true) ∧ (∀ c ∈ after, isBlank c = true) ∧
      s = before ++ trim s ++ after := by
  have hright : trim s ++ ((trimLeft s).reverse.takeWhile isBlank).reverse = trimLeft s := by
    rw [trim, trimRight, ← List.reverse_append, List.takeWhile_append_dropWhile,
      List.reverse_reverse]
  refine ⟨s.takeWhile isBlank, ((trimLeft s).reverse.takeWhile isBlank).reverse, ?_, ?_, ?_⟩
  · intro c hc
    exact List.mem_takeWhile_imp hc
  · intro c hc
    exact List.mem_takeWhile_imp (List.mem_reverse.1 hc)
  · rw [List.append_assoc, hright]
    exact List.takeWhile_append_dropWhile.symm

/-! ## Texts without blanks -/

section
variable {s : List Char} (hs : ∀ c ∈ s, isBlank c = false) (hne : s ≠ [])
include hs hne

theorem trimLeft_of_no_blank (rest : List Char) : trimLeft (s ++ rest) = s ++ rest := by
  obtain ⟨c, t, rfl⟩ := List.exists_cons_of_ne_nil hne
  exact trimLeft_cons_of_not_blank (hs c List.mem_cons_self)

theorem trimRight_of_no_blank {after : List Char} (h : ∀ c ∈ after, isBlank c = true) :
    trimRight (s ++ after) = s := by
  -- Read from its end, the text has blanks first and none at the place where they stop.
  have hafter : ∀ c ∈ after.reverse, isBlank c = true := by
    intro c hc
    exact h c (List.mem_reverse.1 hc)
  have hreverse : trimLeft (s.reverse ++ []) = s.reverse ++ [] := by
    refine trimLeft_of_no_blank ?_ (mt List.reverse_eq_nil_iff.1 hne) []
    intro c hc
    exact hs c (List.mem_reverse.1 hc)
  rw [List.append_nil, trimLeft] at hreverse
  rw [trimRight, List.reverse_append, List.dropWhile_append_of_pos hafter, hreverse,
    List.reverse_reverse]

/-- All blanks around a text are taken off. -/
theorem trim_append {before after : List Char} (hbefore : ∀ c ∈ before, isBlank c = true)
    (hafter : ∀ c ∈ after, isBlank c = true) : trim (before ++ s ++ after) = s := by
  have hleft : trimLeft (before ++ s ++ after) = s ++ after := by
    rw [List.append_assoc, trimLeft, List.dropWhile_append_of_pos hbefore]
    exact trimLeft_of_no_blank hs hne after
  rw [trim, hleft, trimRight_of_no_blank hs hne hafter]

end

theorem trimLeft_of_digits {ds : List Char} (hne : ds ≠ []) (hd : ∀ c ∈ ds, c.isDigit = true)
    (rest : List Char) : trimLeft (ds ++ rest) = ds ++ rest :=
  trimLeft_of_no_blank (fun c hc => isBlank_of_isDigit (hd c hc)) hne rest

end Passage.Text
