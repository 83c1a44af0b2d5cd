/-
# Runs of digits

A reader that takes a run of digits takes just the digits that were
written, if nothing that follows could belong to the run (`Ends`).  A field
of a fixed width ends by itself.
-/
import Passage.Text.Decimal

namespace Passage.Decimal

/-- A run of digits ends in front of this text. -/
def Ends (rest : List Char) : Prop := ∀ c s, rest = c :: s → c.isDigit = false

theorem ends_cons {c : Char} {s : List Char} (h : c.isDigit = false) : Ends (c :: s) := by
  intro d t he
  cases he
  exact h

theorem Ends.takeWhile_eq_nil {rest : List Char} (h : Ends rest) :
    rest.takeWhile Char.isDigit = [] := by
  cases rest with
  | nil => rfl
  | cons c s => rw [List.takeWhile_cons_of_neg (by simp [h c s rfl])]

theorem Ends.take {rest : List Char} (h : Ends rest) (n : Nat) : Ends (rest.take n) := by
  intro c s he
  cases n with
  | zero => cases he
  | succ n =>
      cases rest with
      | nil => cases he
      | cons d t =>
          cases he
          exact h c t rfl

theorem span_append {ds rest : List Char} (hd : ∀ c ∈ ds, c.isDigit = true) (hr : Ends rest) :
    span (ds ++ rest) = (ds, rest) := by
  have htake : (ds ++ rest).takeWhile Char.isDigit = ds := by
    rw [List.takeWhile_append_of_pos hd, hr.takeWhile_eq_nil, List.append_nil]
  have hdrop : (ds ++ rest).dropWhile Char.isDigit = rest := by
    have hall := List.takeWhile_append_dropWhile (p := Char.isDigit) (l := ds ++ rest)
    rw [htake] at hall
    exact List.append_cancel_left hall
  rw [span, htake, hdrop]

/-- With room for no more digits, or with none that follow, all digits are taken and nothing
else. -/
theorem spanUpTo_append {limit : Nat} {ds rest : List Char} (hd : ∀ c ∈ ds, c.isDigit = true)
    (hlimit : ds.length ≤ limit) (hr : ds.length = limit ∨ Ends rest) :
    spanUpTo limit (ds ++ rest) = (ds, rest) := by
  have hrest : (rest.take (limit - ds.length)).takeWhile Char.isDigit = [] := by
    rcases hr with hfull | hr
    · rw [hfull, Nat.sub_self]
      rfl
    · exact (hr.take _).takeWhile_eq_nil
  have htake : ((ds ++ rest).take limit).takeWhile Char.isDigit = ds := by
    rw [List.take_append, List.take_of_length_le hlimit, List.takeWhile_append_of_pos hd, hrest,
      List.append_nil]
  rw [spanUpTo, htake, List.drop_left]

/-! ## What is written -/

theorem length_digits_le {width n : Nat} (hw : 0 < width) (h : n < Nat.pow 10 width) :
    (digits n).length ≤ width :=
  (Nat.length_toDigits_le_iff (by omega) hw).2 h

/-- A field has its width if the number fits into it. -/
theorem length_padded {width n : Nat} (hw : 0 < width) (h : n < Nat.pow 10 width) :
    (padded width n).length = width := by
  have hle := length_digits_le hw h
  rw [padded, List.length_append, List.length_replicate]
  omega

theorem padded_ne_nil (width n : Nat) : padded width n ≠ [] := by
  intro h
  exact digits_ne_nil n (List.append_eq_nil_iff.1 h).2

theorem exists_cons_digits (n : Nat) : ∃ c s, digits n = c :: s ∧ c.isDigit = true := by
  obtain ⟨c, s, hfirst⟩ := List.exists_cons_of_ne_nil (digits_ne_nil n)
  exact ⟨c, s, hfirst, isDigit_of_mem_digits (hfirst ▸ List.mem_cons_self)⟩

/-- Only zero begins with the digit zero. -/
theorem head?_digits_eq_zero {n : Nat} (h : (digits n).head? = some '0') : n = 0 := by
  induction n using Nat.strongRecOn with
  | ind n ih =>
      by_cases hn : n < 10
      · have hone : digits n = [n.digitChar] := Nat.toDigits_of_lt_base hn
        rw [hone] at h
        exact (by decide : ∀ m < 10, some m.digitChar = some '0' → m = 0) n hn h
      · -- The first digit is that of the number without its last digit.
        have hmore : digits n = digits (n / 10) ++ [(n % 10).digitChar] :=
          Nat.toDigits_of_base_le (by omega) (by omega)
        obtain ⟨c, s, hfirst⟩ := List.exists_cons_of_ne_nil (digits_ne_nil (n / 10))
        rw [hmore, hfirst] at h
        have hzero := ih (n / 10) (by omega) (by rw [hfirst]; exact h)
        omega

end Passage.Decimal
