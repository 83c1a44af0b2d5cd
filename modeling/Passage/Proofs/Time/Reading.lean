/-
# Reading a written point in time

The reader of RFC 3339 times takes more than the writer writes, and it
reads what is written back to the nanosecond: `ofChars?_chars`, for every
point in time from year 0 on that lies in an ordinary second (`IsPlain`).
The written form itself has a fraction of 0, 3, 6 or 9 digits
(`fractionDigits_chars`), and a sign just when four digits do not hold the
year (`head?_chars_eq_plus`).

There is one lemma for each part of the written form, and each has the
same shape: the part is read, and what follows it is left.  Parts with
digits need that the digits end there (`Decimal.Ends`) or fill their field.
-/
import Passage.Proofs.Text.Blanks
import Passage.Proofs.Text.Digits
import Passage.Time.Rfc3339

namespace Passage

namespace Date

theorem month_ofDay (n : Int) : 1 ≤ (ofDay n).month ∧ (ofDay n).month ≤ 12 :=
  month_ofEra (by omega) _

theorem day_ofDay (n : Int) : 1 ≤ (ofDay n).day ∧ (ofDay n).day ≤ 31 :=
  day_ofEra _ _

end Date

namespace Timestamp
open Decimal

/-! ## Parts -/

theorem number?_append {limit : Nat} {ds rest : List Char} (hne : ds ≠ [])
    (hd : ∀ c ∈ ds, c.isDigit = true) (hlimit : ds.length ≤ limit)
    (hr : ds.length = limit ∨ Ends rest) :
    number? limit (ds ++ rest) = some (value ds, rest) := by
  obtain ⟨c, s, rfl⟩ := List.exists_cons_of_ne_nil hne
  rw [number?, spanUpTo_append hd hlimit hr]

theorem field?_padded {n : Nat} (h : n < 100) (rest : List Char) :
    field? (padded 2 n ++ rest) = some (n, rest) := by
  have hd : ∀ c ∈ padded 2 n, c.isDigit = true := fun c hc => isDigit_of_mem_padded hc
  have hlength : (padded 2 n).length = 2 := length_padded (by omega) h
  rw [field?, Text.trimLeft_of_digits (padded_ne_nil 2 n) hd,
    number?_append (padded_ne_nil 2 n) hd (Nat.le_of_eq hlength) (Or.inl hlength), value_padded]

theorem mark?_cons {c : Char} (h : Text.isBlank c = false) (rest : List Char) :
    mark? c (c :: rest) = some rest := by
  rw [mark?, Text.trimLeft_cons_of_not_blank h]
  exact if_pos rfl

/-- A number that begins with a digit is a year without a sign. -/
theorem year?_of_digits {ds rest : List Char} (hne : ds ≠ [])
    (hd : ∀ c ∈ ds, c.isDigit = true) (hlength : ds.length = 4) :
    year? (ds ++ rest) = some ((value ds : Int), rest) := by
  have hnumber : number? 4 (ds ++ rest) = some (value ds, rest) :=
    number?_append hne hd (Nat.le_of_eq hlength) (Or.inl hlength)
  rw [year?, Text.trimLeft_of_digits hne hd]
  obtain ⟨c, s, rfl⟩ := List.exists_cons_of_ne_nil hne
  have hc : c.isDigit = true := hd c List.mem_cons_self
  have hminus : c ≠ '-' := by
    rintro rfl
    exact absurd hc (by decide)
  have hplus : c ≠ '+' := by
    rintro rfl
    exact absurd hc (by decide)
  rw [List.cons_append] at hnumber ⊢
  simp [hminus, hplus, hnumber]

theorem year?_plus {ds rest : List Char} (hne : ds ≠ []) (hd : ∀ c ∈ ds, c.isDigit = true)
    (hr : Ends rest) : year? ('+' :: ds ++ rest) = some ((value ds : Int), rest) := by
  have hlength : ds.length ≤ (ds ++ rest).length := by
    rw [List.length_append]
    exact Nat.le_add_right _ _
  have hnumber := number?_append hne hd hlength (Or.inr hr)
  rw [year?, List.cons_append, Text.trimLeft_cons_of_not_blank (by decide)]
  simp only [longNumber?, hnumber]
  rfl

theorem year?_yearChars {y : Int} (h : 0 ≤ y) {rest : List Char} (hr : Ends rest) :
    year? (yearChars y ++ rest) = some (y, rest) := by
  have hd : ∀ c ∈ padded 4 y.toNat, c.isDigit = true := fun c hc => isDigit_of_mem_padded hc
  have hne := padded_ne_nil 4 y.toNat
  have hvalue : ((value (padded 4 y.toNat) : Nat) : Int) = y := by
    rw [value_padded]
    exact Int.toNat_of_nonneg h
  rw [yearChars, if_neg (Int.not_lt.2 h)]
  by_cases hshort : y ≤ 9999
  · have hfour : y.toNat < 10000 := by omega
    rw [if_pos hshort, year?_of_digits hne hd (length_padded (by omega) hfour), hvalue]
  · rw [if_neg hshort, year?_plus hne hd hr, hvalue]

theorem date?_dateChars {d : Date} (hy : 0 ≤ d.year) (hm : d.month < 100) (hd : d.day < 100)
    (rest : List Char) : date? (dateChars d ++ rest) = some (d, rest) := by
  have hdash : Text.isBlank '-' = false := by decide
  have hends : ∀ s, Ends ('-' :: s) := fun s => ends_cons (by decide)
  rw [dateChars]
  simp only [List.append_assoc, List.cons_append]
  rw [date?, year?_yearChars hy (hends _)]
  simp only [Option.bind_eq_bind, Option.bind_some, mark?_cons hdash, field?_padded hm,
    field?_padded hd]
  rfl

/-- A fraction of at most nine digits counts in nanoseconds. -/
theorem fraction?_padded {width n : Nat} (hw : 0 < width) (hnine : width ≤ 9)
    (h : n < Nat.pow 10 width) {rest : List Char} (hr : Ends rest) :
    fraction? ('.' :: padded width n ++ rest) = some (n * Nat.pow 10 (9 - width), rest) := by
  have hd : ∀ c ∈ padded width n, c.isDigit = true := fun c hc => isDigit_of_mem_padded hc
  have hlength : (padded width n).length = width := length_padded hw h
  have hspan : spanUpTo 9 (padded width n ++ rest) = (padded width n, rest) :=
    spanUpTo_append hd (by omega) (Or.inr hr)
  have hdrop : rest.dropWhile Char.isDigit = rest := by
    have hall := List.takeWhile_append_dropWhile (p := Char.isDigit) (l := rest)
    rwa [hr.takeWhile_eq_nil, List.nil_append] at hall
  obtain ⟨c, s, hfirst⟩ := List.exists_cons_of_ne_nil (padded_ne_nil width n)
  rw [List.cons_append, fraction?, hspan, hfirst]
  simp only
  rw [← hfirst, value_padded, hlength, hdrop]

/-- The fraction is left out or has 3, 6 or 9 digits, and these tell all the nanoseconds. -/
theorem fractionChars_cases {nanos : Nat} (h : nanos < 1000000000) :
    nanos = 0 ∧ fractionChars nanos = [] ∨
    ∃ width n, width ∈ [3, 6, 9] ∧ n < Nat.pow 10 width ∧ n * Nat.pow 10 (9 - width) = nanos ∧
      fractionChars nanos = '.' :: padded width n := by
  by_cases hzero : nanos = 0
  · exact .inl ⟨hzero, if_pos hzero⟩
  · rw [fractionChars, if_neg hzero]
    by_cases hmilli : nanos % 1000000 = 0
    · have hn : nanos / 1000000 < 1000 := by omega
      have hnanos : nanos / 1000000 * 1000000 = nanos := by omega
      exact .inr ⟨3, nanos / 1000000, by decide, hn, hnanos, if_pos hmilli⟩
    · rw [if_neg hmilli]
      by_cases hmicro : nanos % 1000 = 0
      · have hn : nanos / 1000 < 1000000 := by omega
        have hnanos : nanos / 1000 * 1000 = nanos := by omega
        exact .inr ⟨6, nanos / 1000, by decide, hn, hnanos, if_pos hmicro⟩
      · exact .inr ⟨9, nanos, by decide, h, Nat.mul_one nanos, if_neg hmicro⟩

theorem fraction?_fractionChars {nanos : Nat} (h : nanos < 1000000000) {rest : List Char}
    (hr : Ends rest) (hdot : ∀ s, rest ≠ '.' :: s) :
    fraction? (fractionChars nanos ++ rest) = some (nanos, rest) := by
  rcases fractionChars_cases h with ⟨rfl, hnone⟩ | ⟨width, n, hwidth, hn, hnanos, hchars⟩
  · rw [hnone, List.nil_append, fraction?]
    exact hdot
  · have hbounds : 0 < width ∧ width ≤ 9 :=
      (by decide : ∀ k ∈ [3, 6, 9], 0 < k ∧ k ≤ 9) width hwidth
    rw [hchars, fraction?_padded hbounds.1 hbounds.2 hn hr, hnanos]

theorem clock?_clockChars {hour minute second nanos : Nat} (hh : hour < 100) (hm : minute < 100)
    (hs : second < 100) (hn : nanos < 1000000000) {rest : List Char} (hr : Ends rest)
    (hdot : ∀ s, rest ≠ '.' :: s) :
    clock? (clockChars hour minute second nanos ++ rest) =
      some ((hour, minute, second, nanos), rest) := by
  have hcolon : Text.isBlank ':' = false := by decide
  rw [clockChars]
  simp only [List.append_assoc, List.cons_append]
  rw [clock?, field?_padded hh]
  simp only [Option.bind_eq_bind, Option.bind_some, mark?_cons hcolon, field?_padded hm,
    field?_padded hs, fraction?_fractionChars hn hr hdot]
  rfl

/-! ## The whole -/

/-- A point in time with an ordinary second, of year 0 or later and not past the last year that is
read. -/
structure IsPlain (t : Timestamp) : Prop where
  ordinary : t.IsOrdinary
  fromZero : 0 ≤ (Date.ofDay t.day).year
  untilLast : (Date.ofDay t.day).year ≤ lastYear

instance (t : Timestamp) : Decidable t.IsPlain :=
  decidable_of_iff
    (t.nanos < Duration.perSecond ∧ 0 ≤ (Date.ofDay t.day).year ∧
      (Date.ofDay t.day).year ≤ lastYear)
    ⟨fun h => ⟨h.1, h.2.1, h.2.2⟩, fun h => ⟨h.ordinary, h.fromZero, h.untilLast⟩⟩

theorem isLeap_eq_false {t : Timestamp} (h : t.IsOrdinary) : t.isLeap = false :=
  decide_eq_false (Nat.not_le.2 h)

theorem secOfDay_lt (t : Timestamp) : t.secOfDay < secsPerDay := by
  simp only [secOfDay, secsPerDay]
  omega

/-- A day and a second of that day make up the seconds. -/
theorem day_add_secOfDay (t : Timestamp) : t.day * secsPerDay + t.secOfDay = t.secs := by
  simp only [day, secOfDay, secsPerDay]
  omega

/-- The date and the time of day of a point in time lead back to it. -/
theorem ofParts?_of_isPlain {t : Timestamp} (h : t.IsPlain) :
    ofParts? (Date.ofDay t.day) (t.secOfDay / 3600, t.secOfDay / 60 % 60, t.secOfDay % 60, t.nanos)
      0 = some t := by
  have hsec := t.secOfDay_lt
  simp only [secsPerDay] at hsec
  have hsplit : t.secOfDay / 3600 * 3600 + t.secOfDay / 60 % 60 * 60 + min (t.secOfDay % 60) 59 =
      t.secOfDay := by omega
  have hparts : (⟨t.day * secsPerDay + t.secOfDay - 0,
      t.nanos + if t.secOfDay % 60 = 60 then Duration.perSecond else 0⟩ : Timestamp) = t := by
    rw [if_neg (by omega), Int.sub_zero, day_add_secOfDay]
    rfl
  have hfirst : firstYear ≤ 0 := by decide
  rw [ofParts?, Date.dayNumber_ofDay, hsplit]
  simp only [hparts]
  exact if_pos ⟨Date.isValid_ofDay t.day, Int.le_trans hfirst h.fromZero, h.untilLast, by omega,
    by omega, by omega, Int.le_trans hfirst h.fromZero, h.untilLast⟩

/-- The written form: without a leap second, the parts are written as they are. -/
theorem chars_eq {t : Timestamp} (h : t.IsOrdinary) :
    t.chars = dateChars (Date.ofDay t.day) ++ 'T' :: (clockChars (t.secOfDay / 3600)
      (t.secOfDay / 60 % 60) (t.secOfDay % 60) t.nanos ++ ['Z']) := by
  rw [chars, isLeap_eq_false h]
  simp only [Bool.false_eq_true, if_false, Nat.add_zero, Nat.zero_mul, Nat.sub_zero,
    List.append_assoc, List.cons_append]

theorem date?_ofDay {t : Timestamp} (h : 0 ≤ (Date.ofDay t.day).year) (rest : List Char) :
    date? (dateChars (Date.ofDay t.day) ++ rest) = some (Date.ofDay t.day, rest) := by
  have hm := Date.month_ofDay t.day
  have hd := Date.day_ofDay t.day
  exact date?_dateChars h (by omega) (by omega) rest

theorem clock?_secOfDay {t : Timestamp} (h : t.IsOrdinary) :
    clock? (clockChars (t.secOfDay / 3600) (t.secOfDay / 60 % 60) (t.secOfDay % 60) t.nanos ++
      ['Z']) =
      some ((t.secOfDay / 3600, t.secOfDay / 60 % 60, t.secOfDay % 60, t.nanos), ['Z']) := by
  have hsec := t.secOfDay_lt
  simp only [secsPerDay] at hsec
  exact clock?_clockChars (by omega) (by omega) (by omega) h (ends_cons (by decide)) (by simp)

/-- What is written is read back. -/
theorem ofChars?_chars {t : Timestamp} (h : t.IsPlain) : ofChars? t.chars = some t := by
  have hzone : offset? (Text.trimLeft ['Z']) = some (0, []) := by decide
  rw [chars_eq h.ordinary, ofChars?, date?_ofDay h.fromZero]
  simp only [Option.bind_eq_bind, Option.bind_some, divider?, true_or, if_true,
    clock?_secOfDay h.ordinary, hzone, List.all_nil, ofParts?_of_isPlain h]

/-- From year 0 on, without leap seconds, the written form determines the point in time, however
late it is. -/
theorem eq_of_chars_eq {t u : Timestamp} (ht : t.IsOrdinary) (hu : u.IsOrdinary)
    (hty : 0 ≤ (Date.ofDay t.day).year) (huy : 0 ≤ (Date.ofDay u.day).year)
    (h : t.chars = u.chars) : t = u := by
  rw [chars_eq ht, chars_eq hu] at h
  have hdates := date?_ofDay hty ('T' :: (clockChars (t.secOfDay / 3600)
    (t.secOfDay / 60 % 60) (t.secOfDay % 60) t.nanos ++ ['Z']))
  rw [h, date?_ofDay huy] at hdates
  obtain ⟨hdate, hrest⟩ := Prod.mk.inj (Option.some.inj hdates)
  have hclocks := clock?_secOfDay ht
  rw [← (List.cons.inj hrest).2, clock?_secOfDay hu] at hclocks
  simp only [Option.some.injEq, Prod.mk.injEq, and_true] at hclocks
  obtain ⟨hhour, hminute, hsecond, hnanos⟩ := hclocks
  have hday : t.day = u.day := by
    rw [← Date.dayNumber_ofDay t.day, ← hdate, Date.dayNumber_ofDay]
  have hsplit : ∀ n : Nat, n / 3600 * 3600 + n / 60 % 60 * 60 + n % 60 = n := by omega
  have hsec : t.secOfDay = u.secOfDay := by
    rw [← hsplit t.secOfDay, ← hsplit u.secOfDay, hhour, hminute, hsecond]
  ext
  · rw [← t.day_add_secOfDay, ← u.day_add_secOfDay, hday, hsec]
  · exact hnanos.symm

/-! ## The written form -/

/-- The number of digits after the point of a text, and 0 if it has none. -/
def fractionDigits (s : List Char) : Nat :=
  (span ((s.dropWhile fun c => c != '.').drop 1)).1.length

/-- No point stands before the fraction. -/
theorem fractionDigits_append {s : List Char} (h : ∀ c ∈ s, c ≠ '.') (rest : List Char) :
    fractionDigits (s ++ rest) = fractionDigits rest := by
  rw [fractionDigits, fractionDigits, List.dropWhile_append_of_pos]
  intro c hc
  exact bne_iff_ne.2 (h c hc)

theorem fractionDigits_padded {width n : Nat} (hw : 0 < width) (h : n < Nat.pow 10 width)
    {rest : List Char} (hr : Ends rest) :
    fractionDigits ('.' :: padded width n ++ rest) = width := by
  have hd : ∀ c ∈ padded width n, c.isDigit = true := fun c hc => isDigit_of_mem_padded hc
  have hdrop : ((('.' :: padded width n ++ rest).dropWhile fun c => c != '.').drop 1) =
      padded width n ++ rest := rfl
  rw [fractionDigits, hdrop, span_append hd hr, length_padded hw h]

theorem fractionDigits_fractionChars {nanos : Nat} (h : nanos < 1000000000) :
    fractionDigits (fractionChars nanos ++ ['Z']) ∈ [0, 3, 6, 9] := by
  rcases fractionChars_cases h with ⟨-, hnone⟩ | ⟨width, n, hwidth, hn, -, hchars⟩
  · rw [hnone]
    decide
  · have hpos : 0 < width := (by decide : ∀ k ∈ [3, 6, 9], 0 < k) width hwidth
    rw [hchars, fractionDigits_padded hpos hn (ends_cons (by decide))]
    exact List.mem_cons_of_mem 0 hwidth

theorem ne_point_of_mem_padded {width n : Nat} {c : Char} (h : c ∈ padded width n) : c ≠ '.' := by
  rintro rfl
  exact absurd (isDigit_of_mem_padded h) (by decide)

theorem ne_point_of_mem_yearChars {y : Int} {c : Char} (h : c ∈ yearChars y) : c ≠ '.' := by
  unfold yearChars at h
  split at h
  · rcases List.mem_cons.1 h with rfl | h
    · decide
    · exact ne_point_of_mem_padded h
  · split at h
    · exact ne_point_of_mem_padded h
    · rcases List.mem_cons.1 h with rfl | h
      · decide
      · exact ne_point_of_mem_padded h

/-- A written point in time has 0, 3, 6 or 9 digits after its point. -/
theorem fractionDigits_chars {t : Timestamp} (h : t.IsOrdinary) :
    fractionDigits t.chars ∈ [0, 3, 6, 9] := by
  have hleap : t.isLeap = false := isLeap_eq_false h
  have hbefore : ∀ c ∈ dateChars (Date.ofDay t.day) ++ 'T' :: (padded 2 (t.secOfDay / 3600) ++
      ':' :: (padded 2 (t.secOfDay / 60 % 60) ++ ':' :: padded 2 (t.secOfDay % 60))), c ≠ '.' := by
    intro c hc
    simp only [dateChars, List.mem_append, List.mem_cons] at hc
    rcases hc with ((hc | rfl | hc) | rfl | hc) | rfl | hc | rfl | hc | rfl | hc
    · exact ne_point_of_mem_yearChars hc
    · decide
    · exact ne_point_of_mem_padded hc
    · decide
    · exact ne_point_of_mem_padded hc
    · decide
    · exact ne_point_of_mem_padded hc
    · decide
    · exact ne_point_of_mem_padded hc
    · decide
    · exact ne_point_of_mem_padded hc
  have hsplit : t.chars = dateChars (Date.ofDay t.day) ++ 'T' :: (padded 2 (t.secOfDay / 3600) ++
      ':' :: (padded 2 (t.secOfDay / 60 % 60) ++ ':' :: padded 2 (t.secOfDay % 60))) ++
      (fractionChars t.nanos ++ ['Z']) := by
    rw [chars, hleap]
    simp [clockChars]
  rw [hsplit, fractionDigits_append hbefore]
  exact fractionDigits_fractionChars h

theorem exists_cons_yearChars (y : Int) :
    ∃ c s, yearChars y = c :: s ∧ (c = '+' ↔ 10000 ≤ y) := by
  unfold yearChars
  split
  · rename_i hneg
    exact ⟨_, _, rfl, by simp only [Char.reduceEq, false_iff]; omega⟩
  · split
    · rename_i hshort
      obtain ⟨c, s, hfirst⟩ := List.exists_cons_of_ne_nil (padded_ne_nil 4 y.toNat)
      have hc : c.isDigit = true := isDigit_of_mem_padded (hfirst ▸ List.mem_cons_self)
      refine ⟨c, s, hfirst, ?_, by omega⟩
      rintro rfl
      exact absurd hc (by decide)
    · rename_i hlong
      exact ⟨_, _, rfl, by simp only [true_iff]; omega⟩

/-- The sign stands in front of the years from 10000 on. -/
theorem head?_chars_eq_plus (t : Timestamp) :
    t.chars.head? = some '+' ↔ 10000 ≤ (Date.ofDay t.day).year := by
  obtain ⟨c, s, hfirst, hplus⟩ := exists_cons_yearChars (Date.ofDay t.day).year
  rw [chars, dateChars, hfirst]
  simp only [List.cons_append, List.head?_cons, Option.some.injEq]
  exact hplus

end Timestamp
end Passage
