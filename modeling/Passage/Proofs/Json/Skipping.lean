/-
# Passing over what the grammar allows

A reader takes a phrase of the grammar off the front of a text, and leaves
what follows it.  This is shown for blanks, quoted texts and numbers
first, one lemma for each; a number ends only where something else begins
(`Stops`).

A value of any depth is passed over by an induction on the grammar
(`Grammar.passed`).  The skipper keeps the brackets that are still open,
so what is shown of a phrase is where the skipper goes on behind it, under
whatever brackets are open: behind a value, behind a part of a bracket,
and, with the closing bracket, behind the bracket itself.
-/
import Passage.Proofs.Json.Grammar

namespace Passage.Json

/-! ## Blanks -/

theorem skipSpace_cons {c : Char} (h : isSpace c = false) (s : List Char) :
    skipSpace (c :: s) = c :: s := by
  rw [skipSpace, List.dropWhile_cons_of_neg (by simp [h])]

theorem Blank.isSpace {gap : List Char} (h : Blank gap) {c : Char} (hc : c ∈ gap) :
    isSpace c = true := by
  have hblank := h c hc
  simp only [List.mem_cons, List.not_mem_nil, or_false] at hblank
  rcases hblank with rfl | rfl | rfl | rfl <;> decide

theorem Blank.skipSpace_append {gap : List Char} (h : Blank gap) (s : List Char) :
    skipSpace (gap ++ s) = skipSpace s :=
  List.dropWhile_append_of_pos fun _ hc => h.isSpace hc

theorem isSpace_of_isDigit {c : Char} (h : c.isDigit = true) : isSpace c = false := by
  simp only [isSpace, Bool.or_eq_false_iff, beq_eq_false_iff_ne]
  refine ⟨⟨⟨?_, ?_⟩, ?_⟩, ?_⟩ <;>
  · rintro rfl
    exact absurd h (by decide)

/-! ## Quoted texts -/

theorem hexValue?_of_hex {c : Char} {n : Nat} (h : Hex c n) : hexValue? c = some n := by
  obtain ⟨hn, rfl | rfl⟩ := h
  · exact (by decide : ∀ n < 16, hexValue? (hexDigit n) = some n) n hn
  · exact (by decide : ∀ n < 16, hexValue? (hexDigit n).toUpper = some n) n hn

theorem hex4_append {ds : List Char} {n : Nat} (h : Hex4 ds n) (rest : List Char) :
    hex4 (ds ++ rest) = .ok (n, rest) := by
  obtain ⟨ha, hb, hc, hd⟩ := h
  simp only [List.cons_append, List.nil_append, hex4, hexValue?_of_hex ha, hexValue?_of_hex hb,
    hexValue?_of_hex hc, hexValue?_of_hex hd]

/-- No character has the number of half a pair. -/
theorem not_surrogate (c : Char) : isLeading c.toNat = false ∧ isTrailing c.toNat = false := by
  have hvalid : c.toNat < 0xD800 ∨ 0xDFFF < c.toNat := by
    rcases c.valid with h | h
    · exact .inl h
    · exact .inr h.1
  simp only [isLeading, isTrailing, Bool.and_eq_false_iff, decide_eq_false_iff_not]
  omega

/-- A symbol is read as one unit, unless halves of a pair must stand together and it is one. -/
theorem unit_symbol {paired : Bool} {symbol : List Char} {n : Nat} (h : Symbol symbol n)
    (hn : paired = true → isLeading n = false ∧ isTrailing n = false) (rest : List Char) :
    unit paired (symbol ++ rest) = .ok (some (Char.ofNat n), rest) := by
  cases h with
  | @plain c hspace hquote hbackslash =>
      rw [List.singleton_append, unit, if_neg hquote, if_neg hbackslash,
        if_neg (Nat.not_lt.2 hspace), Char.ofNat_toNat]
  | @short letter c h =>
      have hshort : letter ≠ 'u' ∧ shortEscape? letter = some c :=
        (by decide : ∀ e ∈ shortEscapes, e.1 ≠ 'u' ∧ shortEscape? e.1 = some e.2) _ h
      have hescape : escapeSequence paired (letter :: rest) = .ok (c, rest) := by
        rw [escapeSequence, if_neg hshort.1, hshort.2]
      rw [List.cons_append, List.singleton_append, unit, if_neg (by decide), if_pos rfl, hescape,
        Char.ofNat_toNat]
      rfl
  | @numbered digits n h =>
      have hcode : codePoint paired (digits ++ rest) = .ok (Char.ofNat n, rest) := by
        rw [codePoint, hex4_append h]
        cases paired with
        | false => rfl
        | true =>
            obtain ⟨hleading, htrailing⟩ := hn rfl
            simp only [bind, Except.bind, hleading, htrailing, Bool.and_false, Bool.false_eq_true,
              if_false]
      rw [List.cons_append, List.cons_append, unit, if_neg (by decide), if_pos rfl,
        escapeSequence, if_pos rfl, hcode]
      rfl

/-- The two halves of a pair are read as one unit. -/
theorem unit_pair {high low : List Char} {n m : Nat} {c : Char} (hhigh : Hex4 high n)
    (hlow : Hex4 low m) (h : Surrogates c n m) (rest : List Char) :
    unit true ('\\' :: 'u' :: high ++ ('\\' :: 'u' :: low ++ rest)) = .ok (some c, rest) := by
  have hbeyond := h.beyond
  have hn := h.high_eq
  have hm := h.low_eq
  have hlast : c.toNat < 0xD800 ∨ 0xDFFF < c.toNat ∧ c.toNat < 0x110000 := c.valid
  have hleading : isLeading n = true ∧ isTrailing n = false := by
    simp only [isLeading, isTrailing, Bool.and_eq_true, Bool.and_eq_false_iff, decide_eq_true_eq,
      decide_eq_false_iff_not]
    omega
  have htrailing : isTrailing m = true := by
    simp only [isTrailing, Bool.and_eq_true, decide_eq_true_eq]
    omega
  have hchar : pairedChar n m = c := by
    have hnumber : 0x10000 + (n - 0xD800) * 0x400 + (m - 0xDC00) = c.toNat := by omega
    rw [pairedChar, hnumber, Char.ofNat_toNat]
  have hword : word ['\\', 'u'] ('\\' :: 'u' :: low ++ rest) = .ok (low ++ rest) := rfl
  have hcode : codePoint true (high ++ ('\\' :: 'u' :: low ++ rest)) = .ok (c, rest) := by
    rw [codePoint, hex4_append hhigh]
    simp only [bind, Except.bind, hleading, htrailing, Bool.and_self, Bool.and_false,
      Bool.false_eq_true, if_false, if_true, hword, hex4_append hlow, hchar]
  simp only [List.cons_append] at hcode ⊢
  rw [unit, if_neg (by decide), if_pos rfl, escapeSequence, if_pos rfl, hcode]
  rfl

/-- A quoted text is read unit by unit. -/
theorem quotation_eq (paired : Bool) (s : List Char) :
    quotation paired s = unit paired s >>= fun x =>
      match x.1 with
      | none => .ok ([], x.2)
      | some c => (quotation paired x.2).map fun (cs, rest) => (c :: cs, rest) := by
  rw [quotation]
  split
  · rename_i h
    rw [h]
    rfl
  · rename_i h
    rw [h]
    rfl
  · rename_i c rest h
    show (quotation paired rest).map (fun (cs, rest) => (c :: cs, rest)) = _
    rw [h]
    rfl

theorem quotation_closed (paired : Bool) (rest : List Char) :
    quotation paired ('"' :: rest) = .ok ([], rest) := by
  have hunit : unit paired ('"' :: rest) = .ok (none, rest) := rfl
  rw [quotation_eq, hunit]
  rfl

theorem quotation_of_unit {paired : Bool} {s rest : List Char} {c : Char}
    (hunit : unit paired s = .ok (some c, rest)) :
    quotation paired s = (quotation paired rest).map fun (cs, rest) => (c :: cs, rest) := by
  rw [quotation_eq, hunit]
  rfl

/-- A quoted text is read up to its closing quote, even if it stands for no characters. -/
theorem quotation_body {s : List Char} (h : Body s) (rest : List Char) :
    ∃ cs, quotation false (s ++ '"' :: rest) = .ok (cs, rest) := by
  induction h with
  | nil => exact ⟨[], quotation_closed false rest⟩
  | @cons symbol s n h _ ih =>
      obtain ⟨cs, hcs⟩ := ih
      rw [List.append_assoc, quotation_of_unit (unit_symbol h (fun h => absurd h (by decide)) _),
        hcs]
      exact ⟨_, rfl⟩

/-- A quoted text that stands for characters is read as these. -/
theorem quotation_spells {s cs : List Char} (h : Spells s cs) (rest : List Char) :
    quotation true (s ++ '"' :: rest) = .ok (cs, rest) := by
  induction h with
  | nil => exact quotation_closed true rest
  | @cons symbol s cs c h _ ih =>
      have hunit : unit true (symbol ++ (s ++ '"' :: rest)) =
          .ok (some (Char.ofNat c.toNat), s ++ '"' :: rest) :=
        unit_symbol h (fun _ => not_surrogate c) _
      rw [Char.ofNat_toNat] at hunit
      rw [List.append_assoc, quotation_of_unit hunit, ih]
      rfl
  | @pair high low s cs n m c hhigh hlow h _ ih =>
      have hunit := unit_pair hhigh hlow h (s ++ '"' :: rest)
      rw [List.append_assoc, List.append_assoc, quotation_of_unit hunit, ih]
      rfl

theorem quotation_escape (s rest : List Char) :
    quotation true (escape s ++ '"' :: rest) = .ok (s, rest) :=
  quotation_spells (spells_escape s) rest

/-! ## Numbers -/

/-- A text that may follow a number: it is at its end, or at a blank, a comma or a closing
bracket. -/
def Stops (rest : List Char) : Prop :=
  ∀ c s, rest = c :: s → isSpace c = true ∨ c = ',' ∨ c = ']' ∨ c = '}'

theorem stops_cons {c : Char} (h : isSpace c = true ∨ c = ',' ∨ c = ']' ∨ c = '}')
    (s : List Char) : Stops (c :: s) := by
  intro d t he
  cases he
  exact h

/-- Blanks in front of a text that a number stops at leave it one. -/
theorem Blank.stops_append {gap rest : List Char} (h : Blank gap) (hr : Stops rest) :
    Stops (gap ++ rest) := by
  cases gap with
  | nil => exact hr
  | cons c gap => exact stops_cons (.inl (h.isSpace List.mem_cons_self)) _

/-- Where a number stops there is nothing that could belong to it. -/
theorem Stops.ne {rest : List Char} (h : Stops rest) {c : Char}
    (hc : isSpace c = false ∧ c ≠ ',' ∧ c ≠ ']' ∧ c ≠ '}') (s : List Char) : rest ≠ c :: s := by
  intro he
  rcases h c s he with hspace | rfl | rfl | rfl
  · exact absurd (hc.1.symm.trans hspace) (by decide)
  · exact hc.2.1 rfl
  · exact hc.2.2.1 rfl
  · exact hc.2.2.2 rfl

theorem Stops.ends {rest : List Char} (h : Stops rest) : Decimal.Ends rest := by
  intro c s he
  cases hc : c.isDigit with
  | false => rfl
  | true =>
      have hne : c ≠ ',' ∧ c ≠ ']' ∧ c ≠ '}' := by
        refine ⟨?_, ?_, ?_⟩ <;>
        · rintro rfl
          exact absurd hc (by decide)
      exact absurd he (h.ne ⟨isSpace_of_isDigit hc, hne⟩ s)

namespace Numeral

theorem digits1_append {ds rest : List Char} (h : Digits ds) (hr : Decimal.Ends rest) :
    digits1 (ds ++ rest) = .ok (ds, rest) := by
  obtain ⟨c, s, rfl⟩ := List.exists_cons_of_ne_nil h.ne_nil
  rw [digits1, Decimal.span_append h.isDigit hr]

theorem scanWhole_append {ds rest : List Char} (h : Whole ds) (hr : Decimal.Ends rest) :
    scanWhole (ds ++ rest) = .ok (ds, rest) := by
  rw [scanWhole, digits1_append h.toDigits hr]
  exact if_neg fun hzero => hzero.2 (h.alone hzero.1)

theorem scanSign_append {sign ds : List Char} (hsign : sign ∈ [[], ['-']]) (h : Digits ds)
    (rest : List Char) : ∃ negative, scanSign (sign ++ (ds ++ rest)) = (negative, ds ++ rest) := by
  obtain ⟨c, s, rfl⟩ := List.exists_cons_of_ne_nil h.ne_nil
  simp only [List.mem_cons, List.not_mem_nil, or_false] at hsign
  rcases hsign with rfl | rfl
  · refine ⟨false, ?_⟩
    rw [List.nil_append, List.cons_append, scanSign]
    rintro _ ⟨rfl, _⟩
    exact absurd (h.isDigit '-' List.mem_cons_self) (by decide)
  · exact ⟨true, rfl⟩

theorem scanFraction_append {s rest : List Char} (h : Fraction s) (hr : Decimal.Ends rest)
    (hpoint : ∀ t, rest ≠ '.' :: t) : ∃ ds, scanFraction (s ++ rest) = .ok (ds, rest) := by
  cases h with
  | none => exact ⟨[], by rw [List.nil_append, scanFraction]; exact hpoint⟩
  | @point ds h => exact ⟨ds, digits1_append h hr⟩

theorem scanPower_append {sign ds rest : List Char} (hsign : sign ∈ [[], ['+'], ['-']])
    (h : Digits ds) (hr : Decimal.Ends rest) :
    ∃ n, scanPower (sign ++ (ds ++ rest)) = .ok (n, rest) := by
  have hdigits := digits1_append h hr
  simp only [List.mem_cons, List.not_mem_nil, or_false] at hsign
  rcases hsign with rfl | rfl | rfl
  · obtain ⟨c, s, rfl⟩ := List.exists_cons_of_ne_nil h.ne_nil
    have hc := h.isDigit c List.mem_cons_self
    refine ⟨Decimal.value (c :: s), ?_⟩
    rw [List.nil_append, List.cons_append] at *
    rw [scanPower, hdigits]
    · rfl
    · rintro _ ⟨rfl, _⟩
      exact absurd hc (by decide)
    · rintro _ ⟨rfl, _⟩
      exact absurd hc (by decide)
  · exact ⟨Decimal.value ds, by rw [List.singleton_append, scanPower, hdigits]; rfl⟩
  · exact ⟨-Decimal.value ds, by rw [List.singleton_append, scanPower, hdigits]; rfl⟩

theorem scanExponent_append {s rest : List Char} (h : Exponent s) (hr : Stops rest) :
    ∃ n, scanExponent (s ++ rest) = .ok (n, rest) := by
  cases h with
  | none =>
      refine ⟨none, ?_⟩
      rw [List.nil_append, scanExponent]
      · exact hr.ne (by decide)
      · exact hr.ne (by decide)
  | @power letter sign ds hletter hsign h =>
      obtain ⟨n, hpower⟩ := scanPower_append hsign h hr.ends
      rw [List.cons_append, List.append_assoc]
      simp only [List.mem_cons, List.not_mem_nil, or_false] at hletter
      rcases hletter with rfl | rfl
      · exact ⟨some n, by rw [scanExponent, hpower]; rfl⟩
      · exact ⟨some n, by rw [scanExponent, hpower]; rfl⟩

/-- What follows the digits before the point does not belong to them. -/
theorem ends_exponent {s rest : List Char} (h : Exponent s) (hr : Stops rest) :
    Decimal.Ends (s ++ rest) ∧ ∀ t, s ++ rest ≠ '.' :: t := by
  cases h with
  | none => exact ⟨hr.ends, hr.ne (by decide)⟩
  | @power letter sign ds hletter _ _ =>
      have hboth : letter.isDigit = false ∧ letter ≠ '.' := by
        simp only [List.mem_cons, List.not_mem_nil, or_false] at hletter
        rcases hletter with rfl | rfl <;> decide
      exact ⟨Decimal.ends_cons hboth.1, fun t he => hboth.2 (List.cons.inj he).1⟩

theorem ends_fraction {s rest : List Char} (h : Fraction s) (hr : Decimal.Ends rest) :
    Decimal.Ends (s ++ rest) := by
  cases h with
  | none => exact hr
  | point h => exact Decimal.ends_cons (by decide)

/-- A number is scanned up to where it stops. -/
theorem scan_append {s rest : List Char} (h : Literal s) (hr : Stops rest) :
    ∃ x, scan (s ++ rest) = .ok (x, rest) := by
  obtain ⟨hsign, hwhole, hfraction, hexponent⟩ := h
  rename_i sign whole fraction exponent
  obtain ⟨hends, hpoint⟩ := ends_exponent hexponent hr
  obtain ⟨negative, hnegative⟩ :=
    scanSign_append hsign hwhole.toDigits (fraction ++ (exponent ++ rest))
  obtain ⟨ds, hds⟩ := scanFraction_append hfraction hends hpoint
  obtain ⟨n, hn⟩ := scanExponent_append hexponent hr
  refine ⟨⟨negative, whole, ds, n⟩, ?_⟩
  simp only [List.append_assoc]
  rw [scan, hnegative]
  simp only [scanWhole_append hwhole (ends_fraction hfraction hends), hds, hn, bind, Except.bind]
  rfl

/-- A number begins with a sign or a digit. -/
theorem exists_cons_literal {s : List Char} (h : Literal s) :
    ∃ c t, s = c :: t ∧ (c = '-' ∨ c.isDigit = true) := by
  obtain ⟨hsign, hwhole, -, -⟩ := h
  simp only [List.mem_cons, List.not_mem_nil, or_false] at hsign
  rcases hsign with rfl | rfl
  · rename_i whole _ _
    obtain ⟨c, t, rfl⟩ := List.exists_cons_of_ne_nil hwhole.ne_nil
    exact ⟨c, _, rfl, .inr (hwhole.isDigit c List.mem_cons_self)⟩
  · exact ⟨'-', _, rfl, .inl rfl⟩

end Numeral

/-! ## Values -/

theorem colon_append {gap : List Char} (h : Blank gap) (s : List Char) :
    colon (gap ++ ':' :: s) = .ok s := by
  rw [colon, h.skipSpace_append, skipSpace_cons (by decide)]
  exact if_pos rfl

/-- The skipper at a place, or at its end with the rest of the text. -/
def onward : Option Place → List Char → Except Fault (List Char)
  | none, s => .ok s
  | some p, s => skipFrom p s

/-- The skipper in front of a part of a bracket. -/
def entering (b : Bracket) (above : List Bracket) (s : List Char) : Except Fault (List Char) :=
  enter b above s >>= fun x => onward x.1 x.2

theorem skipFrom_eq (p : Place) (s : List Char) :
    skipFrom p s = step p s >>= fun x => onward x.1 x.2 := by
  rw [skipFrom]
  split
  · rename_i h
    rw [h]
    rfl
  · rename_i h
    rw [h]
    rfl
  · rename_i q rest h
    show skipFrom q rest = _
    rw [h]
    rfl

theorem skipFrom_of_step {p : Place} {q : Option Place} {s rest : List Char}
    (h : step p s = .ok (q, rest)) : skipFrom p s = onward q rest := by
  rw [skipFrom_eq, h]
  rfl

theorem Blank.skipFrom_append {gap : List Char} (h : Blank gap) (p : Place) (s : List Char) :
    skipFrom p (gap ++ s) = skipFrom p s := by
  cases p <;> rw [skipFrom_eq, skipFrom_eq, step, step, h.skipSpace_append]

theorem Blank.entering_append {gap : List Char} (h : Blank gap) (b : Bracket)
    (above : List Bracket) (s : List Char) :
    entering b above (gap ++ s) = entering b above s := by
  cases b with
  | list => exact h.skipFrom_append (.value (.list :: above)) s
  | object => rw [entering, entering, enter, enter, skipKey, skipKey, h.skipSpace_append]

theorem closing_not_space (b : Bracket) : isSpace b.closing = false := by
  cases b <;> decide

theorem stops_closing (b : Bracket) (s : List Char) : Stops (b.closing :: s) := by
  cases b with
  | list => exact stops_cons (.inr (.inr (.inl rfl))) s
  | object => exact stops_cons (.inr (.inr (.inr rfl))) s

/-- A number begins with a sign or a digit, and that begins nothing else. -/
theorem of_sign_or_digit {c : Char} (h : c = '-' ∨ c.isDigit = true) :
    isSpace c = false ∧ c ∉ [']', '}', '[', '{', '"', 'n', 't', 'f'] := by
  rcases h with rfl | h
  · decide
  · refine ⟨isSpace_of_isDigit h, fun hc => ?_⟩
    simp only [List.mem_cons, List.not_mem_nil, or_false] at hc
    rcases hc with rfl | rfl | rfl | rfl | rfl | rfl | rfl | rfl <;> exact absurd h (by decide)

/-- Behind its blanks, a phrase begins with a character that closes no bracket. -/
theorem Grammar.exists_head {p : Phrase} {s : List Char} (h : Grammar p s) :
    ∃ gap c t, s = gap ++ c :: t ∧ Blank gap ∧ isSpace c = false ∧ ∀ b : Bracket, c ≠ b.closing := by
  have hclosing : ∀ c, c ∉ [']', '}'] → ∀ b : Bracket, c ≠ b.closing := by
    rintro c hc (_ | _) rfl
    · exact hc (by decide)
    · exact hc (by decide)
  induction h with
  | @word s h =>
      have hhead : ∀ s ∈ words, ∃ c t, s = c :: t ∧ isSpace c = false ∧ c ∉ [']', '}'] := by
        simp [words, isSpace]
      obtain ⟨c, t, rfl, hspace, hc⟩ := hhead s h
      exact ⟨[], c, t, rfl, blank_nil, hspace, hclosing c hc⟩
  | number h =>
      obtain ⟨c, t, rfl, hc⟩ := Numeral.exists_cons_literal h
      obtain ⟨hspace, hother⟩ := of_sign_or_digit hc
      refine ⟨[], c, t, rfl, blank_nil, hspace, hclosing c fun hmem => hother ?_⟩
      exact List.mem_append_left ['[', '{', '"', 'n', 't', 'f'] hmem
  | quoted _ => exact ⟨[], '"', _, rfl, blank_nil, by decide, hclosing '"' (by decide)⟩
  | empty b _ | bracket b _ _ =>
      refine ⟨[], b.opening, _, rfl, blank_nil, ?_, hclosing b.opening ?_⟩ <;> cases b <;> decide
  | @element before s after hbefore _ _ ih =>
      obtain ⟨gap, c, t, rfl, hgap, hc⟩ := ih
      exact ⟨before ++ gap, c, t ++ after, by simp, hbefore.append hgap, hc⟩
  | item _ ih => exact ih
  | member hbefore _ _ _ _ =>
      exact ⟨_, '"', _, rfl, hbefore, by decide, hclosing '"' (by decide)⟩
  | last _ ih => exact ih
  | @more b s u _ _ ih _ =>
      obtain ⟨gap, c, t, rfl, hgap, hc⟩ := ih
      exact ⟨gap, c, t ++ ',' :: u, by simp, hgap, hc⟩

/-- What it is to pass over a phrase: behind a value the skipper goes on to whatever is open above
it, behind a part it stands in its bracket, and behind all the parts of a bracket the bracket is
closed. -/
def Phrase.Passed : Phrase → List Char → Prop
  | value, s => ∀ above rest, Stops rest →
      skipFrom (.value above) (s ++ rest) = onward (Place.past above) rest
  | element, s => ∀ b above rest, Stops rest →
      skipFrom (.value (b :: above)) (s ++ rest) = skipFrom (.after b above) rest
  | part b, s => ∀ above rest, Stops rest →
      entering b above (s ++ rest) = skipFrom (.after b above) rest
  | parts b, s => ∀ above rest,
      entering b above (s ++ b.closing :: rest) = onward (Place.past above) rest

theorem passed_of_scalar {c : Char} {s : List Char} (hc : isSpace c = false ∧ c ≠ '[' ∧ c ≠ '{')
    (h : ∀ rest, Stops rest → skipScalar (c :: s ++ rest) = .ok rest) :
    Phrase.value.Passed (c :: s) := by
  intro above rest hr
  refine skipFrom_of_step ?_
  have hscalar := h rest hr
  rw [List.cons_append] at hscalar ⊢
  simp only [step, skipSpace_cons hc.1, hc.2.1, hc.2.2, if_false, hscalar]
  rfl

theorem passed_number {s : List Char} (h : Numeral.Literal s) : Phrase.value.Passed s := by
  obtain ⟨c, t, rfl, hc⟩ := Numeral.exists_cons_literal h
  obtain ⟨hspace, hother⟩ := of_sign_or_digit hc
  simp only [List.mem_cons, List.not_mem_nil, or_false, not_or] at hother
  obtain ⟨-, -, hlist, hobject, hquote, hn, ht, hf⟩ := hother
  refine passed_of_scalar ⟨hspace, hlist, hobject⟩ fun rest hr => ?_
  obtain ⟨x, hx⟩ := Numeral.scan_append h hr
  rw [List.cons_append] at hx ⊢
  simp only [skipScalar, hn, ht, hf, hquote, hc, if_false, if_true, skipNumber, hx]

theorem passed_quoted {s : List Char} (h : Body s) : Phrase.value.Passed ('"' :: (s ++ ['"'])) := by
  refine passed_of_scalar (by decide) fun rest _ => ?_
  obtain ⟨cs, hcs⟩ := quotation_body h rest
  have htext : '"' :: (s ++ ['"']) ++ rest = '"' :: (s ++ '"' :: rest) := by simp
  simp only [htext, skipScalar, Char.reduceEq, if_false, if_true, hcs]
  rfl

/-- The opening of a bracket is followed by what the bracket holds. -/
theorem step_opening (b : Bracket) (above : List Bracket) (s : List Char) :
    step (.value above) (b.opening :: s) = opened b above s := by
  cases b <;> rfl

theorem passed_empty (b : Bracket) {gap : List Char} (h : Blank gap) :
    Phrase.value.Passed (b.opening :: (gap ++ [b.closing])) := by
  intro above rest _
  have hspace : skipSpace (gap ++ b.closing :: rest) = b.closing :: rest := by
    rw [h.skipSpace_append, skipSpace_cons (closing_not_space b)]
  refine skipFrom_of_step ?_
  rw [List.cons_append, step_opening, List.append_assoc, List.singleton_append, opened, hspace]
  exact if_pos rfl

theorem passed_bracket (b : Bracket) {s : List Char} (h : Grammar (.parts b) s)
    (hs : (Phrase.parts b).Passed s) : Phrase.value.Passed (b.opening :: (s ++ [b.closing])) := by
  intro above rest _
  obtain ⟨gap, c, t, rfl, hgap, hspace, hclosing⟩ := h.exists_head
  have hparts := hs above rest
  have hopened : opened b above (gap ++ c :: t ++ b.closing :: rest) =
      enter b above (c :: t ++ b.closing :: rest) := by
    rw [List.append_assoc, opened, hgap.skipSpace_append, List.cons_append, skipSpace_cons hspace]
    exact if_neg (hclosing b)
  rw [List.append_assoc, hgap.entering_append] at hparts
  rw [skipFrom_eq, List.cons_append, step_opening, List.append_assoc (gap ++ c :: t),
    List.singleton_append, hopened]
  exact hparts

theorem passed_member {before key gap s : List Char} (hbefore : Blank before) (hkey : Body key)
    (hgap : Blank gap) (hs : Phrase.element.Passed s) :
    (Phrase.part .object).Passed (before ++ '"' :: (key ++ '"' :: (gap ++ ':' :: s))) := by
  intro above rest hr
  obtain ⟨cs, hcs⟩ := quotation_body hkey (gap ++ ':' :: (s ++ rest))
  have hcolon := colon_append hgap (s ++ rest)
  have hskip : skipKey ('"' :: (key ++ '"' :: (gap ++ ':' :: (s ++ rest)))) = .ok (s ++ rest) := by
    rw [skipKey, skipSpace_cons (by decide)]
    simp only [if_true, hcs, bind, Except.bind, hcolon]
  have htext : before ++ '"' :: (key ++ '"' :: (gap ++ ':' :: s)) ++ rest =
      before ++ '"' :: (key ++ '"' :: (gap ++ ':' :: (s ++ rest))) := by simp
  rw [htext, hbefore.entering_append, entering, enter, hskip]
  exact hs .object above rest hr

/-- After a part comes a comma and the next one. -/
theorem skipFrom_comma (b : Bracket) (above : List Bracket) (s : List Char) :
    skipFrom (.after b above) (',' :: s) = entering b above s := by
  rw [skipFrom_eq, step, skipSpace_cons (by decide)]
  rfl

theorem skipFrom_closing (b : Bracket) (above : List Bracket) (s : List Char) :
    skipFrom (.after b above) (b.closing :: s) = onward (Place.past above) s := by
  have hcomma : b.closing ≠ ',' := by cases b <;> decide
  refine skipFrom_of_step ?_
  simp only [step, skipSpace_cons (closing_not_space b), hcomma, if_false, if_true]

/-- Every phrase of the grammar is passed over. -/
theorem Grammar.passed {p : Phrase} {s : List Char} (h : Grammar p s) : p.Passed s := by
  induction h with
  | @word s h =>
      simp only [words, List.mem_cons, List.not_mem_nil, or_false] at h
      rcases h with rfl | rfl | rfl
      · exact passed_of_scalar (by decide) fun _ _ => rfl
      · exact passed_of_scalar (by decide) fun _ _ => rfl
      · exact passed_of_scalar (by decide) fun _ _ => rfl
  | number h => exact passed_number h
  | quoted h => exact passed_quoted h
  | empty b h => exact passed_empty b h
  | bracket b h ih => exact passed_bracket b h ih
  | @element before s after hbefore _ hafter ih =>
      intro b above rest hr
      have hvalue := ih (b :: above) (after ++ rest) (hafter.stops_append hr)
      rw [List.append_assoc, List.append_assoc, hbefore.skipFrom_append, hvalue]
      exact hafter.skipFrom_append (.after b above) rest
  | item _ ih => exact fun above rest hr => ih .list above rest hr
  | member hbefore hkey hgap _ ih => exact passed_member hbefore hkey hgap ih
  | @last b s _ ih =>
      intro above rest
      rw [ih above _ (stops_closing b rest), skipFrom_closing]
  | @more b s t _ _ ih iht =>
      intro above rest
      have hcomma : Stops (',' :: (t ++ b.closing :: rest)) := stops_cons (.inr (.inl rfl)) _
      rw [List.append_assoc, List.cons_append, ih above _ hcomma, skipFrom_comma, iht]

/-- A value is passed over, however deep it is nested, and what follows it is left. -/
theorem skip_append {s rest : List Char} (h : Grammar .value s) (hr : Stops rest) :
    skip (s ++ rest) = .ok rest :=
  h.passed [] rest hr

end Passage.Json
