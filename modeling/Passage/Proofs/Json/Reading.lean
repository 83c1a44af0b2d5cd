/-
# Reading back what is written

`Reads read x a`: in front of anything that may follow a value in a
written text, the reader takes off just the compact text of `x` and
returns `a`.  There is one rule for each kind of value that is written.

  `reads_natural`  numbers below 2^64
  `reads_text`     texts, with all their escapes
  `reads_choice`   the names of a choice
  `reads_list`     lists, item by item
  `reads_ofOption` values that may be missing
  `reads_record`   objects, whose members fill a draft one by one

A reader that reads a value reads it as a whole text too:
`readWhole_render`.
-/
import Passage.Proofs.Json.Skipping
import Passage.Json.Record

namespace Passage.Json

variable {α δ : Type}

/-! ## What may follow a value -/

/-- A text that may follow a value: it is at its end, or at a comma or a closing bracket. -/
def Closes (rest : List Char) : Prop :=
  ∀ c s, rest = c :: s → c = ',' ∨ c = ']' ∨ c = '}'

theorem closes_nil : Closes [] := by
  intro c s h
  cases h

theorem closes_cons {c : Char} (h : c = ',' ∨ c = ']' ∨ c = '}') (s : List Char) :
    Closes (c :: s) := by
  intro d t he
  cases he
  exact h

theorem Closes.stops {rest : List Char} (h : Closes rest) : Stops rest :=
  fun c s he => .inr (h c s he)

/-- The reader takes off the compact text of the value, whatever may follow it, and returns `a`. -/
def Reads (read : Reader α) (x : Json) (a : α) : Prop :=
  ∀ rest, Closes rest → read (compact x ++ rest) = .ok (a, rest)

theorem readWhole_render {read : Reader α} {x : Json} {a : α} (h : Reads read x a) :
    readWhole read (render x) = .ok a := by
  have hall := h [] closes_nil
  rw [List.append_nil] at hall
  rw [readWhole, render, String.toList_ofList, hall]
  rfl

/-- All but the first of the parts between two brackets, each with the comma in front of it. -/
def later {β : Type} (write : β → List Char) (xs : List β) : List Char :=
  xs.flatMap fun x => ',' :: write x

section
variable {β : Type} (write : β → List Char)

@[simp] theorem later_nil : later write [] = [] := rfl

@[simp] theorem later_cons (x : β) (xs : List β) :
    later write (x :: xs) = ',' :: (write x ++ later write xs) := rfl

theorem length_le_later (xs : List β) : xs.length ≤ (later write xs).length := by
  induction xs with
  | nil => exact Nat.le_refl 0
  | cons x xs ih =>
      simp only [later_cons, List.length_cons, List.length_append]
      omega

theorem closes_later (xs : List β) {rest : List Char} (h : Closes rest) :
    Closes (later write xs ++ rest) := by
  cases xs with
  | nil => exact h
  | cons x xs => exact closes_cons (Or.inl rfl) _

end

/-! ## Quoted texts -/

theorem reads_text (s : String) : Reads readText (.text s) s.toList := by
  intro rest _
  rw [compact, quoted, List.append_assoc, List.cons_append, readText, skipSpace_cons (c := '"') rfl]
  simp only [if_true, List.singleton_append]
  exact quotation_escape s.toList rest

theorem reads_choice {cs : Choices α} {name : String} {a : α} (h : cs.lookup name = some a) :
    Reads (readChoice cs) (.text name) a := by
  intro rest _
  have hfind : cs.find? name.toList = .ok a := by
    rw [Choices.find?, String.ofList_toList, h]
  rw [compact, quoted, List.append_assoc, List.cons_append, readChoice,
    skipSpace_cons (c := '"') rfl]
  simp only [if_true, List.singleton_append, quotation_escape, bind, Except.bind, hfind]
  rfl

/-! ## Numbers -/

namespace Numeral

/-- A plain row of digits, as numbers are written. -/
def plain (n : Nat) : Numeral := ⟨false, Decimal.digits n, [], none⟩

theorem scan_digits {n : Nat} {rest : List Char} (hr : Stops rest) :
    scan (Decimal.digits n ++ rest) = .ok (plain n, rest) := by
  have hsign : scanSign (Decimal.digits n ++ rest) = (false, Decimal.digits n ++ rest) := by
    obtain ⟨c, s, hfirst, hc⟩ := Decimal.exists_cons_digits n
    rw [hfirst, List.cons_append, scanSign]
    rintro _ ⟨rfl, _⟩
    exact absurd hc (by decide)
  have hfraction : scanFraction rest = .ok ([], rest) := by
    rw [scanFraction]
    exact hr.ne (by decide)
  have hexponent : scanExponent rest = .ok (none, rest) := by
    rw [scanExponent]
    · exact hr.ne (by decide)
    · exact hr.ne (by decide)
  rw [scan, hsign]
  simp only [scanWhole_append (whole_digits n) hr.ends, hfraction, hexponent, bind, Except.bind]
  rfl

/-- One digit more in front of the point, as `wholeSize` takes it. -/
def pushDigit : Nat × Int → Char → Nat × Int := fun (n, power) c =>
  let next := 10 * n + Decimal.value [c]
  if power = 0 ∧ next < wordLimit then (next, 0) else (n, power + 1)

theorem wholeSize_eq_foldl (ds : List Char) : wholeSize ds = ds.foldl pushDigit (0, 0) := rfl

theorem value_singleton (c : Char) : Decimal.value [c] = c.toNat - '0'.toNat := by
  rw [Decimal.value, Nat.ofDigitChars_cons, Nat.ofDigitChars_nil]
  omega

/-- As long as the number fits into 64 bits, no digit raises the power. -/
theorem foldl_pushDigit {ds : List Char} {m : Nat} (h : Nat.ofDigitChars 10 ds m < wordLimit) :
    ds.foldl pushDigit (m, 0) = (Nat.ofDigitChars 10 ds m, 0) := by
  induction ds generalizing m with
  | nil => rfl
  | cons c ds ih =>
      rw [Nat.ofDigitChars_cons] at h ⊢
      have hnext : 10 * m + (c.toNat - '0'.toNat) < wordLimit := by
        have hpos := Nat.le_mul_of_pos_left (10 * m + (c.toNat - '0'.toNat))
          (Nat.pow_pos (n := ds.length) (by omega : 0 < 10))
        rw [Nat.ofDigitChars_eq_ofDigitChars_zero] at h
        omega
      have hpush : pushDigit (m, 0) c = (10 * m + (c.toNat - '0'.toNat), 0) := by
        simp only [pushDigit, value_singleton, hnext, true_and, if_true]
      rw [List.foldl_cons, hpush]
      exact ih h

theorem wholeSize_digits {n : Nat} (h : n < wordLimit) : wholeSize (Decimal.digits n) = (n, 0) := by
  have hvalue : Nat.ofDigitChars 10 (Decimal.digits n) 0 = n := Decimal.value_digits n
  rw [wholeSize_eq_foldl, foldl_pushDigit (by rw [hvalue]; exact h), hvalue]

/-- Rounding adds at most one unit in the last place, and that is not more than the number. -/
theorem roundToDouble_le {n : Nat} (h : n ≠ 0) : roundToDouble n ≤ 2 * n := by
  have hpos : 0 < Nat.pow 2 (Nat.log2 n - 52) := Nat.pow_pos (by omega)
  have hunit : Nat.pow 2 (Nat.log2 n - 52) ≤ n :=
    Nat.le_trans (Nat.pow_le_pow_right (by omega) (Nat.sub_le _ _)) (Nat.log2_self_le h)
  simp only [roundToDouble]
  generalize Nat.pow 2 (Nat.log2 n - 52) = unit at hpos hunit ⊢
  have hdiv : n / unit * unit ≤ n := Nat.div_mul_le_self n unit
  split
  · rw [Nat.add_mul, Nat.one_mul]
    omega
  · omega

theorem isHuge_plain {n : Nat} (h : n < wordLimit) : (plain n).isHuge = false := by
  have hlimit : 2 * wordLimit ≤ doubleLimit := by decide +kernel
  have hone : roundToDouble (Nat.pow 10 (Int.toNat 0)) = 1 := by decide +kernel
  simp only [isHuge, plain, wholeSize_digits h, fractionSize, Option.getD_none, Int.add_zero]
  by_cases hn : n = 0
  · simp [hn]
  · have hround := roundToDouble_le hn
    rw [if_neg (by omega), if_neg (by omega), hone, Nat.mul_one]
    exact decide_eq_false (by omega)

theorem natural?_plain {n : Nat} (h : n < wordLimit) : (plain n).natural? = some n := by
  have hvalue : Decimal.value (plain n).whole = n := Decimal.value_digits n
  rw [natural?, hvalue]
  exact if_pos ⟨rfl, rfl, rfl, h⟩

end Numeral

theorem readNatural_digits {n : Nat} (h : n < Numeral.wordLimit) {rest : List Char}
    (hr : Stops rest) : readNatural (Decimal.digits n ++ rest) = .ok (n, rest) := by
  have hscan : Numeral.scanFinite (Decimal.digits n ++ rest) = .ok (Numeral.plain n, rest) := by
    rw [Numeral.scanFinite, Numeral.scan_digits hr]
    simp only [bind, Except.bind, Numeral.isHuge_plain h, Bool.false_eq_true, if_false]
  obtain ⟨c, s, hfirst, hc⟩ := Decimal.exists_cons_digits n
  rw [hfirst, List.cons_append] at hscan ⊢
  rw [readNatural, skipSpace_cons (isSpace_of_isDigit hc)]
  simp only [hc, or_true, if_true, hscan, bind, Except.bind, Numeral.natural?_plain h]

theorem reads_natural {n : Nat} (h : n < Numeral.wordLimit) : Reads readNatural (.number n) n := by
  intro rest hr
  rw [compact]
  exact readNatural_digits h hr.stops

/-! ## Lists -/

/-- The text of a value begins with a character that is no blank and closes no list, and only null
begins with its first letter. -/
theorem exists_cons_compact (x : Json) :
    ∃ c s, compact x = c :: s ∧ isSpace c = false ∧ c ≠ ']' ∧ (c = 'n' → x = .null) := by
  cases x with
  | null => exact ⟨_, _, by rw [compact], by decide, by decide, fun _ => rfl⟩
  | text s =>
      exact ⟨_, _, by rw [compact, quoted, List.cons_append], by decide, by decide,
        fun h => absurd h (by decide)⟩
  | list items =>
      exact ⟨_, _, by rw [compact, List.cons_append], by decide, by decide,
        fun h => absurd h (by decide)⟩
  | object members =>
      exact ⟨_, _, by rw [compact, List.cons_append], by decide, by decide,
        fun h => absurd h (by decide)⟩
  | number n =>
      obtain ⟨c, s, hfirst, hc⟩ := Decimal.exists_cons_digits n
      refine ⟨c, s, by rw [compact, hfirst], isSpace_of_isDigit hc, ?_, ?_⟩
      · rintro rfl
        exact absurd hc (by decide)
      · rintro rfl
        exact absurd hc (by decide)

theorem compactItems_cons (x : Json) (xs : List Json) :
    compactItems (x :: xs) = compact x ++ later compact xs := by
  induction xs generalizing x with
  | nil => rw [compactItems, later_nil, List.append_nil]
  | cons y ys ih => rw [compactItems, ih, later_cons]

theorem comma_compact (x : Json) (rest : List Char) :
    comma (',' :: (compact x ++ rest)) = .ok (compact x ++ rest) := by
  obtain ⟨c, s, hfirst, hspace, hclose, -⟩ := exists_cons_compact x
  rw [hfirst]
  simp only [List.cons_append, comma, if_true, skipSpace_cons hspace, hclose, if_false]

variable {read : Reader α} {f : α → Json}

/-- Once the first item is read, the others follow at their commas. -/
theorem readItems_later {as : List α} (h : ∀ a ∈ as, Reads read (f a) a) (k : Nat)
    (rest : List Char) :
    readItems read (k + as.length + 1) false (later compact (as.map f) ++ ']' :: rest) =
      .ok (as, rest) := by
  induction as with
  | nil =>
      rw [List.map_nil, later_nil, List.nil_append, readItems, skipSpace_cons (c := ']') rfl]
      rfl
  | cons a as ih =>
      have hclosing : Closes (']' :: rest) := closes_cons (by decide) rest
      have hitem := h a List.mem_cons_self _ (closes_later compact (as.map f) hclosing)
      have hrest : readItems read (k + (a :: as).length) false
          (later compact (as.map f) ++ ']' :: rest) = .ok (as, rest) :=
        ih fun b hb => h b (List.mem_cons_of_mem a hb)
      have hcomma := comma_compact (f a) (later compact (as.map f) ++ ']' :: rest)
      rw [List.map_cons, later_cons, List.cons_append, List.append_assoc, readItems,
        skipSpace_cons (c := ',') rfl]
      simp only [Bool.false_eq_true, if_false, hcomma, bind, Except.bind, hitem, hrest,
        Char.reduceEq]
      rfl

theorem reads_list {as : List α} (h : ∀ a ∈ as, Reads read (f a) a) :
    Reads (readList read) (.list (as.map f)) as := by
  intro rest _
  rw [compact, List.append_assoc, List.cons_append, readList, skipSpace_cons (c := '[') rfl]
  simp only [if_true, List.singleton_append]
  cases as with
  | nil =>
      rw [List.map_nil, compactItems, List.nil_append, readItems, skipSpace_cons (c := ']') rfl]
      rfl
  | cons a as =>
      obtain ⟨c, s, hfirst, hfirstSpace, hclose, -⟩ := exists_cons_compact (f a)
      have hclosing : Closes (']' :: rest) := closes_cons (by decide) rest
      have hitem := h a List.mem_cons_self _ (closes_later compact (as.map f) hclosing)
      -- The first item takes one round, and there are enough left for the other items.
      have hlength : as.length + 1 ≤
          (compact (f a) ++ (later compact (as.map f) ++ ']' :: rest)).length := by
        have hle := length_le_later compact (as.map f)
        rw [List.length_map] at hle
        simp only [List.length_append, List.length_cons]
        omega
      obtain ⟨k, hrounds⟩ := Nat.exists_eq_add_of_le' hlength
      have hrest := readItems_later (fun b hb => h b (List.mem_cons_of_mem a hb)) k rest
      rw [List.map_cons, compactItems_cons, List.append_assoc, hrounds, ← Nat.add_assoc, readItems]
      rw [hfirst, List.cons_append] at hitem ⊢
      rw [skipSpace_cons hfirstSpace]
      simp only [hclose, if_false, if_true, bind, Except.bind, hitem, hrest]
      rfl

/-! ## Values that may be missing -/

theorem readOptional_null (rest : List Char) :
    readOptional read ('n' :: 'u' :: 'l' :: 'l' :: rest) = .ok (none, rest) := by
  rw [readOptional, skipSpace_cons (c := 'n') rfl]
  rfl

/-- What does not begin like null is left to the reader of the value. -/
theorem readOptional_of_read {c : Char} {s rest : List Char} {a : α} (hspace : isSpace c = false)
    (hn : c ≠ 'n') (h : read (c :: s) = .ok (a, rest)) :
    readOptional read (c :: s) = .ok (some a, rest) := by
  rw [readOptional, skipSpace_cons hspace]
  simp only [hn, if_false, h]
  rfl

theorem reads_ofOption {o : Option α} (h : ∀ a ∈ o, f a ≠ .null ∧ Reads read (f a) a) :
    Reads (readOptional read) (ofOption f o) o := by
  intro rest hr
  cases o with
  | none => exact readOptional_null rest
  | some a =>
      obtain ⟨hnull, ha⟩ := h a rfl
      obtain ⟨c, s, hfirst, hspace, -, hc⟩ := exists_cons_compact (f a)
      have hvalue := ha rest hr
      rw [hfirst, List.cons_append] at hvalue
      rw [ofOption, hfirst, List.cons_append]
      exact readOptional_of_read hspace (fun he => hnull (hc he)) hvalue

/-! ## Records -/

def memberText (m : String × Json) : List Char :=
  quoted m.1 ++ ':' :: compact m.2

theorem compactMembers_cons (m : String × Json) (members : List (String × Json)) :
    compactMembers (m :: members) = memberText m ++ later memberText members := by
  induction members generalizing m with
  | nil => rw [compactMembers, later_nil, List.append_nil, memberText]
  | cons m' members ih => rw [compactMembers, ih, later_cons, memberText, memberText]

namespace Record

/-- The members of an object fill a draft one after the other: each is known, is not yet set, and
its value is read into the draft. -/
inductive Fills (ms : List (Member δ)) : δ → List (String × Json) → δ → Prop
  | nil {d : δ} : Fills ms d [] d
  | cons {d d' d'' : δ} {key : String} {x : Json} {members : List (String × Json)} {m : Member δ}
      (known : ms.find? (fun m => m.name == key) = some m) (unset : m.isSet d = false)
      (value : Reads (m.read d) x d') (others : Fills ms d' members d'') :
      Fills ms d ((key, x) :: members) d''

variable {ms : List (Member δ)}

/-- A member is read from its key on, however the key is spelled, by the reader of its value. -/
theorem readMember_of_spells {d d' : δ} {name : String} {m : Member δ}
    (known : ms.find? (fun m => m.name == name) = some m) (unset : m.isSet d = false)
    {key gap s rest : List Char} (hkey : Spells key name.toList) (hgap : Blank gap)
    (value : m.read d s = .ok (d', rest)) :
    readMember ms d (key ++ '"' :: (gap ++ ':' :: s)) = .ok (d', rest) := by
  rw [readMember, quotation_spells hkey]
  simp only [bind, Except.bind, String.ofList_toList, known, unset, Bool.false_eq_true, if_false,
    colon_append hgap]
  exact value

theorem readMember_of_read {d d' : δ} {key : String} {m : Member δ}
    (known : ms.find? (fun m => m.name == key) = some m) (unset : m.isSet d = false)
    {s rest : List Char} (value : m.read d s = .ok (d', rest)) :
    readMember ms d (escape key.toList ++ '"' :: ':' :: s) = .ok (d', rest) :=
  readMember_of_spells known unset (spells_escape key.toList) blank_nil value

theorem readMember_memberText {d d' : δ} {key : String} {x : Json} {m : Member δ}
    (known : ms.find? (fun m => m.name == key) = some m) (unset : m.isSet d = false)
    (value : Reads (m.read d) x d') {rest : List Char} (hr : Closes rest) :
    readMember ms d (escape key.toList ++ '"' :: ':' :: compact x ++ rest) = .ok (d', rest) := by
  rw [List.append_assoc, List.cons_append, List.cons_append]
  exact readMember_of_read known unset (value rest hr)

/-- Behind the last member the object is closed. -/
theorem readMembers_of_last {d d' : δ} {s gap rest : List Char} (hgap : Blank gap)
    (h : readMember ms d s = .ok (d', gap ++ '}' :: rest)) (k : Nat) :
    readMembers ms (k + 1) d s = .ok (d', rest) := by
  rw [readMembers, h]
  simp only [bind, Except.bind, hgap.skipSpace_append, skipSpace_cons (c := '}') rfl, if_true]

/-- Behind any other member there is a comma, and the next one begins with its key. -/
theorem readMembers_of_comma {d d' : δ} {s gap t : List Char} (hgap : Blank gap)
    (h : readMember ms d s = .ok (d', gap ++ ',' :: t)) (k : Nat) :
    readMembers ms (k + 1) d s = openKey t >>= readMembers ms k d' := by
  rw [readMembers, h]
  simp only [bind, Except.bind, hgap.skipSpace_append, skipSpace_cons (c := ',') rfl,
    Char.reduceEq, if_false, if_true]

theorem openKey_append {gap : List Char} (hgap : Blank gap) (s : List Char) :
    openKey (gap ++ '"' :: s) = .ok s := by
  rw [openKey, hgap.skipSpace_append, skipSpace_cons (c := '"') rfl]
  exact if_pos rfl

/-- The opening quote of the first key is read before the members are. -/
theorem readMembers_of_fills {d d' : δ} {key : String} {x : Json}
    {members : List (String × Json)} (h : Fills ms d ((key, x) :: members) d') (k : Nat)
    (rest : List Char) :
    readMembers ms (k + members.length + 1) d (escape key.toList ++ '"' :: ':' :: compact x ++
      (later memberText members ++ '}' :: rest)) = .ok (d', rest) := by
  -- The first member is read into the draft, and the next one takes its place.
  induction members generalizing d key x with
  | nil =>
      cases h with
      | cons known unset value others =>
          cases others
          have hclosing : Closes ('}' :: rest) := closes_cons (by decide) rest
          exact readMembers_of_last blank_nil
            (readMember_memberText known unset value hclosing) _
  | cons m members ih =>
      obtain ⟨key', x'⟩ := m
      cases h with
      | cons known unset value others =>
          have hclosing : Closes ('}' :: rest) := closes_cons (by decide) rest
          have hmember := readMember_memberText known unset value
            (closes_later memberText ((key', x') :: members) hclosing)
          have htext : later memberText ((key', x') :: members) ++ '}' :: rest =
              [] ++ ',' :: ([] ++ '"' :: (escape key'.toList ++ '"' :: ':' :: compact x' ++
                (later memberText members ++ '}' :: rest))) := by
            simp only [later_cons, memberText, quoted, List.cons_append,
              List.append_assoc, List.nil_append]
          rw [htext] at hmember ⊢
          rw [readMembers_of_comma blank_nil hmember, openKey_append blank_nil]
          exact ih others

end Record

/-- A member with a value of its own keeps what its reader returns. -/
theorem reads_ofField {read : Reader α} {x : Json} {a : α} (h : Reads read x a) (name : String)
    (get : δ → Option α) (set : δ → α → δ) (d : δ) :
    Reads ((Member.ofField name get set read).read d) x (set d a) := by
  intro rest hr
  simp only [Member.ofField, h rest hr]
  rfl

/-- A record is read from the object whose members fill its draft. -/
theorem reads_record {r : Record δ α} {members : List (String × Json)} {d : δ} {a : α}
    (h : Record.Fills r.members r.empty members d) (hd : r.finish d = some a) :
    Reads r.read (.object members) a := by
  intro rest _
  have hdraft : Record.readDraft r.members r.empty (compact (.object members) ++ rest) =
      .ok (d, rest) := by
    rw [compact, List.append_assoc, List.cons_append, Record.readDraft,
      skipSpace_cons (c := '{') rfl]
    simp only [if_true, List.singleton_append]
    cases members with
    | nil =>
        cases h
        rw [compactMembers, List.nil_append, Record.readObject, skipSpace_cons (c := '}') rfl]
        exact if_pos rfl
    | cons m members =>
        obtain ⟨key, x⟩ := m
        have htext : compactMembers ((key, x) :: members) ++ '}' :: rest =
            '"' :: (escape key.toList ++ '"' :: ':' :: compact x ++
              (later memberText members ++ '}' :: rest)) := by
          rw [compactMembers_cons]
          simp only [memberText, quoted, List.cons_append, List.append_assoc, List.nil_append]
        have hlength : members.length ≤ (escape key.toList ++ '"' :: ':' :: compact x ++
            (later memberText members ++ '}' :: rest)).length := by
          have hle := length_le_later memberText members
          simp only [List.length_append, List.length_cons]
          omega
        obtain ⟨k, hrounds⟩ := Nat.exists_eq_add_of_le' hlength
        rw [htext, Record.readObject, skipSpace_cons (c := '"') rfl]
        simp only [Char.reduceEq, if_false, if_true]
        rw [hrounds]
        exact Record.readMembers_of_fills h k rest
  rw [Record.read, hdraft]
  simp only [bind, Except.bind, hd]

end Passage.Json
