/-
# Compact texts are unambiguous

The compact text of a value determines the value, and where the text ends
in a longer one (`Unambiguous`).  The kind of a value shows in its first
character (`shapeOf`); a number goes on to the last of its digits, a text
to the quote that is not escaped, and a list or an object to its closing
bracket, because after each part both texts have a comma or both have the
bracket (`later_append_injective`).  The induction on the value is
`unambiguous_compact`, with one lemma for each kind before it.
-/
import Passage.Proofs.Json.Reading

namespace Passage

namespace Decimal

/-- The digits of a number determine the number, and where they end. -/
theorem digits_append_injective {n m : Nat} {r s : List Char} (hr : Ends r) (hs : Ends s)
    (h : digits n ++ r = digits m ++ s) : n = m ∧ r = s := by
  have hn : span (digits n ++ r) = (digits n, r) :=
    span_append (fun c hc => isDigit_of_mem_digits hc) hr
  have hm : span (digits m ++ s) = (digits m, s) :=
    span_append (fun c hc => isDigit_of_mem_digits hc) hs
  rw [h, hm] at hn
  obtain ⟨hdigits, hrest⟩ := Prod.mk.inj hn
  have hvalue := congrArg value hdigits
  rw [value_digits, value_digits] at hvalue
  exact ⟨hvalue.symm, hrest.symm⟩

end Decimal

namespace Json

theorem quoted_append_injective {a b : String} {r s : List Char}
    (h : quoted a ++ r = quoted b ++ s) : a = b ∧ r = s := by
  simp only [quoted, List.cons_append, List.append_assoc, List.nil_append, List.cons.injEq,
    true_and] at h
  -- Both texts are read, and the reader sees no difference.
  have hread := quotation_escape a.toList r
  rw [h, quotation_escape] at hread
  obtain ⟨hchars, hrest⟩ := Prod.mk.inj (Except.ok.inj hread)
  exact ⟨String.toList_inj.1 hchars.symm, hrest.symm⟩

/-! ## The kinds of values -/

inductive Shape where
  | null
  | number
  | text
  | list
  | object
  deriving DecidableEq

def shape : Json → Shape
  | null => .null
  | number _ => .number
  | text _ => .text
  | list _ => .list
  | object _ => .object

/-- The kind of a value that begins with the given character. -/
def shapeOf (c : Char) : Shape :=
  if c = 'n' then .null
  else if c = '"' then .text
  else if c = '[' then .list
  else if c = '{' then .object
  else .number

theorem shapeOf_compact (x : Json) : ∃ c s, compact x = c :: s ∧ shapeOf c = x.shape := by
  cases x with
  | null => exact ⟨_, _, by rw [compact], by decide⟩
  | text s => exact ⟨_, _, by rw [compact, quoted, List.cons_append], rfl⟩
  | list items => exact ⟨_, _, by rw [compact, List.cons_append], rfl⟩
  | object members => exact ⟨_, _, by rw [compact, List.cons_append], rfl⟩
  | number n =>
      obtain ⟨c, s, hfirst, hc⟩ := Decimal.exists_cons_digits n
      refine ⟨c, s, by rw [compact, hfirst], ?_⟩
      obtain ⟨-, hother⟩ := of_sign_or_digit (.inr hc)
      simp only [List.mem_cons, List.not_mem_nil, or_false, not_or] at hother
      obtain ⟨-, -, hlist, hobject, hquote, hn, -, -⟩ := hother
      rw [shapeOf, if_neg hn, if_neg hquote, if_neg hlist, if_neg hobject]
      rfl

theorem shape_eq_of_append {x y : Json} {r s : List Char} (h : compact x ++ r = compact y ++ s) :
    x.shape = y.shape := by
  obtain ⟨c, t, hx, hc⟩ := shapeOf_compact x
  obtain ⟨d, u, hy, hd⟩ := shapeOf_compact y
  rw [hx, hy, List.cons_append, List.cons_append] at h
  rw [← hc, ← hd, (List.cons.inj h).1]

/-! ## Rows of parts -/

/-- The text of `x` determines `x` and where the text ends, in front of anything that may follow
it. -/
def Unambiguous {β : Type} (write : β → List Char) (x : β) : Prop :=
  ∀ y r s, Closes r → Closes s → write x ++ r = write y ++ s → x = y ∧ r = s

/-- Parts with commas between them. -/
def joined {β : Type} (write : β → List Char) : List β → List Char
  | [] => []
  | x :: xs => write x ++ later write xs

theorem compactItems_eq_joined (xs : List Json) : compactItems xs = joined compact xs := by
  cases xs with
  | nil => rw [compactItems, joined]
  | cons x xs => exact compactItems_cons x xs

theorem compactMembers_eq_joined (ms : List (String × Json)) :
    compactMembers ms = joined memberText ms := by
  cases ms with
  | nil => rw [compactMembers, joined]
  | cons m ms => exact compactMembers_cons m ms

section
variable {β : Type} {write : β → List Char} {c : Char}

/-- Both rows go on with a comma, or both with the closing bracket. -/
theorem later_append_injective (hc : c = ']' ∨ c = '}') {xs : List β}
    (h : ∀ x ∈ xs, Unambiguous write x) {ys : List β} {r s : List Char}
    (heq : later write xs ++ c :: r = later write ys ++ c :: s) : xs = ys ∧ r = s := by
  have hcomma : c ≠ ',' := by rcases hc with rfl | rfl <;> decide
  have hclosing : ∀ (zs : List β) (t : List Char), Closes (later write zs ++ c :: t) :=
    fun zs t => closes_later write zs (closes_cons (.inr hc) t)
  induction xs generalizing ys with
  | nil =>
      cases ys with
      | nil => exact ⟨rfl, (List.cons.inj heq).2⟩
      | cons y ys => exact absurd (List.cons.inj heq).1 hcomma
  | cons x xs ih =>
      cases ys with
      | nil => exact absurd (List.cons.inj heq).1.symm hcomma
      | cons y ys =>
          obtain ⟨hx, hxs⟩ := List.forall_mem_cons.1 h
          simp only [later_cons, List.cons_append, List.append_assoc, List.cons.injEq,
            true_and] at heq
          obtain ⟨rfl, hlater⟩ := hx y _ _ (hclosing xs r) (hclosing ys s) heq
          obtain ⟨rfl, hrest⟩ := ih hxs hlater
          exact ⟨rfl, hrest⟩

/-- An empty bracket is closed where another one has its first part. -/
theorem joined_append_injective (hc : c = ']' ∨ c = '}')
    (hfirst : ∀ x, ∃ d t, write x = d :: t ∧ d ≠ c) {xs : List β}
    (h : ∀ x ∈ xs, Unambiguous write x) {ys : List β} {r s : List Char}
    (heq : joined write xs ++ c :: r = joined write ys ++ c :: s) : xs = ys ∧ r = s := by
  cases xs with
  | nil =>
      cases ys with
      | nil => exact ⟨rfl, (List.cons.inj heq).2⟩
      | cons y ys =>
          obtain ⟨d, t, hy, hd⟩ := hfirst y
          rw [joined, joined, hy] at heq
          exact absurd (List.cons.inj heq).1.symm hd
  | cons x xs =>
      cases ys with
      | nil =>
          obtain ⟨d, t, hx, hd⟩ := hfirst x
          rw [joined, joined, hx] at heq
          exact absurd (List.cons.inj heq).1 hd
      | cons y ys => exact later_append_injective hc h (congrArg (',' :: ·) heq)

end

/-! ## Values -/

theorem unambiguous_member {m : String × Json} (h : Unambiguous compact m.2) :
    Unambiguous memberText m := by
  intro m' r s hr hs heq
  obtain ⟨k, x⟩ := m
  obtain ⟨k', x'⟩ := m'
  simp only [memberText, List.append_assoc, List.cons_append] at heq
  obtain ⟨rfl, hvalue⟩ := quoted_append_injective heq
  obtain ⟨rfl, hrest⟩ := h x' r s hr hs (List.cons.inj hvalue).2
  exact ⟨rfl, hrest⟩

theorem unambiguous_list {xs : List Json} (h : ∀ x ∈ xs, Unambiguous compact x) :
    Unambiguous compact (.list xs) := by
  intro y r s _ _ heq
  have hfirst : ∀ x, ∃ d t, compact x = d :: t ∧ d ≠ ']' := by
    intro x
    obtain ⟨d, t, hx, -, hd, -⟩ := exists_cons_compact x
    exact ⟨d, t, hx, hd⟩
  cases y with
  | list ys =>
      simp only [compact, compactItems_eq_joined, List.cons_append, List.append_assoc,
        List.nil_append, List.cons.injEq, true_and] at heq
      obtain ⟨rfl, hrest⟩ := joined_append_injective (.inl rfl) hfirst h heq
      exact ⟨rfl, hrest⟩
  | null | number _ | text _ | object _ => cases shape_eq_of_append heq

theorem unambiguous_object {ms : List (String × Json)} (h : ∀ m ∈ ms, Unambiguous compact m.2) :
    Unambiguous compact (.object ms) := by
  intro y r s _ _ heq
  have hfirst : ∀ m, ∃ d t, memberText m = d :: t ∧ d ≠ '}' :=
    fun m => ⟨'"', _, by rw [memberText, quoted, List.cons_append, List.cons_append], by decide⟩
  cases y with
  | object ms' =>
      simp only [compact, compactMembers_eq_joined, List.cons_append, List.append_assoc,
        List.nil_append, List.cons.injEq, true_and] at heq
      obtain ⟨rfl, hrest⟩ :=
        joined_append_injective (.inr rfl) hfirst (fun m hm => unambiguous_member (h m hm)) heq
      exact ⟨rfl, hrest⟩
  | null | number _ | text _ | list _ => cases shape_eq_of_append heq

theorem unambiguous_null : Unambiguous compact .null := by
  intro y r s _ _ heq
  cases y with
  | null => exact ⟨rfl, List.append_cancel_left heq⟩
  | number _ | text _ | list _ | object _ => cases shape_eq_of_append heq

theorem unambiguous_number (n : Nat) : Unambiguous compact (.number n) := by
  intro y r s hr hs heq
  cases y with
  | number m =>
      rw [compact, compact] at heq
      obtain ⟨rfl, hrest⟩ := Decimal.digits_append_injective hr.stops.ends hs.stops.ends heq
      exact ⟨rfl, hrest⟩
  | null | text _ | list _ | object _ => cases shape_eq_of_append heq

theorem unambiguous_text (a : String) : Unambiguous compact (.text a) := by
  intro y r s _ _ heq
  cases y with
  | text b =>
      rw [compact, compact] at heq
      obtain ⟨rfl, hrest⟩ := quoted_append_injective heq
      exact ⟨rfl, hrest⟩
  | null | number _ | list _ | object _ => cases shape_eq_of_append heq

mutual

theorem unambiguous_compact : (x : Json) → Unambiguous compact x
  | .null => unambiguous_null
  | .number n => unambiguous_number n
  | .text s => unambiguous_text s
  | .list xs => unambiguous_list (unambiguous_items xs)
  | .object ms => unambiguous_object (unambiguous_members ms)

theorem unambiguous_items : (xs : List Json) → ∀ x ∈ xs, Unambiguous compact x
  | [] => fun _ h => absurd h List.not_mem_nil
  | x :: xs => List.forall_mem_cons.2 ⟨unambiguous_compact x, unambiguous_items xs⟩

theorem unambiguous_members :
    (ms : List (String × Json)) → ∀ m ∈ ms, Unambiguous compact m.2
  | [] => fun _ h => absurd h List.not_mem_nil
  | (_, x) :: ms => List.forall_mem_cons.2 ⟨unambiguous_compact x, unambiguous_members ms⟩

end

/-- The text that is written for a value determines the value. -/
theorem injective_render : Function.Injective render := by
  intro x y h
  have hchars : compact x ++ [] = compact y ++ [] := by
    rw [List.append_nil, List.append_nil]
    exact String.ofList_inj.1 h
  exact (unambiguous_compact x y [] [] closes_nil closes_nil hchars).1

end Json
end Passage
