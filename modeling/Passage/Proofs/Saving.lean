/-
# Options kept as text

Options may be written down and read again later.  The written form has
whole milliseconds, and fewer than 2^64 of them, so a timeout is rounded
down on the way (`isGreatest_toMillis` says to what), and all else comes
back as it was: `saved_options_are_read_back`.  Once rounded, a timeout
stays as it is.

The rules for options are about the exact timeout.  A timeout that is not
zero, but shorter than a millisecond, is written like no timeout at all;
apart from these, options that are read back break the rules that they
broke before (`violations_of_saved_options`).
-/
import Passage.Proofs.Json.Reading
import Passage.Transition.Execution
import Mathlib.Algebra.Group.Nat.Defs
import Mathlib.Order.Bounds.Basic

namespace Passage
variable {ι σ : Type}

open Json (Reads)

/-! ## Rounding to milliseconds -/

namespace Duration

theorem lt_two_pow_iff {n : Nat} : n < 2 ^ 64 ↔ n ≤ maxMillis := by
  rw [maxMillis]
  omega

/-- A duration is written in the most milliseconds that are not longer than it. -/
theorem isGreatest_toMillis (d : Duration) :
    IsGreatest {n | n < 2 ^ 64 ∧ ofMillis n ≤ d} d.toMillis := by
  constructor
  · refine ⟨lt_two_pow_iff.2 d.toMillis_le, ?_⟩
    calc d.toMillis * perMilli
        ≤ d.nanos / perMilli * perMilli := Nat.mul_le_mul_right _ (Nat.min_le_left _ _)
      _ ≤ d.nanos := Nat.div_mul_le_self _ _
  · intro n hn
    have hle : n * perMilli ≤ d.nanos := hn.2
    exact Nat.le_min.2 ⟨(Nat.le_div_iff_mul_le (by decide)).2 hle, lt_two_pow_iff.1 hn.1⟩

/-- Rounding changes nothing if and only if there is nothing to round. -/
theorem ofMillis_toMillis_eq_iff {d : Duration} :
    ofMillis d.toMillis = d ↔ ∃ n < 2 ^ 64, d = ofMillis n := by
  constructor
  · intro h
    exact ⟨d.toMillis, lt_two_pow_iff.2 d.toMillis_le, h.symm⟩
  · rintro ⟨n, hn, rfl⟩
    rw [toMillis_ofMillis (lt_two_pow_iff.1 hn)]

theorem toMillis_eq_zero_iff {d : Duration} : d.toMillis = 0 ↔ d < ofMillis 1 := by
  have hone : d < ofMillis 1 ↔ d.nanos < 1 * 1000000 := Iff.rfl
  rw [hone, toMillis, maxMillis, perMilli]
  omega

end Duration

namespace Options

/-! ## Reading back -/

/-- Options as their text tells them: with a timeout of whole milliseconds. -/
def rounded (o : Options) : Options := ⟨o.tries, .ofMillis o.timeout.toMillis⟩

/-- The members of options are read in the order in which they are written. -/
theorem reads_toJson {o : Options} (h : o.tries < 2 ^ 64) :
    Reads form.read o.toJson o.rounded := by
  have hmillis : o.timeout.toMillis < 2 ^ 64 :=
    Duration.lt_two_pow_iff.2 o.timeout.toMillis_le
  have hdraft : form.finish ⟨some o.tries, some o.timeout.toMillis⟩ = some o.rounded := rfl
  refine Json.reads_record (r := form) ?_ hdraft
  refine .cons rfl rfl (Json.reads_ofField (Json.reads_natural h) _ _ _ _) ?_
  exact .cons rfl rfl (Json.reads_ofField (Json.reads_natural hmillis) _ _ _ _) .nil

theorem ofJson_render {o : Options} (h : o.tries < 2 ^ 64) :
    ofJson (Json.render o.toJson) = .ok o.rounded :=
  Json.readWhole_render (reads_toJson h)

theorem toJson_rounded (o : Options) : o.rounded.toJson = o.toJson := by
  rw [toJson, toJson, rounded, Duration.toMillis_ofMillis o.timeout.toMillis_le]

theorem rounded_eq_iff {o : Options} :
    o.rounded = o ↔ ∃ n < 2 ^ 64, o.timeout = .ofMillis n := by
  rw [← Duration.ofMillis_toMillis_eq_iff]
  constructor
  · intro h
    exact congrArg timeout h
  · intro h
    rw [rounded, h]

/-- **Saved options are read back in milliseconds.**  The text of options can always be read, and
gives the same tries, with the longest timeout of whole milliseconds, fewer than 2^64 of them, that
is not longer than the one written down.  These are the same options if and only if their timeout
was such a one already; and they have the same text. -/
theorem saved_options_are_read_back {o : Options} (h : o.tries < 2 ^ 64) :
    ∃ n, IsGreatest {n | n < 2 ^ 64 ∧ Duration.ofMillis n ≤ o.timeout} n ∧
      ofJson (Json.render o.toJson) = .ok ⟨o.tries, .ofMillis n⟩ ∧
      (ofJson (Json.render o.toJson) = .ok o ↔ ∃ m < 2 ^ 64, o.timeout = .ofMillis m) ∧
      Json.render (toJson ⟨o.tries, .ofMillis n⟩) = Json.render o.toJson := by
  refine ⟨o.timeout.toMillis, o.timeout.isGreatest_toMillis, ofJson_render h, ?_, ?_⟩
  · rw [ofJson_render h, ← rounded_eq_iff]
    exact ⟨Except.ok.inj, congrArg Except.ok⟩
  · exact congrArg Json.render o.toJson_rounded

/-- The most tries and the longest timeout there are. -/
def utmost : Options := ⟨18446744073709551615, .ofParts 18446744073709551615 999999999⟩

/-- The tries come back, and of the timeout the largest number of milliseconds that is written. -/
theorem utmost_is_read_back :
    utmost.tries < 2 ^ 64 ∧
    ofJson (Json.render utmost.toJson) =
      .ok ⟨18446744073709551615, .ofMillis 18446744073709551615⟩ ∧
    ofJson (Json.render utmost.toJson) ≠ .ok utmost := by
  have htries : utmost.tries < 2 ^ 64 := by decide
  obtain ⟨n, hgreatest, hread, hsame, -⟩ := saved_options_are_read_back htries
  have hn : n = 18446744073709551615 :=
    hgreatest.unique (Duration.isGreatest_toMillis utmost.timeout)
  subst hn
  refine ⟨htries, hread, ?_⟩
  intro h
  obtain ⟨m, hm, htimeout⟩ := hsame.1 h
  have hnanos := congrArg Duration.nanos htimeout
  change 18446744073709551615999999999 = m * 1000000 at hnanos
  omega

/-! ## The rules, before and after -/

/-- A timeout shorter than a millisecond is no timeout any more when it is read back. -/
theorem violations_rounded (o : Options) :
    o.rounded.violations =
      (if o.tries = 0 then [.noTries] else []) ++
        (if o.timeout < .ofMillis 1 then [.zeroTimeout] else []) := by
  have hzero : o.rounded.timeout.nanos = 0 ↔ o.timeout < .ofMillis 1 := by
    rw [← Duration.toMillis_eq_zero_iff]
    show o.timeout.toMillis * 1000000 = 0 ↔ _
    omega
  rw [violations]
  exact congrArg (_ ++ ·) (if_congr hzero rfl rfl)

theorem violations_rounded_of_whole {o : Options}
    (h : o.timeout.nanos = 0 ∨ .ofMillis 1 ≤ o.timeout) :
    o.rounded.violations = o.violations := by
  have hsame : o.timeout < .ofMillis 1 ↔ o.timeout.nanos = 0 := by
    have hlt : o.timeout < .ofMillis 1 ↔ o.timeout.nanos < 1000000 := Iff.rfl
    have hle : .ofMillis 1 ≤ o.timeout ↔ 1000000 ≤ o.timeout.nanos := Iff.rfl
    rw [hle] at h
    rw [hlt]
    omega
  rw [violations_rounded, violations]
  exact congrArg (_ ++ ·) (if_congr hsame rfl rfl)

theorem violations_rounded_of_short {o : Options} (hpos : 0 < o.timeout.nanos)
    (h : o.timeout < .ofMillis 1) : o.rounded.violations = o.violations ++ [.zeroTimeout] := by
  rw [violations_rounded, violations, if_pos h, if_neg (Nat.ne_of_gt hpos), List.append_nil]

/-- A transition looks at its options for nothing but the rules that they break. -/
theorem refusal?_of_violations_eq (t : Transition ι σ) {o o' : Options}
    (h : o'.violations = o.violations) :
    { t with options := o' }.refusal? = { t with options := o }.refusal? := by
  rw [Transition.refusal?, Transition.refusal?, isValid, isValid, h]
  rfl

/-- **Saved options are as good as before, down to a millisecond.**  The text of options can always
be read.  With no timeout at all, or with one of a millisecond or more, the options that are read
break the rules that the saved ones broke, and a transition is refused with these if and only if it
is refused with those, for the same reason.  With a shorter timeout they break the rule for timeouts
besides, because there is nothing left of theirs. -/
theorem violations_of_saved_options {o : Options} (h : o.tries < 2 ^ 64) :
    ∃ o', ofJson (Json.render o.toJson) = .ok o' ∧
      (o.timeout.nanos = 0 ∨ .ofMillis 1 ≤ o.timeout →
        o'.violations = o.violations ∧
        ∀ (ι σ : Type) (t : Transition ι σ),
          { t with options := o' }.refusal? = { t with options := o }.refusal?) ∧
      (0 < o.timeout.nanos → o.timeout < .ofMillis 1 →
        o'.violations = o.violations ++ [.zeroTimeout]) := by
  refine ⟨o.rounded, ofJson_render h, ?_, violations_rounded_of_short⟩
  intro hwhole
  have hsame := violations_rounded_of_whole hwhole
  exact ⟨hsame, fun _ _ t => refusal?_of_violations_eq t hsame⟩

/-- Two tries of a millisecond each are still valid options when they are read back; no tries of a
nanosecond less have lost their timeout. -/
theorem violations_about_a_millisecond :
    (∃ o', ofJson (Json.render (toJson ⟨2, ⟨1000000⟩⟩)) = .ok o' ∧ o'.violations = []) ∧
    ∃ o', ofJson (Json.render (toJson ⟨0, ⟨999999⟩⟩)) = .ok o' ∧
      o'.violations = [.noTries, .zeroTimeout] := by
  constructor
  · obtain ⟨o', hread, hwhole, -⟩ := violations_of_saved_options (o := ⟨2, ⟨1000000⟩⟩) (by decide)
    obtain ⟨hsame, -⟩ := hwhole (Or.inr (by decide))
    exact ⟨o', hread, hsame⟩
  · obtain ⟨o', hread, -, hshort⟩ := violations_of_saved_options (o := ⟨0, ⟨999999⟩⟩) (by decide)
    exact ⟨o', hread, hshort (by decide) (by decide)⟩

/-- One try of a nanosecond. -/
def fleeting : Options := ⟨1, ⟨1⟩⟩

/-- Options that may be used, until they are saved: read back, they are refused. -/
theorem fleeting_is_lost :
    fleeting.violations = [] ∧
    ∃ o', ofJson (Json.render fleeting.toJson) = .ok o' ∧ o'.violations = [.zeroTimeout] := by
  have hread : ofJson (Json.render fleeting.toJson) = .ok ⟨1, ⟨0⟩⟩ := ofJson_render (by decide)
  exact ⟨by decide, ⟨1, ⟨0⟩⟩, hread, by decide⟩

end Options
end Passage
