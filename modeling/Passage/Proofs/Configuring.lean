/-
# Ways to a configuration

A pause may be given as a value in the environment, as a member of a JSON
object, or as a duration; and a configuration may be written down and read
again.  `ways_to_a_configuration` says that all of these agree.

  `Gives`                   which texts give a number of milliseconds, and
                            which number
  `ofValue?_eq_ok_iff`      these are the values that are taken
  `ofValue?_eq_error_iff`   any other is refused, and handed back as it was
  `ofJson_pauseObject`      the same number as a member of an object
  `ofJson_render`           a configuration that was written down

The environment is looked up once, and for one name, and of a value that
cannot be used one warning is given.  To be able to say so, the lookups here
keep a list of the names that they are asked for (`recording`), beside one of
what was said (`saying`).
-/
import Passage.Proofs.Saving
import Passage.Proofs.Text.Blanks

namespace Passage
namespace Config

open Json (Reads)

/-! ## Values in the environment -/

/-- How a pause may be given: decimal digits for a number of milliseconds below 2^64, perhaps with a
plus sign in front of them, and with any blanks around. -/
inductive Gives : List Char → Nat → Prop
  | number {before sign ds after : List Char} (blankBefore : ∀ c ∈ before, Text.isBlank c = true)
      (plus : sign = [] ∨ sign = ['+']) (nonempty : ds ≠ [])
      (digits : ∀ c ∈ ds, c.isDigit = true) (fits : Decimal.value ds < 2 ^ 64)
      (blankAfter : ∀ c ∈ after, Text.isBlank c = true) :
      Gives (before ++ (sign ++ ds) ++ after) (Decimal.value ds)

theorem Gives.lt {s : List Char} {n : Nat} (h : Gives s n) : n < 2 ^ 64 := by
  cases h with
  | number _ _ _ _ fits _ => exact fits

/-- The number that a text of nothing but digits stands for. -/
def plainMillis? (ds : List Char) : Option Nat :=
  if ds ≠ [] ∧ ds.all Char.isDigit ∧ Decimal.value ds ≤ Duration.maxMillis then
    some (Decimal.value ds)
  else none

theorem millis?_plus (ds : List Char) : millis? ('+' :: ds) = plainMillis? ds := rfl

theorem millis?_of_no_plus {s : List Char} (h : ∀ ds, s ≠ '+' :: ds) :
    millis? s = plainMillis? s := by
  simp only [millis?]
  rfl

theorem plainMillis?_eq_some_iff {ds : List Char} {n : Nat} :
    plainMillis? ds = some n ↔
      ds ≠ [] ∧ (∀ c ∈ ds, c.isDigit = true) ∧ Decimal.value ds = n ∧ n < 2 ^ 64 := by
  rw [plainMillis?, Duration.lt_two_pow_iff, Option.ite_none_right_eq_some, List.all_eq_true]
  constructor
  · rintro ⟨⟨hne, hdigits, hle⟩, hn⟩
    obtain rfl := Option.some.inj hn
    exact ⟨hne, hdigits, rfl, hle⟩
  · rintro ⟨hne, hdigits, rfl, hle⟩
    exact ⟨⟨hne, hdigits, hle⟩, rfl⟩

theorem millis?_eq_some_iff {s : List Char} {n : Nat} :
    millis? s = some n ↔ ∃ sign ds, s = sign ++ ds ∧ (sign = [] ∨ sign = ['+']) ∧ ds ≠ [] ∧
      (∀ c ∈ ds, c.isDigit = true) ∧ Decimal.value ds = n ∧ n < 2 ^ 64 := by
  constructor
  · intro h
    by_cases hplus : ∃ ds, s = '+' :: ds
    · obtain ⟨ds, rfl⟩ := hplus
      rw [millis?_plus, plainMillis?_eq_some_iff] at h
      exact ⟨['+'], ds, rfl, Or.inr rfl, h⟩
    · rw [millis?_of_no_plus (not_exists.1 hplus), plainMillis?_eq_some_iff] at h
      exact ⟨[], s, rfl, Or.inl rfl, h⟩
  · rintro ⟨sign, ds, rfl, hsign, hds⟩
    rcases hsign with rfl | rfl
    · have hplus : ∀ t, ds ≠ '+' :: t := by
        rintro t rfl
        exact absurd (hds.2.1 '+' List.mem_cons_self) (by decide)
      rw [List.nil_append, millis?_of_no_plus hplus]
      exact plainMillis?_eq_some_iff.2 hds
    · exact plainMillis?_eq_some_iff.2 hds

/-- A value is taken after trimming if it gives a number, and for this number. -/
theorem millis?_trim_eq_some_iff {s : List Char} {n : Nat} :
    millis? (Text.trim s) = some n ↔ Gives s n := by
  rw [millis?_eq_some_iff]
  constructor
  · rintro ⟨sign, ds, htrim, hsign, hne, hdigits, rfl, hlt⟩
    obtain ⟨before, after, hbefore, hafter, hs⟩ := Text.exists_blanks_trim s
    rw [hs, htrim]
    exact .number hbefore hsign hne hdigits hlt hafter
  · intro h
    cases h with
    | @number before sign ds after hbefore hsign hne hdigits hlt hafter =>
        have hblank : ∀ c ∈ sign ++ ds, Text.isBlank c = false := by
          intro c hc
          rcases List.mem_append.1 hc with hc | hc
          · rcases hsign with rfl | rfl
            · exact absurd hc List.not_mem_nil
            · obtain rfl := List.mem_singleton.1 hc
              decide
          · exact Text.isBlank_of_isDigit (hdigits c hc)
        have hne' : sign ++ ds ≠ [] := fun he => hne (List.append_eq_nil_iff.1 he).2
        exact ⟨sign, ds, Text.trim_append hblank hne' hbefore hafter, hsign, hne, hdigits, rfl, hlt⟩

theorem withPause_ofMillis {n : Nat} (h : n < 2 ^ 64) : withPause (.ofMillis n) = ⟨some n⟩ := by
  rw [withPause, Duration.toMillis_ofMillis (Duration.lt_two_pow_iff.1 h)]

theorem ofValue?_eq_ok_iff {v : String} {c : Config} :
    ofValue? (some v) = .ok c ↔ ∃ n, Gives v.toList n ∧ c = withPause (.ofMillis n) := by
  have hvalue : ofValue? (some v) = .ok c ↔
      ∃ n, millis? (Text.trim v.toList) = some n ∧ c = ⟨some n⟩ := by
    rw [ofValue?]
    cases millis? (Text.trim v.toList) with
    | none => simp
    | some n => simp [eq_comm]
  rw [hvalue]
  refine exists_congr fun n => ?_
  rw [millis?_trim_eq_some_iff]
  exact and_congr_right fun hn => by rw [withPause_ofMillis hn.lt]

theorem ofValue?_eq_error_iff {v : String} {e : InvalidValue} :
    ofValue? (some v) = .error e ↔ (∀ n, ¬ Gives v.toList n) ∧ e = ⟨pauseVariable, v⟩ := by
  simp only [← millis?_trim_eq_some_iff]
  rw [ofValue?]
  cases millis? (Text.trim v.toList) with
  | none => simp [eq_comm]
  | some n => simp

/-! ## JSON -/

/-- The pause of the configuration fits into 64 bits. -/
def Fits (c : Config) : Prop := ∀ n ∈ c.pauseMillis, n < 2 ^ 64

theorem reads_pause {c : Config} (h : c.Fits) :
    Reads (Json.readOptional Json.readNatural) (Json.ofOption .number c.pauseMillis)
      c.pauseMillis :=
  Json.reads_ofOption fun n hn => ⟨nofun, Json.reads_natural (h n hn)⟩

theorem reads_toJson {c : Config} (h : c.Fits) : Reads form.read c.toJson c := by
  have hdraft : form.finish ⟨some c.pauseMillis⟩ = some c := rfl
  refine Json.reads_record (r := form) ?_ hdraft
  exact .cons rfl rfl (Json.reads_ofField (reads_pause h) _ _ _ _) .nil

theorem ofJson_render {c : Config} (h : c.Fits) : ofJson (Json.render c.toJson) = .ok c :=
  Json.readWhole_render (reads_toJson h)

/-- An object with the pause for its only member, as one writes it by hand: unlike in a text from
`toJson`, there is a blank in front of the number. -/
def pauseObject (n : Nat) : String :=
  "\x7b\"pause_after_transition_ms\": " ++ Decimal.text n ++ "\x7d"

theorem toList_pauseObject (n : Nat) :
    (pauseObject n).toList = '{' :: '"' :: (Json.escape "pause_after_transition_ms".toList ++
      '"' :: ':' :: ' ' :: (Decimal.digits n ++ ['}'])) := by
  have hkey : "\x7b\"pause_after_transition_ms\": ".toList =
      '{' :: '"' :: (Json.escape "pause_after_transition_ms".toList ++ ['"', ':', ' ']) := by
    decide +kernel
  have hnumber : (Decimal.text n).toList = Decimal.digits n := String.toList_ofList
  have hend : "\x7d".toList = ['}'] := by decide
  unfold pauseObject
  rw [String.toList_append, String.toList_append, hkey, hnumber, hend]
  simp only [List.cons_append, List.append_assoc, List.nil_append]

/-- The blank in front of the number is passed over. -/
theorem readPause_blank {n : Nat} (h : n < 2 ^ 64) :
    Json.readOptional Json.readNatural (' ' :: (Decimal.digits n ++ ['}'])) =
      .ok (some n, ['}']) := by
  have hfits : Fits ⟨some n⟩ := fun m hm => Option.some.inj hm ▸ h
  have hpause := reads_pause hfits ['}'] (Json.closes_cons (by decide) [])
  have hblank : Json.skipSpace (' ' :: (Decimal.digits n ++ ['}'])) =
      Json.skipSpace (Decimal.digits n ++ ['}']) := rfl
  rw [Json.ofOption, Json.compact, Json.readOptional] at hpause
  rw [Json.readOptional, hblank]
  exact hpause

theorem read_pauseObject {n : Nat} (h : n < 2 ^ 64) :
    form.read (pauseObject n).toList = .ok (⟨some n⟩, []) := by
  have hmember : Json.Record.readMember form.members form.empty
      (Json.escape "pause_after_transition_ms".toList ++
        '"' :: ':' :: ' ' :: (Decimal.digits n ++ ['}'])) = .ok (⟨some (some n)⟩, ['}']) := by
    refine Json.Record.readMember_of_read rfl rfl ?_
    simp only [Json.Member.ofField, readPause_blank h]
    rfl
  rw [toList_pauseObject, Json.Record.read, Json.Record.readDraft,
    Json.skipSpace_cons (c := '{') rfl]
  simp only [if_true]
  rw [Json.Record.readObject, Json.skipSpace_cons (c := '"') rfl]
  simp only [Char.reduceEq, if_false, if_true]
  rw [Json.Record.readMembers, hmember]
  rfl

theorem ofJson_pauseObject {n : Nat} (h : n < 2 ^ 64) :
    ofJson (pauseObject n) = .ok (withPause (.ofMillis n)) := by
  rw [ofJson, Json.readWhole, read_pauseObject h, withPause_ofMillis h]
  rfl

/-! ## Looking up -/

/-- What has come of looking things up: the names that were asked for, and what was said. -/
structure Inquiry where
  asked : List String
  said : List Notice

/-- A lookup that keeps a list of the names it is asked for.  What it answers may depend on what it
was asked before. -/
def recording (answer : List String → String → Option String) (name : String) :
    StateM Inquiry (Option String) :=
  fun i => (answer i.asked name, { i with asked := i.asked ++ [name] })

def saying (n : Notice) : StateM Inquiry Unit := fun i => ((), { i with said := i.said ++ [n] })

/-- What is found, strictly and leniently, and what is said in the second case, where the lookup has
given this answer. -/
structure Settles (answer : Option String) (strict : Except InvalidValue Config)
    (lenient : Config) (said : List Notice) : Prop where
  /-- Without a value there is the default. -/
  unset : answer = none → strict = .ok default
  /-- A value that gives a number is taken, for a pause of so many milliseconds. -/
  taken : ∀ v, answer = some v → ∀ c, strict = .ok c ↔
    ∃ n, Gives v.toList n ∧ c = withPause (.ofMillis n)
  /-- A value that gives no number is handed back, with its blanks. -/
  refused : ∀ v, answer = some v → ∀ e, strict = .error e ↔
    (∀ n, ¬ Gives v.toList n) ∧ e = ⟨pauseVariable, v⟩
  /-- What is found strictly is found leniently too, and nothing is said. -/
  kept : ∀ c, strict = .ok c → lenient = c ∧ said = []
  /-- A failure is told in one warning, and leaves the default. -/
  replaced : ∀ e, strict = .error e → lenient = default ∧
    ∃ notice, said = [notice] ∧ notice.level = .warn ∧
      notice.fields = [("error", .text e.message)]

theorem settles_ofValue? {answer : Option String} {lenient : Config} {said : List Notice}
    (kept : ∀ c, ofValue? answer = .ok c → lenient = c ∧ said = [])
    (replaced : ∀ e, ofValue? answer = .error e →
      lenient = default ∧ said = [.configIgnored e.message]) :
    Settles answer (ofValue? answer) lenient said where
  unset := by
    rintro rfl
    rfl
  taken := by
    rintro v rfl c
    exact ofValue?_eq_ok_iff
  refused := by
    rintro v rfl e
    exact ofValue?_eq_error_iff
  kept := kept
  replaced := by
    intro e he
    obtain ⟨hlenient, hsaid⟩ := replaced e he
    exact ⟨hlenient, _, hsaid, rfl, rfl⟩

/-- The lookup is asked once, and its answer decides whether something is said. -/
theorem exists_settles (answer : List String → String → Option String) (i : Inquiry) :
    ∃ strict lenient said,
      (find (recording answer)).run i =
        (strict, { i with asked := i.asked ++ [pauseVariable] }) ∧
      (findOrWarn (recording answer) saying).run i =
        (lenient, ⟨i.asked ++ [pauseVariable], i.said ++ said⟩) ∧
      (findOrDefault (recording answer)).run i =
        ((lenient, said.getLast?), { i with asked := i.asked ++ [pauseVariable] }) ∧
      Settles (answer i.asked pauseVariable) strict lenient said := by
  have hwarn : (findOrWarn (recording answer) saying).run i =
      (findOrWarn (fun _ => pure (answer i.asked pauseVariable)) saying).run
        ⟨i.asked ++ [pauseVariable], i.said⟩ := rfl
  have hdefault : (findOrDefault (recording answer)).run i =
      ((findOrWarn (m := StateT (Option Notice) (StateM Inquiry))
        (fun _ => pure (answer i.asked pauseVariable)) fun n => set (some n)).run none).run
          ⟨i.asked ++ [pauseVariable], i.said⟩ := rfl
  rw [findOrWarn_pure] at hwarn hdefault
  cases h : ofValue? (answer i.asked pauseVariable) with
  | ok c =>
      rw [h] at hwarn hdefault
      refine ⟨_, c, [], rfl, ?_, hdefault, settles_ofValue? ?_ ?_⟩
      · rw [List.append_nil]
        exact hwarn
      · exact fun d hd => ⟨Except.ok.inj (h.symm.trans hd), rfl⟩
      · exact fun e he => absurd (h.symm.trans he) (by simp)
  | error e =>
      rw [h] at hwarn hdefault
      refine ⟨_, default, [.configIgnored e.message], rfl, hwarn, hdefault, settles_ofValue? ?_ ?_⟩
      · exact fun d hd => absurd (h.symm.trans hd) (by simp)
      · intro e' he
        obtain rfl := Except.error.inj (h.symm.trans he)
        exact ⟨rfl, rfl⟩

/-- **All ways to a configuration agree.**  Whether it is to be found strictly or leniently, the
lookup is asked for the one name and for nothing else, and its answer settles what is found; nothing
is said but, leniently, of a value that cannot be used.  A pause is the same as a member of an
object; a configuration that was written down is read back as it was; and the pause for a duration is
the longest of whole milliseconds, fewer than 2^64 of them, that is not longer. -/
theorem ways_to_a_configuration :
    (∀ answer (i : Inquiry), ∃ strict lenient said,
      (find (recording answer)).run i =
        (strict, { i with asked := i.asked ++ [pauseVariable] }) ∧
      (findOrWarn (recording answer) saying).run i =
        (lenient, ⟨i.asked ++ [pauseVariable], i.said ++ said⟩) ∧
      (findOrDefault (recording answer)).run i =
        ((lenient, said.getLast?), { i with asked := i.asked ++ [pauseVariable] }) ∧
      Settles (answer i.asked pauseVariable) strict lenient said) ∧
    (∀ n < 2 ^ 64, ofJson (pauseObject n) = .ok (withPause (.ofMillis n))) ∧
    (∀ c : Config, c.Fits → ofJson (Json.render c.toJson) = .ok c) ∧
    (∀ d, ∃ n, IsGreatest {n | n < 2 ^ 64 ∧ Duration.ofMillis n ≤ d} n ∧
      (withPause d).pause = some (.ofMillis n)) := by
  refine ⟨exists_settles, ?_, ?_, ?_⟩
  · intro n hn
    exact ofJson_pauseObject hn
  · intro c hc
    exact ofJson_render hc
  · intro d
    exact ⟨d.toMillis, d.isGreatest_toMillis, rfl⟩

/-- The first answer is a number that is too large by one; later ones have a wide blank, a sign and
zeros in front of the number. -/
def secondThought (asked : List String) (_ : String) : Option String :=
  if asked = [] then some "18446744073709551616" else some "\u2003+0007 "

theorem gives_seven : Gives "\u2003+0007 ".toList 7 := by
  have hbefore : ∀ c ∈ ['\u2003'], Text.isBlank c = true := List.forall_mem_singleton.2 (by decide)
  have hdigits : ∀ c ∈ ['0', '0', '0', '7'], c.isDigit = true := List.all_eq_true.1 (by decide)
  have hafter : ∀ c ∈ [' '], Text.isBlank c = true := List.forall_mem_singleton.2 (by decide)
  have h : Gives (['\u2003'] ++ (['+'] ++ ['0', '0', '0', '7']) ++ [' '])
      (Decimal.value ['0', '0', '0', '7']) :=
    .number hbefore (Or.inr rfl) (List.cons_ne_nil _ _) hdigits (by decide) hafter
  exact h

theorem not_gives_two_pow (n : Nat) : ¬ Gives "18446744073709551616".toList n := by
  intro hn
  have hnone : millis? (Text.trim "18446744073709551616".toList) = none := by decide +kernel
  rw [millis?_trim_eq_some_iff.2 hn] at hnone
  cases hnone

/-- The first answer is refused, which is said once, and the second gives a pause; the largest pause
is read back. -/
theorem ways_of_second_thought :
    (∃ notice, (findOrWarn (recording secondThought) saying).run ⟨[], []⟩ =
      (default, ⟨[pauseVariable], [notice]⟩) ∧ notice.level = .warn) ∧
    (find (recording secondThought)).run ⟨[pauseVariable], []⟩ =
      (.ok ⟨some 7⟩, ⟨[pauseVariable, pauseVariable], []⟩) ∧
    (findOrWarn (recording secondThought) saying).run ⟨[pauseVariable], []⟩ =
      (⟨some 7⟩, ⟨[pauseVariable, pauseVariable], []⟩) ∧
    ofJson (pauseObject 7) = .ok ⟨some 7⟩ ∧
    ofJson (Json.render (toJson ⟨some 18446744073709551615⟩)) =
      .ok ⟨some 18446744073709551615⟩ := by
  obtain ⟨hfind, hobject, hread, -⟩ := ways_to_a_configuration
  obtain ⟨strict, lenient, said, -, hlenient, -, hfirst⟩ := hfind secondThought ⟨[], []⟩
  obtain ⟨strict', lenient', said', hstrict', hlenient', -, hsecond⟩ :=
    hfind secondThought ⟨[pauseVariable], []⟩
  have hrefused : strict = .error ⟨pauseVariable, "18446744073709551616"⟩ :=
    (hfirst.refused _ rfl _).2 ⟨not_gives_two_pow, rfl⟩
  have htaken : strict' = .ok ⟨some 7⟩ := (hsecond.taken _ rfl _).2 ⟨7, gives_seven, rfl⟩
  obtain ⟨rfl, notice, rfl, hlevel, -⟩ := hfirst.replaced _ hrefused
  obtain ⟨rfl, rfl⟩ := hsecond.kept _ htaken
  have hfits : Fits ⟨some 18446744073709551615⟩ := by
    intro n hn
    obtain rfl := Option.some.inj hn
    decide
  refine ⟨⟨notice, hlenient, hlevel⟩, ?_, hlenient', hobject 7 (by decide), hread _ hfits⟩
  rw [hstrict', htaken]
  rfl

end Config
end Passage
