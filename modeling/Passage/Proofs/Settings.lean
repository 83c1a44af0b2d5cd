/-
# Settings from objects

Options and configurations are read from the text of an object.  `Setting`
says of a member which values it takes, and what comes of one that is
given and of one that is missing; `LoadsObjects` says that nothing else
counts.  The members may come in any order and their names in any
spelling, and between them there may be others, with values of any kind and
depth, which are passed over.  Only a known member that comes twice is a
fault.

What is to be shown of a record is that its members keep their values
apart (`Record.Slots`), and that each does what its setting says
(`Suits`): `loadsObjects_of_slots`.
-/
import Passage.Proofs.Json.Members
import Passage.Config
import Passage.Options
import Mathlib.Algebra.Group.Nat.Defs

namespace Passage

open Json (Blank Stops ObjectText Record)

variable {α β δ : Type}

/-! ## Settings -/

/-- A member that settings of type `α` are read from. -/
structure Setting (α : Type) where
  name : String
  /-- The texts of the values that it may have. -/
  takes : List Char → Prop
  /-- The settings have the value with this text. -/
  given : List Char → α → Prop
  /-- The settings have what stands for a missing value. -/
  missing : α → Prop

/-- The text of a number below 2^64. -/
def IsCount (v : List Char) : Prop := ∃ n < 2 ^ 64, v = Decimal.digits n

/-- The members of options: the number of tries, 1 if it is missing, and the timeout in
milliseconds, 5 seconds if it is missing. -/
def Options.settings : List (Setting Options) :=
  [{ name := "tries"
     takes := IsCount
     given v o := v = Decimal.digits o.tries
     missing o := o.tries = 1 },
   { name := "timeout_ms"
     takes := IsCount
     given v o := ∃ n, v = Decimal.digits n ∧ o.timeout = .ofMillis n
     missing o := o.timeout = .ofSecs 5 }]

/-- The member of a configuration: the pause in milliseconds, or null for none; there is none if it
is missing. -/
def Config.settings : List (Setting Config) :=
  [{ name := "pause_after_transition_ms"
     takes v := v = ['n', 'u', 'l', 'l'] ∨ IsCount v
     given v c := v = ['n', 'u', 'l', 'l'] ∧ c.pauseMillis = none ∨
       ∃ n, v = Decimal.digits n ∧ c.pauseMillis = some n
     missing c := c.pauseMillis = none }]

namespace Setting

/-- The entries that the settings have a member for. -/
def known (settings : List (Setting α)) (es : List (String × List Char)) :
    List (String × List Char) :=
  Record.knownEntries (settings.map name) es

/-- Each of these has a value that its member takes. -/
def WellTyped (settings : List (Setting α)) (es : List (String × List Char)) : Prop :=
  ∀ s ∈ settings, ∀ v, (s.name, v) ∈ es → s.takes v

end Setting

/-- How settings are read from an object whose known members have values of their types.  Unknown
members may be in it anywhere, with any values. -/
structure LoadsObjects (ofJson : String → Except Json.Fault α) (settings : List (Setting α)) :
    Prop where
  /-- If no known member comes twice, those that are given have their values, and the others have
  what stands for a missing one. -/
  once : ∀ {es text}, ObjectText es text.toList → Setting.WellTyped settings es →
    ((Setting.known settings es).map Prod.fst).Nodup →
    ∃ a, ofJson text = .ok a ∧ ∀ s ∈ settings,
      (∀ v, (s.name, v) ∈ es → s.given v a) ∧ (s.name ∉ es.map Prod.fst → s.missing a)
  /-- If one does, the text is not of the right type. -/
  twice : ∀ {es text}, ObjectText es text.toList → Setting.WellTyped settings es →
    ¬ ((Setting.known settings es).map Prod.fst).Nodup → ofJson text = .error .mismatch
  /-- The order of the members does not matter, nor do the unknown ones. -/
  unmoved : ∀ {es es' text text'}, ObjectText es text.toList → ObjectText es' text'.toList →
    Setting.WellTyped settings es → Setting.WellTyped settings es' →
    (Setting.known settings es).Perm (Setting.known settings es') → ofJson text = ofJson text'

/-- The slot of a draft does what the setting says. -/
structure Suits (r : Record δ α) (valid : β → Prop) (write : β → List Char)
    (slot : Record.Slot δ β) (setting : Setting α) : Prop where
  name : slot.name = setting.name
  takes : ∀ v, setting.takes v → ∃ b, valid b ∧ v = write b
  given : ∀ d a, r.finish d = some a → ∀ b, slot.get d = some b → setting.given (write b) a
  missing : ∀ d a, r.finish d = some a → slot.get d = none → setting.missing a

/-- In lists that are related element by element, what is in one has its counterpart in the
other. -/
theorem exists_counterpart {R : α → β → Prop} {l : List α} {m : List β} (h : List.Forall₂ R l m)
    {a : α} (ha : a ∈ l) : ∃ b ∈ m, R a b := by
  rw [← List.map_fst_zip (Nat.le_of_eq h.length_eq)] at ha
  obtain ⟨⟨_, b⟩, hmem, rfl⟩ := List.mem_map.1 ha
  exact ⟨b, (List.of_mem_zip hmem).2, (List.forall₂_iff_zip.1 h).2 hmem⟩

section
variable {r : Record δ α} {slots : List (Record.Slot δ β)} {read : Json.Reader β}
  {valid : β → Prop} {write : β → List Char} {settings : List (Setting α)}
  {es : List (String × List Char)}

theorem known_of_suits (h : List.Forall₂ (Suits r valid write) slots settings) :
    Setting.known settings es = Record.knownEntries (slots.map Record.Slot.name) es := by
  have hnames : settings.map Setting.name = slots.map Record.Slot.name := by
    induction h with
    | nil => rfl
    | cons h _ ih => rw [List.map_cons, List.map_cons, h.name, ih]
  rw [Setting.known, hnames]

theorem wellTyped_of_suits (h : List.Forall₂ (Suits r valid write) slots settings)
    (hwell : Setting.WellTyped settings es) : Record.WellTyped slots valid write es := by
  intro slot hslot v hv
  obtain ⟨setting, hsetting, hsuits⟩ := exists_counterpart h hslot
  exact hsuits.takes v (hwell setting hsetting v (hsuits.name ▸ hv))

/-- What is made of a draft that holds the values of the entries. -/
theorem given_or_missing (h : List.Forall₂ (Suits r valid write) slots settings) {d : δ} {a : α}
    (hd : ∀ s ∈ slots, ∀ v, v ∈ (s.get d).map write ↔ (s.name, v) ∈ es)
    (ha : r.finish d = some a) {setting : Setting α} (hsetting : setting ∈ settings) :
    (∀ v, (setting.name, v) ∈ es → setting.given v a) ∧
      (setting.name ∉ es.map Prod.fst → setting.missing a) := by
  have hflip : List.Forall₂ (flip (Suits r valid write)) settings slots := h.flip
  obtain ⟨slot, hslot, hsuits⟩ := exists_counterpart hflip hsetting
  constructor
  · intro v hv
    obtain ⟨b, hb, rfl⟩ := Option.map_eq_some_iff.1 ((hd slot hslot v).2 (hsuits.name ▸ hv))
    exact hsuits.given d a ha b hb
  · intro hmissing
    refine hsuits.missing d a ha (Option.eq_none_iff_forall_not_mem.2 fun b hb => ?_)
    have hv := (hd slot hslot (write b)).1 (Option.mem_map_of_mem write hb)
    exact hmissing (hsuits.name ▸ List.mem_map_of_mem (f := Prod.fst) hv)

theorem loadsObjects_of_slots (hs : r.Slots slots read valid write)
    (hsuits : List.Forall₂ (Suits r valid write) slots settings)
    (hfinish : ∀ d, ∃ a, r.finish d = some a) :
    LoadsObjects (Json.readWhole r.read) settings := by
  constructor
  · intro es text h hwell honce
    rw [known_of_suits hsuits] at honce
    obtain ⟨d, hread, hd⟩ := hs.readWhole_once h (wellTyped_of_suits hsuits hwell) honce
    obtain ⟨a, ha⟩ := hfinish d
    exact ⟨a, by rw [hread, ha], fun setting => given_or_missing hsuits hd ha⟩
  · intro es text h hwell htwice
    rw [known_of_suits hsuits] at htwice
    exact hs.readWhole_repeats h (wellTyped_of_suits hsuits hwell) htwice
  · intro es es' text text' h h' hwell hwell' hperm
    rw [known_of_suits hsuits, known_of_suits hsuits] at hperm
    exact hs.readWhole_eq h h' (wellTyped_of_suits hsuits hwell) (wellTyped_of_suits hsuits hwell')
      hperm

end

/-! ## Numbers behind blanks -/

namespace Json

theorem readNatural_append {gap rest : List Char} (hgap : Blank gap) (hr : Stops rest) {n : Nat}
    (hn : n < 2 ^ 64) : readNatural (gap ++ (Decimal.digits n ++ rest)) = .ok (n, rest) := by
  rw [readNatural, hgap.skipSpace_append]
  exact readNatural_digits hn hr

/-- A number, or null. -/
def optionalDigits : Option Nat → List Char
  | none => ['n', 'u', 'l', 'l']
  | some n => Decimal.digits n

theorem readOptional_append {gap rest : List Char} (hgap : Blank gap) (hr : Stops rest)
    {o : Option Nat} (ho : ∀ n ∈ o, n < 2 ^ 64) :
    readOptional readNatural (gap ++ (optionalDigits o ++ rest)) = .ok (o, rest) := by
  have hspace : readOptional readNatural (gap ++ (optionalDigits o ++ rest)) =
      readOptional readNatural (optionalDigits o ++ rest) := by
    rw [readOptional, readOptional, hgap.skipSpace_append]
  rw [hspace]
  cases o with
  | none => exact readOptional_null rest
  | some n =>
      obtain ⟨c, s, hfirst, hc⟩ := Decimal.exists_cons_digits n
      have hread := readNatural_digits (ho n rfl) hr
      have hn : c ≠ 'n' := by
        rintro rfl
        exact absurd hc (by decide)
      rw [hfirst, List.cons_append] at hread
      rw [optionalDigits, hfirst, List.cons_append]
      exact readOptional_of_read (isSpace_of_isDigit hc) hn hread

theorem injective_digits : Function.Injective Decimal.digits :=
  Function.LeftInverse.injective Decimal.value_digits

theorem injective_optionalDigits : Function.Injective optionalDigits := by
  have hnull : ∀ n, Decimal.digits n ≠ ['n', 'u', 'l', 'l'] := by
    intro n h
    have hn : 'n' ∈ Decimal.digits n := h ▸ List.mem_cons_self
    exact absurd (Decimal.isDigit_of_mem_digits hn) (by decide)
  intro o o' h
  cases o with
  | none =>
      cases o' with
      | none => rfl
      | some m => exact absurd h.symm (hnull m)
  | some n =>
      cases o' with
      | none => exact absurd h (hnull n)
      | some m => exact congrArg some (injective_digits h)

end Json

/-! ## The two records -/

namespace Options

def slots : List (Record.Slot Draft Nat) :=
  [⟨"tries", Draft.tries, fun d n => { d with tries := some n }⟩,
    ⟨"timeout_ms", Draft.timeoutMillis, fun d n => { d with timeoutMillis := some n }⟩]

theorem slots_form : form.Slots slots Json.readNatural (· < 2 ^ 64) Decimal.digits where
  members := rfl
  names := by decide
  empty := by simp [slots, form]
  get_set := by simp [slots]
  get_set_of_ne := by simp [slots]
  ext d d' h := by
    obtain ⟨tries, timeoutMillis⟩ := d
    simp only [slots, List.forall_mem_cons] at h
    obtain ⟨rfl, rfl, -⟩ := h
    rfl
  reads n hn gap rest hgap hr := Json.readNatural_append hgap hr hn
  injective := Json.injective_digits

/-- Each slot does what its setting says when the draft is finished. -/
theorem suits_slots : List.Forall₂ (Suits form (· < 2 ^ 64) Decimal.digits) slots settings := by
  refine .cons ⟨rfl, fun _ hv => hv, ?_, ?_⟩ (.cons ⟨rfl, fun _ hv => hv, ?_, ?_⟩ .nil)
  · rintro d _ ⟨⟩ n (hn : d.tries = some n)
    show Decimal.digits n = Decimal.digits (d.tries.getD 1)
    rw [hn]
    rfl
  · rintro d _ ⟨⟩ (hn : d.tries = none)
    show d.tries.getD 1 = 1
    rw [hn]
    rfl
  · rintro d _ ⟨⟩ n (hn : d.timeoutMillis = some n)
    refine ⟨n, rfl, ?_⟩
    show (d.timeoutMillis.map Duration.ofMillis).getD defaultTimeout = .ofMillis n
    rw [hn]
    rfl
  · rintro d _ ⟨⟩ (hn : d.timeoutMillis = none)
    show (d.timeoutMillis.map Duration.ofMillis).getD defaultTimeout = .ofSecs 5
    rw [hn]
    rfl

end Options

namespace Config

def slots : List (Record.Slot Draft (Option Nat)) :=
  [⟨"pause_after_transition_ms", Draft.pauseMillis, fun _ p => ⟨some p⟩⟩]

theorem slots_form :
    form.Slots slots (Json.readOptional Json.readNatural) (fun o => ∀ n ∈ o, n < 2 ^ 64)
      Json.optionalDigits where
  members := rfl
  names := by decide
  empty := by simp [slots, form]
  get_set := by simp [slots]
  get_set_of_ne := by simp [slots]
  ext d d' h := by
    obtain ⟨pauseMillis⟩ := d
    simp only [slots, List.forall_mem_cons] at h
    obtain ⟨rfl, -⟩ := h
    rfl
  reads _ ho _ _ hgap hr := Json.readOptional_append hgap hr ho
  injective := Json.injective_optionalDigits

theorem suits_slots :
    List.Forall₂ (Suits form (fun o => ∀ n ∈ o, n < 2 ^ 64) Json.optionalDigits) slots
      settings := by
  refine .cons ⟨rfl, ?_, ?_, ?_⟩ .nil
  · rintro v (rfl | ⟨n, hn, rfl⟩)
    · exact ⟨none, fun n hn => absurd hn (by simp), rfl⟩
    · exact ⟨some n, fun m hm => Option.some.inj hm ▸ hn, rfl⟩
  · rintro d _ ⟨⟩ o (ho : d.pauseMillis = some o)
    have hpause : d.pauseMillis.getD none = o := by rw [ho]; rfl
    cases o with
    | none => exact .inl ⟨rfl, hpause⟩
    | some n => exact .inr ⟨n, rfl, hpause⟩
  · rintro d _ ⟨⟩ (ho : d.pauseMillis = none)
    show d.pauseMillis.getD none = none
    rw [ho]
    rfl

end Config

/-- **Settings are read from any object that has them.**  Options and configurations are read from
every object whose known members have values of their types and come at most once; each that is
given has its value, and each that is missing its default.  Neither the order of the members nor
unknown ones among them, however deep they are nested, change what is read.  A known member that
comes twice makes the text one of the wrong type. -/
theorem settings_of_objects :
    LoadsObjects Options.ofJson Options.settings ∧ LoadsObjects Config.ofJson Config.settings :=
  ⟨loadsObjects_of_slots Options.slots_form Options.suits_slots fun d => ⟨d.finish, rfl⟩,
    loadsObjects_of_slots Config.slots_form Config.suits_slots fun _ => ⟨_, rfl⟩⟩

/-- An object with a number of tries, whose name has an escape in it, behind a note that is nested
and has half of a pair of escapes in it. -/
def scrambled : String :=
  "\x7b \"note\":[1e5, \x7b\"\":\"\\uD800\"\x7d] ,\"tri\\u0065s\":3\x7d"

/-- The value of the note. -/
def scrambledNote : List Char := "[1e5, \x7b\"\":\"\\uD800\"\x7d]".toList

theorem grammar_scrambledNote : Json.Grammar .value scrambledNote := by
  have hblank : Blank [' '] := by simp [Blank]
  have hone : Json.Numeral.Whole ['1'] := ⟨⟨by decide, by simp⟩, by decide⟩
  have hfive : Json.Numeral.Digits ['5'] := ⟨by decide, by simp⟩
  have hnone : ([] : List Char) ∈ [[], ['+'], ['-']] ∧ ([] : List Char) ∈ [[], ['-']] := by decide
  have hnumber : Json.Numeral.Literal ['1', 'e', '5'] :=
    .mk hnone.2 hone .none (.power (by decide : 'e' ∈ _) hnone.1 hfive)
  have hhex : Json.Hex 'D' 13 ∧ Json.Hex '8' 8 ∧ Json.Hex '0' 0 := by unfold Json.Hex; decide
  obtain ⟨hD, h8, h0⟩ := hhex
  have hhalf : Json.Body ['\\', 'u', 'D', '8', '0', '0'] :=
    .cons (.numbered (.mk hD h8 h0 h0)) .nil
  have hobject : Json.Grammar .value ['\x7b', '"', '"', ':', '"', '\\', 'u', 'D', '8', '0', '0',
      '"', '\x7d'] :=
    .bracket .object (.last (.member Json.blank_nil .nil Json.blank_nil
      (Json.Grammar.quoted hhalf).alone))
  exact .bracket .list (.more (.item (Json.Grammar.number hnumber).alone)
    (.last (.item (.element hblank hobject Json.blank_nil))))

theorem objectText_scrambled :
    ObjectText [("note", scrambledNote), ("tries", ['3'])] scrambled.toList := by
  have hblank : Blank [' '] := by simp [Blank]
  have hplain : ∀ c ∈ ['n', 'o', 't', 'e', 'r', 'i', 's'], Json.Symbol [c] c.toNat := by
    intro c hc
    have hordinary : 0x20 ≤ c.toNat ∧ c ≠ '"' ∧ c ≠ '\\' := by
      simp only [List.mem_cons, List.not_mem_nil, or_false] at hc
      rcases hc with rfl | rfl | rfl | rfl | rfl | rfl | rfl <;> decide
    exact .plain hordinary.1 hordinary.2.1 hordinary.2.2
  have hhex : Json.Hex '0' 0 ∧ Json.Hex '6' 6 ∧ Json.Hex '5' 5 := by unfold Json.Hex; decide
  obtain ⟨h0, h6, h5⟩ := hhex
  have hletter : Json.Symbol ['\\', 'u', '0', '0', '6', '5'] 'e'.toNat :=
    .numbered (.mk h0 h0 h6 h5)
  have hnote : Json.Spells ['n', 'o', 't', 'e'] "note".toList :=
    .cons (hplain 'n' (by decide)) (.cons (hplain 'o' (by decide)) (.cons (hplain 't' (by decide))
      (.cons (hplain 'e' (by decide)) .nil)))
  have htries : Json.Spells ['t', 'r', 'i', '\\', 'u', '0', '0', '6', '5', 's'] "tries".toList :=
    .cons (hplain 't' (by decide)) (.cons (hplain 'r' (by decide)) (.cons (hplain 'i' (by decide))
      (.cons hletter (.cons (hplain 's' (by decide)) .nil))))
  have hthree : Json.Grammar .value ['3'] := .number (Json.Numeral.literal_digits 3)
  exact .entries Json.blank_nil (.more
    (.mk hblank hnote Json.blank_nil Json.blank_nil grammar_scrambledNote hblank)
    (.last (.mk Json.blank_nil htries Json.blank_nil Json.blank_nil hthree Json.blank_nil)))
    Json.blank_nil

/-- The note is passed over, the name is understood, and the timeout has its default. -/
theorem tries_of_scrambled : Options.ofJson scrambled = .ok ⟨3, .ofSecs 5⟩ := by
  have hwell : Setting.WellTyped Options.settings [("note", scrambledNote), ("tries", ['3'])] := by
    intro s hs v hv
    simp only [Options.settings, List.mem_cons, List.not_mem_nil, or_false] at hs
    rcases hs with rfl | rfl
    · obtain rfl : v = ['3'] := by simpa using hv
      exact ⟨3, by decide, rfl⟩
    · exact absurd hv (by simp)
  obtain ⟨o, ho, hgiven⟩ := settings_of_objects.1.once objectText_scrambled hwell (by decide)
  obtain ⟨htries, -⟩ := hgiven _ List.mem_cons_self
  obtain ⟨-, htimeout⟩ := hgiven _ (List.mem_cons_of_mem _ List.mem_cons_self)
  have hthree : ['3'] = Decimal.digits o.tries := htries ['3'] (by simp)
  have hdefault : o.timeout = .ofSecs 5 := htimeout (by simp)
  obtain ⟨tries, timeout⟩ := o
  obtain rfl : 3 = tries := Json.injective_digits hthree
  obtain rfl := hdefault
  exact ho

end Passage
