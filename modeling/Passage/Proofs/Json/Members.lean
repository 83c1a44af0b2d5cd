/-
# Objects, member by member

The text of an object is that of its entries, each a name with the text of
a value (`ObjectText`).  It leaves open all that JSON leaves open: where
there are blanks, and which characters of a name are escaped.

  `Takes`    what one entry does to a draft: it is passed over if its name
             is unknown, read if it is not, and refused the second time
  `Gathers`  what the entries do one after the other

A record is read from an object as its entries are gathered
(`readWhole_of_gathers`).  If the members of the record keep their values
apart (`Record.Slots`), then what is gathered depends on the known entries
alone, and not on their order: `gathers_ok_or_repeats`.
-/
import Passage.Proofs.Json.Reading
import Mathlib.Data.List.Nodup

namespace Passage.Json

variable {α β δ : Type}

/-! ## The text of an object -/

/-- An entry is written with any blanks around its parts, and its name in any spelling. -/
inductive EntryText : String × List Char → List Char → Prop
  | mk {name : String} {before key gap between value after : List Char} (hbefore : Blank before)
      (hkey : Spells key name.toList) (hgap : Blank gap) (hbetween : Blank between)
      (hvalue : Grammar .value value) (hafter : Blank after) :
      EntryText (name, value)
        (before ++ '"' :: (key ++ '"' :: (gap ++ ':' :: (between ++ (value ++ after)))))

/-- Entries with commas between them, at least one. -/
inductive EntriesText : List (String × List Char) → List Char → Prop
  | last {e : String × List Char} {s : List Char} (h : EntryText e s) : EntriesText [e] s
  | more {e : String × List Char} {es : List (String × List Char)} {s t : List Char}
      (h : EntryText e s) (ht : EntriesText es t) : EntriesText (e :: es) (s ++ ',' :: t)

/-- The text of an object with the given entries, perhaps with blanks around it. -/
inductive ObjectText : List (String × List Char) → List Char → Prop
  | empty {before gap after : List Char} (hbefore : Blank before) (hgap : Blank gap)
      (hafter : Blank after) : ObjectText [] (before ++ '{' :: (gap ++ '}' :: after))
  | entries {es : List (String × List Char)} {before s after : List Char} (hbefore : Blank before)
      (h : EntriesText es s) (hafter : Blank after) :
      ObjectText es (before ++ '{' :: (s ++ '}' :: after))

theorem EntryText.grammar {e : String × List Char} {s : List Char} (h : EntryText e s) :
    Grammar (.part .object) s := by
  obtain ⟨hbefore, hkey, hgap, hbetween, hvalue, hafter⟩ := h
  exact .member hbefore hkey.body hgap (.element hbetween hvalue hafter)

theorem EntriesText.grammar {es : List (String × List Char)} {s : List Char}
    (h : EntriesText es s) : Grammar (.parts .object) s := by
  induction h with
  | last h => exact .last h.grammar
  | more h _ ih => exact .more h.grammar ih

/-- The text of an object is JSON. -/
theorem ObjectText.grammar {es : List (String × List Char)} {s : List Char} (h : ObjectText es s) :
    Grammar .element s := by
  cases h with
  | @empty before gap after hbefore hgap hafter =>
      have helement := Grammar.element hbefore (.empty .object hgap) hafter
      simpa [Bracket.opening, Bracket.closing] using helement
  | @entries es before s after hbefore h hafter =>
      have helement := Grammar.element hbefore (.bracket .object h.grammar) hafter
      simpa [Bracket.opening, Bracket.closing] using helement

theorem EntryText.exists_quote {e : String × List Char} {s : List Char} (h : EntryText e s) :
    ∃ before t, s = before ++ '"' :: t ∧ Blank before ∧ 1 ≤ t.length := by
  obtain ⟨hbefore, -, -, -, -, -⟩ := h
  refine ⟨_, _, rfl, hbefore, ?_⟩
  simp only [List.length_append, List.length_cons]
  omega

/-- Behind its first quote, the text of entries is longer than there are entries. -/
theorem EntriesText.exists_quote {es : List (String × List Char)} {s : List Char}
    (h : EntriesText es s) :
    ∃ before t, s = before ++ '"' :: t ∧ Blank before ∧ es.length ≤ t.length := by
  induction h with
  | last h => exact h.exists_quote
  | more h _ ih =>
      obtain ⟨before, t, rfl, hbefore, -⟩ := h.exists_quote
      obtain ⟨before', t', rfl, -, hlength⟩ := ih
      refine ⟨before, _, by rw [List.append_assoc, List.cons_append], hbefore, ?_⟩
      simp only [List.length_append, List.length_cons]
      omega

/-! ## Gathering the entries -/

namespace Record

/-- What an entry does to a draft. -/
inductive Takes (ms : List (Member δ)) (d : δ) : String × List Char → Except Fault δ → Prop
  | unknown {name : String} {value : List Char} (h : ms.find? (fun m => m.name == name) = none) :
      Takes ms d (name, value) (.ok d)
  | known {name : String} {value : List Char} {m : Member δ} {d' : δ}
      (h : ms.find? (fun m => m.name == name) = some m) (unset : m.isSet d = false)
      (reads : ∀ gap rest, Blank gap → Stops rest →
        m.read d (gap ++ (value ++ rest)) = .ok (d', rest)) :
      Takes ms d (name, value) (.ok d')
  | again {name : String} {value : List Char} {m : Member δ}
      (h : ms.find? (fun m => m.name == name) = some m) (set : m.isSet d = true) :
      Takes ms d (name, value) (.error .mismatch)

/-- What entries do to a draft one after the other, up to the first that is refused. -/
inductive Gathers (ms : List (Member δ)) : δ → List (String × List Char) → Except Fault δ → Prop
  | nil {d : δ} : Gathers ms d [] (.ok d)
  | cons {d d' : δ} {e : String × List Char} {es : List (String × List Char)}
      {out : Except Fault δ} (h : Takes ms d e (.ok d')) (others : Gathers ms d' es out) :
      Gathers ms d (e :: es) out
  | fail {d : δ} {e : String × List Char} {es : List (String × List Char)} {f : Fault}
      (h : Takes ms d e (.error f)) : Gathers ms d (e :: es) (.error f)

section
variable {ms : List (Member δ)} {d : δ} {out : Except Fault δ}

/-- From its key on, an entry does to the draft what it has to do. -/
theorem readMember_of_takes {e : String × List Char} {s : List Char} (h : EntryText e s)
    (ht : Takes ms d e out) {rest : List Char} (hr : Stops rest) :
    ∃ t after, openKey (s ++ rest) = .ok t ∧ Blank after ∧
      readMember ms d t = out.map fun d' => (d', after ++ rest) := by
  obtain ⟨hbefore, hkey, hgap, hbetween, hvalue, hafter⟩ := h
  rename_i name before key gap between value after
  have hstops : Stops (after ++ rest) := hafter.stops_append hr
  refine ⟨key ++ '"' :: (gap ++ ':' :: (between ++ (value ++ (after ++ rest)))), after, ?_, hafter,
    ?_⟩
  · have hopen := openKey_append hbefore
      (key ++ '"' :: (gap ++ ':' :: (between ++ (value ++ (after ++ rest)))))
    simpa using hopen
  cases ht with
  | unknown hnone =>
      have hskip : skip (between ++ (value ++ (after ++ rest))) = .ok (after ++ rest) :=
        (hbetween.skipFrom_append _ _).trans (skip_append hvalue hstops)
      rw [readMember, quotation_spells hkey]
      simp only [bind, Except.bind, String.ofList_toList, hnone, colon_append hgap, hskip]
      rfl
  | known hsome unset reads =>
      exact readMember_of_spells hsome unset hkey hgap (reads between _ hbetween hstops)
  | again hsome set =>
      rw [readMember, quotation_spells hkey]
      simp only [bind, Except.bind, String.ofList_toList, hsome, set, if_true]
      rfl

theorem readMembers_of_error {s : List Char} {f : Fault} (h : readMember ms d s = .error f)
    (k : Nat) : readMembers ms (k + 1) d s = .error f := by
  rw [readMembers, h]
  rfl

/-- From the opening quote of the first key on, the entries are gathered. -/
theorem readMembers_of_gathers {es : List (String × List Char)} {s : List Char}
    (h : EntriesText es s) (hg : Gathers ms d es out) (k : Nat) (rest : List Char) :
    (openKey (s ++ '}' :: rest) >>= readMembers ms (k + es.length) d) =
      out.map fun d' => (d', rest) := by
  -- On the entries; each is read into the draft that the one before it has left.
  induction h generalizing d with
  | last h =>
      have hclosing : Stops ('}' :: rest) := stops_closing .object rest
      cases hg with
      | cons ht others =>
          cases others
          obtain ⟨t, after, hopen, hafter, hread⟩ := readMember_of_takes h ht hclosing
          rw [hopen]
          exact readMembers_of_last hafter hread k
      | fail ht =>
          obtain ⟨t, after, hopen, -, hread⟩ := readMember_of_takes h ht hclosing
          rw [hopen]
          exact readMembers_of_error hread k
  | @more e es s t h _ ih =>
      have hcomma : Stops (',' :: (t ++ '}' :: rest)) := stops_cons (.inr (.inl rfl)) _
      rw [List.append_assoc, List.cons_append]
      cases hg with
      | cons ht others =>
          obtain ⟨u, after, hopen, hafter, hread⟩ := readMember_of_takes h ht hcomma
          rw [hopen]
          exact (readMembers_of_comma hafter hread (k + es.length)).trans (ih others)
      | fail ht =>
          obtain ⟨u, after, hopen, -, hread⟩ := readMember_of_takes h ht hcomma
          rw [hopen]
          exact readMembers_of_error hread (k + es.length)

theorem readObject_of_gathers {es : List (String × List Char)} {s : List Char}
    (h : EntriesText es s) (hg : Gathers ms d es out) (rest : List Char) :
    readObject ms d (s ++ '}' :: rest) = out.map fun d' => (d', rest) := by
  obtain ⟨before, t, rfl, hbefore, hlength⟩ := h.exists_quote
  have hopen := openKey_append hbefore (t ++ '}' :: rest)
  have hrounds : (t ++ '}' :: rest).length + 1 =
      (t ++ '}' :: rest).length + 1 - es.length + es.length := by
    rw [List.length_append]
    omega
  have hgathers := readMembers_of_gathers h hg ((t ++ '}' :: rest).length + 1 - es.length) rest
  rw [List.append_assoc, List.cons_append] at hgathers ⊢
  rw [hopen, ← hrounds] at hgathers
  rw [readObject, hbefore.skipSpace_append, skipSpace_cons (c := '"') rfl]
  simp only [Char.reduceEq, if_false, if_true]
  exact hgathers

/-- A draft is read from an object as its entries are gathered. -/
theorem readDraft_of_gathers {es : List (String × List Char)} {s : List Char}
    (h : ObjectText es s) (hg : Gathers ms d es out) :
    ∃ after, Blank after ∧ readDraft ms d s = out.map fun d' => (d', after) := by
  have hdraft : ∀ {before : List Char}, Blank before → ∀ t,
      readDraft ms d (before ++ '{' :: t) = readObject ms d t := by
    intro before hbefore t
    rw [readDraft, hbefore.skipSpace_append, skipSpace_cons (c := '{') rfl]
    exact if_pos rfl
  cases h with
  | @empty before gap after hbefore hgap hafter =>
      cases hg
      refine ⟨after, hafter, ?_⟩
      rw [hdraft hbefore, readObject, hgap.skipSpace_append, skipSpace_cons (c := '}') rfl]
      exact if_pos rfl
  | @entries es before s after hbefore h hafter =>
      exact ⟨after, hafter, (hdraft hbefore _).trans (readObject_of_gathers h hg after)⟩

end

/-- A record is read from an object if its entries make a draft that has the record, and if they do
not, then their fault is that of the text. -/
theorem readWhole_of_gathers {r : Record δ α} {es : List (String × List Char)} {text : String}
    {out : Except Fault δ} (h : ObjectText es text.toList)
    (hg : Gathers r.members r.empty es out) :
    readWhole r.read text = out >>= fun d =>
      match r.finish d with
      | some a => .ok a
      | none => .error .mismatch := by
  obtain ⟨after, hafter, hdraft⟩ := readDraft_of_gathers h hg
  have hend : skipSpace after = [] := by
    have hspace := hafter.skipSpace_append []
    rwa [List.append_nil] at hspace
  rw [readWhole, read, hdraft]
  cases out with
  | error f => rfl
  | ok d =>
      simp only [Except.map, bind, Except.bind]
      cases r.finish d with
      | none => rfl
      | some a => simp only [hend, List.isEmpty_nil, if_true]

/-! ## Members that keep their values apart -/

/-- Where a draft keeps the value of a member. -/
structure Slot (δ β : Type) where
  name : String
  get : δ → Option β
  set : δ → β → δ

def Slot.member (read : Reader β) (s : Slot δ β) : Member δ := .ofField s.name s.get s.set read

/-- The members of a record keep their values in slots of their own.  All values are of one type,
and are written as `write` says. -/
structure Slots (r : Record δ α) (slots : List (Slot δ β)) (read : Reader β)
    (valid : β → Prop) (write : β → List Char) : Prop where
  members : r.members = slots.map (Slot.member read)
  names : (slots.map Slot.name).Nodup
  empty : ∀ s ∈ slots, s.get r.empty = none
  get_set : ∀ s ∈ slots, ∀ d b, s.get (s.set d b) = some b
  get_set_of_ne : ∀ s ∈ slots, ∀ t ∈ slots, s.name ≠ t.name → ∀ d b, t.get (s.set d b) = t.get d
  /-- A draft is nothing but what its slots hold. -/
  ext : ∀ d d', (∀ s ∈ slots, s.get d = s.get d') → d = d'
  reads : ∀ b, valid b → ∀ gap rest, Blank gap → Stops rest →
    read (gap ++ (write b ++ rest)) = .ok (b, rest)
  injective : Function.Injective write

/-- The entries whose names are known. -/
def knownEntries (names : List String) (es : List (String × List Char)) :
    List (String × List Char) :=
  es.filter fun e => names.contains e.1

/-- Each entry with a known name has a value that its member can take. -/
def WellTyped (slots : List (Slot δ β)) (valid : β → Prop) (write : β → List Char)
    (es : List (String × List Char)) : Prop :=
  ∀ s ∈ slots, ∀ v, (s.name, v) ∈ es → ∃ b, valid b ∧ v = write b

theorem knownEntries_cons_of_mem {names : List String} {e : String × List Char}
    (h : e.1 ∈ names) (es : List (String × List Char)) :
    knownEntries names (e :: es) = e :: knownEntries names es :=
  List.filter_cons_of_pos (List.contains_iff_mem.2 h)

theorem knownEntries_cons_of_not_mem {names : List String} {e : String × List Char}
    (h : e.1 ∉ names) (es : List (String × List Char)) :
    knownEntries names (e :: es) = knownEntries names es :=
  List.filter_cons_of_neg fun hc => h (List.contains_iff_mem.1 hc)

theorem mem_knownEntries {names : List String} {e : String × List Char}
    {es : List (String × List Char)} (h : e.1 ∈ names) : e ∈ knownEntries names es ↔ e ∈ es := by
  rw [knownEntries, List.mem_filter, and_iff_left (List.contains_iff_mem.2 h)]

/-- A name that is known comes among the entries just if it does among the known ones. -/
theorem mem_names_knownEntries {names : List String} {name : String}
    {es : List (String × List Char)} (h : name ∈ names) :
    name ∈ (knownEntries names es).map Prod.fst ↔ name ∈ es.map Prod.fst := by
  simp only [List.mem_map, knownEntries, List.mem_filter, List.contains_iff_mem]
  constructor
  · rintro ⟨e, ⟨he, -⟩, rfl⟩
    exact ⟨e, he, rfl⟩
  · rintro ⟨e, he, rfl⟩
    exact ⟨e, ⟨he, h⟩, rfl⟩

/-- Between two drafts, the slots have taken the values of the entries, and none of them was taken
before. -/
structure Gathered (slots : List (Slot δ β)) (write : β → List Char) (d : δ)
    (es : List (String × List Char)) (d' : δ) : Prop where
  fresh : ∀ s ∈ slots, s.get d ≠ none → s.name ∉ es.map Prod.fst
  values : ∀ s ∈ slots, ∀ v, v ∈ (s.get d').map write ↔ v ∈ (s.get d).map write ∨ (s.name, v) ∈ es
  once : ((knownEntries (slots.map Slot.name) es).map Prod.fst).Nodup

/-- A known name comes twice among the entries, or once and its slot is taken already. -/
def Repeats (slots : List (Slot δ β)) (d : δ) (es : List (String × List Char)) : Prop :=
  ¬ ((knownEntries (slots.map Slot.name) es).map Prod.fst).Nodup ∨
    ∃ s ∈ slots, s.get d ≠ none ∧ s.name ∈ es.map Prod.fst

section
variable {r : Record δ α} {slots : List (Slot δ β)} {read : Reader β} {valid : β → Prop}
  {write : β → List Char} {d d' : δ} {name : String} {v : List Char} {es : List (String × List Char)}

/-- Slots of one name are one slot. -/
theorem Slots.eq_of_name (hs : Slots r slots read valid write) {s t : Slot δ β} (hmem : s ∈ slots)
    (ht : t ∈ slots) (h : s.name = t.name) : s = t :=
  List.inj_on_of_nodup_map hs.names hmem ht h

/-- The member of a name is that of the slot with this name, if there is one. -/
theorem Slots.find?_members (hs : Slots r slots read valid write) (name : String) :
    r.members.find? (fun m => m.name == name) =
      (slots.find? fun s => s.name == name).map (Slot.member read) := by
  rw [hs.members, List.find?_map]
  rfl

theorem Slots.takes_unknown (hs : Slots r slots read valid write)
    (hname : name ∉ slots.map Slot.name) : Takes r.members d (name, v) (.ok d) := by
  refine .unknown ?_
  rw [hs.find?_members, Option.map_eq_none_iff, List.find?_eq_none]
  intro s hmem he
  exact hname (eq_of_beq he ▸ List.mem_map_of_mem hmem)

variable {s : Slot δ β} {b : β}

theorem Slots.find?_of_mem (hs : Slots r slots read valid write) (hmem : s ∈ slots) :
    r.members.find? (fun m => m.name == s.name) = some (s.member read) := by
  rw [hs.find?_members]
  cases h : slots.find? fun t => t.name == s.name with
  | none => exact absurd (beq_self_eq_true s.name) (List.find?_eq_none.1 h s hmem)
  | some t =>
      have hkey : t.name = s.name := by simpa using List.find?_some h
      rw [hs.eq_of_name (List.mem_of_find?_eq_some h) hmem hkey]
      rfl

theorem Slots.takes_known (hs : Slots r slots read valid write) (hmem : s ∈ slots)
    (hb : valid b) (h : s.get d = none) :
    Takes r.members d (s.name, write b) (.ok (s.set d b)) := by
  have hunset : (s.member read).isSet d = false := congrArg Option.isSome h
  refine .known (hs.find?_of_mem hmem) hunset fun gap rest hgap hr => ?_
  simp only [Slot.member, Member.ofField, hs.reads b hb gap rest hgap hr]
  rfl

theorem Slots.takes_again (hs : Slots r slots read valid write) (hmem : s ∈ slots)
    (h : s.get d ≠ none) : Takes r.members d (s.name, v) (.error .mismatch) :=
  .again (hs.find?_of_mem hmem) (Option.isSome_iff_ne_none.2 h)

/-! An entry with an unknown name changes nothing. -/

theorem Gathered.unknown (hname : name ∉ slots.map Slot.name) (h : Gathered slots write d es d') :
    Gathered slots write d ((name, v) :: es) d' := by
  have hne : ∀ s ∈ slots, s.name ≠ name := fun s hmem he => hname (he ▸ List.mem_map_of_mem hmem)
  refine ⟨fun s hmem hset hin => ?_, fun s hmem u => ?_, ?_⟩
  · rcases List.mem_cons.1 hin with he | hin
    · exact hne s hmem he
    · exact h.fresh s hmem hset hin
  · have hother : (s.name, u) ≠ (name, v) := fun he => hne s hmem (Prod.mk.inj he).1
    rw [h.values s hmem u, List.mem_cons, or_iff_right hother]
  · rw [knownEntries_cons_of_not_mem hname]
    exact h.once

theorem Repeats.unknown (hname : name ∉ slots.map Slot.name) (h : Repeats slots d es) :
    Repeats slots d ((name, v) :: es) := by
  rcases h with h | ⟨s, hmem, hset, hin⟩
  · rw [Repeats, knownEntries_cons_of_not_mem hname]
    exact .inl h
  · exact .inr ⟨s, hmem, hset, List.mem_cons_of_mem _ hin⟩

/-! An entry with a known name takes its slot, if that is not taken already. -/

theorem Gathered.known (hs : Slots r slots read valid write) (hmem : s ∈ slots)
    (hnone : s.get d = none) (h : Gathered slots write (s.set d b) es d') :
    Gathered slots write d ((s.name, write b) :: es) d' := by
  have hset := hs.get_set s hmem d b
  have hother : ∀ t ∈ slots, t ≠ s → s.name ≠ t.name ∧ t.get (s.set d b) = t.get d := by
    intro t ht hne
    have hnames : s.name ≠ t.name := fun he => hne (hs.eq_of_name ht hmem he.symm)
    exact ⟨hnames, hs.get_set_of_ne s hmem t ht hnames d b⟩
  have hlater : s.name ∉ es.map Prod.fst := h.fresh s hmem (by rw [hset]; exact Option.some_ne_none b)
  refine ⟨fun t ht htaken hin => ?_, fun t ht u => ?_, ?_⟩
  · have hne : t ≠ s := fun he => htaken (he ▸ hnone)
    obtain ⟨hnames, hsame⟩ := hother t ht hne
    rcases List.mem_cons.1 hin with he | hin
    · exact hnames he.symm
    · exact h.fresh t ht (hsame ▸ htaken) hin
  · rw [h.values t ht u, List.mem_cons]
    by_cases hne : t = s
    · subst hne
      simp [hset, hnone, eq_comm]
    · obtain ⟨hnames, hsame⟩ := hother t ht hne
      have hpair : (t.name, u) ≠ (s.name, write b) := fun he => hnames (Prod.mk.inj he).1.symm
      rw [hsame, or_iff_right hpair]
  · have hname : s.name ∈ slots.map Slot.name := List.mem_map_of_mem hmem
    rw [knownEntries_cons_of_mem hname, List.map_cons, List.nodup_cons,
      mem_names_knownEntries hname]
    exact ⟨hlater, h.once⟩

theorem Repeats.known (hs : Slots r slots read valid write) (hmem : s ∈ slots)
    (h : Repeats slots (s.set d b) es) : Repeats slots d ((s.name, v) :: es) := by
  have hname : s.name ∈ slots.map Slot.name := List.mem_map_of_mem hmem
  have hcons : ((knownEntries (slots.map Slot.name) ((s.name, v) :: es)).map Prod.fst).Nodup ↔
      s.name ∉ es.map Prod.fst ∧ ((knownEntries (slots.map Slot.name) es).map Prod.fst).Nodup := by
    rw [knownEntries_cons_of_mem hname, List.map_cons, List.nodup_cons,
      mem_names_knownEntries hname]
  rcases h with h | ⟨t, ht, htaken, hin⟩
  · exact .inl fun hnodup => h (hcons.1 hnodup).2
  · by_cases hne : t = s
    · exact .inl fun hnodup => (hcons.1 hnodup).1 (hne ▸ hin)
    · have hnames : s.name ≠ t.name := fun he => hne (hs.eq_of_name ht hmem he.symm)
      rw [hs.get_set_of_ne s hmem t ht hnames d b] at htaken
      exact .inr ⟨t, ht, htaken, List.mem_cons_of_mem _ hin⟩

/-- Entries with values that can be taken are all gathered, or a known name repeats itself and is
refused. -/
theorem gathers_ok_or_repeats (hs : Slots r slots read valid write)
    (htyped : WellTyped slots valid write es) (d : δ) :
    (∃ d', Gathers r.members d es (.ok d') ∧ Gathered slots write d es d') ∨
      Gathers r.members d es (.error .mismatch) ∧ Repeats slots d es := by
  induction es generalizing d with
  | nil =>
      refine .inl ⟨d, .nil, ?_, ?_, List.nodup_nil⟩
      · exact fun s _ _ h => absurd h List.not_mem_nil
      · exact fun s _ v => by rw [or_iff_left List.not_mem_nil]
  | cons e es ih =>
      obtain ⟨name, v⟩ := e
      have hrest : WellTyped slots valid write es :=
        fun s hmem v h => htyped s hmem v (List.mem_cons_of_mem _ h)
      by_cases hname : name ∈ slots.map Slot.name
      · obtain ⟨s, hmem, rfl⟩ := List.mem_map.1 hname
        by_cases htaken : s.get d = none
        · obtain ⟨b, hb, rfl⟩ := htyped s hmem v List.mem_cons_self
          have htakes := hs.takes_known hmem hb htaken
          rcases ih hrest (s.set d b) with ⟨d', hg, hd⟩ | ⟨hg, hrepeats⟩
          · exact .inl ⟨d', .cons htakes hg, hd.known hs hmem htaken⟩
          · exact .inr ⟨.cons htakes hg, hrepeats.known hs hmem⟩
        · exact .inr ⟨.fail (hs.takes_again hmem htaken),
            .inr ⟨s, hmem, htaken, List.mem_cons_self⟩⟩
      · have htakes := hs.takes_unknown (d := d) (v := v) hname
        rcases ih hrest d with ⟨d', hg, hd⟩ | ⟨hg, hrepeats⟩
        · exact .inl ⟨d', .cons htakes hg, hd.unknown hname⟩
        · exact .inr ⟨.cons htakes hg, hrepeats.unknown hname⟩

/-! ## The record of an object -/

theorem Slots.not_repeats (hs : Slots r slots read valid write)
    (h : ((knownEntries (slots.map Slot.name) es).map Prod.fst).Nodup) :
    ¬ Repeats slots r.empty es := by
  rintro (hrepeats | ⟨s, hmem, htaken, -⟩)
  · exact hrepeats h
  · exact htaken (hs.empty s hmem)

variable {text : String}

/-- If no known name repeats itself, the slots hold the values of the entries and nothing else. -/
theorem Slots.readWhole_once (hs : Slots r slots read valid write)
    (h : ObjectText es text.toList) (htyped : WellTyped slots valid write es)
    (honce : ((knownEntries (slots.map Slot.name) es).map Prod.fst).Nodup) :
    ∃ d, (readWhole r.read text = match r.finish d with
        | some a => .ok a
        | none => .error .mismatch) ∧
      ∀ s ∈ slots, ∀ v, v ∈ (s.get d).map write ↔ (s.name, v) ∈ es := by
  rcases gathers_ok_or_repeats hs htyped r.empty with ⟨d, hg, hd⟩ | ⟨-, hrepeats⟩
  · refine ⟨d, readWhole_of_gathers h hg, fun s hmem v => ?_⟩
    rw [hd.values s hmem v, hs.empty s hmem, or_iff_right (by simp)]
  · exact absurd hrepeats (hs.not_repeats honce)

/-- If one does, its second entry is a fault. -/
theorem Slots.readWhole_repeats (hs : Slots r slots read valid write)
    (h : ObjectText es text.toList) (htyped : WellTyped slots valid write es)
    (hagain : ¬ ((knownEntries (slots.map Slot.name) es).map Prod.fst).Nodup) :
    readWhole r.read text = .error .mismatch := by
  rcases gathers_ok_or_repeats hs htyped r.empty with ⟨d, -, hd⟩ | ⟨hg, -⟩
  · exact absurd hd.once hagain
  · exact readWhole_of_gathers h hg

/-- The order of the known entries does not matter, nor do the unknown ones. -/
theorem Slots.readWhole_eq (hs : Slots r slots read valid write) {es' : List (String × List Char)}
    {text' : String} (h : ObjectText es text.toList) (h' : ObjectText es' text'.toList)
    (htyped : WellTyped slots valid write es) (htyped' : WellTyped slots valid write es')
    (hperm : (knownEntries (slots.map Slot.name) es).Perm
      (knownEntries (slots.map Slot.name) es')) :
    readWhole r.read text = readWhole r.read text' := by
  have hnames := (hperm.map Prod.fst).nodup_iff
  by_cases honce : ((knownEntries (slots.map Slot.name) es).map Prod.fst).Nodup
  · obtain ⟨d, hread, hd⟩ := hs.readWhole_once h htyped honce
    obtain ⟨d', hread', hd'⟩ := hs.readWhole_once h' htyped' (hnames.1 honce)
    -- Both drafts hold the same values, so they are the same draft.
    obtain rfl : d = d' := by
      refine hs.ext d d' fun s hmem => Option.map_injective hs.injective (Option.ext fun v => ?_)
      have hname : s.name ∈ slots.map Slot.name := List.mem_map_of_mem hmem
      have hsame := hperm.mem_iff (a := (s.name, v))
      rw [mem_knownEntries hname, mem_knownEntries hname] at hsame
      exact ((hd s hmem v).trans hsame).trans (hd' s hmem v).symm
    rw [hread, hread']
  · rw [hs.readWhole_repeats h htyped honce,
      hs.readWhole_repeats h' htyped' fun honce' => honce (hnames.2 honce')]

end

end Record
end Passage.Json
