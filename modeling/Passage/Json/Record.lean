/-
# Reading records, choices and lists

A record is read from an object or from a list of its members' values.
In an object the members come in any order, a known one at most once, and
unknown ones are passed over; in a list they come in the order of the
record, and the last ones may be left out.  What the members say is
collected in a draft, and the draft tells at the end whether a member is
missing.
-/
import Passage.Json.Skip

namespace Passage.Json

/-! ## Single values -/

def readNull (s : List Char) : Except Fault (List Char) :=
  match skipSpace s with
  | [] => .error .ended
  | c :: s => if c = 'n' then word ['u', 'l', 'l'] s else .error (typeFault (c :: s))

/-- Reads a natural number below 2^64, written as a plain row of digits. -/
def readNatural : Reader Nat := fun s =>
  match skipSpace s with
  | [] => .error .ended
  | c :: s =>
    if c = '-' ∨ c.isDigit then do
      let (x, s) ← Numeral.scanFinite (c :: s)
      match x.natural? with
      | some n => .ok (n, s)
      | none => .error .mismatch
    else .error (typeFault (c :: s))

def readText : Reader (List Char) := fun s =>
  match skipSpace s with
  | [] => .error .ended
  | c :: s => if c = '"' then quotation true s else .error (typeFault (c :: s))

def readOptional {α : Type} (read : Reader α) : Reader (Option α) := fun s =>
  match skipSpace s with
  | [] => .error .ended
  | c :: r =>
    if c = 'n' then (word ['u', 'l', 'l'] r).map fun s => (none, s)
    else (read (c :: r)).map fun (a, s) => (some a, s)

/-! ## Keys -/

/-- The opening quote of a key.  A key is always a text, so nothing else is read in its place, not
even to find out what is wrong with it. -/
def openKey (s : List Char) : Except Fault (List Char) :=
  match skipSpace s with
  | [] => .error .ended
  | c :: s => if c = '"' then .ok s else .error .malformed

/-! ## Choices -/

abbrev Choices (α : Type) := List (String × α)

def Choices.find? {α : Type} (cs : Choices α) (name : List Char) : Except Fault α :=
  match cs.lookup (String.ofList name) with
  | some a => .ok a
  | none => .error .mismatch

/-- Reads a name, or an object whose only member has that name and the value null. -/
def readChoice {α : Type} (cs : Choices α) : Reader α := fun s =>
  match skipSpace s with
  | [] => .error .ended
  | c :: s =>
    if c = '"' then do
      let (name, s) ← quotation true s
      let a ← cs.find? name
      return (a, s)
    else if c = '{' then do
      let s ← openKey s
      let (name, s) ← quotation true s
      let a ← cs.find? name
      let s ← colon s
      let s ← readNull s
      match skipSpace s with
      | [] => .error .ended
      | c :: s => if c = '}' then .ok (a, s) else .error .malformed
    else .error .malformed

/-! ## Lists -/

/-- The comma before another item, and an item must follow it. -/
def comma (s : List Char) : Except Fault (List Char) :=
  match s with
  | [] => .error .ended
  | c :: s =>
    if c = ',' then
      match skipSpace s with
      | [] => .error .ended
      | c :: s => if c = ']' then .error .malformed else .ok (c :: s)
    else .error .malformed

/-- Reads the items of a list up to its closing bracket; every item takes a character, so as many
rounds as there are characters are enough. -/
def readItems {α : Type} (read : Reader α) : Nat → Bool → Reader (List α)
  | 0, _, _ => .error .ended
  | rounds + 1, first, s =>
    match skipSpace s with
    | [] => .error .ended
    | c :: r =>
      if c = ']' then .ok ([], r)
      else do
        let s ← if first then .ok (c :: r) else comma (c :: r)
        let (a, s) ← read s
        let (rest, s) ← readItems read rounds false s
        return (a :: rest, s)

def readList {α : Type} (read : Reader α) : Reader (List α) := fun s =>
  match skipSpace s with
  | [] => .error .ended
  | c :: s =>
    if c = '[' then readItems read (s.length + 1) true s else .error (typeFault (c :: s))

/-! ## Records -/

/-- A member of a record: its name, whether a draft has it already, and how its value gets into
the draft. -/
structure Member (δ : Type) where
  name : String
  isSet : δ → Bool
  read : δ → Reader δ

/-- A member that holds a value of its own: where a draft keeps it and how it is read. -/
def Member.ofField {δ α : Type} (name : String) (get : δ → Option α) (set : δ → α → δ)
    (read : Reader α) : Member δ where
  name := name
  isSet d := (get d).isSome
  read d s := (read s).map fun (a, s) => (set d a, s)

/-- A record that is read through a draft. -/
structure Record (δ α : Type) where
  members : List (Member δ)
  empty : δ
  /-- The record of a draft, unless a member is missing. -/
  finish : δ → Option α

namespace Record
variable {δ α : Type}

/-- Reads a member from its key on, the opening quote of which is read already. -/
def readMember (ms : List (Member δ)) (d : δ) : Reader δ := fun s => do
  let (key, s) ← quotation true s
  match ms.find? (fun m => m.name == String.ofList key) with
  | none => do
    let s ← colon s
    let s ← skip s
    return (d, s)
  | some m =>
    if m.isSet d then .error .mismatch
    else do
      let s ← colon s
      m.read d s

/-- Reads members up to the closing bracket; every member takes a character, so as many rounds as
there are characters are enough. -/
def readMembers (ms : List (Member δ)) : Nat → δ → Reader δ
  | 0, _, _ => .error .ended
  | rounds + 1, d, s => do
    let (d, s) ← readMember ms d s
    match skipSpace s with
    | [] => .error .ended
    | c :: s =>
      if c = '}' then .ok (d, s)
      else if c = ',' then do
        let s ← openKey s
        readMembers ms rounds d s
      else .error .malformed

/-- Reads an object after its opening bracket. -/
def readObject (ms : List (Member δ)) (d : δ) : Reader δ := fun s =>
  match skipSpace s with
  | [] => .error .ended
  | c :: s =>
    if c = '}' then .ok (d, s)
    else if c = '"' then readMembers ms (s.length + 1) d s
    else .error .malformed

/-- The closing bracket of a list that has all its items. -/
def closeList (s : List Char) : Except Fault (List Char) :=
  match skipSpace s with
  | [] => .error .ended
  | c :: s => if c = ']' then .ok s else .error .malformed

/-- Reads the members' values from a list after its opening bracket; a list that ends early leaves
the last members out. -/
def readValues : List (Member δ) → Bool → δ → Reader δ
  | [], _, d, s => (closeList s).map fun s => (d, s)
  | m :: ms, first, d, s =>
    match skipSpace s with
    | [] => .error .ended
    | c :: r =>
      if c = ']' then .ok (d, r)
      else do
        let s ← if first then .ok (c :: r) else comma (c :: r)
        let (d, s) ← m.read d s
        readValues ms false d s

/-- Reads the draft of a record from an object or a list. -/
def readDraft (ms : List (Member δ)) (d : δ) : Reader δ := fun s =>
  match skipSpace s with
  | [] => .error .ended
  | c :: s =>
    if c = '{' then readObject ms d s
    else if c = '[' then readValues ms true d s
    else .error (typeFault (c :: s))

def read (r : Record δ α) : Reader α := fun s => do
  let (d, s) ← readDraft r.members r.empty s
  match r.finish d with
  | some a => .ok (a, s)
  | none => .error .mismatch

end Record

/-! ## Whole texts -/

/-- Reads a text that holds one value and nothing else. -/
def readWhole {α : Type} (read : Reader α) (text : String) : Except Fault α := do
  let (a, rest) ← read text.toList
  if (skipSpace rest).isEmpty then .ok a else .error .malformed

end Passage.Json
