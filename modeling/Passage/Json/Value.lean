/-
# JSON values and their texts

The values that this library writes down: natural numbers, texts, lists
and objects whose members keep their order.  A value has a compact text,
without a blank between its parts, and an indented one with a member or
an item to a line.

In a text the quote and the backslash are escaped, and so is every
control character below the blank; all else stands for itself.
-/
import Passage.Text.Decimal

namespace Passage

/-- A JSON value as this library writes it. -/
inductive Json where
  | null
  | number (n : Nat)
  | text (s : String)
  | list (items : List Json)
  | object (members : List (String × Json))

namespace Json

/-! ## Quoting -/

/-- The hexadecimal digit of a number below 16, in small letters. -/
def hexDigit (n : Nat) : Char := Nat.digitChar n

/-- How a character is written inside a quoted text. -/
def escapeChar (c : Char) : List Char :=
  if c = '"' then ['\\', '"']
  else if c = '\\' then ['\\', '\\']
  else if c = '\x08' then ['\\', 'b']
  else if c = '\t' then ['\\', 't']
  else if c = '\n' then ['\\', 'n']
  else if c = '\x0c' then ['\\', 'f']
  else if c = '\r' then ['\\', 'r']
  else if c.toNat < 0x20 then
    ['\\', 'u', '0', '0', hexDigit (c.toNat / 16), hexDigit (c.toNat % 16)]
  else [c]

def escape (s : List Char) : List Char :=
  s.flatMap escapeChar

def quoted (s : String) : List Char :=
  '"' :: escape s.toList ++ ['"']

/-! ## The compact text -/

mutual

/-- The text of a value with no blanks between its parts. -/
def compact : Json → List Char
  | .null => ['n', 'u', 'l', 'l']
  | .number n => Decimal.digits n
  | .text s => quoted s
  | .list items => '[' :: compactItems items ++ [']']
  | .object members => '{' :: compactMembers members ++ ['}']

/-- The items of a list with commas between them. -/
def compactItems : List Json → List Char
  | [] => []
  | [x] => compact x
  | x :: y :: rest => compact x ++ ',' :: compactItems (y :: rest)

/-- The members of an object with commas between them. -/
def compactMembers : List (String × Json) → List Char
  | [] => []
  | [(k, x)] => quoted k ++ ':' :: compact x
  | (k, x) :: y :: rest => quoted k ++ ':' :: compact x ++ ',' :: compactMembers (y :: rest)

end

def render (x : Json) : String := String.ofList (compact x)

/-! ## The indented text -/

/-- The start of a line at a depth: two blanks for each level. -/
def newLine (depth : Nat) : List Char :=
  '\n' :: List.replicate (2 * depth) ' '

mutual

/-- The text of a value with its items and members on lines of their own.  An empty list or object
stays on its line. -/
def indented (depth : Nat) : Json → List Char
  | .null => ['n', 'u', 'l', 'l']
  | .number n => Decimal.digits n
  | .text s => quoted s
  | .list [] => ['[', ']']
  | .list (x :: rest) =>
    '[' :: newLine (depth + 1) ++ indentedItems (depth + 1) (x :: rest) ++ newLine depth ++ [']']
  | .object [] => ['{', '}']
  | .object (m :: rest) =>
    '{' :: newLine (depth + 1) ++ indentedMembers (depth + 1) (m :: rest) ++ newLine depth ++ ['}']

/-- The items of a list, a line to each. -/
def indentedItems (depth : Nat) : List Json → List Char
  | [] => []
  | [x] => indented depth x
  | x :: y :: rest => indented depth x ++ ',' :: newLine depth ++ indentedItems depth (y :: rest)

/-- The members of an object, a line to each. -/
def indentedMembers (depth : Nat) : List (String × Json) → List Char
  | [] => []
  | [(k, x)] => quoted k ++ ':' :: ' ' :: indented depth x
  | (k, x) :: y :: rest =>
    quoted k ++ ':' :: ' ' :: indented depth x ++ ',' :: newLine depth ++
      indentedMembers depth (y :: rest)

end

def renderIndented (x : Json) : String := String.ofList (indented 0 x)

/-- A value that may be missing, which is then written as null. -/
def ofOption (f : α → Json) : Option α → Json
  | none => .null
  | some a => f a

end Json
end Passage
