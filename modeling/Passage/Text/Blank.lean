/-
# White space

The characters with the Unicode property White_Space, and texts without
them at their ends.  The core library counts only four of them as white
space, so its own trimming does not serve.
-/
namespace Passage.Text

/-- The characters with the Unicode property White_Space. -/
def isBlank (c : Char) : Bool :=
  let n := c.toNat
  (9 ≤ n && n ≤ 13) || n == 0x20 || n == 0x85 || n == 0xA0 || n == 0x1680 ||
    (0x2000 ≤ n && n ≤ 0x200A) || n == 0x2028 || n == 0x2029 || n == 0x202F || n == 0x205F ||
    n == 0x3000

def trimLeft (s : List Char) : List Char :=
  s.dropWhile isBlank

def trimRight (s : List Char) : List Char :=
  (s.reverse.dropWhile isBlank).reverse

/-- The text without the blanks at either end. -/
def trim (s : List Char) : List Char :=
  trimRight (trimLeft s)

theorem trimLeft_cons_of_not_blank {c : Char} {s : List Char} (h : isBlank c = false) :
    trimLeft (c :: s) = c :: s := by
  simp [trimLeft, h]

end Passage.Text
