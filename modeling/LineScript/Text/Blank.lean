/-!
# Blank characters and line breaks

The language cuts a script into lines and trims statements, so it fixes once which
characters are blank and which end a line.  Both sets reach beyond ASCII.

## Main definitions

* `isBlank`, `strip`, `stripLeft`, `stripRight` — the blanks and trimming by them.
* `isLineBreak`, `splitLines` — the line breaks and the lines of a text.
-/

namespace LineScript

/-! ### Blanks -/

/-- A character that separates words: tabs, line ends, the ASCII separators, the
space, and the wider spaces of other scripts. -/
def isBlank (c : Char) : Bool :=
  let n := c.toNat
  (0x1C ≤ n && n ≤ 0x20) || (0x09 ≤ n && n ≤ 0x0D) || n == 0x85 || n == 0xA0 || n == 0x1680 ||
    (0x2000 ≤ n && n ≤ 0x200A) || n == 0x2028 || n == 0x2029 || n == 0x202F || n == 0x205F ||
    n == 0x3000

/-- The text without the blanks at its front. -/
def stripLeft (s : List Char) : List Char := s.dropWhile isBlank

/-- The text without the blanks at its end. -/
def stripRight (s : List Char) : List Char := (s.reverse.dropWhile isBlank).reverse

/-- The text without the blanks at either end. -/
def strip (s : List Char) : List Char := stripRight (stripLeft s)

@[simp] theorem stripLeft_nil : stripLeft [] = [] := rfl

@[simp] theorem strip_nil : strip [] = [] := rfl

theorem length_stripLeft_le (s : List Char) : (stripLeft s).length ≤ s.length :=
  (List.dropWhile_sublist isBlank).length_le

theorem length_stripRight_le (s : List Char) : (stripRight s).length ≤ s.length := by
  have h := (List.dropWhile_sublist (l := s.reverse) isBlank).length_le
  simpa [stripRight] using h

theorem length_strip_le (s : List Char) : (strip s).length ≤ s.length :=
  Nat.le_trans (length_stripRight_le _) (length_stripLeft_le s)

/-! ### Lines -/

/-- A character that ends a line. -/
def isLineBreak (c : Char) : Bool :=
  let n := c.toNat
  (0x0A ≤ n && n ≤ 0x0D) || (0x1C ≤ n && n ≤ 0x1E) || n == 0x85 || n == 0x2028 || n == 0x2029

/-- The lines of a text that continues the line `line`, which is held in reverse. -/
def linesFrom (line : List Char) : List Char → List (List Char)
  | [] => if line.isEmpty then [] else [line.reverse]
  | '\r' :: '\n' :: rest => line.reverse :: linesFrom [] rest
  | c :: rest =>
    if isLineBreak c then line.reverse :: linesFrom [] rest else linesFrom (c :: line) rest

/-- The lines of a text, without their line breaks.  A carriage return and a line
feed make one break, and a break at the very end opens no further line. -/
def splitLines (s : List Char) : List (List Char) := linesFrom [] s

@[simp] theorem splitLines_nil : splitLines [] = [] := rfl

end LineScript
