import LineScript.Text.Printable

/-!
# Quoted text

Messages quote names and locators.  Single quotes delimit the text, unless it holds a
single quote and no double quote.  A backslash, the delimiter and the common control
characters are written with a backslash, any other hidden character by its number.

## Main definitions

* `quote` — the quoted form of a text.
* `quoteList` — the quoted forms of several texts, in brackets.
-/

namespace LineScript

/-- The `width` lower-case hexadecimal digits of `n`, with leading zeros. -/
def hexDigits (width n : Nat) : List Char :=
  let digits := Nat.toDigits 16 n
  List.replicate (width - digits.length) '0' ++ digits

/-- How one character stands inside quotes of the kind `delimiter`. -/
def quoteChar (delimiter c : Char) : List Char :=
  if c == '\\' || c == delimiter then ['\\', c]
  else if c == '\n' then ['\\', 'n']
  else if c == '\r' then ['\\', 'r']
  else if c == '\t' then ['\\', 't']
  else if isPrintable c then [c]
  else if c.toNat ≤ 0xFF then '\\' :: 'x' :: hexDigits 2 c.toNat
  else if c.toNat ≤ 0xFFFF then '\\' :: 'u' :: hexDigits 4 c.toNat
  else '\\' :: 'U' :: hexDigits 8 c.toNat

/-- The quote that delimits a text: double only when the text holds a single quote
and no double one. -/
def delimiterOf (s : List Char) : Char :=
  if s.contains '\'' && !s.contains '"' then '"' else '\''

/-- The text in quotes, on one line and in printable characters only. -/
def quote (s : String) : String :=
  let chars := s.toList
  let delimiter := delimiterOf chars
  String.ofList (delimiter :: chars.flatMap (quoteChar delimiter) ++ [delimiter])

/-- Several texts in quotes, separated by commas, in square brackets. -/
def quoteList (items : List String) : String :=
  "[" ++ String.intercalate ", " (items.map quote) ++ "]"

end LineScript
