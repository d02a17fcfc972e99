import LineScript.Decimal.Basic
import LineScript.Text.Blank
import LineScript.Text.Digit

/-!
# Reading numbers

Numbers that come from outside a script are written more freely than literals: with
blanks around them, a sign, underscores, a point at either end, an exponent, or as the
names of the values that are no finite number.  A number whose exponent is out of all
bounds cannot be held, however it is written.

## Main definitions

* `Decimal.isHeld` — whether a number is within the bounds of exponents.
* `Decimal.read?` — the decimal a text stands for.
-/

namespace LineScript

/-- A sign and what follows it. -/
def readSign : List Char → Bool × List Char
  | '-' :: rest => (true, rest)
  | '+' :: rest => (false, rest)
  | rest => (false, rest)

/-- The digits at the front of a text and the rest. -/
def spanDigits (s : List Char) : List Char × List Char := s.span isDigit

/-- A whole number with an optional sign and nothing else. -/
def readSigned? (s : List Char) : Option Int :=
  let (negative, digits) := readSign s
  if digits.isEmpty || !digits.all isDigit then none
  else some (if negative then -(readNat digits : Int) else readNat digits)

/-- The exponent part of a number: absent, or a letter `E` and a whole number. -/
def readExponent? : List Char → Option Int
  | [] => some 0
  | c :: rest => if c == 'e' || c == 'E' then readSigned? rest else none

namespace Decimal

/-- The names of the values that are no finite number, in lower case. -/
def readSpecial? (negative : Bool) (s : List Char) : Option Decimal :=
  let (name, digits) := s.span fun c => !isDigit c
  if !digits.all isDigit then none
  else
    let lower := String.ofList (name.map Char.toLower)
    if lower == "nan" then some (.nan negative false (readNat digits))
    else if lower == "snan" then some (.nan negative true (readNat digits))
    else if digits.isEmpty && (lower == "inf" || lower == "infinity") then
      some (.infinite negative)
    else none

/-- A finite number: digits with at most one point among them, then an exponent. -/
def readFinite? (negative : Bool) (s : List Char) : Option Decimal :=
  let (whole, rest) := spanDigits s
  let (fraction, rest) :=
    match rest with
    | '.' :: tail => spanDigits tail
    | rest => ([], rest)
  if whole.isEmpty && fraction.isEmpty then none
  else
    (readExponent? rest).map fun e =>
      .finite negative (readNat (whole ++ fraction)) (e - fraction.length)

/-- The largest exponent of the leading digit of a number. -/
def largestExponent : Int := 999999999999999999

/-- The smallest exponent of the last digit of a number. -/
def smallestExponent : Int := -1999999999999999997

/-- Whether a number is within the bounds of exponents. -/
def isHeld : Decimal → Bool
  | .finite _ c e => adjusted c e ≤ largestExponent && smallestExponent ≤ e
  | _ => true

/-- The decimal that a text stands for.  Blanks around it and underscores anywhere are
ignored. -/
def read? (s : List Char) : Option Decimal :=
  let (negative, rest) := readSign ((strip s).filter (· != '_'))
  match readFinite? negative rest with
  | some d => if d.isHeld then some d else none
  | none => readSpecial? negative rest

end Decimal

end LineScript
