import LineScript.Double
import LineScript.Error

/-!
# Numerals

Settings and values from outside may give a number as a text.  A text that is no number is
refused with a message that quotes it.  Whole numbers are neither read nor written with more
than 4300 digits.

## Main definitions

* `writeWhole` — the written form of a whole number, if it is not too long.
* `readWhole` — the whole number that a text stands for.
* `Double.read?`, `readDouble` — the binary number that a text stands for.
-/

namespace LineScript

/-! ### Long numbers -/

/-- The most digits that a whole number can be written with. -/
def digitLimit : Nat := 4300

/-- The failure to read a whole number with too many digits. -/
def tooManyDigits (count : Nat) : Fault :=
  ⟨.value, s!"Exceeds the limit ({digitLimit} digits) for integer string conversion: value has " ++
    s!"{count} digits; use sys.set_int_max_str_digits() to increase the limit"⟩

/-- The failure to write a whole number with too many digits. -/
def tooLongToWrite : Fault :=
  ⟨.value, s!"Exceeds the limit ({digitLimit} digits) for integer string conversion; use " ++
    "sys.set_int_max_str_digits() to increase the limit"⟩

/-- The written form of a whole number. -/
def writeWhole (n : Int) : Except Fault String :=
  if digitLimit < digitCount n.natAbs then .error tooLongToWrite else .ok (intText n)

theorem writeWhole_of_le {n : Int} (h : digitCount n.natAbs ≤ digitLimit) :
    writeWhole n = .ok (intText n) := by
  simp [writeWhole, Nat.not_lt.2 h]

/-! ### Reading -/

/-- A blank that may stand around a number; the four separators of ASCII may not. -/
def isNumberBlank (c : Char) : Bool := isBlank c && !(0x1C ≤ c.toNat && c.toNat ≤ 0x1F)

/-- Whether every underscore stands between two digits; `inside` says whether a digit stands
before the text. -/
def separatesDigits (inside : Bool) : List Char → Bool
  | [] => true
  | c :: rest =>
    if c == '_' then inside && (rest.head?.any isDigit) && separatesDigits false rest
    else separatesDigits (isDigit c) rest

/-- The failure to read a text as a whole number, which quotes the beginning of the text. -/
def notWhole (s : String) : Fault :=
  ⟨.value, "invalid literal for int() with base 10: " ++ String.ofList ((quote s).toList.take 200)⟩

/-- The whole number that a text stands for.  Blanks around it are ignored, and so is a
single underscore between two digits. -/
def readWhole (s : String) : Except Fault Int :=
  let (negative, body) := readSign (s.toList.dropWhile isNumberBlank)
  let (run, rest) := body.span fun c => isDigit c || c == '_'
  let digits := run.filter (· != '_')
  if !separatesDigits false run then .error (notWhole s)
  else if digitLimit < digits.length then .error (tooManyDigits digits.length)
  else if digits.isEmpty || !rest.all isNumberBlank then .error (notWhole s)
  else .ok (if negative then -(readNat digits : Int) else readNat digits)

/-- The infinities and the value that is no number, by their names in any case. -/
def Double.readSpecial? (negative : Bool) (s : List Char) : Option Double :=
  let lower := String.ofList (s.map Char.toLower)
  if lower == "inf" || lower == "infinity" then some (.infinite negative)
  else if lower == "nan" then some .nan
  else none

/-- The binary number that a text stands for. -/
def Double.read? (s : List Char) : Option Double :=
  let front := s.dropWhile isNumberBlank
  let trimmed := (front.reverse.dropWhile isNumberBlank).reverse
  if !separatesDigits false trimmed then none
  else
    let (negative, rest) := readSign (trimmed.filter (· != '_'))
    match Decimal.readFinite? negative rest with
    | some d => some (.ofDecimal d)
    | none => readSpecial? negative rest

/-- The binary number that a text stands for, or why it is none. -/
def readDouble (s : String) : Except Fault Double :=
  match Double.read? s.toList with
  | some d => .ok d
  | none => .error ⟨.value, "could not convert string to float: " ++ quote s⟩

end LineScript
