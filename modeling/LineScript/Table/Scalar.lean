import LineScript.Table.Basic
import LineScript.Text.Split

/-!
# Plain words

A word that stands plainly in a document is the null value, a truth value, a number or a day,
and otherwise a text.  Whole numbers may be binary, octal or hexadecimal, and every number
may be given in sixties: `1:30` is ninety.  Two words are reserved and stand for nothing.

## Main definitions

* `plainWhole?`, `plainFloat?`, `plainDay?` — the numbers and days that stand plainly.
* `plainScalar` — what a plain word stands for.
-/

namespace LineScript

/-! ### Words -/

/-- The plain words for the null value. -/
def nullWords : List String := ["", "~", "null", "Null", "NULL"]

/-- The plain words for the true value. -/
def trueWords : List String :=
  ["true", "True", "TRUE", "yes", "Yes", "YES", "on", "On", "ON"]

/-- The plain words for the false value. -/
def falseWords : List String :=
  ["false", "False", "FALSE", "no", "No", "NO", "off", "Off", "OFF"]

/-- The plain words that are reserved. -/
def reservedWords : List String := ["=", "<<"]

/-- The failure for a plain word that is reserved. -/
def reservedWord (word : String) : Fault :=
  ⟨.document, s!"could not determine a constructor for {quote word}"⟩

/-! ### Whole numbers -/

/-- The value of a digit, for bases up to sixteen. -/
def digitIn (c : Char) : Nat :=
  if c.isDigit then c.toNat - '0'.toNat else c.toLower.toNat - 'a'.toNat + 10

/-- Whether a text holds nothing but digits of a base and underscores. -/
def areDigits (base : Nat) (s : List Char) : Bool :=
  s.all fun c => c == '_' || ((c.isDigit || c.isAlpha) && digitIn c < base)

/-- The number that digits of a base stand for; underscores are ignored. -/
def readBase (base : Nat) (s : List Char) : Nat :=
  (s.filter (· != '_')).foldl (fun n c => base * n + digitIn c) 0

/-- The number behind the letter of a base, where a digit is wanted. -/
def readLettered (base : Nat) (s : List Char) : Except Fault Nat :=
  if s.all (· == '_') then .error ⟨.value, s!"invalid literal for int() with base {base}: ''"⟩
  else .ok (readBase base s)

/-- The number that decimal digits stand for, if there are not too many of them. -/
def readDecimal (s : List Char) : Except Fault Nat :=
  let count := (s.filter (· != '_')).length
  if digitLimit < count then .error (tooManyDigits count) else .ok (readBase 10 s)

/-- One of the later parts of a number in sixties: one digit, or two that are less than sixty. -/
def isSixtieth : List Char → Bool
  | [a] => a.isDigit
  | [a, b] => a.isDigit && a < '6' && b.isDigit
  | _ => false

/-- The parts of a number in sixties, the greatest first. -/
def sixties? (s : List Char) : Option (List (List Char)) :=
  match splitOn ':' s with
  | (c :: rest) :: part :: parts =>
    if c.isDigit && areDigits 10 rest && (part :: parts).all isSixtieth then
      some ((c :: rest) :: part :: parts)
    else none
  | _ => none

/-- The number in sixties that its parts stand for. -/
def readSixties (parts : List (List Char)) : Except Fault Nat :=
  parts.foldlM (fun n part => return 60 * n + (← readDecimal part)) 0

/-- A plain whole number without its sign: a zero in front makes it octal, and a letter behind
that zero binary or hexadecimal. -/
def plainNat? (s : List Char) : Option (Except Fault Nat) :=
  match s with
  | [] => none
  | '0' :: 'b' :: c :: rest =>
    if areDigits 2 (c :: rest) then some (readLettered 2 (c :: rest)) else none
  | '0' :: 'x' :: c :: rest =>
    if areDigits 16 (c :: rest) then some (readLettered 16 (c :: rest)) else none
  | '0' :: rest => if areDigits 8 rest then some (.ok (readBase 8 rest)) else none
  | c :: rest =>
    if c.isDigit && areDigits 10 rest then some (readDecimal (c :: rest))
    else (sixties? (c :: rest)).map readSixties

/-- A number with its sign. -/
def signed (negative : Bool) (n : Nat) : Int := if negative then -(n : Int) else n

/-- A plain whole number. -/
def plainWhole? (s : List Char) : Option (Except Fault Int) :=
  let (negative, body) := readSign s
  (plainNat? body).map fun n => n.map (signed negative)

/-! ### Numbers with a fraction -/

/-- The exponent of a plain number: none, or a letter `E`, a sign and digits. -/
def isPlainExponent : List Char → Bool
  | [] => true
  | e :: sign :: digits =>
    (e == 'e' || e == 'E') && (sign == '-' || sign == '+') && !digits.isEmpty &&
      digits.all Char.isDigit
  | _ => false

/-- Digits with a point, and an exponent perhaps.  A point at the front wants a digit behind
it and no sign before it. -/
def isPlainFraction (s : List Char) : Bool :=
  let isPart (c : Char) : Bool := c.isDigit || c == '_'
  match s with
  | '.' :: c :: rest => c.isDigit && isPlainExponent (rest.dropWhile isPart)
  | s =>
    match (readSign s).2 with
    | c :: rest =>
      match rest.dropWhile isPart with
      | '.' :: tail => c.isDigit && isPlainExponent (tail.dropWhile isPart)
      | _ => false
    | [] => false

/-- The plain words for numbers that are not finite. -/
def plainSpecial? (s : List Char) : Option Double :=
  let (negative, body) := readSign s
  let word := String.ofList body
  if [".inf", ".Inf", ".INF"].contains word then some (.infinite negative)
  else if [".nan", ".NaN", ".NAN"].contains (String.ofList s) then some .nan
  else none

/-- A number in sixties whose last part has a fraction.  The parts are added one by one, the
smallest first. -/
def plainSixties? (s : List Char) : Option Double :=
  let (negative, body) := readSign s
  match body.span (· != '.') with
  | (whole, '.' :: fraction) =>
    if fraction.all fun c => c.isDigit || c == '_' then
      match (sixties? whole).map List.reverse with
      | some (last :: parts) =>
        let weigh (state : Double × Nat) (part : List Char) : Double × Nat :=
          let (sum, weight) := state
          (sum.plus (.ofFraction false (readBase 10 part * weight) 1), weight * 60)
        let first := (Double.read? ((last ++ '.' :: fraction).filter (· != '_'))).getD .nan
        some ((parts.foldl weigh (first, 60)).1.withSign negative)
      | _ => none
    else none
  | _ => none

/-- A plain number with a fraction. -/
def plainFloat? (s : List Char) : Option Double :=
  if isPlainFraction s then Double.read? (s.filter (· != '_'))
  else (plainSpecial? s).or (plainSixties? s)

/-! ### Days -/

/-- A plain day: four digits, two and two, with hyphens between them. -/
def plainDay? (s : List Char) : Option (Except Fault Day) :=
  match splitOn '-' s with
  | [year, month, day] =>
    if year.length == 4 && month.length == 2 && day.length == 2 &&
        [year, month, day].all fun part => part.all Char.isDigit then
      some (Day.check ⟨readNat year, readNat month, readNat day⟩)
    else none
  | _ => none

/-! ### All words -/

/-- What a plain word stands for. -/
def plainScalar (s : List Char) : Except Fault Key :=
  let word := String.ofList s
  if nullWords.contains word then .ok .null
  else if trueWords.contains word then .ok (.boolean true)
  else if falseWords.contains word then .ok (.boolean false)
  else if reservedWords.contains word then .error (reservedWord word)
  else
    match plainWhole? s, plainFloat? s, plainDay? s with
    | some n, _, _ => n.map .integer
    | none, some d, _ => .ok (.float d.text)
    | none, none, some d => d.map .day
    | none, none, none => .ok (.text word)

end LineScript
