import LineScript.Decimal.Reading

/-!
# Binary floating-point numbers

Times are measured in binary floating-point numbers of 53 bits.  Such a number is held as
a whole number times a power of two, so that doubling it is exact as long as it stays below
`2 ^ 1024`; from there on it is infinite.  A number is written with the fewest digits that
read back as the same number.

## Main definitions

* `Double` — the numbers.
* `Double.ofDecimal` — the nearest number to a decimal.
* `Double.scale` — multiplication by a power of two.
* `Double.plus`, `Double.withSign` — sums and signs.
* `Double.ratio?`, `Double.truncate?` — a number as a fraction, and without its fraction.
* `Double.text` — the shortest written form.
-/

namespace LineScript

/-- A binary floating-point number. -/
inductive Double where
  /-- The number `± mantissa · 2 ^ exponent`. -/
  | finite (negative : Bool) (mantissa : Nat) (exponent : Int)
  /-- An infinity. -/
  | infinite (negative : Bool)
  /-- Not a number. -/
  | nan
  deriving DecidableEq, Repr, Inhabited

namespace Double

/-- `a / b` rounded to a whole number, a half to the even one. -/
def divHalfEven (a b : Nat) : Nat :=
  let q := a / b
  let r := a % b
  if b < 2 * r || (b == 2 * r && q % 2 == 1) then q + 1 else q

/-- The smallest exponent. -/
def leastExponent : Int := -1074

/-- The number `± m · 2 ^ e`, which is infinite from `2 ^ 1024` on. -/
def bounded (negative : Bool) (m : Nat) (e : Int) : Double :=
  if m == 0 then .finite negative 0 0
  else if 1024 ≤ (m.log2 : Int) + e then .infinite negative
  else .finite negative m e

/-- The number with a mantissa of at most 53 bits. -/
def settle (negative : Bool) (m : Nat) (e : Int) : Double :=
  if m == 2 ^ 53 then bounded negative (2 ^ 52) (e + 1) else bounded negative m e

/-- The nearest number to the fraction `num / den`. -/
def ofFraction (negative : Bool) (num den : Nat) : Double :=
  if num == 0 then .finite negative 0 0
  else
    let scaled (e : Int) : Nat × Nat := (num * 2 ^ (-e).toNat, den * 2 ^ e.toNat)
    let e := max ((num.log2 : Int) - den.log2 - 53) leastExponent
    let (a, b) := scaled e
    if a / b < 2 ^ 53 then settle negative (divHalfEven a b) e
    else
      let (a, b) := scaled (e + 1)
      settle negative (divHalfEven a b) (e + 1)

/-- The nearest number to a decimal; decimals far out of range are infinite or zero. -/
def ofDecimal : Decimal → Double
  | .finite negative c e =>
    if c == 0 || Decimal.adjusted c e < -400 then .finite negative 0 0
    else if 400 < Decimal.adjusted c e then .infinite negative
    else ofFraction negative (c * 10 ^ e.toNat) (10 ^ (-e).toNat)
  | .infinite negative => .infinite negative
  | .nan .. => .nan

/-- The nearest number to a whole number. -/
def ofInt (n : Int) : Double := ofFraction (n < 0) n.natAbs 1

/-- Whether the number is finite. -/
def isFinite : Double → Bool
  | .finite .. => true
  | _ => false

/-- The number times `2 ^ n`. -/
def scale (n : Nat) : Double → Double
  | .finite negative m e => bounded negative m (e + n)
  | d => d

/-! ### The shortest form -/

/-- The number as a fraction. -/
def fraction (m : Nat) (e : Int) : Nat × Nat := (m * 2 ^ e.toNat, 2 ^ (-e).toNat)

/-- A finite number as a fraction with its sign. -/
def ratio? : Double → Option (Int × Nat)
  | .finite negative m e =>
    let (num, den) := fraction m e
    some (if negative then -(num : Int) else num, den)
  | _ => none

/-- The nearest number to the sum of two finite numbers. -/
def plus (a b : Double) : Double :=
  match a.ratio?, b.ratio? with
  | some (m, d), some (n, e) =>
    let sum := m * e + n * d
    ofFraction (sum < 0) sum.natAbs (d * e)
  | _, _ => .nan

/-- The number with the opposite sign, when it is to be negative. -/
def withSign (negative : Bool) : Double → Double
  | .finite n m e => .finite (n != negative) m e
  | .infinite n => .infinite (n != negative)
  | .nan => .nan

/-- A finite number without its fraction. -/
def truncate? (d : Double) : Option Int := d.ratio?.map fun (num, den) => num.tdiv den

/-- The power of ten above the fraction `num / den`: how many digits stand before the
point. -/
def magnitude (num den : Nat) : Int := (digitCount (num * 10 ^ 400 / den) : Int) - 400

/-- The decimal with `n` digits that reads back as `m · 2 ^ e`, the nearer one if there are
two. -/
def shortestAt (m : Nat) (e : Int) (n : Nat) : Option (Nat × Int) :=
  let (num, den) := fraction m e
  let shift := (n : Int) - magnitude num den
  let a := num * 10 ^ shift.toNat
  let b := den * 10 ^ (-shift).toNat
  let lo := a / b
  let back (c : Nat) : Bool := ofDecimal (.finite false c (-shift)) == .finite false m e
  match back lo, back (lo + 1) with
  | true, true => some (if 2 * (a % b) ≤ b then lo else lo + 1, -shift)
  | true, false => some (lo, -shift)
  | false, true => some (lo + 1, -shift)
  | false, false => none

/-- The digits of the shortest form and the place of its point. -/
def shortest (m : Nat) (e : Int) : List Char × Int :=
  let found := (List.range 17).findSome? fun n => shortestAt m e (n + 1)
  let (c, x) := found.getD (0, 0)
  let digits := natDigits c
  let kept := (digits.reverse.dropWhile (· == '0')).reverse
  (kept, digits.length + x)

/-- The exponent of the scientific form, with at least two digits. -/
def exponentDigits (x : Int) : List Char :=
  let digits := natDigits x.natAbs
  (if x < 0 then '-' else '+') :: (if digits.length < 2 then '0' :: digits else digits)

/-- The written form of digits with the point behind the first `place` of them: with an
exponent from `10 ^ 16` on and below `10 ^ -4`, else with at least one digit behind the
point. -/
def layout (digits : List Char) (place : Int) : List Char :=
  if -4 < place && place ≤ 16 then
    if digits.length ≤ place.toNat then Decimal.pointAt digits place ++ ['.', '0']
    else Decimal.pointAt digits place
  else
    (if digits.length == 1 then digits else Decimal.pointAt digits 1) ++
      'e' :: exponentDigits (place - 1)

/-- The shortest written form that reads back as the number. -/
def text : Double → String
  | .finite negative m e =>
    let (num, den) := fraction m e
    let body :=
      match ofFraction false num den with
      | .finite _ m e =>
        if m == 0 then "0.0".toList
        else
          let (digits, place) := shortest m e
          layout digits place
      | _ => "inf".toList
    String.ofList (Decimal.signText negative ++ body)
  | .infinite negative => String.ofList (Decimal.signText negative ++ "inf".toList)
  | .nan => "nan"

end Double

end LineScript
