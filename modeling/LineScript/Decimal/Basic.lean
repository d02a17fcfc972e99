/-!
# Decimal numbers

A decimal number is a sign, a coefficient and a power of ten.  The three parts are kept
as they are, so `1.50` and `1.5` are different numbers of equal value, and zero has a
sign and an exponent.  Beside the finite numbers there are the two infinities and the
values that are not numbers.

## Main definitions

* `Decimal` — the numbers.
* `digitCount` — how many digits a coefficient is written with.
* `Decimal.scientific`, `Decimal.plain` — the two written forms.
-/

namespace LineScript

/-- Powers of numbers are those of the core library, also in a module that imports an algebra
with powers of its own. -/
@[default_instance 20000]
instance (priority := 2000) corePow {α : Type} [NatPow α] : Pow α Nat := instPowNat

/-! ### Digits -/

/-- The number of digits of `n`, for an `n` below `10 ^ 2 ^ k`: by halves. -/
def digitCountBelow : Nat → Nat → Nat
  | 0, _ => 1
  | k + 1, n =>
    if n < 10 ^ 2 ^ k then digitCountBelow k n
    else 2 ^ k + digitCountBelow k (n / 10 ^ 2 ^ k)

/-- The number of decimal digits of `n`; zero has one. -/
def digitCount (n : Nat) : Nat := digitCountBelow ((n.log2 + 1).log2 + 1) n

@[simp] theorem digitCountBelow_zero (n : Nat) : digitCountBelow 0 n = 1 := rfl

theorem digitCountBelow_succ (k n : Nat) :
    digitCountBelow (k + 1) n =
      if n < 10 ^ 2 ^ k then digitCountBelow k n
      else 2 ^ k + digitCountBelow k (n / 10 ^ 2 ^ k) := rfl

/-- The decimal digits of `n`, most significant first. -/
def natDigits (n : Nat) : List Char := Nat.toDigits 10 n

/-- The written form of a whole number. -/
def intText (n : Int) : String :=
  match n with
  | .ofNat m => String.ofList (natDigits m)
  | .negSucc m => String.ofList ('-' :: natDigits (m + 1))

/-! ### Numbers -/

/-- A decimal number. -/
inductive Decimal where
  /-- The number `± coefficient · 10 ^ exponent`. -/
  | finite (negative : Bool) (coefficient : Nat) (exponent : Int)
  /-- An infinity. -/
  | infinite (negative : Bool)
  /-- Not a number; a signalling one makes every operation fail. -/
  | nan (negative signalling : Bool) (payload : Nat)
  deriving DecidableEq, Repr, Inhabited

namespace Decimal

/-- The whole number `n`, with exponent zero. -/
def ofInt (n : Int) : Decimal := .finite (n < 0) n.natAbs 0

/-- Whether the number is a zero, of either sign and with any exponent. -/
def isZero : Decimal → Bool
  | .finite _ c _ => c == 0
  | _ => false

/-- The exponent of the leading digit. -/
def adjusted (coefficient : Nat) (exponent : Int) : Int := exponent + digitCount coefficient - 1

/-! ### Written forms -/

/-- The sign as written. -/
def signText (negative : Bool) : List Char := if negative then ['-'] else []

/-- The digits with the point after the first `place` of them; missing digits are
zeros. -/
def pointAt (digits : List Char) (place : Int) : List Char :=
  if place ≤ 0 then
    '0' :: '.' :: (List.replicate (-place).toNat '0' ++ digits)
  else if digits.length ≤ place.toNat then
    digits ++ List.replicate (place.toNat - digits.length) '0'
  else
    digits.take place.toNat ++ '.' :: digits.drop place.toNat

/-- The form of a value that is no finite number. -/
def specialText : Decimal → List Char
  | .infinite negative => signText negative ++ "Infinity".toList
  | .nan negative signalling payload =>
    signText negative ++ (if signalling then "sNaN" else "NaN").toList ++
      (if payload == 0 then [] else natDigits payload)
  | .finite .. => []

/-- An exponent as written after the letter `E`. -/
def exponentText (e : Int) : List Char :=
  'E' :: (if e < 0 then '-' else '+') :: natDigits e.natAbs

/-- The scientific form: without an exponent when the exponent is not positive and the
first digit stands at most six places behind the point, else with one digit before the
point. -/
def scientific : Decimal → String
  | .finite negative c e =>
    let digits := natDigits c
    let place := e + digits.length
    if e ≤ 0 && -6 < place then
      String.ofList (signText negative ++ (if e == 0 then digits else pointAt digits place))
    else
      String.ofList (signText negative ++ pointAt digits 1 ++
        if place == 1 then [] else exponentText (place - 1))
  | d => String.ofList d.specialText

/-- The plain form: all digits written out, without an exponent. -/
def plain : Decimal → String
  | .finite negative c e =>
    let digits := natDigits c
    if 0 ≤ e then
      String.ofList (signText negative ++
        (if c == 0 then digits else digits ++ List.replicate e.toNat '0'))
    else
      String.ofList (signText negative ++ pointAt digits (e + digits.length))
  | d => String.ofList d.specialText

end Decimal

end LineScript
