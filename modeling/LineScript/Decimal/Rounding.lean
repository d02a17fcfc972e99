import LineScript.Decimal.Basic

/-!
# Rounding to a precision

Every operation computes an exact result, or one close enough to round like it, and then
fits that result into a precision.  A half goes to the even neighbour.  Exponents are
limited to six digits: above that a result overflows, below it digits are lost.

## Main definitions

* `Precision` — how many digits a result may have, and whether overflow is a fault.
* `roundHalfEven` — division by a power of ten.
* `Precision.fit` — the number that a sign, a coefficient and an exponent round to.
-/

namespace LineScript
namespace Decimal

/-- Why an operation on decimals fails. -/
inductive Fault where
  /-- The operation has no meaning for its operands. -/
  | invalid
  /-- A remainder whose whole quotient has more digits than the precision. -/
  | quotientTooLong
  /-- The result is too large, in a precision that does not allow it. -/
  | overflow
  deriving DecidableEq, Repr, Inhabited

/-- The largest exponent of a leading digit; the smallest is its negative. -/
def exponentLimit : Int := 999999

/-- A working precision. -/
structure Precision where
  /-- The most digits of a result. -/
  digits : Nat
  /-- Whether a result that is too large is a fault; otherwise it is an infinity. -/
  overflowFails : Bool := false
  deriving DecidableEq, Repr, Inhabited

/-- The precision of sums, differences, products and remainders. -/
def Precision.wide : Precision := ⟨1000, false⟩

/-- The precision of quotients. -/
def Precision.quotient : Precision := ⟨34, false⟩

/-- The precision of a change of sign. -/
def Precision.sign : Precision := ⟨28, true⟩

/-- The smallest exponent a result may have. -/
def Precision.tiny (p : Precision) : Int := 1 - exponentLimit - p.digits

/-- The largest exponent a result with all its digits may have. -/
def Precision.top (p : Precision) : Int := exponentLimit - p.digits + 1

/-- `n / 10 ^ drop` rounded to a whole number, a half to the even one. -/
def roundHalfEven (n drop : Nat) : Nat :=
  let unit := 10 ^ drop
  let q := n / unit
  let r := n % unit
  if unit < 2 * r || (unit == 2 * r && q % 2 == 1) then q + 1 else q

/-- The result of an operation that is too large. -/
def Precision.overflowed (p : Precision) (negative : Bool) : Except Fault Decimal :=
  if p.overflowFails then .error .overflow else .ok (.infinite negative)

/-- The coefficient without its last `drop` digits, rounded; all of it is lost when
there are fewer digits than that. -/
def dropDigits (coefficient drop : Nat) : Nat :=
  if digitCount coefficient < drop then 0 else roundHalfEven coefficient drop

/-- The number `± coefficient · 10 ^ exponent` rounded to the precision. -/
def Precision.fit (p : Precision) (negative : Bool) (coefficient : Nat) (exponent : Int) :
    Except Fault Decimal :=
  if coefficient == 0 then
    .ok (.finite negative 0 (min (max exponent p.tiny) exponentLimit))
  else
    let full : Int := exponent + digitCount coefficient - p.digits
    if p.top < full then p.overflowed negative
    else
      let least := max full p.tiny
      if exponent < least then
        let rounded := dropDigits coefficient (least - exponent).toNat
        -- Rounding up may add a digit, which is then a zero at the end.
        if p.digits < digitCount rounded then
          if p.top < least + 1 then p.overflowed negative
          else .ok (.finite negative (rounded / 10) (least + 1))
        else .ok (.finite negative rounded least)
      else .ok (.finite negative coefficient exponent)

/-- A value that is not a number, with as much payload as the precision allows. -/
def Precision.fitNan (p : Precision) (negative : Bool) (payload : Nat) : Decimal :=
  .nan negative false (payload % 10 ^ p.digits)

end Decimal
end LineScript
