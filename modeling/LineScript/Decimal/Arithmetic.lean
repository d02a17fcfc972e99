import LineScript.Decimal.Rounding

/-!
# Arithmetic on decimals

The operations work on sign, coefficient and exponent.  A sum keeps the smaller exponent,
a product adds the exponents, an exact quotient comes as close to the difference of the
exponents as its digits allow, and a remainder has the sign of its dividend.

## Main definitions

* `Decimal.add`, `sub`, `mul`, `div`, `rem` — the operations in a given precision.
* `Decimal.neg` — the change of sign.
* `Decimal.order?` — the order of the values.
-/

namespace LineScript
namespace Decimal

/-- The operand that decides the result when one of two is not a number. -/
def nanOf? (p : Precision) (a b : Decimal) : Option (Except Fault Decimal) :=
  match a, b with
  | .nan _ true _, _ => some (.error .invalid)
  | _, .nan _ true _ => some (.error .invalid)
  | .nan s _ payload, _ => some (.ok (p.fitNan s payload))
  | _, .nan s _ payload => some (.ok (p.fitNan s payload))
  | _, _ => none

/-! ### Sums -/

/-- The coefficient as a signed number. -/
def signed (negative : Bool) (c : Nat) : Int := if negative then -(c : Int) else c

/-- The exponent below which an operand is too small to matter, beside an operand with
coefficient `c` and exponent `e`, except for which side of a half it leaves. -/
def negligible (p : Precision) (c : Nat) (e : Int) : Int :=
  e + min (-1) ((digitCount c : Int) - p.digits - 2)

/-- The smaller operand of a sum: far below the other one it is replaced by a single
digit that rounds the same way. -/
def clampTo (limit : Int) (c : Nat) (e : Int) : Nat × Int :=
  if adjusted c e < limit then (1, limit) else (c, e)

/-- The exact sum of two nonzero numbers, the first with the larger exponent. -/
def sumAligned (p : Precision) (s₁ : Bool) (c₁ : Nat) (e₁ : Int) (s₂ : Bool) (c₂ : Nat)
    (e₂ : Int) : Int × Int :=
  let (c, e) := clampTo (negligible p c₁ e₁) c₂ e₂
  (signed s₁ (c₁ * 10 ^ (e₁ - e).toNat) + signed s₂ c, e)

/-- A nonzero number beside a zero: its exponent goes down toward the zero's. -/
def lowered (p : Precision) (s : Bool) (c : Nat) (e target : Int) : Except Fault Decimal :=
  let e' := max (min e target) (e - p.digits - 1)
  p.fit s (c * 10 ^ (e - e').toNat) e'

/-- The sum of two finite numbers. -/
def addFinite (p : Precision) (s₁ : Bool) (c₁ : Nat) (e₁ : Int) (s₂ : Bool) (c₂ : Nat)
    (e₂ : Int) : Except Fault Decimal :=
  if c₁ == 0 && c₂ == 0 then p.fit (s₁ && s₂) 0 (min e₁ e₂)
  else if c₁ == 0 then lowered p s₂ c₂ e₂ e₁
  else if c₂ == 0 then lowered p s₁ c₁ e₁ e₂
  else
    let (total, e) :=
      if e₁ < e₂ then sumAligned p s₂ c₂ e₂ s₁ c₁ e₁ else sumAligned p s₁ c₁ e₁ s₂ c₂ e₂
    if total == 0 then p.fit false 0 (min e₁ e₂) else p.fit (total < 0) total.natAbs e

/-- The sum of two numbers. -/
def add (p : Precision) (a b : Decimal) : Except Fault Decimal :=
  match nanOf? p a b with
  | some r => r
  | none =>
    match a, b with
    | .finite s₁ c₁ e₁, .finite s₂ c₂ e₂ => addFinite p s₁ c₁ e₁ s₂ c₂ e₂
    | .infinite s, .infinite t => if s == t then .ok (.infinite s) else .error .invalid
    | .infinite s, _ => .ok (.infinite s)
    | _, d => .ok d

/-- The number with the other sign, whatever it is. -/
def flip : Decimal → Decimal
  | .finite s c e => .finite (!s) c e
  | .infinite s => .infinite (!s)
  | .nan s signalling payload => .nan s signalling payload

/-- The difference of two numbers. -/
def sub (p : Precision) (a b : Decimal) : Except Fault Decimal := add p a b.flip

/-! ### Products and quotients -/

/-- The product of two numbers. -/
def mul (p : Precision) (a b : Decimal) : Except Fault Decimal :=
  match nanOf? p a b with
  | some r => r
  | none =>
    match a, b with
    | .finite s₁ c₁ e₁, .finite s₂ c₂ e₂ => p.fit (s₁ != s₂) (c₁ * c₂) (e₁ + e₂)
    | .infinite s, .finite t c _ => if c == 0 then .error .invalid else .ok (.infinite (s != t))
    | .finite s c _, .infinite t => if c == 0 then .error .invalid else .ok (.infinite (s != t))
    | .infinite s, .infinite t => .ok (.infinite (s != t))
    | d, _ => .ok d

/-- A coefficient and an exponent with at most `n` zeros moved from the one to the
other. -/
def moveZeros : Nat → Nat → Int → Nat × Int
  | 0, c, e => (c, e)
  | n + 1, c, e => if c % 10 == 0 then moveZeros n (c / 10) (e + 1) else (c, e)

/-- The quotient of two nonzero coefficients, as a coefficient and an exponent that
round like it.  An inexact quotient never ends in `0` or `5`, so that it is no half. -/
def quotient (p : Precision) (c₁ : Nat) (e₁ : Int) (c₂ : Nat) (e₂ : Int) : Nat × Int :=
  let shift : Int := (digitCount c₂ : Int) - digitCount c₁ + p.digits + 1
  let num := c₁ * 10 ^ shift.toNat
  let den := c₂ * 10 ^ (-shift).toNat
  let q := num / den
  let e := e₁ - e₂ - shift
  if num % den == 0 then moveZeros shift.toNat q e
  else (if q % 5 == 0 then q + 1 else q, e)

/-- The quotient of two numbers; the divisor is not zero. -/
def div (p : Precision) (a b : Decimal) : Except Fault Decimal :=
  match nanOf? p a b with
  | some r => r
  | none =>
    match a, b with
    | .finite s₁ c₁ e₁, .finite s₂ c₂ e₂ =>
      if c₁ == 0 then p.fit (s₁ != s₂) 0 (e₁ - e₂)
      else
        let (q, e) := quotient p c₁ e₁ c₂ e₂
        p.fit (s₁ != s₂) q e
    | .infinite _, .infinite _ => .error .invalid
    | .infinite s, .finite t _ _ => .ok (.infinite (s != t))
    | .finite s _ _, .infinite t => .ok (.finite (s != t) 0 p.tiny)
    | d, _ => .ok d

/-- The remainder of two finite numbers, the divisor not zero: what is left of the
dividend after taking away a whole multiple of the divisor. -/
def remFinite (p : Precision) (s₁ : Bool) (c₁ : Nat) (e₁ : Int) (c₂ : Nat) (e₂ : Int) :
    Except Fault Decimal :=
  let e := min e₁ e₂
  let gap := adjusted c₁ e₁ - adjusted c₂ e₂
  if c₁ == 0 then p.fit s₁ 0 e
  else if gap ≤ -2 then p.fit s₁ (c₁ * 10 ^ (e₁ - e).toNat) e
  else if gap ≤ p.digits then
    let num := c₁ * 10 ^ (e₁ - e).toNat
    let den := c₂ * 10 ^ (e₂ - e).toNat
    if num / den < 10 ^ p.digits then p.fit s₁ (num % den) e else .error .quotientTooLong
  else .error .quotientTooLong

/-- The remainder of two numbers; the divisor is not zero. -/
def rem (p : Precision) (a b : Decimal) : Except Fault Decimal :=
  match nanOf? p a b with
  | some r => r
  | none =>
    match a, b with
    | .finite s₁ c₁ e₁, .finite _ c₂ e₂ => remFinite p s₁ c₁ e₁ c₂ e₂
    | .infinite _, _ => .error .invalid
    | .finite s c e, _ => p.fit s c e
    | d, _ => .ok d

/-! ### Sign -/

/-- The change of sign, rounded to its own precision.  A zero loses its sign. -/
def neg (d : Decimal) : Except Fault Decimal :=
  match d with
  | .finite s c e => if c == 0 then Precision.sign.fit false 0 e else Precision.sign.fit (!s) c e
  | .infinite s => .ok (.infinite (!s))
  | .nan _ true _ => .error .invalid
  | .nan s false payload => .ok (Precision.sign.fitNan s payload)

/-! ### Order -/

/-- The order of the magnitudes of two nonzero finite numbers. -/
def magnitudeOrder (c₁ : Nat) (e₁ : Int) (c₂ : Nat) (e₂ : Int) : Ordering :=
  match compare (adjusted c₁ e₁) (adjusted c₂ e₂) with
  | .eq => compare (c₁ * 10 ^ (e₁ - e₂).toNat) (c₂ * 10 ^ (e₂ - e₁).toNat)
  | o => o

/-- The order of two finite numbers. -/
def finiteOrder (s₁ : Bool) (c₁ : Nat) (e₁ : Int) (s₂ : Bool) (c₂ : Nat) (e₂ : Int) : Ordering :=
  if c₁ == 0 && c₂ == 0 then .eq
  else if c₁ == 0 then (if s₂ then .gt else .lt)
  else if c₂ == 0 then (if s₁ then .lt else .gt)
  else
    match s₁, s₂ with
    | true, false => .lt
    | false, true => .gt
    | false, false => magnitudeOrder c₁ e₁ c₂ e₂
    | true, true => magnitudeOrder c₂ e₂ c₁ e₁

/-- The order of two numbers; nothing when one of them is not a number. -/
def order? (a b : Decimal) : Option Ordering :=
  match a, b with
  | .finite s₁ c₁ e₁, .finite s₂ c₂ e₂ => some (finiteOrder s₁ c₁ e₁ s₂ c₂ e₂)
  | .infinite s, .infinite t =>
    some (if s == t then .eq else if s then .lt else .gt)
  | .infinite s, .finite .. => some (if s then .lt else .gt)
  | .finite .., .infinite t => some (if t then .gt else .lt)
  | _, _ => none

/-- Whether two numbers are equal in value.  Nothing equals a value that is not a number,
and asking about a signalling one is a fault. -/
def equal (a b : Decimal) : Except Fault Bool :=
  match a, b with
  | .nan _ true _, _ => .error .invalid
  | _, .nan _ true _ => .error .invalid
  | a, b => .ok (order? a b == some .eq)

end Decimal
end LineScript
