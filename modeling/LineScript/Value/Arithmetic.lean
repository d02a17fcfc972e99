import LineScript.Decimal.Arithmetic
import LineScript.Value.View

/-!
# Arithmetic on values

Whole numbers are combined exactly and become decimals beyond 64 bits; with a decimal on
either side the numbers are combined as decimals.  A text on either side is joined with the
text of the other, and an object of the host combines itself.

## Main definitions

* `Arithmetic` — the operations.
* `Value.combineIntegers`, `Value.combineDecimals`, `Value.combineNumbers` — arithmetic on numbers.
* `Value.joinTexts`, `Value.combine` — arithmetic on any values.
* `Value.negate` — the change of sign.
-/

namespace LineScript

/-- The operations of arithmetic. -/
inductive Arithmetic where
  /-- The sum. -/
  | plus
  /-- The difference. -/
  | subtract
  /-- The product. -/
  | multiply
  /-- The quotient. -/
  | divide
  /-- The remainder. -/
  | module
  deriving DecidableEq, Repr, Inhabited

namespace Arithmetic

/-- The name of an operation. -/
def label : Arithmetic → String
  | .plus => "plus"
  | .subtract => "subtract"
  | .multiply => "multiply"
  | .divide => "divide"
  | .module => "module"

/-- All operations. -/
def all : List Arithmetic := [.plus, .subtract, .multiply, .divide, .module]

/-- The operation of a name. -/
def ofName? (name : Key) : Option Arithmetic := all.find? fun op => name == op.label

/-- The failure for a name that is no operation. -/
def unknown (name : Option Key) : Fault :=
  ⟨.value, "Unknown arithmetic operation: " ++ (name.getD .null).shown⟩

@[simp] theorem ofName?_label (op : Arithmetic) : ofName? op.label = some op := by cases op <;> rfl

end Arithmetic

/-- The failure of host code that a failure of decimal arithmetic is. -/
def Decimal.Fault.toFault : Decimal.Fault → LineScript.Fault
  | .invalid => ⟨.invalidOperation, "[<class 'decimal.InvalidOperation'>]"⟩
  | .quotientTooLong => ⟨.invalidOperation, "[<class 'decimal.DivisionImpossible'>]"⟩
  | .overflow => ⟨.overflow, "[<class 'decimal.Overflow'>]"⟩

/-- What comes of an operation between two values. -/
inductive Combined where
  /-- A value. -/
  | value (v : Value)
  /-- Whatever the object on the left makes of it. -/
  | delegated (receiver : HostValue)
  deriving Inhabited

namespace Value

/-- A number as a decimal. -/
def asDecimal? (v : Value) : Option Decimal :=
  match v.payload with
  | .integer n => some (.ofInt n)
  | .decimal d => some d
  | _ => none

/-- The failure for a divisor that is zero. -/
def zeroDivisor : Arithmetic → Option Cause
  | .divide => some .divisionByZero
  | .module => some .moduloByZero
  | _ => none

/-- The decimal operation of an operation. -/
def decimalOperation : Arithmetic → Decimal → Decimal → Except Decimal.Fault Decimal
  | .plus => Decimal.add .wide
  | .subtract => Decimal.sub .wide
  | .multiply => Decimal.mul .wide
  | .divide => Decimal.div .quotient
  | .module => Decimal.rem .wide

/-- The result of an operation on decimals. -/
def combineDecimals (op : Arithmetic) (a b : Decimal) : Except Failure Value :=
  match decimalOperation op a b with
  | .ok d => .ok (decimal d)
  | .error f => .error (.fault f.toFault)

/-- The result of an operation on whole numbers.  A quotient that is not whole is a decimal,
and a remainder has the sign of the dividend. -/
def combineIntegers (op : Arithmetic) (a b : Int) : Except Failure Value :=
  match op with
  | .plus => .ok (ofInt (a + b))
  | .subtract => .ok (ofInt (a - b))
  | .multiply => .ok (ofInt (a * b))
  | .divide =>
    if a.tmod b == 0 then .ok (ofInt (a.tdiv b)) else combineDecimals .divide (.ofInt a) (.ofInt b)
  | .module => .ok (ofInt (a.tmod b))

/-- Whether a number is zero. -/
def isZero (v : Value) : Except Failure Bool :=
  match v.payload with
  | .integer n => .ok (n == 0)
  | .decimal d => (d.equal (.ofInt 0)).mapError fun f => .fault f.toFault
  | _ => .ok false

/-- The result of an operation on numbers. -/
def combineNumbers (op : Arithmetic) (left right : Value) : Except Failure Value := do
  if let some cause := zeroDivisor op then
    if ← right.isZero then throw (.ofCause cause)
  match left.payload, right.payload with
  | .integer a, .integer b => combineIntegers op a b
  | _, _ =>
    match left.asDecimal?, right.asDecimal? with
    | some a, some b => combineDecimals op a b
    | _, _ => throw (.ofCause (.undefinedOperator op.label left.kind right.kind))

/-- The text of two values, one behind the other. -/
def joinTexts (view : HostView) (left right : Value) : Except Fault String :=
  return (← left.text view) ++ (← right.text view)

/-- What comes of an operation between two values. -/
def combine (view : HostView) (op : Arithmetic) (left right : Value) : Except Failure Combined :=
  if left.isNumeric && right.isNumeric then (combineNumbers op left right).map .value
  else if left.kind == .string || right.kind == .string then
    if op == .plus then
      ((joinTexts view left right).map fun text => .value (string text)).mapError .fault
    else .error (.ofCause (.undefinedOperator op.label left.kind right.kind))
  else
    match left.payload with
    | .host h =>
      if h.isOperable view then .ok (.delegated h)
      else .error (.ofCause (.notOperable (h.className view) op.label))
    | _ => .error (.ofCause (.undefinedOperator op.label left.kind right.kind))

/-- The value of the opposite sign. -/
def negate (v : Value) : Except Failure Value :=
  match v.payload with
  | .integer n => .ok (ofInt (-n))
  | .decimal d => (d.neg.map decimal).mapError fun f => .fault f.toFault
  | _ => .error (.ofCause (.cannotNegate v.kind))

end Value

end LineScript
