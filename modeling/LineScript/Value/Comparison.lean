import LineScript.Value.Arithmetic

/-!
# Equality and order of values

Numbers are equal when they are the same number, whatever their kinds; values of different
kinds are equal when their texts are.  Numbers are ordered among themselves, and so are
texts; nothing else has an order.

## Main definitions

* `Comparison` — the operations.
* `HostValue.equal`, `Value.equal` — equality.
* `Value.order` — the order of two values.
* `Value.compare` — the result of a comparison.
-/

namespace LineScript

/-- The operations of comparison. -/
inductive Comparison where
  /-- Equality. -/
  | equal
  /-- Its opposite. -/
  | notEqual
  /-- Less than. -/
  | less
  /-- Greater than. -/
  | greater
  /-- Less or equal. -/
  | lessEqual
  /-- Greater or equal. -/
  | greaterEqual
  deriving DecidableEq, Repr, Inhabited

namespace Comparison

/-- The name of an operation. -/
def label : Comparison → String
  | .equal => "equal"
  | .notEqual => "not_equal"
  | .less => "less"
  | .greater => "greater"
  | .lessEqual => "less_equal"
  | .greaterEqual => "greater_equal"

/-- All operations. -/
def all : List Comparison := [.equal, .notEqual, .less, .greater, .lessEqual, .greaterEqual]

/-- The operation of a name. -/
def ofName? (name : Key) : Option Comparison := all.find? fun op => name == op.label

/-- The failure for a name that is no operation. -/
def unknown (name : Option Key) : Fault :=
  ⟨.value, "Unknown comparison operation: " ++ (name.getD .null).shown⟩

/-- Whether an order satisfies an operation. -/
def holds (op : Comparison) (o : Ordering) : Bool :=
  match op with
  | .equal => o == .eq
  | .notEqual => o != .eq
  | .less => o == .lt
  | .greater => o == .gt
  | .lessEqual => o != .gt
  | .greaterEqual => o != .lt

@[simp] theorem ofName?_label (op : Comparison) : ofName? op.label = some op := by cases op <;> rfl

end Comparison

/-- Whether two host values are equal. -/
def HostValue.equal (view : HostView) : HostValue → HostValue → Bool
  | .null, .null => true
  | .boolean a, .boolean b => a == b
  | .integer a, .integer b => a == b
  | .text a, .text b => a == b
  | .function f, .function g => f.id == g.id
  | .object a, .object b => a == b || view.equal a b
  | .method a m, .method b n => a == b && m == n
  | .output, .output => true
  | _, _ => false

namespace Value

/-- Whether two decimals are equal. -/
def equalDecimals (a b : Decimal) : Except Failure Bool :=
  (a.equal b).mapError fun f => .fault f.toFault

/-- Whether the texts of two values are equal. -/
def equalTexts (view : HostView) (left right : Value) : Except Fault Bool :=
  return (← left.text view) == (← right.text view)

/-- Whether two values are equal. -/
def equal (view : HostView) (left right : Value) : Except Failure Bool :=
  match left.payload, right.payload with
  | .integer a, .integer b => .ok (a == b)
  | .integer a, .decimal b => equalDecimals (.ofInt a) b
  | .decimal a, .integer b => equalDecimals a (.ofInt b)
  | .decimal a, .decimal b => equalDecimals a b
  | .null, .null => .ok true
  | .null, _ | _, .null => .ok false
  | .host a, .host b => .ok (a.equal view b)
  | .function f, .function g => .ok (f.id == g.id)
  | .function _, _ | _, .function _ => .ok false
  | .boolean a, .boolean b => .ok (a == b)
  | .string a, .string b => .ok (a == b)
  | _, _ => (equalTexts view left right).mapError .fault

/-- The order of two texts, character by character. -/
def orderTexts : List Char → List Char → Ordering
  | [], [] => .eq
  | [], _ :: _ => .lt
  | _ :: _, [] => .gt
  | a :: as, b :: bs =>
    if a.toNat < b.toNat then .lt else if b.toNat < a.toNat then .gt else orderTexts as bs

/-- The order of two values.  A decimal that is no number has none. -/
def order (left right : Value) : Except Failure Ordering :=
  match left.payload, right.payload with
  | .integer a, .integer b => .ok (Ord.compare a b)
  | .string a, .string b => .ok (orderTexts a.toList b.toList)
  | _, _ =>
    match left.asDecimal?, right.asDecimal? with
    | some a, some b =>
      match a.order? b with
      | some o => .ok o
      | none => .error (.fault Decimal.Fault.invalid.toFault)
    | _, _ => .error (.ofCause (.cannotOrder left.kind right.kind))

/-- Whether two values have an order at all, as far as their kinds go. -/
def isOrdered (left right : Value) : Bool :=
  (left.isNumeric && right.isNumeric) || (left.kind == .string && right.kind == .string)

/-- The result of the comparison of a name. -/
def compare (view : HostView) (name : Option Key) (left right : Value) : Except Failure Value :=
  match name.bind Comparison.ofName? with
  | some .equal => (equal view left right).map boolean
  | some .notEqual => (equal view left right).map fun b => boolean !b
  | some op => (order left right).map fun o => boolean (op.holds o)
  | none =>
    if isOrdered left right then .error (.fault (Comparison.unknown name))
    else .error (.ofCause (.cannotOrder left.kind right.kind))

end Value

end LineScript
