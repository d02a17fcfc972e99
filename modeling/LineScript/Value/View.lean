import LineScript.Text.Quoted
import LineScript.Value.Basic

/-!
# Values as texts and conditions

The objects of the host have names for their classes, texts, and an equality of their own;
a view says what they are at one moment.  With it every value has a text, and a text that
shows its kind.  Only a whole number of the host may be too long to be written.

## Main definitions

* `Lookup` — the outcome of looking for something in the host.
* `HostView` — what scripts can see of the objects of the host.
* `HostValue.className`, `HostValue.shown`, `HostValue.described` — names and texts of host values.
* `HostValue.asText` — the text that a host value is.
* `Value.text`, `Value.truthy`, `Value.describe` — texts of values, and values as conditions.
-/

namespace LineScript

/-- The outcome of looking for something in the host. -/
inductive Lookup where
  /-- It is there. -/
  | found (h : HostValue)
  /-- It is not there. -/
  | missing
  /-- The search itself failed. -/
  | broken (f : Failure)
  deriving Inhabited

/-- What scripts can see of the objects of the host. -/
structure HostView where
  /-- The name of the class of an object. -/
  className : Nat → String
  /-- What messages about missing attributes call an object. -/
  noun : Nat → String
  /-- The text of an object, which may be too long to be written. -/
  text : Nat → Except Fault String
  /-- Whether two objects are equal. -/
  equal : Nat → Nat → Bool
  /-- The member of a name. -/
  member : Nat → String → Lookup
  /-- Whether an object can be called. -/
  isCallable : Nat → Bool
  /-- Whether an object takes part in arithmetic. -/
  isOperable : Nat → Bool

instance : Inhabited HostView where
  default := ⟨fun _ => "object", fun _ => "'object' object", fun _ => .ok "<object>", fun a b => a == b, fun _ _ => .missing,
    fun _ => false, fun _ => false⟩

/-- A function as it shows itself. -/
def ScriptFunction.describe (f : ScriptFunction) : String :=
  let params := String.intercalate ", " f.params
  s!"<function {f.name}({params})>"

namespace HostValue

/-- The name of the class of a host value. -/
def className (view : HostView) : HostValue → String
  | .null => "NoneType"
  | .boolean _ => "bool"
  | .integer _ => "int"
  | .decimal _ => "Decimal"
  | .float _ => "float"
  | .text _ => "str"
  | .function _ => "ScriptFunction"
  | .callable _ => "ScriptCallable"
  | .object ref => view.className ref
  | .method .. | .output => "method"

/-- What messages about missing attributes call a host value.  A method has the attributes of
the function behind it. -/
def noun (view : HostView) : HostValue → String
  | .decimal _ => "'decimal.Decimal' object"
  | .method .. | .output => "'function' object"
  | .object ref => view.noun ref
  | h => s!"'{h.className view}' object"

/-- The failure to use an attribute that a host value does not have. -/
def lacks (view : HostView) (member : String) (h : HostValue) : Fault :=
  ⟨.attribute, s!"{h.noun view} has no attribute '{member}'"⟩

/-- The text that a host value is.  Anything else lacks the attribute of texts that is used
first. -/
def asText (view : HostView) (member : String) : HostValue → Except Fault String
  | .text s => .ok s
  | h => .error (h.lacks view member)

@[simp] theorem asText_text (view : HostView) (member s : String) :
    asText view member (.text s) = .ok s := rfl

/-- Whether a host value can be called. -/
def isCallable (view : HostView) : HostValue → Bool
  | .callable _ | .method .. | .output => true
  | .object ref => view.isCallable ref
  | _ => false

/-- Whether a host value takes part in arithmetic. -/
def isOperable (view : HostView) : HostValue → Bool
  | .object ref => view.isOperable ref
  | _ => false

/-- The member of a name; only objects have members. -/
def member (view : HostView) (h : HostValue) (name : String) : Lookup :=
  match h with
  | .object ref => view.member ref name
  | _ => .missing

/-- The text of a host value. -/
def shown (view : HostView) : HostValue → Except Fault String
  | .null => .ok "None"
  | .boolean b => .ok (if b then "True" else "False")
  | .integer n => writeWhole n
  | .decimal d => .ok d.scientific
  | .float t => .ok t
  | .text s => .ok s
  | .function f => .ok f.describe
  | .callable f => .ok s!"<script function {f.name}>"
  | .object ref => view.text ref
  | .method ref name =>
    (view.text ref).map fun text => s!"<bound method {view.className ref}.{name} of {text}>"
  | .output => .ok "<bound method print>"

/-- The text of a host value that shows what it is. -/
def described (view : HostView) : HostValue → Except Fault String
  | .decimal d => .ok s!"Decimal('{d.scientific}')"
  | .text s => .ok (quote s)
  | h => h.shown view

end HostValue

namespace Value

/-- The text of a value. -/
def text (view : HostView) (v : Value) : Except Fault String :=
  match v.payload with
  | .null => .ok "null"
  | .boolean b => .ok (if b then "true" else "false")
  | .integer n => .ok (intText n)
  | .decimal d => .ok d.plain
  | .string s => .ok s
  | .host h => h.shown view
  | .function f => .ok s!"<function {f.name}>"

/-- Whether a text stands for truth, apart from blanks around it and from case. -/
def saysTrue (s : String) : Bool := (strip s.toList).map Char.toLower == ['t', 'r', 'u', 'e']

/-- A value as a condition: a truth value as it is, a whole number when it is positive, and
anything else by its text. -/
def truthy (view : HostView) (v : Value) : Except Fault Bool :=
  match v.payload with
  | .boolean b => .ok b
  | .integer n => .ok (0 < n)
  | _ => (v.text view).map saysTrue

/-- The text of a payload that shows what it is. -/
def describePayload (view : HostView) : Payload → Except Fault String
  | .null => .ok "None"
  | .boolean b => .ok (if b then "True" else "False")
  | .integer n => .ok (intText n)
  | .decimal d => HostValue.described view (.decimal d)
  | .string s => .ok (quote s)
  | .host h => h.described view
  | .function f => .ok f.describe

/-- The text of a value that shows its kind and its flags. -/
def describe (view : HostView) (v : Value) : Except Fault String := do
  let flags := if v.flags.any then s!", flags={quoteList (v.flags.toList.map Flag.label)}" else ""
  let payload ← describePayload view v.payload
  return s!"Value({v.kind.label}, {payload}{flags})"

end Value

end LineScript
