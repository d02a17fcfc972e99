import LineScript.Decimal.Reading
import LineScript.Term.Lowering

/-!
# Values

A script computes with values of seven kinds.  Control flow travels with them: a value that
a return, a loop or a conditional hands upwards carries a flag.  Values of the host enter a
script by `Value.ofHost` and leave it by `Value.toHost`.

## Main definitions

* `ScriptFunction` — a function that a script defines.
* `HostValue` — what the host knows of a value.
* `Payload`, `Flags`, `Value` — the values of scripts.
* `Value.ofHost`, `Value.toHost` — the way in and the way out.
-/

namespace LineScript

/-- A function that a script defines.  Every execution of a definition makes a new one. -/
structure ScriptFunction where
  /-- What tells the function from every other one. -/
  id : Nat
  /-- The name it was defined under. -/
  name : String
  /-- The names of its parameters. -/
  params : List String
  /-- Its statements. -/
  body : List Statement
  /-- The scope it was defined in. -/
  closure : Nat
  deriving Inhabited

/-- How many arguments a function takes. -/
def ScriptFunction.arity (f : ScriptFunction) : Nat := f.params.length

/-- What the host knows of a value. -/
inductive HostValue where
  /-- Nothing. -/
  | null
  /-- A truth value. -/
  | boolean (b : Bool)
  /-- A whole number of any size. -/
  | integer (n : Int)
  /-- A decimal number. -/
  | decimal (d : Decimal)
  /-- A binary number, by the shortest text that denotes it. -/
  | float (text : String)
  /-- A text. -/
  | text (s : String)
  /-- A function of a script, as it is. -/
  | function (f : ScriptFunction)
  /-- A function of a script, ready to be called by the host. -/
  | callable (f : ScriptFunction)
  /-- An object of the host, by its reference. -/
  | object (ref : Nat)
  /-- A method of an object. -/
  | method (ref : Nat) (name : String)
  /-- The function that prints. -/
  | output
  deriving Inhabited

/-- What a value is. -/
inductive Payload where
  /-- The null value. -/
  | null
  /-- A truth value. -/
  | boolean (b : Bool)
  /-- A whole number of 64 bits. -/
  | integer (n : Int)
  /-- A decimal number. -/
  | decimal (d : Decimal)
  /-- A text. -/
  | string (s : String)
  /-- Something that belongs to the host. -/
  | host (h : HostValue)
  /-- A function of a script. -/
  | function (f : ScriptFunction)
  deriving Inhabited

/-- The kind of a payload. -/
def Payload.kind : Payload → Kind
  | .null => .null
  | .boolean _ => .boolean
  | .integer _ => .integer
  | .decimal _ => .decimal
  | .string _ => .string
  | .host _ => .host
  | .function _ => .function

/-- One of the flags of a value. -/
inductive Flag where
  /-- A conditional ran. -/
  | conditional
  /-- A loop ended. -/
  | loop
  /-- A function returns. -/
  | returning
  deriving DecidableEq, Repr, Inhabited

/-- The name of a flag. -/
def Flag.label : Flag → String
  | .conditional => "if"
  | .loop => "loop"
  | .returning => "return"

/-- The flags of a value. -/
structure Flags where
  /-- Whether a conditional ran. -/
  conditional : Bool := false
  /-- Whether a loop ended. -/
  loop : Bool := false
  /-- Whether a function returns. -/
  returning : Bool := false
  deriving DecidableEq, Repr, Inhabited

namespace Flags

/-- No flag at all. -/
def none : Flags := {}

/-- The flags with one more. -/
def add (flag : Flag) (f : Flags) : Flags :=
  match flag with
  | .conditional => { f with conditional := true }
  | .loop => { f with loop := true }
  | .returning => { f with returning := true }

/-- Whether a flag is set. -/
def has (flag : Flag) (f : Flags) : Bool :=
  match flag with
  | .conditional => f.conditional
  | .loop => f.loop
  | .returning => f.returning

/-- The flags that are set, in the order of their names. -/
def toList (f : Flags) : List Flag :=
  [Flag.conditional, .loop, .returning].filter f.has

/-- Whether any flag is set. -/
def any (f : Flags) : Bool := f.conditional || f.loop || f.returning

@[simp] theorem has_none (flag : Flag) : none.has flag = false := by cases flag <;> rfl

@[simp] theorem has_add_self (flag : Flag) (f : Flags) : (f.add flag).has flag = true := by
  cases flag <;> rfl

theorem has_add_of_ne {flag other : Flag} (h : other ≠ flag) (f : Flags) :
    (f.add flag).has other = f.has other := by
  cases flag <;> cases other <;> simp_all [add, has]

end Flags

/-- A value of a script. -/
structure Value where
  /-- What the value is. -/
  payload : Payload
  /-- The flags it carries. -/
  flags : Flags := .none
  deriving Inhabited

namespace Value

/-- The kind of a value. -/
def kind (v : Value) : Kind := v.payload.kind

/-- The null value. -/
def null : Value := ⟨.null, .none⟩

/-- A truth value. -/
def boolean (b : Bool) : Value := ⟨.boolean b, .none⟩

/-- A whole number: of 64 bits as it is, beyond them as a decimal. -/
def ofInt (n : Int) : Value :=
  ⟨if inIntegerRange n then .integer n else .decimal (.ofInt n), .none⟩

/-- A decimal number. -/
def decimal (d : Decimal) : Value := ⟨.decimal d, .none⟩

/-- A text. -/
def string (s : String) : Value := ⟨.string s, .none⟩

/-- Something that belongs to the host. -/
def host (h : HostValue) : Value := ⟨.host h, .none⟩

/-- A function of a script. -/
def function (f : ScriptFunction) : Value := ⟨.function f, .none⟩

/-- A value that is written down. -/
def ofLiteral : Literal → Value
  | .null => null
  | .boolean b => boolean b
  | .integer n => ⟨.integer n, .none⟩
  | .decimal d => decimal d
  | .string s => string s

/-- The value of what comes from the host.  A binary number becomes the decimal of its
text, and a function of a script comes back as itself. -/
def ofHost : HostValue → Value
  | .null => null
  | .boolean b => boolean b
  | .integer n => ofInt n
  | .decimal d => decimal d
  | .float t => decimal ((Decimal.read? t.toList).getD (.nan false false 0))
  | .text s => string s
  | .function f | .callable f => function f
  | h => host h

/-- What a value is to the host, functions as they are. -/
def toHostBare (v : Value) : HostValue :=
  match v.payload with
  | .null => .null
  | .boolean b => .boolean b
  | .integer n => .integer n
  | .decimal d => .decimal d
  | .string s => .text s
  | .host h => h
  | .function f => .function f

/-- What a value is to the host, functions ready to be called. -/
def toHost (v : Value) : HostValue :=
  match v.payload with
  | .function f => .callable f
  | _ => v.toHostBare

/-! ### Flags -/

/-- The value with one flag more. -/
def withFlag (flag : Flag) (v : Value) : Value := { v with flags := v.flags.add flag }

/-- The value without its flags. -/
def withoutFlags (v : Value) : Value := { v with flags := .none }

/-- Whether a value carries a flag. -/
def hasFlag (flag : Flag) (v : Value) : Bool := v.flags.has flag

/-- Whether a value is on its way out of a function. -/
def isReturn (v : Value) : Bool := v.hasFlag .returning

/-- Whether a value is a number. -/
def isNumeric (v : Value) : Bool :=
  match v.payload with
  | .integer _ | .decimal _ => true
  | _ => false

@[simp] theorem payload_withFlag (flag : Flag) (v : Value) : (v.withFlag flag).payload = v.payload := rfl

@[simp] theorem payload_withoutFlags (v : Value) : v.withoutFlags.payload = v.payload := rfl

@[simp] theorem flags_withoutFlags (v : Value) : v.withoutFlags.flags = .none := rfl

@[simp] theorem flags_withFlag (flag : Flag) (v : Value) :
    (v.withFlag flag).flags = v.flags.add flag := rfl

@[simp] theorem flags_function (f : ScriptFunction) : (function f).flags = .none := rfl

@[simp] theorem flags_host (h : HostValue) : (host h).flags = .none := rfl

@[simp] theorem flags_ofLiteral (l : Literal) : (ofLiteral l).flags = .none := by cases l <;> rfl

@[simp] theorem flags_ofHost (h : HostValue) : (ofHost h).flags = .none := by cases h <;> rfl

end Value

end LineScript
