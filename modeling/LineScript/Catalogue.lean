import LineScript.Host
import LineScript.World

/-!
# A host with a catalogue of objects

This host offers a handful of objects and functions to scripts: vectors and scalars with
arithmetic of their own, bags that apply a function to their items, counters that change,
nodes that hang together, functions that call back into the scripts, and two modules.

## Main definitions

* `HostFunction`, `Object` — the functions and the objects.
* `Catalogue` — the state: the objects that exist, and the files and servers around.
* `Catalogue.view` — what scripts can see of the objects.
* `HostFunction.run`, `Object.operate`, `Object.callMethod` — what they do.
* `Catalogue.host` — the host.
-/

namespace LineScript

/-! ### Functions -/

/-- The functions of the host. -/
inductive HostFunction where
  /-- Twice a whole number. -/
  | double
  /-- The argument itself. -/
  | identity
  /-- A call of the first argument with the others. -/
  | apply
  /-- A failure of a kind, with a message. -/
  | fail
  /-- A value by its key. -/
  | give
  /-- The number of arguments. -/
  | count
  /-- The classes of the arguments. -/
  | kinds
  /-- A new vector. -/
  | vector
  /-- The value of a text that is run. -/
  | eval
  /-- The status of a text that is run. -/
  | handle
  /-- A call of a script function by its name. -/
  | invoke
  /-- A new binding in the root scope. -/
  | setvar
  /-- A binding of the root scope. -/
  | getvar
  /-- The sum of two numbers or two texts. -/
  | add
  /-- The sum of a number or a text with itself. -/
  | twice
  /-- The product of two numbers. -/
  | area
  /-- A fixed text. -/
  | constant (text : String)
  deriving DecidableEq, Repr, Inhabited

namespace HostFunction

/-- The functions that can be had by name, each with its name. -/
def named : List (String × HostFunction) :=
  [("double", .double), ("identity", .identity), ("apply", .apply), ("fail", .fail), ("give", .give),
    ("count", .count), ("kinds", .kinds), ("vector", .vector), ("eval", .eval), ("handle", .handle),
    ("invoke", .invoke), ("setvar", .setvar), ("getvar", .getvar)]

/-- How many arguments a function takes, when it takes a fixed number. -/
def arity? : HostFunction → Option Nat
  | .double | .identity | .give | .eval | .handle | .getvar | .twice => some 1
  | .fail | .vector | .setvar | .add | .area => some 2
  | .constant _ => some 0
  | .apply | .count | .kinds | .invoke => none

end HostFunction

/-! ### Objects -/

/-- The objects of the host. -/
inductive Object where
  /-- A pair of numbers. -/
  | vector (x y : Int)
  /-- A number. -/
  | scalar (n : Int)
  /-- A sequence of values. -/
  | bag (items : List HostValue)
  /-- An object with one operation only, which is not enough for arithmetic. -/
  | half
  /-- An object with nothing but a text. -/
  | plain (text : String)
  /-- A number that grows. -/
  | counter (total : Int)
  /-- A named value with another value below it; `call` refers to its function. -/
  | node (name : String) (value child : HostValue) (call : Nat)
  /-- A function with its name. -/
  | function (name : String) (body : HostFunction)
  /-- A module with its members. -/
  | module (name : String) (members : List (String × HostValue))
  deriving Inhabited

namespace Object

/-- The class of an object. -/
def className : Object → String
  | .vector .. => "Vector"
  | .scalar _ => "Scalar"
  | .bag _ => "Bag"
  | .half => "Partial"
  | .plain _ => "Plain"
  | .counter _ => "Counter"
  | .node .. => "Node"
  | .function .. => "HostFn"
  | .module .. => "module"

/-- What messages about missing attributes call an object. -/
def noun : Object → String
  | .module name _ => s!"module '{name}'"
  | o => s!"'{o.className}' object"

/-- Whether an object takes part in arithmetic. -/
def isOperable : Object → Bool
  | .vector .. | .scalar _ | .bag _ => true
  | _ => false

/-- Whether an object can be called. -/
def isCallable : Object → Bool
  | .function .. => true
  | _ => false

/-- The methods of an object. -/
def methods : Object → List String
  | .vector .. | .scalar _ | .bag _ => Arithmetic.all.map Arithmetic.label
  | .half => ["plus"]
  | .counter _ => ["inc"]
  | _ => []

/-- The members of an object that are no methods. -/
def fields : Object → List (String × HostValue)
  | .vector x y => [("x", .integer x), ("y", .integer y)]
  | .scalar n => [("n", .integer n)]
  | .counter total => [("total", .integer total)]
  | .node name value child call =>
    [("name", .text name), ("value", value), ("child", child), ("call", .object call)]
  | .module _ members => members
  | _ => []

/-- The member of a name, of an object with a reference. -/
def member (ref : Nat) (o : Object) (name : String) : Lookup :=
  match o.fields.lookup name with
  | some h => .found h
  | none => if o.methods.contains name then .found (.method ref name) else .missing

end Object

/-! ### The state -/

/-- The objects that exist, and the files and servers around. -/
structure Catalogue where
  /-- The objects by their references. -/
  objects : Array Object
  /-- The files and servers. -/
  world : World
  deriving Inhabited

namespace Catalogue

/-- The catalogue with one object more, and the reference of that object. -/
def alloc (o : Object) (c : Catalogue) : Nat × Catalogue :=
  (c.objects.size, { c with objects := c.objects.push o })

/-- The catalogue with a node more, and the reference of that node. -/
def allocNode (name : String) (value child : HostValue) (c : Catalogue) : Nat × Catalogue :=
  let (call, c) := c.alloc (.function (name ++ ".call") .identity)
  c.alloc (.node name value child call)

/-- The object of a reference. -/
def object (c : Catalogue) (ref : Nat) : Object := c.objects.getD ref default

/-- Whether two objects are equal: vectors by their numbers, others when they are the same. -/
def equal (c : Catalogue) (a b : Nat) : Bool :=
  match c.object a, c.object b with
  | .vector x y, .vector u v => x == u && y == v
  | _, _ => a == b

/-- What scripts can see of the objects, when their texts are known. -/
def viewWith (c : Catalogue) (text : Nat → Except Fault String) : HostView where
  className ref := (c.object ref).className
  noun ref := (c.object ref).noun
  text := text
  equal := c.equal
  member ref name := (c.object ref).member ref name
  isCallable ref := (c.object ref).isCallable
  isOperable ref := (c.object ref).isOperable

/-- The text of an item of a bag. -/
def itemText (view : HostView) : HostValue → Except Fault String
  | .null => .ok "null"
  | h => h.shown view

/-- The text of an object, with objects inside it shown at most `n` deep. -/
def textUpTo (c : Catalogue) : Nat → Nat → Except Fault String
  | 0, ref => .ok s!"<{(c.object ref).className}>"
  | n + 1, ref =>
    match c.object ref with
    | .vector x y => return "Vector(" ++ (← writeWhole x) ++ ", " ++ (← writeWhole y) ++ ")"
    | .scalar k => (writeWhole k).map fun text => s!"Scalar({text})"
    | .bag items => do
      let texts ← items.mapM (itemText (c.viewWith (textUpTo c n)))
      return "Bag[" ++ String.intercalate " " texts ++ "]"
    | .half => .ok "<partial>"
    | .plain text => .ok text
    | .counter total => (writeWhole total).map fun text => s!"Counter({text})"
    | .node name .. => .ok s!"<node {name}>"
    | .function name _ => .ok s!"<host {name}>"
    | .module name _ => .ok s!"<module '{name}'>"

/-- What scripts can see of the objects. -/
def view (c : Catalogue) : HostView := c.viewWith (c.textUpTo c.objects.size)

end Catalogue

/-! ### What functions do -/

/-- The failure that a kind and a message name. -/
def failureOf (kind message : String) : Failure :=
  let faults : List FaultClass :=
    [.value, .zeroDivision, .type, .attribute, .importing, .name, .index, .running, .recursion, .os]
  if kind == "Lined" then
    .script ⟨.raised .naming message, some 99, some "elsewhere", none⟩
  else
    match faults.find? fun cls => cls.label == kind with
    | some cls => .fault ⟨cls, message⟩
    | none =>
      match ErrorKind.ofClassName? kind with
      | some k => .ofCause (.raised k message)
      | none => .fault ⟨.key, quote kind⟩

/-- The values that can be had by a key. -/
def gifts : List (String × HostValue) :=
  [("null", .null), ("true", .boolean true), ("false", .boolean false), ("int", .integer 7),
    ("big", .integer (2 ^ 70)), ("max", .integer (2 ^ 63 - 1)), ("over", .integer (2 ^ 63)),
    ("min", .integer (-(2 ^ 63))), ("float", .float "0.1"), ("floatbig", .float "1e+16"),
    ("floatneg", .float "-2.5"), ("nan", .float "nan"), ("inf", .float "inf"),
    ("dec", .decimal (.finite false 150 (-2))), ("sci", .decimal (.finite false 1 3)),
    ("str", .text "given"), ("empty", .text "")]

open HostProgram

/-- The program of a host of this catalogue. -/
abbrev Program := HostProgram Catalogue

/-- A new object as the value of a program. -/
def newObject (o : Object) : Program :=
  .read fun c => let (ref, c) := c.alloc o; .write c (.done (.object ref))

/-- The sum of two numbers or two texts. -/
def sumOf : HostValue → HostValue → Program
  | .integer a, .integer b => .done (.integer (a + b))
  | .text a, .text b => .done (.text (a ++ b))
  | _, _ => fault .type "add needs two integers or two strings"

/-- The failure for an argument that is used as a name and is no text. -/
def notAName (h : HostValue) : Program :=
  .read fun c => .fail (.fault (h.lacks c.view "startswith"))

/-- A program that goes on with a text, unless it cannot be written. -/
def withText (text : Except Fault String) (next : String → Program) : Program :=
  match text with
  | .ok text => next text
  | .error f => .fail (.fault f)

/-- The failure for a key that leads to nothing. -/
def unknownKey (key : HostValue) : Program :=
  .read fun c => withText (key.described c.view) fun text => fault .key text

/-- What a function does with the right number of arguments. -/
def HostFunction.body : HostFunction → List HostValue → Program
  | .double, [.integer n] => .done (.integer (2 * n))
  | .double, _ => fault .type "double needs an integer"
  | .identity, args => .done (args.headD .null)
  | .apply, f :: args =>
    .read fun c =>
      if f.isCallable c.view then request (.call f args) else fault .type "apply needs a function"
  | .apply, [] => fault .type "apply needs a function"
  | .fail, [.text kind, message] =>
    .read fun c => withText (message.shown c.view) fun text => .fail (failureOf kind text)
  | .fail, [kind, _] => unknownKey kind
  | .give, [.text key] =>
    match gifts.lookup key with
    | some h => .done h
    | none => unknownKey (.text key)
  | .give, [key] => unknownKey key
  | .count, args => .done (.integer args.length)
  | .kinds, args =>
    .read fun c => .done (.text (String.intercalate " " (args.map (·.className c.view))))
  | .vector, [.integer x, .integer y] => newObject (.vector x y)
  | .eval, [source] => request (.eval source)
  | .handle, [source] => request (.handle source)
  | .invoke, .text name :: args => request (.invoke name args)
  | .invoke, [] =>
    fault .type "ScriptRunner.invoke_function() missing 1 required positional argument: 'name'"
  | .setvar, [.text name, value] => request (.set name value)
  | .getvar, [.text name] => request (.get name)
  | .invoke, h :: _ | .setvar, [h, _] | .getvar, [h] => notAName h
  | .add, [a, b] => sumOf a b
  | .twice, [a] => sumOf a a
  | .area, [.integer a, .integer b] => .done (.integer (a * b))
  | .constant text, _ => .done (.text text)
  | _, _ => fault .type "bad arguments"

/-- What a function does. -/
def HostFunction.run (name : String) (f : HostFunction) (args : List HostValue) : Program :=
  match f.arity? with
  | some k =>
    if args.length == k then f.body args else fault .type s!"{name} expects {k} argument(s)"
  | none => f.body args

/-! ### What objects do -/

/-- The parts of an operand of a vector. -/
def vectorOperand? (c : Catalogue) : HostValue → Option (Int × Int)
  | .integer n => some (n, n)
  | .object ref =>
    match c.object ref with
    | .vector x y => some (x, y)
    | _ => none
  | _ => none

/-- What a vector makes of an operation. -/
def operateVector (op : Arithmetic) (x y : Int) (operand : HostValue) : Program :=
  .read fun c =>
    if op == .module then fault .value "vectors have no modulo"
    else
      match vectorOperand? c operand with
      | none => fault .type "bad operand for Vector"
      | some (u, v) =>
        match op with
        | .plus => newObject (.vector (x + u) (y + v))
        | .subtract => newObject (.vector (x - u) (y - v))
        | .multiply => newObject (.vector (x * u) (y * v))
        | _ =>
          if u == 0 || v == 0 then fault .zeroDivision "vector division by zero"
          else newObject (.vector (x.fdiv u) (y.fdiv v))

/-- The number of an operand of a scalar. -/
def scalarOperand? (c : Catalogue) : HostValue → Option Int
  | .integer n => some n
  | .object ref =>
    match c.object ref with
    | .scalar n => some n
    | _ => none
  | _ => none

/-- What a scalar makes of an operation. -/
def operateScalar (op : Arithmetic) (n : Int) (operand : HostValue) : Program :=
  .read fun c =>
    match op with
    | .divide => fault .name "scalar division is undefined"
    | .module => .done .null
    | _ =>
      match scalarOperand? c operand with
      | none => fault .type "bad operand for Scalar"
      | some k =>
        .done (.integer (match op with | .plus => n + k | .subtract => n - k | _ => n * k))

/-- A call of a function on every item; `made` holds the results so far, the last one first. -/
def mapItems (f : HostValue) (made : List HostValue) : List HostValue → Program
  | [] => newObject (.bag made.reverse)
  | item :: rest =>
    .ask (.call f [item]) fun
      | .ok value => mapItems f (value :: made) rest
      | .error raised => .rethrow raised

/-- What a bag makes of any operation: a bag of what the operand gives for its items. -/
def operateBag (items : List HostValue) (operand : HostValue) : Program :=
  .read fun c =>
    if operand.isCallable c.view then mapItems operand [] items
    else fault .type "Bag needs a function"

/-- What an object makes of an operation. -/
def Object.operate (op : Arithmetic) (o : Object) (operand : HostValue) : Program :=
  match o with
  | .vector x y => operateVector op x y operand
  | .scalar n => operateScalar op n operand
  | .bag items => operateBag items operand
  | _ => .done .null

/-- What a counter does when it grows. -/
def increment (ref : Nat) (total : Int) : List HostValue → Program
  | [.integer n] =>
    .read fun c =>
      .write { c with objects := c.objects.setIfInBounds ref (.counter (total + n)) }
        (.done (.integer (total + n)))
  | _ => fault .type "inc needs one integer"

/-- What an object makes of an operation that is called with another number of arguments than
one: the same as with an operand that does not suit it. -/
def Object.operateWithout (op : Arithmetic) (o : Object) : Program := o.operate op .null

/-- What a method of an object does. -/
def Object.callMethod (ref : Nat) (o : Object) (name : String) (args : List HostValue) : Program :=
  match o, Arithmetic.ofName? name, args with
  | .counter total, _, args => increment ref total args
  | o, some op, [operand] => o.operate op operand
  | o, some op, _ => o.operateWithout op
  | _, none, _ => .done .null

/-! ### The host -/

namespace Catalogue

/-- The program of a call. -/
def call (callee : HostValue) (args : List HostValue) : Program :=
  .read fun c =>
    match callee with
    | .object ref =>
      match c.object ref with
      | .function name f => f.run name args
      | o => fault .type s!"'{o.className}' object is not callable"
    | .method ref name => (c.object ref).callMethod ref name args
    | h => fault .type s!"'{h.className c.view}' object is not callable"

/-- The program of an operation. -/
def operate (op : Arithmetic) (receiver operand : HostValue) : Program :=
  .read fun c =>
    match receiver with
    | .object ref => (c.object ref).operate op operand
    | _ => .done .null

/-- The modules by their names. -/
def moduleRefs : List (String × Nat) := [("hostlib", 0), ("hostlib.geometry", 1)]

/-- The module of a name.  One of the modules fails when it is imported. -/
def importModule (_ : Catalogue) (name : String) : Lookup :=
  match moduleRefs.lookup name with
  | some ref => .found (.object ref)
  | none =>
    if name == "hostlib.broken" || "hostlib.broken.".toList.isPrefixOf name.toList then
      .broken (.fault ⟨.value, "broken on import"⟩)
    else .missing

/-- The two modules and what is in them. -/
def modules : Array Object :=
  #[.module "hostlib"
      [("VERSION", .integer 3), ("NAME", .text "hostlib"), ("NOTHING", .null), ("unit", .object 2),
        ("tree", .object 6), ("add", .object 7), ("twice", .object 8), ("where", .object 9),
        ("geometry", .object 1)],
    .module "hostlib.geometry"
      [("SIDES", .integer 4), ("NAME", .text "geometry"), ("area", .object 10), ("where", .object 11),
        ("shapes", .object 13)],
    .vector 1 1,
    .function "leaf.call" .identity,
    .node "leaf" (.integer 20) .null 3,
    .function "top.call" .identity,
    .node "top" (.integer 10) (.object 4) 5,
    .function "add" .add,
    .function "twice" .twice,
    .function "where" (.constant "hostlib"),
    .function "area" .area,
    .function "where" (.constant "geometry"),
    .function "shapes.call" .identity,
    .node "shapes" (.integer 30) .null 12]

/-- The catalogue that holds the modules only. -/
def initial (world : World) : Catalogue := ⟨modules, world⟩

/-- Texts are loaded from the files and servers around. -/
def load (settings : Setting) : Loader Catalogue := fun locator base c =>
  let (r, world) := World.load settings locator base c.world
  (r, { c with world := world })

/-- The host of the catalogue; the settings are for asking servers. -/
def host (settings : Setting) : Host Catalogue where
  view := view
  call := call
  operate := operate
  importModule := importModule
  load := load settings

end Catalogue

end LineScript
