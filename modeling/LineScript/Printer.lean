import LineScript.Symbols
import LineScript.Value.View

/-!
# Printing values

A value is printed the way it would be written in a script, with the words of the symbol
table; a function is printed by its head, and an object of the host by its own text.

## Main definitions

* `printText` — a text between quotes.
* `printHost`, `Value.print` — the printed form of a value.
-/

namespace LineScript

/-- A character between quotes. -/
def printChar (c : Char) : List Char :=
  match c with
  | '\\' => ['\\', '\\']
  | '"' => ['\\', '"']
  | '\n' => ['\\', 'n']
  | '\t' => ['\\', 't']
  | c => [c]

/-- A text between quotes. -/
def printText (s : String) : String := String.ofList ('"' :: s.toList.flatMap printChar ++ ['"'])

/-- The head of a function, between the marks of its body. -/
def printFunction (s : Symbols) (f : ScriptFunction) : String :=
  let params := String.intercalate ", " f.params
  s!"{f.name}({params}) {s.function} ... {s.function}"

/-- The printed form of a truth value. -/
def printBoolean (s : Symbols) (b : Bool) : Except Fault String :=
  s.booleans.map fun (yes, no) => if b then yes else no

/-- The printed form of a host value. -/
def printHost (s : Symbols) (view : HostView) : HostValue → Except Fault String
  | .null => .ok s.null
  | .boolean b => printBoolean s b
  | .integer n => writeWhole n
  | .decimal d => .ok d.plain
  | .float t => .ok t
  | .text t => .ok (printText t)
  | .function f | .callable f => .ok (printFunction s f)
  | h => h.described view

/-- The printed form of a value. -/
def Value.print (s : Symbols) (view : HostView) (v : Value) : Except Fault String :=
  printHost s view v.toHostBare

end LineScript
