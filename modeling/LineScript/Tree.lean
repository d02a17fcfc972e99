import LineScript.Decimal.Basic
import LineScript.Table.Key

/-!
# The tree of a script

A script is a list of statements, and every statement and expression carries the line it
was written on.

## Main definitions

* `Literal` — the values that can be written down.
* `Expr`, `Statement`, `Branch` — the nodes.
* `Script` — a whole script.
-/

namespace LineScript

/-- A value that can be written down in a script. -/
inductive Literal where
  /-- The null value. -/
  | null
  /-- A truth value. -/
  | boolean (b : Bool)
  /-- A whole number of 64 bits. -/
  | integer (n : Int)
  /-- A decimal number. -/
  | decimal (d : Decimal)
  /-- A text. -/
  | string (s : String)
  deriving DecidableEq, Repr, Inhabited

/-- The families of operators. -/
inductive Family where
  /-- Orders and equality. -/
  | comparison
  /-- And, or. -/
  | logical
  /-- Sums, products and the like. -/
  | arithmetic
  deriving DecidableEq, Repr, Inhabited

/-- The name of a family, which is also its key in a symbol table. -/
def Family.label : Family → String
  | .comparison => "comparison"
  | .logical => "logical"
  | .arithmetic => "arithmetic"

/-- An expression. -/
inductive Expr where
  /-- A value written down. -/
  | literal (line : SourceLine) (value : Literal)
  /-- A name. -/
  | reference (line : SourceLine) (name : String)
  /-- An operator between two operands; the operation is named by its key in the symbol
  table, and missing when the table gives the symbol no name. -/
  | operation (line : SourceLine) (family : Family) (op : Option Key) (left right : Expr)
  /-- A change of sign. -/
  | negation (line : SourceLine) (operand : Expr)
  /-- A call of a named function. -/
  | call (line : SourceLine) (name : String) (args : List Expr)
  deriving Repr, Inhabited

/-- The line an expression was written on. -/
def Expr.line : Expr → SourceLine
  | .literal line _ | .reference line _ | .operation line .. | .negation line _ | .call line .. => line

mutual

/-- A statement. -/
inductive Statement where
  /-- An expression on its own. -/
  | expression (line : SourceLine) (expr : Expr)
  /-- An assignment to a name. -/
  | assignment (line : SourceLine) (name : String) (expr : Expr)
  /-- A return from the enclosing function, with or without a value. -/
  | returning (line : SourceLine) (expr : Option Expr)
  /-- An import of a namespace of the host. -/
  | importing (line : SourceLine) (target : String)
  /-- A conditional: its branches in order, and the last one that has no condition. -/
  | conditional (line : SourceLine) (branches : List Branch) (otherwise : Option (List Statement))
  /-- A loop. -/
  | loop (line : SourceLine) (condition : Expr) (body : List Statement)
  /-- A function definition. -/
  | function (line : SourceLine) (name : String) (params : List String) (body : List Statement)

/-- A branch of a conditional. -/
inductive Branch where
  /-- The line of the condition, the condition and the statements under it. -/
  | mk (line : SourceLine) (condition : Expr) (body : List Statement)

end

instance : Inhabited Statement := ⟨.importing default ""⟩

/-- The line a branch begins on. -/
def Branch.line : Branch → SourceLine
  | .mk line _ _ => line

/-- The condition of a branch. -/
def Branch.condition : Branch → Expr
  | .mk _ condition _ => condition

/-- The statements of a branch. -/
def Branch.body : Branch → List Statement
  | .mk _ _ body => body

/-- The line a statement begins on. -/
def Statement.line : Statement → SourceLine
  | .expression line _ | .assignment line .. | .returning line _ | .importing line _
  | .conditional line .. | .loop line .. | .function line .. => line

/-- A whole script. -/
structure Script where
  /-- The first line of the text. -/
  line : SourceLine
  /-- The statements. -/
  body : List Statement

end LineScript
