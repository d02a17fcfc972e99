import LineScript.Numeral
import LineScript.Term.Basic
import LineScript.Tree

/-!
# From terms to expressions

A term becomes an expression of the tree when its numbers are converted, its strings
unescaped, and its operators named after the symbol table.

## Main definitions

* `unescape` — the text that a string body stands for.
* `Literal.ofInt` — a whole number as a literal.
* `Term.lower` — the expression of a term.
* `readExpression` — the expression that a text is.
-/

namespace LineScript

/-! ### Literals -/

/-- What a character stands for behind a backslash. -/
def unescapeChar (c : Char) : Char :=
  match c with
  | 'n' => '\n'
  | 't' => '\t'
  | 'r' => '\r'
  | '0' => '\x00'
  | c => c

/-- The text that a string body stands for.  A backslash at the very end is dropped. -/
def unescape : List Char → List Char
  | [] => []
  | ['\\'] => []
  | '\\' :: c :: rest => unescapeChar c :: unescape rest
  | c :: rest => c :: unescape rest

/-- The smallest whole number of 64 bits. -/
def integerMin : Int := -(2 ^ 63)

/-- The largest whole number of 64 bits. -/
def integerMax : Int := 2 ^ 63 - 1

/-- Whether a number is a whole number of 64 bits. -/
def inIntegerRange (n : Int) : Bool := integerMin ≤ n && n ≤ integerMax

/-- A whole number as a literal: beyond 64 bits it is a decimal. -/
def Literal.ofInt (n : Int) : Literal :=
  if inIntegerRange n then .integer n else .decimal (.ofInt n)

/-- The literal of a number, by its digits and point. -/
def Literal.ofNumber (s : List Char) : Except Fault Literal :=
  match s.span (· != '.') with
  | (whole, '.' :: fraction) =>
    .ok (.decimal (.finite false (readNat (whole ++ fraction)) (-fraction.length)))
  | (whole, _) =>
    if digitLimit < whole.length then .error (tooManyDigits whole.length)
    else .ok (.ofInt (readNat whole))

/-! ### Terms -/

mutual

/-- The expression of a term, all of it on one line. -/
def Term.lower (s : Symbols) (yes : String) (line : SourceLine) : Term → Except Fault Expr
  | .number text => (Literal.ofNumber text).map (.literal line)
  | .string body => .ok (.literal line (.string (String.ofList (unescape body))))
  | .null => .ok (.literal line .null)
  | .boolean word => .ok (.literal line (.boolean (String.ofList word == yes)))
  | .reference name => .ok (.reference line (String.ofList name))
  | .call name args => (lowerAll s yes line args).map (.call line (String.ofList name))
  | .negation operand => (operand.lower s yes line).map (.negation line)
  | .binary family symbol left right => do
    let l ← left.lower s yes line
    let r ← right.lower s yes line
    return .operation line family (s.familyOperator? (String.ofList symbol) family) l r

/-- The expressions of several terms. -/
def lowerAll (s : Symbols) (yes : String) (line : SourceLine) : List Term → Except Fault (List Expr)
  | [] => .ok []
  | t :: ts => do
    let e ← t.lower s yes line
    let es ← lowerAll s yes line ts
    return e :: es

end

/-- The expression that a text is, on a line. -/
def readExpression (s : Symbols) (line : SourceLine) (text : List Char) : Except Failure Expr :=
  let trimmed := strip text
  if trimmed.isEmpty then .error (.atLine .missingExpression line)
  else
    match s.booleans with
    | .error f => .error (.fault f)
    | .ok words =>
      match Term.read (s.grammar words) trimmed with
      | .error d => .error (.atLine (.invalidExpression (String.ofList trimmed) d) line)
      | .ok t => (t.lower s words.1 line).mapError .fault

end LineScript
