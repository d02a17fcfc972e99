import LineScript.Decimal.Basic
import LineScript.Text.Quoted

/-!
# Errors

A script fails for a cause that the language knows, and the error carries the line it
happened on as soon as that is known.  Host code fails in its own ways, which are a class
and a message; such a failure becomes a script error when it crosses into a script.

## Main definitions

* `Kind`, `BlockKind` — the kinds of values and of blocks that messages name.
* `ErrorKind` — the families of script errors.
* `Cause` — what went wrong, with `Cause.kind` and `Cause.message`.
* `ScriptError` — a cause with its place, and `ScriptError.stamp`.
* `Fault`, `Failure` — a failure of host code, and either sort of failure.
* `Fault.toCause` — what a script sees of a failure of host code.
-/

namespace LineScript

/-! ### Named kinds -/

/-- The kinds of script values. -/
inductive Kind where
  /-- The value of an unbound name. -/
  | null
  /-- A truth value. -/
  | boolean
  /-- A whole number of 64 bits. -/
  | integer
  /-- A decimal number. -/
  | decimal
  /-- A text. -/
  | string
  /-- Something that belongs to the host. -/
  | host
  /-- A function defined by a script. -/
  | function
  deriving DecidableEq, Repr, Inhabited

/-- The name of a kind in messages. -/
def Kind.label : Kind → String
  | .null => "Null"
  | .boolean => "Boolean"
  | .integer => "Integer"
  | .decimal => "Decimal"
  | .string => "String"
  | .host => "HostReference"
  | .function => "Function"

/-- The kinds of blocks. -/
inductive BlockKind where
  /-- A loop. -/
  | loop
  /-- A conditional with its branches. -/
  | conditional
  /-- A function definition. -/
  | function
  deriving DecidableEq, Repr, Inhabited

/-- The name of a block kind in messages. -/
def BlockKind.label : BlockKind → String
  | .loop => "loop"
  | .conditional => "conditional"
  | .function => "function"

/-! ### Families of errors -/

/-- The families of script errors. -/
inductive ErrorKind where
  /-- No particular family. -/
  | general
  /-- The script is not well formed. -/
  | malformed
  /-- An operation met values of the wrong kind. -/
  | typing
  /-- Division by zero. -/
  | arithmetic
  /-- A host object takes no part in arithmetic. -/
  | unsupported
  /-- A function was called with the wrong number of arguments. -/
  | argument
  /-- A name stands for nothing. -/
  | naming
  /-- Host code failed. -/
  | host
  deriving DecidableEq, Repr, Inhabited

namespace ErrorKind

/-- The name of the family in reports. -/
def label : ErrorKind → String
  | .general => "ScriptError"
  | .malformed => "SyntaxError"
  | .typing => "TypeError"
  | .arithmetic => "ArithmeticError"
  | .unsupported => "UnsupportedOperationError"
  | .argument => "ArgumentError"
  | .naming => "NameError"
  | .host => "HostError"

/-- The name of the family for the host. -/
def className : ErrorKind → String
  | .general => "ScriptError"
  | .malformed => "ScriptSyntaxError"
  | .typing => "ScriptTypeError"
  | .arithmetic => "ScriptArithmeticError"
  | .unsupported => "UnsupportedOperationError"
  | .argument => "ArgumentError"
  | .naming => "ScriptNameError"
  | .host => "HostError"

/-- All families. -/
def all : List ErrorKind :=
  [.general, .malformed, .typing, .arithmetic, .unsupported, .argument, .naming, .host]

/-- The family that the host knows by a name. -/
def ofClassName? (name : String) : Option ErrorKind :=
  all.find? fun k => k.className == name

/-- The host's own classes of failure that the family also belongs to. -/
def bases : ErrorKind → List String
  | .malformed => ["SyntaxError"]
  | .typing | .unsupported | .argument => ["TypeError"]
  | .arithmetic => ["ZeroDivisionError"]
  | .naming => ["NameError"]
  | .general | .host => []

end ErrorKind

/-! ### Causes -/

/-- How far an expression could be read. -/
inductive Diagnosis where
  /-- Not even a beginning of the text is an expression. -/
  | noMatch
  /-- A beginning of the text is an expression, and ends at this line and column. -/
  | stopped (line column : Nat)
  deriving DecidableEq, Repr, Inhabited

/-- The wording of a diagnosis. -/
def Diagnosis.message : Diagnosis → String
  | .noMatch => "no match"
  | .stopped line column => s!"stopped at L{line}:C{column}"

/-- What went wrong. -/
inductive Cause where
  /-- A closing or dividing mark without an open block. -/
  | nothingOpen (mark : String) (wanted : BlockKind)
  /-- A closing or dividing mark while another block is open. -/
  | otherOpen (mark : String) (actual : BlockKind) (line : Nat)
  /-- A further condition after the last branch of a conditional. -/
  | elseIfAfterElse (line : Nat)
  /-- A second last branch of a conditional. -/
  | duplicateElse (line : Nat)
  /-- A return that no function body holds. -/
  | returnOutside
  /-- A parameter that is no identifier. -/
  | invalidParameter (name : String)
  /-- Two parameters of one name. -/
  | duplicateParameter
  /-- An expression is wanted and there is none. -/
  | missingExpression
  /-- A text that is no expression. -/
  | invalidExpression (text : String) (diagnosis : Diagnosis)
  /-- A call without parentheses that is no call with them. -/
  | invalidCall (text : String)
  /-- A text to include cannot be had. -/
  | cannotInclude (locator reason : String)
  /-- A text includes itself. -/
  | circularInclude (origin : String)
  /-- A block is open at the end. -/
  | unclosed (kind : BlockKind)
  /-- A quotient by zero. -/
  | divisionByZero
  /-- A remainder by zero. -/
  | moduloByZero
  /-- An operator between kinds it has no meaning for. -/
  | undefinedOperator (op : String) (left right : Kind)
  /-- An operator on a host object that has no arithmetic. -/
  | notOperable (className op : String)
  /-- A change of sign of something that is no number. -/
  | cannotNegate (kind : Kind)
  /-- An order between kinds that have none. -/
  | cannotOrder (left right : Kind)
  /-- A member of a value of a kind without members. -/
  | kindHasNoMember (kind : Kind) (path : String)
  /-- A member that a host object does not have. -/
  | noMember (className member : String)
  /-- A call of something that is no function. -/
  | notFunction (name : String)
  /-- A call of a name that stands for nothing. -/
  | undefinedFunction (name : String)
  /-- A call with the wrong number of arguments. -/
  | argumentCount (name : String) (expected actual : Nat)
  /-- An import of a namespace that does not exist. -/
  | cannotImport (path : String)
  /-- An error that host code made up. -/
  | raised (kind : ErrorKind) (message : String)
  deriving DecidableEq, Repr, Inhabited

namespace Cause

/-- The family of a cause. -/
def kind : Cause → ErrorKind
  | .divisionByZero | .moduloByZero => .arithmetic
  | .undefinedOperator .. | .cannotNegate .. | .cannotOrder .. | .kindHasNoMember ..
  | .notFunction .. => .typing
  | .notOperable .. => .unsupported
  | .noMember .. | .undefinedFunction .. | .cannotImport .. => .naming
  | .argumentCount .. => .argument
  | .raised kind _ => kind
  | .nothingOpen .. | .otherOpen .. | .elseIfAfterElse .. | .duplicateElse .. | .returnOutside
  | .invalidParameter .. | .duplicateParameter | .missingExpression | .invalidExpression ..
  | .invalidCall .. | .cannotInclude .. | .circularInclude .. | .unclosed .. => .malformed

/-- The wording of a cause. -/
def message : Cause → String
  | .nothingOpen mark wanted => s!"Unexpected '{mark}' with no open {wanted.label}"
  | .otherOpen mark actual line =>
    s!"Unexpected '{mark}': the {actual.label} opened on line {line} is still open"
  | .elseIfAfterElse line =>
    s!"Else-if after the else branch of the conditional opened on line {line}"
  | .duplicateElse line => s!"Duplicate else in the conditional opened on line {line}"
  | .returnOutside => "Return outside of a function body"
  | .invalidParameter name => s!"Invalid parameter name: {quote name}"
  | .duplicateParameter => "Duplicate parameter name"
  | .missingExpression => "Missing expression"
  | .invalidExpression text diagnosis => s!"Invalid expression '{text}': {diagnosis.message}"
  | .invalidCall text => s!"Invalid call: {text}"
  | .cannotInclude locator reason => s!"Cannot include {quote locator}: {reason}"
  | .circularInclude origin => s!"Circular include of {quote origin}"
  | .unclosed kind => s!"Unclosed {kind.label}"
  | .divisionByZero => "Division by zero"
  | .moduloByZero => "Modulo by zero"
  | .undefinedOperator op left right =>
    s!"Operator '{op}' is not defined for {left.label} and {right.label}"
  | .notOperable className op => s!"{className} does not support '{op}'"
  | .cannotNegate kind => s!"Cannot negate a {kind.label}"
  | .cannotOrder left right => s!"Cannot order {left.label} and {right.label}"
  | .kindHasNoMember kind path => s!"{kind.label} has no member '{path}'"
  | .noMember className member => s!"'{className}' has no member '{member}'"
  | .notFunction name => s!"'{name}' is not a function"
  | .undefinedFunction name => s!"Function '{name}' is not defined"
  | .argumentCount name expected actual =>
    s!"Function '{name}' expects {expected} argument(s), got {actual}"
  | .cannotImport path => s!"Cannot import namespace '{path}'"
  | .raised _ message => message

end Cause

/-! ### Lines and script errors -/

/-- A line of a source text. -/
structure SourceLine where
  /-- The number of the line in its text, from one. -/
  number : Nat
  /-- The exact text of the line. -/
  text : String
  /-- Where the text comes from, when it was loaded. -/
  origin : Option String := none
  deriving DecidableEq, Repr, Inhabited

/-- An error of a script. -/
structure ScriptError where
  /-- What went wrong. -/
  cause : Cause
  /-- The number of the line it happened on, once known. -/
  line : Option Int := none
  /-- The text of that line. -/
  text : Option String := none
  /-- Where that line comes from. -/
  origin : Option String := none
  deriving DecidableEq, Repr, Inhabited

namespace ScriptError

/-- The error of a cause on a line. -/
def onLine (cause : Cause) (line : SourceLine) : ScriptError :=
  ⟨cause, some line.number, some line.text, line.origin⟩

/-- The error with a place attached, unless it has one already. -/
def stampAt (e : ScriptError) (number : Int) (text : String) (origin : Option String) : ScriptError :=
  match e.line with
  | none => { e with line := some number, text := some text, origin := origin }
  | some _ => e

/-- The error with a line attached, unless it has one already. -/
def stamp (e : ScriptError) (line? : Option SourceLine) : ScriptError :=
  match line? with
  | some line => e.stampAt line.number line.text line.origin
  | none => e

/-- The short form of an error. -/
def summary (e : ScriptError) : String :=
  match e.line with
  | none => e.cause.message
  | some n => s!"{e.cause.message} (line {intText n})"

/-- The form of an error that names its class. -/
def describe (e : ScriptError) : String :=
  let line := match e.line with
    | none => "None"
    | some n => intText n
  s!"{e.cause.kind.className}({quote e.cause.message}, line={line})"

theorem stamp_of_line {e : ScriptError} {n : Int} (h : e.line = some n) (l : Option SourceLine) :
    e.stamp l = e := by
  cases l <;> simp [stamp, stampAt, h]

end ScriptError

/-! ### Failures of host code -/

/-- The classes of failure of host code. -/
inductive FaultClass where
  /-- A value that makes no sense. -/
  | value
  /-- A division by zero. -/
  | zeroDivision
  /-- An operand of the wrong type. -/
  | type
  /-- A missing attribute. -/
  | attribute
  /-- A failed import. -/
  | importing
  /-- A missing name. -/
  | name
  /-- An index out of range. -/
  | index
  /-- A missing key. -/
  | key
  /-- A failure while running. -/
  | running
  /-- Calls nested too deeply. -/
  | recursion
  /-- A failure of the operating system. -/
  | os
  /-- A file that is not there. -/
  | fileNotFound
  /-- A directory in place of a file. -/
  | isADirectory
  /-- A file in place of a directory. -/
  | notADirectory
  /-- Bytes that are no text. -/
  | decoding
  /-- No connection to a server. -/
  | connect
  /-- A server that answers too late. -/
  | readTimeout
  /-- A decimal operation without a result. -/
  | invalidOperation
  /-- A decimal result out of range. -/
  | overflow
  /-- A number that a binary number cannot hold, or the other way round. -/
  | tooLarge
  /-- A document with a word that stands for nothing. -/
  | document
  /-- A document with a character out of place. -/
  | scanning
  /-- A document with a mark out of place. -/
  | parsing
  deriving DecidableEq, Repr, Inhabited

/-- The name of a class of failure. -/
def FaultClass.label : FaultClass → String
  | .value => "ValueError"
  | .zeroDivision => "ZeroDivisionError"
  | .type => "TypeError"
  | .attribute => "AttributeError"
  | .importing => "ImportError"
  | .name => "NameError"
  | .index => "IndexError"
  | .key => "KeyError"
  | .running => "RuntimeError"
  | .recursion => "RecursionError"
  | .os => "OSError"
  | .fileNotFound => "FileNotFoundError"
  | .isADirectory => "IsADirectoryError"
  | .notADirectory => "NotADirectoryError"
  | .decoding => "UnicodeDecodeError"
  | .connect => "ConnectError"
  | .readTimeout => "ReadTimeout"
  | .invalidOperation => "InvalidOperation"
  | .overflow => "Overflow"
  | .tooLarge => "OverflowError"
  | .document => "ConstructorError"
  | .scanning => "ScannerError"
  | .parsing => "ParserError"

/-- A failure of host code. -/
structure Fault where
  /-- Its class. -/
  cls : FaultClass
  /-- Its message. -/
  message : String
  deriving DecidableEq, Repr, Inhabited

/-- What a script sees of a failure of host code.  The classes that scripts have a family
for keep their message; of any other the class is named. -/
def Fault.toCause (f : Fault) : Cause :=
  match f.cls with
  | .zeroDivision => .raised .arithmetic f.message
  | .type => .raised .typing f.message
  | .attribute | .importing | .name => .raised .naming f.message
  | _ => .raised .host s!"{f.cls.label}: {f.message}"

/-- Either sort of failure. -/
inductive Failure where
  /-- An error of a script. -/
  | script (e : ScriptError)
  /-- A failure of host code. -/
  | fault (f : Fault)
  deriving DecidableEq, Repr, Inhabited

namespace Failure

/-- The failure for a cause whose line is not known yet. -/
def ofCause (c : Cause) : Failure := .script { cause := c }

/-- The failure for a cause on a line. -/
def atLine (c : Cause) (line : SourceLine) : Failure := .script (ScriptError.onLine c line)

/-- The class of a failure as the host knows it. -/
def className : Failure → String
  | .script e => e.cause.kind.className
  | .fault f => f.cls.label

/-- The short form of a failure. -/
def summary : Failure → String
  | .script e => e.summary
  | .fault f => f.message

/-- The failure with a line attached, if it is a script error without one. -/
def stamp (line? : Option SourceLine) : Failure → Failure
  | .script e => .script (e.stamp line?)
  | .fault f => .fault f

/-- Whether a failure is an error of a script already. -/
def isScript : Failure → Bool
  | .script _ => true
  | .fault _ => false

/-- The script error that a failure is, or that it becomes for a script. -/
def toScriptError : Failure → ScriptError
  | .script e => e
  | .fault f => { cause := f.toCause }

end Failure

end LineScript
