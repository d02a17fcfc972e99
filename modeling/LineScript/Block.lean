import LineScript.Form
import LineScript.Term.Lowering

/-!
# Blocks

The statements of a script come one after another, and blocks are opened and closed by
statements of their own.  A builder keeps the blocks that are still open on a stack; a
finished statement joins the innermost open block, and a closed block becomes a statement of
the block around it.

## Main definitions

* `OpenBlock` — a block whose closing mark has not been seen yet.
* `Builder` — the finished statements and the open blocks.
* `Builder.apply` — one statement more.
* `Builder.finish` — the statements, when no block is open.
-/

namespace LineScript

/-! ### Open blocks -/

/-- The branch of an open conditional that statements go to. -/
inductive Stage where
  /-- A branch under a condition. -/
  | branch (line : SourceLine) (condition : Expr) (body : List Statement)
  /-- The last branch, which has no condition. -/
  | otherwise (body : List Statement)

/-- A block whose closing mark has not been seen yet. -/
inductive OpenBlock where
  /-- A loop. -/
  | loop (line : SourceLine) (condition : Expr) (body : List Statement)
  /-- A function. -/
  | function (line : SourceLine) (name : String) (params : List String) (body : List Statement)
  /-- A conditional: the branches that are complete, and the one under way. -/
  | conditional (line : SourceLine) (branches : List Branch) (stage : Stage)

namespace OpenBlock

/-- The kind of an open block. -/
def kind : OpenBlock → BlockKind
  | .loop .. => .loop
  | .function .. => .function
  | .conditional .. => .conditional

/-- The line an open block begins on. -/
def line : OpenBlock → SourceLine
  | .loop line .. | .function line .. | .conditional line .. => line

/-- The open block with one statement more. -/
def add (st : Statement) : OpenBlock → OpenBlock
  | .loop line condition body => .loop line condition (body ++ [st])
  | .function line name params body => .function line name params (body ++ [st])
  | .conditional line branches (.branch l c body) =>
    .conditional line branches (.branch l c (body ++ [st]))
  | .conditional line branches (.otherwise body) =>
    .conditional line branches (.otherwise (body ++ [st]))

/-- The statement that a closed block is. -/
def close : OpenBlock → Statement
  | .loop line condition body => .loop line condition body
  | .function line name params body => .function line name params body
  | .conditional line branches (.branch l c body) =>
    .conditional line (branches ++ [.mk l c body]) none
  | .conditional line branches (.otherwise body) => .conditional line branches (some body)

@[simp] theorem kind_add (st : Statement) (b : OpenBlock) : (b.add st).kind = b.kind := by
  rcases b with _ | _ | ⟨_, _, _ | _⟩ <;> rfl

@[simp] theorem line_add (st : Statement) (b : OpenBlock) : (b.add st).line = b.line := by
  rcases b with _ | _ | ⟨_, _, _ | _⟩ <;> rfl

@[simp] theorem line_close (b : OpenBlock) : b.close.line = b.line := by
  rcases b with _ | _ | ⟨_, _, _ | _⟩ <;> rfl

end OpenBlock

/-! ### Parameters -/

/-- The texts between blanks and commas. -/
def splitParams (text : List Char) : List (List Char) :=
  (text.splitBy fun a b => isGap a == isGap b).filter fun part => !part.any isGap
where
  /-- A character that parts parameters. -/
  isGap (c : Char) : Bool := isBlank c || c == ','

/-- The parameters that a text lists. -/
def readParams (text : List Char) : Except Cause (List String) :=
  let params := splitParams text
  match params.find? fun p => !isIdentifier p with
  | some p => .error (.invalidParameter (String.ofList p))
  | none =>
    if params.Nodup then .ok (params.map String.ofList) else .error .duplicateParameter

/-! ### The builder -/

/-- The finished statements, and the open blocks with the innermost one first. -/
structure Builder where
  /-- The finished statements outside of any open block. -/
  done : List Statement := []
  /-- The open blocks. -/
  stack : List OpenBlock := []

instance : Inhabited Builder := ⟨{}⟩

namespace Builder

/-- The builder with one finished statement more. -/
def add (st : Statement) (b : Builder) : Builder :=
  match b.stack with
  | [] => { b with done := b.done ++ [st] }
  | block :: rest => { b with stack := block.add st :: rest }

/-- The builder with one open block more. -/
def push (block : OpenBlock) (b : Builder) : Builder := { b with stack := block :: b.stack }

/-- The innermost open block, which the statement `text` needs to be of a kind, and those
around it. -/
def expect (kind : BlockKind) (text : List Char) (b : Builder) :
    Except Cause (OpenBlock × List OpenBlock) :=
  match b.stack with
  | [] => .error (.nothingOpen (String.ofList text) kind)
  | block :: rest =>
    if block.kind == kind then .ok (block, rest)
    else .error (.otherOpen (String.ofList text) block.kind block.line.number)

/-- The builder after the end of a block. -/
def closeBlock (kind : BlockKind) (text : List Char) (b : Builder) : Except Cause Builder := do
  let (block, rest) ← b.expect kind text
  return add block.close { b with stack := rest }

/-- Whether some open block is a function. -/
def insideFunction (b : Builder) : Bool := b.stack.any fun block => block.kind == .function

/-- The builder after the beginning of the last branch of a conditional. -/
def openOtherwise (text : List Char) (b : Builder) : Except Cause Builder := do
  match ← b.expect .conditional text with
  | (.conditional line branches (.branch l c body), rest) =>
    return { b with stack := .conditional line (branches ++ [.mk l c body]) (.otherwise []) :: rest }
  | (block, _) => throw (.duplicateElse block.line.number)

/-- The open conditional that a further branch can join: its line, its complete branches
and those around it. -/
def expectBranch (text : List Char) (b : Builder) :
    Except Cause (SourceLine × List Branch × List OpenBlock) := do
  match ← b.expect .conditional text with
  | (.conditional line branches (.branch l c body), rest) =>
    return (line, branches ++ [.mk l c body], rest)
  | (block, _) => throw (.elseIfAfterElse block.line.number)

/-- The builder after the beginning of a further branch. -/
def openBranch (s : Symbols) (line : SourceLine) (text condition : List Char) (b : Builder) :
    Except Failure Builder := do
  let (first, branches, rest) ← (b.expectBranch text).mapError (.atLine · line)
  let condition ← readExpression s line condition
  return { b with stack := .conditional first branches (.branch line condition []) :: rest }

/-- The statement of an assignment.  With an operator in front of the mark, the value is
that of the name combined with the expression. -/
def assignment (s : Symbols) (line : SourceLine) (name : List Char) (operator : Option (List Char))
    (expression : List Char) : Except Failure Statement := do
  let name := String.ofList name
  let value ← readExpression s line expression
  match operator with
  | none | some [] => return .assignment line name value
  | some op =>
    return .assignment line name
      (.operation line .arithmetic (s.familyOperator? (String.ofList op) .arithmetic)
        (.reference line name) value)

/-- The statement of a call without parentheses. -/
def bareCall (s : Symbols) (line : SourceLine) (text name arguments : List Char) :
    Except Failure Statement := do
  match ← readExpression s line (name ++ '(' :: arguments ++ [')']) with
  | .call l n args => return .expression line (.call l n args)
  | _ => throw (.atLine (.invalidCall (String.ofList text)) line)

/-- The statement of a return. -/
def returning (s : Symbols) (line : SourceLine) (expression : List Char) (b : Builder) :
    Except Failure Statement :=
  if !b.insideFunction then throw (.atLine .returnOutside line)
  else if (strip expression).isEmpty then return .returning line none
  else return .returning line (some (← readExpression s line expression))

/-- The builder after one statement, given by its line, its text and what it is.  Comments
leave no trace, and an inclusion leaves none of its own. -/
def apply (s : Symbols) (line : SourceLine) (text : List Char) (item : Item) (b : Builder) :
    Except Failure Builder := do
  match item with
  | .comment | .inclusion _ => return b
  | .loopClose => (b.closeBlock .loop text).mapError (.atLine · line)
  | .functionClose => (b.closeBlock .function text).mapError (.atLine · line)
  | .ifClose => (b.closeBlock .conditional text).mapError (.atLine · line)
  | .loopOpen condition => return b.push (.loop line (← readExpression s line condition) [])
  | .functionOpen name params =>
    let params ← (readParams params).mapError (.atLine · line)
    return b.push (.function line (String.ofList name) params [])
  | .ifOpen condition =>
    return b.push (.conditional line [] (.branch line (← readExpression s line condition) []))
  | .otherwise => (b.openOtherwise text).mapError (.atLine · line)
  | .elseIf condition => b.openBranch s line text condition
  | .returning expression => return b.add (← b.returning s line expression)
  | .importing target => return b.add (.importing line (String.ofList target))
  | .assignment name operator expression => return b.add (← assignment s line name operator expression)
  | .bareCall name arguments => return b.add (← bareCall s line text name arguments)
  | .expression => return b.add (.expression line (← readExpression s line text))

/-- The statements, when no block is open. -/
def finish (b : Builder) : Except Failure (List Statement) :=
  match b.stack with
  | [] => .ok b.done
  | block :: _ => .error (.atLine (.unclosed block.kind) block.line)

end Builder

end LineScript
