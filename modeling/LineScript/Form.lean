import LineScript.Mask
import LineScript.Pattern

/-!
# Forms of statements

A statement is recognised by the first of sixteen rules whose pattern matches its masked
text; a statement that none of them matches is an expression.  The parts of a statement are
cut from its own text, at the places where the groups of the pattern stand.

A block on one line is another way to write a block on several: it is expanded into its
opening, its body and its closing mark, each of which is a statement again.

## Main definitions

* `Rule`, `Rule.pattern` — the rules, in the order in which they are tried.
* `findRule?` — the rule that recognises a text, with the parts it captures.
* `Form`, `classify` — what kind of statement a text is.
* `expand` — the statements a text stands for, blocks on one line expanded.
-/

namespace LineScript

/-! ### Character classes -/

/-- A character that can begin an identifier. -/
def isIdentStart (c : Char) : Bool := c.isAlpha || c == '_'

/-- A character that can stand in an identifier. -/
def isIdentChar (c : Char) : Bool := c.isAlphanum || c == '_'

/-- Whether a text is an identifier. -/
def isIdentifier : List Char → Bool
  | [] => false
  | c :: rest => isIdentStart c && rest.all isIdentChar

namespace Pattern

/-- A character of a line. -/
def inLine (c : Char) : Bool := c != '\n'

/-- Any number of characters of a line. -/
def dots (greedy : Bool) : Pattern := charsOf greedy inLine

/-- Any number of blanks, as many as there are. -/
def blanks : Pattern := charsOf true isBlank

/-- A character that is not blank. -/
def solid : Pattern := .one fun c => !isBlank c

/-- Whether a character with what follows it is a character of a line at which a mark does not
begin. -/
def avoids (mark : List Char) (c : Char) (rest : List Char) : Bool :=
  inLine c && !(mark.isPrefixOf (c :: rest))

/-- One character of a line or more, at none of which a mark begins, as few as possible. -/
def without (mark : List Char) : Pattern :=
  all [.unless (.text mark), .one inLine, .chars false (avoids mark)]

/-- A solid character and as little behind it as possible. -/
def lazyBody : Pattern := .seq solid (dots false)

/-- An identifier. -/
def identifier : Pattern := .seq (.one isIdentStart) (charsOf true isIdentChar)

/-- A name: an identifier that may carry the global mark. -/
def name (s : Symbols) : Pattern := .seq (optional (.text s.globalMark.toList)) identifier

/-- Any number of identifiers behind points. -/
def members : Pattern := .many (.seq (.text ['.']) identifier)

/-- A name followed by the names of members. -/
def dotted (s : Symbols) : Pattern := .seq (name s) members

/-- A character that can stand in a parameter list. -/
def noParenthesis (c : Char) : Bool := !(c == '(' || c == ')')

/-- A literal between quotes of one kind, in masked text. -/
def quoted (quote : Char) : Pattern :=
  all [.text [quote], charsOf true (· != quote), .text [quote]]

end Pattern

/-! ### Rules -/

/-- The rules for statements. -/
inductive Rule where
  /-- A comment. -/
  | comment
  /-- A loop on one line. -/
  | inlineLoop
  /-- A function on one line. -/
  | inlineFunction
  /-- A conditional on one line. -/
  | inlineIf
  /-- The end of a loop. -/
  | loopClose
  /-- The beginning of a loop. -/
  | loopOpen
  /-- The end of a function. -/
  | functionClose
  /-- The beginning of a function. -/
  | functionOpen
  /-- The beginning of the last branch of a conditional. -/
  | otherwise
  /-- The end of a conditional. -/
  | ifClose
  /-- The beginning of a further branch. -/
  | elseIf
  /-- The beginning of a conditional. -/
  | ifOpen
  /-- A return. -/
  | returning
  /-- An import or an inclusion. -/
  | importing
  /-- An assignment. -/
  | assignment
  /-- A call without parentheses. -/
  | bareCall
  deriving DecidableEq, Repr, Inhabited

namespace Rule

/-- The rules in the order in which they are tried. -/
def all : List Rule :=
  [.comment, .inlineLoop, .inlineFunction, .inlineIf, .loopClose, .loopOpen, .functionClose,
    .functionOpen, .otherwise, .ifClose, .elseIf, .ifOpen, .returning, .importing, .assignment,
    .bareCall]

/-- The name of a rule. -/
def label : Rule → String
  | .comment => "comment"
  | .inlineLoop => "inline_loop"
  | .inlineFunction => "inline_function"
  | .inlineIf => "inline_if"
  | .loopClose => "loop_close"
  | .loopOpen => "loop_open"
  | .functionClose => "function_close"
  | .functionOpen => "function_open"
  | .otherwise => "else"
  | .ifClose => "if_close"
  | .elseIf => "else_if"
  | .ifOpen => "if_open"
  | .returning => "return"
  | .importing => "import"
  | .assignment => "assignment"
  | .bareCall => "bare_call"

open Pattern

/-- A block on one line between two marks: its head under the name `head`, its body. -/
def inlinePattern (head : String) (mark : List Char) : Pattern :=
  Pattern.all
    [.group head (without mark), blanks, .text mark, blanks,
      .group "body" lazyBody, blanks, .text mark, .finish]

/-- A conditional on one line, with or without a last branch. -/
def inlineIfPattern (cond other : List Char) : Pattern :=
  Pattern.all
    [.group "condition" (without cond), blanks, .text cond, blanks,
      .group "then" (.seq (.unless (.text cond)) lazyBody), blanks,
      optional (Pattern.all [.text other, blanks, .group "otherwise" lazyBody, blanks]),
      .text cond, .finish]

/-- A condition in front of a mark. -/
def openPattern (mark : List Char) : Pattern :=
  Pattern.all [.group "condition" (oneOrMore false inLine), blanks, .text mark, .finish]

/-- A mark on its own. -/
def closePattern (mark : List Char) : Pattern := Pattern.all [.text mark, .finish]

/-- The head of a function: a name, then parameters in parentheses or without them. -/
def functionPattern (s : Symbols) : Pattern :=
  Pattern.all
    [.group "name" (name s), blanks,
      .either (Pattern.all [.text ['('], .group "params" (charsOf true noParenthesis), .text [')']])
        (.group "bare" (optional (.seq (oneOrMore true isBlank) (charsOf false noParenthesis)))),
      blanks, .text s.function.toList, .finish]

/-- A text put into a list of texts, in front of the first one that is not longer. -/
def insertByLength (s : List Char) : List (List Char) → List (List Char)
  | [] => [s]
  | t :: rest => if t.length ≤ s.length then s :: t :: rest else t :: insertByLength s rest

theorem mem_insertByLength {s t : List Char} {l : List (List Char)} :
    t ∈ insertByLength s l ↔ t = s ∨ t ∈ l := by
  induction l with
  | nil => simp [insertByLength]
  | cons u rest ih =>
    by_cases h : u.length ≤ s.length
    · simp [insertByLength, h]
    · simp only [insertByLength, h, if_false, List.mem_cons, ih]
      exact or_left_comm

/-- The arithmetic symbols, longest first. -/
def arithmeticSymbols (s : Symbols) : List (List Char) :=
  ((s.operatorsOf .arithmetic).map fun o => o.symbol.toList).foldr insertByLength []

theorem exists_operator_of_mem {s : Symbols} {symbol : List Char} (h : symbol ∈ arithmeticSymbols s) :
    ∃ o ∈ s.operatorsOf .arithmetic, o.symbol.toList = symbol := by
  unfold arithmeticSymbols at h
  generalize s.operatorsOf .arithmetic = operators at h
  induction operators with
  | nil => cases h
  | cons o rest ih =>
    rcases mem_insertByLength.1 h with rfl | h
    · exact ⟨o, List.mem_cons_self, rfl⟩
    · obtain ⟨o', ho', heq⟩ := ih h
      exact ⟨o', List.mem_cons_of_mem o ho', heq⟩

/-- An assignment, which may name an arithmetic operator in front of the mark. -/
def assignmentPattern (s : Symbols) : Pattern :=
  let assign := s.assign.toList
  Pattern.all
    [.group "name" (name s), blanks,
      optional (.group "operator" (anyOf ((arithmeticSymbols s).map .text))),
      .text assign, .unless (.text assign), blanks, .group "expression" (dots true), .finish]

/-- The characters that cannot begin the arguments of a call without parentheses. -/
def operatorChars (s : Symbols) : List Char :=
  ['(', ')', ','] ++ s.assign.toList.take 1 ++ s.operators.flatMap fun o => o.symbol.toList.take 1

/-- A name, blanks, and arguments that do not look like the rest of an expression. -/
def bareCallPattern (s : Symbols) : Pattern :=
  let refused := operatorChars s
  Pattern.all
    [.group "name" (dotted s), oneOrMore true isBlank,
      .group "arguments" (.seq (.one fun c => !(isBlank c || refused.contains c)) (dots true)),
      .finish]

/-- The pattern of a rule. -/
def pattern (s : Symbols) : Rule → Pattern
  | .comment => Pattern.all [blanks, .text s.comment.toList]
  | .inlineLoop => inlinePattern "condition" s.loop.toList
  | .inlineFunction => inlinePattern "header" s.function.toList
  | .inlineIf => inlineIfPattern s.conditional.toList s.otherwise.toList
  | .loopClose => closePattern s.loop.toList
  | .loopOpen => openPattern s.loop.toList
  | .functionClose => closePattern s.function.toList
  | .functionOpen => functionPattern s
  | .otherwise => closePattern s.otherwise.toList
  | .ifClose => closePattern s.conditional.toList
  | .elseIf =>
    Pattern.all
      [.text s.conditional.toList, blanks, .group "condition" (oneOrMore false inLine), blanks,
        .text s.conditional.toList, .finish]
  | .ifOpen => openPattern s.conditional.toList
  | .returning =>
    Pattern.all [.text s.returnMark.toList, blanks, .group "expression" (dots true), .finish]
  | .importing =>
    Pattern.all
      [.text s.importMark.toList, blanks,
        .group "target" (anyOf [quoted '"', quoted '\'', .seq identifier members]), .finish]
  | .assignment => assignmentPattern s
  | .bareCall => bareCallPattern s

/-- The mark that a statement of a rule ends with, when there is one: the last part of its
pattern. -/
def lastMark? (s : Symbols) : Rule → Option String
  | .inlineLoop | .loopClose | .loopOpen => some s.loop
  | .inlineFunction | .functionClose | .functionOpen => some s.function
  | .inlineIf | .ifClose | .elseIf | .ifOpen => some s.conditional
  | .otherwise => some s.otherwise
  | .comment | .returning | .importing | .assignment | .bareCall => none

/-- Whether a text ends with a mark, or with a mark before a last line feed. -/
def endsWith (mark text : List Char) : Bool :=
  mark.isSuffixOf text || (mark ++ ['\n']).isSuffixOf text

/-- Whether a text ends the way a rule wants it to; if not, its pattern cannot match. -/
def mayMatch (s : Symbols) (masked : List Char) (r : Rule) : Bool :=
  (r.lastMark? s).all fun mark => endsWith mark.toList masked

end Rule

/-! ### Recognising a statement -/

/-- A rule that matches a text, with the parts it captures. -/
structure RuleMatch where
  /-- The rule. -/
  rule : Rule
  /-- Where the match ends. -/
  stop : Nat
  /-- The named parts of the text; a part that the match does not use is missing. -/
  groups : List (String × Option (List Char))
  deriving DecidableEq, Repr, Inhabited

/-- The characters of a text from one offset to another. -/
def slice (s : List Char) (start stop : Nat) : List Char := (s.drop start).take (stop - start)

/-- The match of one rule. -/
def matchRule? (s : Symbols) (text masked : List Char) (r : Rule) : Option RuleMatch :=
  if r.mayMatch s masked then
    let p := r.pattern s
    (p.match? masked).map fun c =>
      ⟨r, c.position, p.groupNames.map fun g =>
        (g, (c.groups.find? fun e => e.1 == g).map fun (_, start, stop) => slice text start stop)⟩
  else none

/-- The first rule that matches a text. -/
def findRule? (s : Symbols) (text : List Char) : Option RuleMatch :=
  let masked := mask text
  Rule.all.findSome? (matchRule? s text masked)

/-- A part of a match; empty when the match does not use it. -/
def RuleMatch.part (m : RuleMatch) (group : String) : List Char :=
  ((m.groups.lookup group).join).getD []

/-- A part of a match, if the match uses it. -/
def RuleMatch.part? (m : RuleMatch) (group : String) : Option (List Char) :=
  (m.groups.lookup group).join

/-! ### Forms -/

/-- A statement that is not a block on one line. -/
inductive Item where
  /-- A comment. -/
  | comment
  /-- The end of a loop. -/
  | loopClose
  /-- The beginning of a loop. -/
  | loopOpen (condition : List Char)
  /-- The end of a function. -/
  | functionClose
  /-- The beginning of a function. -/
  | functionOpen (name params : List Char)
  /-- The beginning of the last branch of a conditional. -/
  | otherwise
  /-- The end of a conditional. -/
  | ifClose
  /-- The beginning of a further branch. -/
  | elseIf (condition : List Char)
  /-- The beginning of a conditional. -/
  | ifOpen (condition : List Char)
  /-- A return. -/
  | returning (expression : List Char)
  /-- An inclusion of another text, by what stands between the quotes. -/
  | inclusion (locator : List Char)
  /-- An import of a namespace. -/
  | importing (target : List Char)
  /-- An assignment. -/
  | assignment (name : List Char) (operator : Option (List Char)) (expression : List Char)
  /-- A call without parentheses. -/
  | bareCall (name arguments : List Char)
  /-- Anything else, which is taken for an expression. -/
  | expression
  deriving DecidableEq, Repr, Inhabited

/-- A block on one line. -/
inductive OneLiner where
  /-- A loop. -/
  | loop (condition body : List Char)
  /-- A function. -/
  | function (header body : List Char)
  /-- A conditional. -/
  | conditional (condition body : List Char) (otherwise : Option (List Char))
  deriving DecidableEq, Repr, Inhabited

/-- What kind of statement a text is. -/
inductive Form where
  /-- A block on one line. -/
  | inline (block : OneLiner)
  /-- Any other statement. -/
  | item (i : Item)
  deriving DecidableEq, Repr, Inhabited

/-- The statement for the target of an import: in quotes it locates a text, otherwise it
names a namespace. -/
def Item.ofTarget (target : List Char) : Item :=
  match target with
  | c :: rest => if isQuote c then .inclusion rest.dropLast else .importing target
  | [] => .importing []

/-- The form that a match stands for. -/
def RuleMatch.form (m : RuleMatch) : Form :=
  match m.rule with
  | .comment => .item .comment
  | .inlineLoop => .inline (.loop (m.part "condition") (m.part "body"))
  | .inlineFunction => .inline (.function (m.part "header") (m.part "body"))
  | .inlineIf => .inline (.conditional (m.part "condition") (m.part "then") (m.part? "otherwise"))
  | .loopClose => .item .loopClose
  | .loopOpen => .item (.loopOpen (m.part "condition"))
  | .functionClose => .item .functionClose
  | .functionOpen => .item (.functionOpen (m.part "name") ((m.part? "params").getD (m.part "bare")))
  | .otherwise => .item .otherwise
  | .ifClose => .item .ifClose
  | .elseIf => .item (.elseIf (m.part "condition"))
  | .ifOpen => .item (.ifOpen (m.part "condition"))
  | .returning => .item (.returning (m.part "expression"))
  | .importing => .item (.ofTarget (m.part "target"))
  | .assignment => .item (.assignment (m.part "name") (m.part? "operator") (m.part "expression"))
  | .bareCall => .item (.bareCall (m.part "name") (m.part "arguments"))

/-- The form of a text. -/
def classify (s : Symbols) (text : List Char) : Form :=
  match findRule? s text with
  | some m => m.form
  | none => .item .expression

/-! ### Blocks on one line -/

/-- A head in front of the mark that opens its block. -/
def withMark (head : List Char) (mark : String) : List Char := head ++ ' ' :: mark.toList

/-- The statements that a block on one line stands for. -/
def OneLiner.parts (s : Symbols) : OneLiner → List (List Char)
  | .loop condition body => [withMark condition s.loop, body, s.loop.toList]
  | .function header body => [withMark header s.function, body, s.function.toList]
  | .conditional condition body none =>
    [withMark condition s.conditional, body, s.conditional.toList]
  | .conditional condition body (some other) =>
    [withMark condition s.conditional, body, s.otherwise.toList, other, s.conditional.toList]

/-- The statements a text stands for, with blocks on one line expanded at most `n` deep. -/
def expandUpTo (s : Symbols) : Nat → List Char → List (List Char × Item)
  | 0, text =>
    match classify s text with
    | .item i => [(text, i)]
    | .inline _ => [(text, .expression)]
  | n + 1, text =>
    match classify s text with
    | .item i => [(text, i)]
    | .inline block => (block.parts s).flatMap fun part => expandUpTo s n (strip part)

/-- The statements a text stands for: every part of a block on one line is shorter than
the block, so its length bounds the depth. -/
def expand (s : Symbols) (text : List Char) : List (List Char × Item) :=
  expandUpTo s text.length text

end LineScript
