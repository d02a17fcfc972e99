import LineScript.Form
import LineScript.Text.Digit

/-!
# Expressions as written

A term is an expression as it stands in the text: numbers by their digits, strings with
their escapes, operators by their symbols.  The grammar has five levels of binary operators,
from the loosest to the tightest: or, and, comparisons, sums, products.  All of them group
to the left.  Tighter still are the change of sign and the primary terms: groups in
parentheses, numbers, strings, the null value, truth values, calls and names.

A reader takes what it can from the front of a text and returns the rest.  A choice takes
the first alternative that fits, a repetition goes on as long as it can, and neither is
reconsidered later.

## Main definitions

* `Term` — expressions as written.
* `Grammar` — the symbols the readers need.
* `readTerm` — the reader of expressions.
* `Term.read` — the expression that a whole text is, or how far it could be read.
-/

namespace LineScript

/-- An expression as written. -/
inductive Term where
  /-- A number, by its digits and point. -/
  | number (text : List Char)
  /-- A string, by what stands between its quotes. -/
  | string (body : List Char)
  /-- The null value. -/
  | null
  /-- A truth value, by its word. -/
  | boolean (word : List Char)
  /-- A name. -/
  | reference (name : List Char)
  /-- A call. -/
  | call (name : List Char) (args : List Term)
  /-- A change of sign. -/
  | negation (operand : Term)
  /-- A binary operator, by its family and symbol. -/
  | binary (family : Family) (symbol : List Char) (left right : Term)
  deriving Repr, Inhabited

/-- The symbols that the readers need. -/
structure Grammar where
  /-- The symbols of or. -/
  orSymbols : List (List Char)
  /-- The symbols of and. -/
  andSymbols : List (List Char)
  /-- The symbols of comparisons. -/
  comparisonSymbols : List (List Char)
  /-- The symbols of sums. -/
  sumSymbols : List (List Char)
  /-- The symbols of products. -/
  productSymbols : List (List Char)
  /-- The symbol of a change of sign. -/
  minus : List Char
  /-- The null value. -/
  null : List Char
  /-- The words for true and false. -/
  booleans : List (List Char)
  /-- The global mark. -/
  globalMark : List Char

/-- The grammar of a symbol table, given its words for true and false. -/
def Symbols.grammar (s : Symbols) (words : String × String) : Grammar where
  orSymbols := [(s.logical.symbolText "or").toList]
  andSymbols := [(s.logical.symbolText "and").toList]
  comparisonSymbols := (s.operatorsOf .comparison).map fun o => o.symbol.toList
  sumSymbols := ["plus", "subtract"].map fun k => (s.arithmetic.symbolText k).toList
  productSymbols := ["multiply", "divide", "module"].map fun k => (s.arithmetic.symbolText k).toList
  minus := (s.arithmetic.symbolText "subtract").toList
  null := s.null.toList
  booleans := [words.1.toList, words.2.toList]
  globalMark := s.globalMark.toList

/-- A reader takes something from the front of a text and returns the rest. -/
abbrev Reader (α : Type) := List Char → Option (α × List Char)

/-! ### Leaves -/

/-- The text without the spaces and tabs at its front. -/
def skipBlanks (s : List Char) : List Char := s.dropWhile fun c => c == ' ' || c == '\t'

/-- A number: digits, and a fraction if a digit follows the point. -/
def readNumber : Reader Term := fun s =>
  match s.span isDigit with
  | ([], _) => none
  | (whole, rest) =>
    match rest with
    | '.' :: tail =>
      match tail.span isDigit with
      | ([], _) => some (.number whole, rest)
      | (fraction, rest') => some (.number (whole ++ '.' :: fraction), rest')
    | _ => some (.number whole, rest)

/-- What stands before the closing quote `quote`, and the rest behind it.  A backslash
takes the next character of the line with it. -/
def readString (quote : Char) : Reader (List Char)
  | [] => none
  | '\\' :: c :: rest =>
    if c == '\n' then none
    else (readString quote rest).map fun (body, rest') => ('\\' :: c :: body, rest')
  | c :: rest =>
    if c == quote then some ([], rest)
    else if c == '\\' then none
    else (readString quote rest).map fun (body, rest') => (c :: body, rest')

/-- The first word at the front of a text that no identifier character follows. -/
def readWord (words : List (List Char)) : Reader (List Char) := fun s =>
  words.findSome? fun w =>
    match Symbols.afterMark? w s with
    | some [] => some (w, [])
    | some (c :: rest) => if isIdentChar c then none else some (w, c :: rest)
    | none => none

/-- An identifier. -/
def readIdentifier : Reader (List Char)
  | [] => none
  | c :: rest =>
    if isIdentStart c then
      let (tail, rest') := rest.span isIdentChar
      some (c :: tail, rest')
    else none

/-- At most `n` identifiers behind points. -/
def readMembers : Nat → List Char → List Char × List Char
  | 0, s => ([], s)
  | n + 1, s =>
    match s with
    | '.' :: rest =>
      match readIdentifier rest with
      | some (name, rest') =>
        let (more, rest'') := readMembers n rest'
        ('.' :: name ++ more, rest'')
      | none => ([], s)
    | _ => ([], s)

/-- An identifier and the members behind it. -/
def readDotted : Reader (List Char) := fun s =>
  (readIdentifier s).map fun (name, rest) =>
    let (more, rest') := readMembers rest.length rest
    (name ++ more, rest')

/-- A name: a dotted identifier that may carry the global mark. -/
def readName (mark : List Char) : Reader (List Char) := fun s =>
  match Symbols.afterMark? mark s with
  | some rest =>
    match readDotted rest with
    | some (name, rest') => some (mark ++ name, rest')
    | none => readDotted s
  | none => readDotted s

/-! ### Primary terms -/

/-- At most `n` further arguments, each behind a comma. -/
def readMoreArgs (inner : Reader Term) : Nat → List Char → List Term × List Char
  | 0, s => ([], s)
  | n + 1, s =>
    match skipBlanks s with
    | ',' :: rest =>
      match inner (skipBlanks rest) with
      | some (t, rest') =>
        let (ts, rest'') := readMoreArgs inner n rest'
        (t :: ts, rest'')
      | none => ([], s)
    | _ => ([], s)

/-- The arguments of a call: none, or terms between commas. -/
def readArgs (inner : Reader Term) (s : List Char) : List Term × List Char :=
  match inner s with
  | some (t, rest) =>
    let (ts, rest') := readMoreArgs inner rest.length rest
    (t :: ts, rest')
  | none => ([], s)

/-- A term in parentheses. -/
def readGroup (inner : Reader Term) : Reader Term
  | '(' :: s =>
    match inner (skipBlanks s) with
    | some (t, rest) =>
      match skipBlanks rest with
      | ')' :: rest' => some (t, rest')
      | _ => none
    | none => none
  | _ => none

/-- A call: a name and arguments in parentheses. -/
def readCall (mark : List Char) (inner : Reader Term) : Reader Term := fun s =>
  match readName mark s with
  | some (name, rest) =>
    match skipBlanks rest with
    | '(' :: rest' =>
      let (args, rest'') := readArgs inner (skipBlanks rest')
      match skipBlanks rest'' with
      | ')' :: tail => some (.call name args, tail)
      | _ => none
    | _ => none
  | none => none

/-- A string in quotes of either kind. -/
def readStringTerm : Reader Term
  | '"' :: rest => (readString '"' rest).map fun (body, rest') => (.string body, rest')
  | '\'' :: rest => (readString '\'' rest).map fun (body, rest') => (.string body, rest')
  | _ => none

/-- A primary term; `inner` reads the terms inside it. -/
def readPrimary (g : Grammar) (inner : Reader Term) : Reader Term := fun s =>
  (readGroup inner s).orElse fun _ =>
  (readNumber s).orElse fun _ =>
  (readStringTerm s).orElse fun _ =>
  ((Symbols.afterMark? g.null s).map fun rest => (Term.null, rest)).orElse fun _ =>
  ((readWord g.booleans s).map fun (w, rest) => (Term.boolean w, rest)).orElse fun _ =>
  (readCall g.globalMark inner s).orElse fun _ =>
  (readName g.globalMark s).map fun (name, rest) => (.reference name, rest)

/-! ### Operators -/

/-- At most `n` changes of sign before a primary term. -/
def readUnary (g : Grammar) (inner : Reader Term) : Nat → Reader Term
  | 0, s => readPrimary g inner s
  | n + 1, s =>
    match Symbols.afterMark? g.minus s with
    | some rest =>
      match readUnary g inner n (skipBlanks rest) with
      | some (t, rest') => some (.negation t, rest')
      | none => readPrimary g inner s
    | none => readPrimary g inner s

/-- At most `n` further operands, each behind an operator, grouped to the left. -/
def readChain (family : Family) (symbols : List (List Char)) (operand : Reader Term) :
    Nat → Term → List Char → Term × List Char
  | 0, t, s => (t, s)
  | n + 1, t, s =>
    match longestAt symbols (skipBlanks s) with
    | some sym =>
      match operand (skipBlanks ((skipBlanks s).drop sym.length)) with
      | some (right, rest) => readChain family symbols operand n (.binary family sym t right) rest
      | none => (t, s)
    | none => (t, s)

/-- Operands of one level with operators between them. -/
def readLevel (family : Family) (symbols : List (List Char)) (operand : Reader Term) :
    Reader Term := fun s =>
  (operand s).map fun (t, rest) => readChain family symbols operand rest.length t rest

/-- An expression nested at most `n` deep. -/
def readTerm (g : Grammar) : Nat → Reader Term
  | 0, _ => none
  | n + 1, s =>
    readLevel .logical g.orSymbols
      (readLevel .logical g.andSymbols
        (readLevel .comparison g.comparisonSymbols
          (readLevel .arithmetic g.sumSymbols
            (readLevel .arithmetic g.productSymbols
              fun s => readUnary g (readTerm g n) s.length s)))) s

/-! ### Whole texts -/

/-- The line and the column behind a text, both from one. -/
def placeAfter (s : List Char) : Nat × Nat :=
  (s.count '\n' + 1, (s.reverse.takeWhile (· != '\n')).length + 1)

/-- The expression that a whole text is, or how far it could be read.  A nested term is
shorter than the one around it, so the length of the text bounds the depth. -/
def Term.read (g : Grammar) (s : List Char) : Except Diagnosis Term :=
  match readTerm g (s.length + 1) s with
  | none => .error .noMatch
  | some (t, []) => .ok t
  | some (_, rest) =>
    let (line, column) := placeAfter (s.take (s.length - rest.length))
    .error (.stopped line column)

end LineScript
