import LineScript.Symbols
import LineScript.Text.Blank

/-!
# String literals and the text around them

Marks inside string literals mean nothing.  A text is therefore searched in its masked
form, in which every character inside a literal is an underscore: offsets are the same in
both forms.

## Main definitions

* `mask` — the masked form of a text.
* `splitStatements` — the statements of a line.
* `isComment` — whether a line is a comment.
* `findOperator?` — the first operator of a text.
-/

namespace LineScript

/-! ### Masking -/

/-- Where a character stands. -/
inductive Quoting where
  /-- Outside literals. -/
  | outside
  /-- Inside a literal delimited by this quote. -/
  | inside (quote : Char)
  /-- Inside such a literal, behind a backslash. -/
  | escaped (quote : Char)
  deriving DecidableEq, Repr, Inhabited

/-- A character that delimits literals. -/
def isQuote (c : Char) : Bool := c == '"' || c == '\''

/-- Where the character behind `c` stands. -/
def Quoting.next (q : Quoting) (c : Char) : Quoting :=
  match q with
  | .outside => if isQuote c then .inside c else .outside
  | .inside quote =>
    if c == '\\' then .escaped quote else if c == quote then .outside else .inside quote
  | .escaped quote => .inside quote

/-- The masked form of a character. -/
def Quoting.maskChar (q : Quoting) (c : Char) : Char :=
  match q with
  | .outside => c
  | .inside quote => if c == '\\' then '_' else if c == quote then c else '_'
  | .escaped _ => '_'

/-- The masked form of a text that begins in the state `q`. -/
def maskFrom (q : Quoting) : List Char → List Char
  | [] => []
  | c :: rest => q.maskChar c :: maskFrom (q.next c) rest

/-- The masked form of a text: what stands inside literals is blanked, the quotes around
it are kept.  A literal without an end goes on to the end of the text. -/
def mask (s : List Char) : List Char := maskFrom .outside s

@[simp] theorem maskFrom_nil (q : Quoting) : maskFrom q [] = [] := rfl

@[simp] theorem maskFrom_cons (q : Quoting) (c : Char) (s : List Char) :
    maskFrom q (c :: s) = q.maskChar c :: maskFrom (q.next c) s := rfl

@[simp] theorem length_maskFrom (q : Quoting) (s : List Char) :
    (maskFrom q s).length = s.length := by
  induction s generalizing q with
  | nil => rfl
  | cons c s ih => simp [ih]

/-- Masking keeps the length, so offsets agree. -/
@[simp] theorem length_mask (s : List Char) : (mask s).length = s.length := length_maskFrom _ s

/-! ### Statements of a line -/

/-- The parts of a line between separators that its masked form shows.  `part` is the part
being read, in reverse, and `skip` counts the characters of a separator still to pass. -/
def splitFrom (sep part : List Char) : Nat → List Char → List Char → List (List Char)
  | _, _, [] => [part.reverse]
  | _, [], rest => [part.reverse ++ rest]
  | skip + 1, _ :: ms, _ :: cs => splitFrom sep part skip ms cs
  | 0, m :: ms, c :: cs =>
    if sep.isPrefixOf (m :: ms) then part.reverse :: splitFrom sep [] (sep.length - 1) ms cs
    else splitFrom sep (c :: part) 0 ms cs

/-- The statements of a line, as they stand between the separators outside literals. -/
def splitStatements (sep line : List Char) : List (List Char) :=
  splitFrom sep [] 0 (mask line) line

/-- Whether a line begins with the comment mark, blanks aside. -/
def isComment (comment line : List Char) : Bool := comment.isPrefixOf (stripLeft line)

/-! ### Operators -/

/-- The longer of two texts, the first one if they are equally long. -/
def longer (best : Option (List Char)) (s : List Char) : Option (List Char) :=
  match best with
  | some b => if b.length < s.length then some s else some b
  | none => some s

/-- The longest of the symbols at the front of a text. -/
def longestAt (symbols : List (List Char)) (s : List Char) : Option (List Char) :=
  (symbols.filter fun sym => sym.isPrefixOf s).foldl longer none

/-- The first position at which one of the symbols stands, and the longest one there. -/
def scanFor (symbols : List (List Char)) : Nat → List Char → Option (Nat × List Char)
  | _, [] => none
  | pos, c :: rest =>
    match longestAt symbols (c :: rest) with
    | some sym => some (pos, sym)
    | none => scanFor symbols (pos + 1) rest

/-- An operator found in a text: where it stands and what it means. -/
structure OperatorMatch where
  /-- Where it begins. -/
  start : Nat
  /-- Where it ends. -/
  stop : Nat
  /-- The operator. -/
  operator : Symbols.Operator
  deriving DecidableEq, Repr, Inhabited

/-- The first operator of a text outside literals, the longest symbol first. -/
def findOperator? (s : Symbols) (text : List Char) : Option OperatorMatch :=
  match scanFor (s.operators.map fun o => o.symbol.toList) 0 (mask text) with
  | none => none
  | some (pos, sym) =>
    (s.operators.find? fun o => o.symbol.toList == sym).map fun o => ⟨pos, pos + sym.length, o⟩

end LineScript
