import LineScript.Table.Scalar
import LineScript.Text.Blank

/-!
# Tables as documents

A table can be kept in a text document: a line `key: value` for each entry, a line `key:`
with further indented entries under it for a table, and `#` for remarks.  Keys and values may
stand in single or double quotes and are texts then.  Under the plain key `<<` stands a table
whose entries belong to the table around it, before its own.  A document without any entries
is a value of its own.

## Main definitions

* `readScalar` — the value written after a colon.
* `Entry`, `Entry.ofLine` — the entries of a document.
* `Setting.ofDocument` — the value of a document.
-/

namespace LineScript

/-! ### Scalars -/

/-- A blank inside a line. -/
def isGap (c : Char) : Bool := c == ' ' || c == '\t'

/-- A text without the blanks around it. -/
def trimGaps (s : List Char) : List Char :=
  ((s.dropWhile isGap).reverse.dropWhile isGap).reverse

/-- The text up to a closing double quote and what follows it; a backslash makes the next
character stand for itself. -/
def readDoubleQuoted : List Char → List Char × List Char
  | [] => ([], [])
  | '"' :: rest => ([], rest)
  | '\\' :: c :: rest =>
    let (body, rest') := readDoubleQuoted rest
    (c :: body, rest')
  | c :: rest =>
    let (body, rest') := readDoubleQuoted rest
    (c :: body, rest')

/-- The text up to a closing single quote and what follows it; a doubled quote stands for
one. -/
def readSingleQuoted : List Char → List Char × List Char
  | [] => ([], [])
  | '\'' :: '\'' :: rest =>
    let (body, rest') := readSingleQuoted rest
    ('\'' :: body, rest')
  | '\'' :: rest => ([], rest)
  | c :: rest =>
    let (body, rest') := readSingleQuoted rest
    (c :: body, rest')

/-- The text before a remark, which begins with `#` at the front or behind a blank. -/
def beforeRemark : List Char → List Char
  | [] => []
  | '#' :: _ => []
  | c :: rest => c :: go c rest
where
  /-- The text before a remark, behind the character `prev`. -/
  go (prev : Char) : List Char → List Char
    | [] => []
    | c :: rest => if c == '#' && isGap prev then [] else c :: go c rest

/-- The text before the first colon that ends a plain key, and what follows the colon. -/
def splitKey : List Char → Option (List Char × List Char)
  | [] => none
  | ':' :: rest =>
    match rest with
    | [] => some ([], [])
    | c :: _ => if isGap c then some ([], rest) else (splitKey rest).map fun (k, v) => (':' :: k, v)
  | c :: rest => (splitKey rest).map fun (k, v) => (c :: k, v)

/-- Whether a mark stands alone: at the end of a text or before a blank. -/
def standsAlone (rest : List Char) : Bool := rest.head?.all isGap

/-- Whether what follows the mark of a text in lines of its own can follow it: a sign and a
digit, in either order. -/
def isLinesHeader (s : List Char) : Bool :=
  let isSign (c : Char) : Bool := c == '+' || c == '-'
  let isSize (c : Char) : Bool := c.isDigit && c != '0'
  match s with
  | [] => true
  | [c] => isSign c || isSize c
  | [c, d] => (isSign c && isSize d) || (isSize c && isSign d)
  | _ => false

/-- The failure for a character out of place. -/
def misplacedCharacter : Fault := ⟨.scanning, "found character that cannot start any token"⟩

/-- The failure for a closing mark that closes nothing. -/
def strayMark : Fault := ⟨.parsing, "expected <block end>"⟩

/-- Why a plain word cannot begin as it does, if it cannot. -/
def wordFault? : List Char → Option Fault
  | [] => none
  | c :: rest =>
    if "@`%".contains c then some misplacedCharacter
    else if ",]\x7d".contains c then some strayMark
    else if "-?:".contains c && standsAlone rest then some misplacedCharacter
    else if "&*".contains c && !(rest.head?.any fun d => d.isAlphanum || d == '-' || d == '_') then
      some misplacedCharacter
    else if (splitKey (c :: rest)).isSome then some misplacedCharacter
    else none

/-- The value of a plain word.  A bar or an angle announces a text in lines of its own, of
which there are none, and an exclamation mark may stand before any word. -/
def readPlain (word : List Char) : Except Fault Key :=
  match wordFault? word, word with
  | some f, _ => .error f
  | none, '|' :: rest | none, '>' :: rest =>
    if isLinesHeader rest then .ok (.text "") else .error misplacedCharacter
  | none, '!' :: rest =>
    if standsAlone rest then plainScalar (trimGaps rest)
    else .error (reservedWord (String.ofList word))
  | none, word => plainScalar word

/-- The value that a text stands for. -/
def readScalar (s : List Char) : Except Fault Key :=
  match s.dropWhile isGap with
  | '"' :: rest => .ok (.text (String.ofList (readDoubleQuoted rest).1))
  | '\'' :: rest => .ok (.text (String.ofList (readSingleQuoted rest).1))
  | rest => readPlain (trimGaps (beforeRemark rest))

/-! ### Entries -/

/-- What stands before the colon of an entry. -/
inductive Label where
  /-- A key. -/
  | key (k : Key)
  /-- The mark of entries that belong to the table around them. -/
  | merge
  deriving DecidableEq, Repr, Inhabited

/-- The label that a plain word is; one of the reserved words is a text here. -/
def Label.ofPlain (s : List Char) : Except Fault Label :=
  match String.ofList s with
  | "<<" => .ok .merge
  | "=" => .ok (.key (.text "="))
  | _ => (plainScalar s).map .key

/-- The label of a line and the text of its value. -/
def readLabel (s : List Char) : Option (Except Fault Label × List Char) :=
  match s with
  | '"' :: rest => ofQuoted (readDoubleQuoted rest)
  | '\'' :: rest => ofQuoted (readSingleQuoted rest)
  | s => (splitKey s).map fun (key, value) => (Label.ofPlain (trimGaps key), value)
where
  /-- The label in quotes, when a colon follows it. -/
  ofQuoted (parts : List Char × List Char) : Option (Except Fault Label × List Char) :=
    match parts.2.dropWhile isGap with
    | ':' :: value => some (.ok (.key (.text (String.ofList parts.1))), value)
    | _ => none

/-- An entry of a document. -/
structure Entry where
  /-- How far the entry is indented. -/
  indent : Nat
  /-- The label. -/
  label : Label
  /-- The value, when one stands on the same line. -/
  value : Key

/-- The entry of a line, if the line has a label. -/
def Entry.ofLine (line : List Char) : Except Fault (Option Entry) :=
  let text := line.dropWhile isGap
  match readLabel (beforeRemark text), readLabel text with
  | some _, some (label, value) => do
    return some ⟨line.length - text.length, ← label, ← readScalar value⟩
  | _, _ => .ok none

/-! ### Documents -/

/-- The failure to merge what is no table. -/
def nothingToMerge : Fault :=
  ⟨.document, "expected a mapping or list of mappings for merging, but found scalar"⟩

/-- The table of labelled values, with the tables to be merged in front. -/
def Table.ofLabelled (values : List (Label × Setting)) : Except Fault Table := do
  let merged ← values.filterMapM fun
    | (.merge, .table t) => .ok (some t.toList)
    | (.merge, _) => .error nothingToMerge
    | (.key _, _) => .ok none
  let own := values.filterMap fun
    | (.key k, v) => some (k, v)
    | (.merge, _) => none
  return .ofList (merged.flatten ++ own)

/-- The value of an entry with the entries under it. -/
def Entry.setting (e : Entry) (inner : List Entry) : Except Fault Setting :=
  if inner.isEmpty then .ok (.ofKey e.value)
  else return .table (← Table.ofLabelled (inner.map fun i => (i.label, .ofKey i.value)))

/-- Each entry that is not indented further than `indent`, with the entries under it. -/
def groupEntries (indent : Nat) : List Entry → List (Entry × List Entry)
  | [] => []
  | e :: rest =>
    match groupEntries indent rest with
    | (next, inner) :: groups =>
      if next.indent ≤ indent then (e, []) :: (next, inner) :: groups
      else (e, next :: inner) :: groups
    | [] => [(e, [])]

/-- The table of entries. -/
def Table.ofEntries (entries : List Entry) : Except Fault Table := do
  let indent := (entries.head?.map Entry.indent).getD 0
  let values ← (groupEntries indent entries).mapM fun (e, inner) => return (e.label, ← e.setting inner)
  Table.ofLabelled values

/-- What the lines of a document say that has no entries: nothing, one value or a text. -/
def bareSetting (lines : List (List Char)) : Except Fault Setting :=
  match lines.filter fun l => !(trimGaps (beforeRemark (trimGaps l))).isEmpty with
  | [] => .ok .null
  | [line] => (readScalar line).map .ofKey
  | lines => .ok (.text (String.ofList (joinWith [' '] (lines.map trimGaps))))

/-- The marks of the beginning and the end of a document. -/
def frameMarks : List String := ["---", "..."]

/-- The value of a document, which is a table unless it has no entries. -/
def Setting.ofDocument (s : List Char) : Except Fault Setting := do
  let lines := (splitLines s).filter fun l => !frameMarks.contains (String.ofList (trimGaps l))
  let entries := (← lines.mapM Entry.ofLine).filterMap id
  if entries.isEmpty then bareSetting lines else return .table (← Table.ofEntries entries)

end LineScript
