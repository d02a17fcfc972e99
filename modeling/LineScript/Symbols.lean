import LineScript.Table.Document
import LineScript.Table.Pairs
import LineScript.Tree

/-!
# Symbol tables

Every mark of the language comes from a symbol table.  A table given by the user overrides
the default one; the result must name all marks and operators before it can be used.

## Main definitions

* `Table.standard` — the default table.
* `Symbols` — a table that has been checked, with its marks.
* `Symbols.ofOverrides`, `Symbols.ofSettings`, `Symbols.ofDocument` — the symbols for overrides.
* `Symbols.operators`, `Symbols.operatorName?` — the operator symbols and their names.
* `Symbols.stripGlobal` — names that carry the global mark.
-/

namespace LineScript

/-! ### Tables -/

/-- A table of texts. -/
def Table.ofTexts (entries : List (String × String)) : Table :=
  Table.ofList (entries.map fun (k, v) => (.text k, .text v))

/-- The default table. -/
def Table.standard : Table :=
  Table.ofList
    [("comment", .text "\\"), ("statement_separator", .text ";"), ("global_marker", .text "root."),
      ("null", .text "$"), ("import", .text "$"), ("return", .text "~"), ("loop", .text "@"),
      ("function", .text "#"), ("if", .text "?"), ("else", .text "??"), ("assign", .text "="),
      ("booleans", .table (Table.ofTexts [("true", "true"), ("false", "false")])),
      ("arithmetic", .table (Table.ofTexts
        [("plus", "+"), ("subtract", "-"), ("multiply", "*"), ("divide", "/"), ("module", "%")])),
      ("comparison", .table (Table.ofTexts
        [("equal", "="), ("not_equal", "!"), ("less", "<"), ("greater", ">"), ("less_equal", "<="),
          ("greater_equal", ">=")])),
      ("logical", .table (Table.ofTexts [("and", "&"), ("or", "|")]))]

/-- The symbol of an operator of a family, as text. -/
def Table.symbolText (t : Table) (key : String) : String :=
  ((t.get? key).map Setting.shown).getD ""

/-! ### Checked tables -/

/-- A symbol table that has been checked. -/
structure Symbols where
  /-- The whole table. -/
  table : Table
  /-- Begins a comment. -/
  comment : String
  /-- Separates the statements of a line. -/
  separator : String
  /-- Begins a name of the root scope. -/
  globalMark : String
  /-- Stands for the null value. -/
  null : String
  /-- Begins an import. -/
  importMark : String
  /-- Begins a return. -/
  returnMark : String
  /-- Opens and closes a loop. -/
  loop : String
  /-- Opens and closes a function. -/
  function : String
  /-- Opens and closes a conditional. -/
  conditional : String
  /-- Begins the last branch of a conditional. -/
  otherwise : String
  /-- Stands in an assignment. -/
  assign : String
  /-- The comparison operators, by name. -/
  comparison : Table
  /-- The logical operators, by name. -/
  logical : Table
  /-- The arithmetic operators, by name. -/
  arithmetic : Table
  /-- The words for true and false, or why there are none. -/
  booleans : Except Fault (String × String)

namespace Symbols

/-- The required mark of a key. -/
def mark (t : Table) (key : String) : Except Fault String :=
  match t.get? key with
  | some (.text s) =>
    if s.isEmpty then .error ⟨.value, s!"Syntax symbol '{key}' must be a non-empty string"⟩
    else .ok s
  | _ => .error ⟨.value, s!"Syntax symbol '{key}' must be a non-empty string"⟩

/-- The operators of a family. -/
def familyTable (t : Table) (family : Family) : Except Fault Table :=
  match t.get? family.label with
  | some (.table ops) =>
    if ops.isEmpty then .error ⟨.value, s!"Syntax table is missing the '{family.label}' operators"⟩
    else .ok ops
  | _ => .error ⟨.value, s!"Syntax table is missing the '{family.label}' operators"⟩

/-- Why a value that is no table has no entries. -/
def notATable (s : Setting) : Fault :=
  match s with
  | .text _ => ⟨.type, "string indices must be integers, not 'str'"⟩
  | .list _ => ⟨.type, "list indices must be integers or slices, not str"⟩
  | s => ⟨.type, s!"'{s.typeName}' object is not subscriptable"⟩

/-- The words for true and false. -/
def booleanWords (t : Table) : Except Fault (String × String) :=
  match t.get? "booleans" with
  | some (.table b) =>
    match b.get? "true", b.get? "false" with
    | some yes, some no => .ok (yes.shown, no.shown)
    | none, _ => .error ⟨.key, quote "true"⟩
    | _, none => .error ⟨.key, quote "false"⟩
  | some s => .error (notATable s)
  | none => .error ⟨.key, quote "booleans"⟩

/-- Whether a value is a text. -/
def isText : Setting → Bool
  | .text _ => true
  | _ => false

/-- The operators must be texts, and none of them empty. -/
def checkOperators (comparison logical arithmetic : Table) : Except Fault Unit :=
  if !(arithmetic.toList.all fun e => isText e.2) then
    .error ⟨.type, "an arithmetic symbol is no text"⟩
  else if (comparison.toList ++ logical.toList ++ arithmetic.toList).any fun e => e.2.shown.isEmpty then
    .error ⟨.index, "string index out of range"⟩
  else .ok ()

/-- The symbols of a table, if all marks and operators are there. -/
def ofTable (t : Table) : Except Fault Symbols := do
  let comment ← mark t "comment"
  let separator ← mark t "statement_separator"
  let globalMark ← mark t "global_marker"
  let null ← mark t "null"
  let importMark ← mark t "import"
  let returnMark ← mark t "return"
  let loop ← mark t "loop"
  let function ← mark t "function"
  let conditional ← mark t "if"
  let otherwise ← mark t "else"
  let assign ← mark t "assign"
  let comparison ← familyTable t .comparison
  let logical ← familyTable t .logical
  let arithmetic ← familyTable t .arithmetic
  if otherwise == conditional then
    throw ⟨.value, "The else marker must differ from the conditional marker"⟩
  checkOperators comparison logical arithmetic
  return ⟨t, comment, separator, globalMark, null, importMark, returnMark, loop, function, conditional,
    otherwise, assign, comparison, logical, arithmetic, booleanWords t⟩

/-- The symbols of the default table with overrides. -/
def ofOverrides (overrides : Table) : Except Fault Symbols :=
  ofTable (Table.standard.merge overrides)

/-- The failure for a value that has no entries. -/
def noItems (s : Setting) : Fault :=
  ⟨.attribute, s!"'{s.typeName}' object has no attribute 'items'"⟩

/-- The symbols of the default table with whatever overrides are given; a value that says
nothing overrides nothing. -/
def ofSettings (settings : Setting) : Except Fault Symbols :=
  match settings with
  | .table overrides => ofOverrides overrides
  | s => if s.isTruthy then .error (noItems s) else ofOverrides .nil

/-- The symbols of the default table with the overrides of a document. -/
def ofDocument (s : List Char) : Except Fault Symbols := do ofSettings (← Setting.ofDocument s)

/-- The symbols of the default table. -/
def standard : Except Fault Symbols := ofOverrides .nil

/-! ### Operators -/

/-- The operators of a family, by name. -/
def family (s : Symbols) : Family → Table
  | .comparison => s.comparison
  | .logical => s.logical
  | .arithmetic => s.arithmetic

/-- An operator symbol with the family and operation it stands for. -/
structure Operator where
  /-- The symbol. -/
  symbol : String
  /-- The family that claims it. -/
  family : Family
  /-- The name of the operation. -/
  name : Key
  deriving DecidableEq, Repr, Inhabited

/-- The operators of one family, in the order of the table. -/
def operatorsOf (s : Symbols) (f : Family) : List Operator :=
  (s.family f).toList.map fun (name, sym) => ⟨sym.shown, f, name⟩

/-- The operator that a symbol stands for: the first family that claims it wins, in the
order comparison, logical, arithmetic. -/
def operators (s : Symbols) : List Operator :=
  s.operatorsOf .comparison ++ s.operatorsOf .logical ++ s.operatorsOf .arithmetic

/-- The operation that a symbol stands for in any family. -/
def operatorName? (s : Symbols) (symbol : String) : Option Key :=
  (s.operators.find? fun o => o.symbol == symbol).map Operator.name

/-- The first operation of a table whose symbol is the given text. -/
def nameIn? (symbol : String) (t : Table) : Option Key :=
  (t.toList.find? fun (_, sym) =>
    match sym with
    | .text s => s == symbol
    | _ => false).map Prod.fst

/-- The operation that a symbol stands for in one family. -/
def familyOperator? (s : Symbols) (symbol : String) (f : Family) : Option Key :=
  nameIn? symbol (s.family f)

/-- The operation that a symbol stands for in the entry of a key, which need not be a family:
an entry that is not there has no operations. -/
def operatorUnder (s : Symbols) (symbol : String) (key : Key) : Except Fault (Option Key) :=
  match s.table.get? key with
  | none => .ok none
  | some (.table t) => .ok (nameIn? symbol t)
  | some v => .error (noItems v)

/-- The entry of a key. -/
def entry (s : Symbols) (key : Key) : Except Fault Setting :=
  match s.table.get? key with
  | some v => .ok v
  | none => .error ⟨.key, key.nested⟩

/-- Whether a word stands for true. -/
def booleanValue (s : Symbols) (word : String) : Except Fault Bool :=
  s.booleans.map fun (yes, _) => word == yes

/-! ### The global mark -/

/-- What follows a text at the front of another one. -/
def afterMark? (mark s : List Char) : Option (List Char) :=
  if mark.isPrefixOf s then some (s.drop mark.length) else none

/-- The bare name, when a name carries the global mark `mark` and something after it. -/
def bareName? (mark name : String) : Option String :=
  match afterMark? mark.toList name.toList with
  | some (c :: rest) => some (String.ofList (c :: rest))
  | _ => none

/-- Whether a name carries the global mark, and the name without it. -/
def stripGlobal (s : Symbols) (name : String) : Bool × String :=
  match bareName? s.globalMark name with
  | some bare => (true, bare)
  | none => (false, name)

/-- The length of the global mark when a name carries it, and `-1` otherwise. -/
def globalPosition (s : Symbols) (name : String) : Int :=
  match bareName? s.globalMark name with
  | some _ => s.globalMark.length
  | none => -1

end Symbols

end LineScript
