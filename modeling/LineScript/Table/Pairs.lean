import LineScript.Table.Basic

/-!
# Tables from pairs

Where a table is wanted, a list of pairs does as well, and anything that has two parts is a
pair: a list, but also a text of two characters or a table with two keys.

## Main definitions

* `Setting.isTruthy` — whether a value says anything.
* `Setting.parts?` — the parts of a value that has parts.
* `Setting.asTable` — the table that a value stands for.
* `Keyed.sorted` — a list in the order of its keys.
-/

namespace LineScript

/-- The values of a list. -/
def SettingList.toList : SettingList → List Setting
  | .nil => []
  | .cons head tail => head :: tail.toList

/-! ### Order -/

/-- A key with what belongs to it. -/
abbrev Keyed (α : Type) := List (Key × α)

namespace Keyed

/-- The failure to compare two keys. -/
def unordered (a b : Key) : Fault :=
  ⟨.type, s!"'<' not supported between instances of '{a.typeName}' and '{b.typeName}'"⟩

/-- Why a list cannot be put in the order of its keys: two neighbours have none. -/
def checkOrder {α : Type} : Keyed α → Except Fault Unit
  | (a, _) :: (b, v) :: rest =>
    match b.before? a with
    | some _ => checkOrder ((b, v) :: rest)
    | none => .error (unordered b a)
  | _ => .ok ()

/-- The list in the order of its keys. -/
def sorted {α : Type} (es : Keyed α) : Except Fault (Keyed α) := do
  checkOrder es
  return es.mergeSort fun a b => b.1.before? a.1 != some true

end Keyed

namespace Setting

/-- Whether a value says anything: it is not empty, not zero and not false. -/
def isTruthy : Setting → Bool
  | .text s => !s.isEmpty
  | .list items => !items.toList.isEmpty
  | .table t => !t.isEmpty
  | s => !(s.key?.any fun k => k.sense == .null || k.sense == .number 0)

/-- The parts of a value that has parts: the values of a list, the characters of a text and
the keys of a table. -/
def parts? : Setting → Option (List Setting)
  | .list items => some items.toList
  | .text s => some (s.toList.map fun c => .text (String.singleton c))
  | .table t => some (t.toList.map fun e => .ofKey e.1)
  | _ => none

/-- The key and the value that the value number `i` of a list is. -/
def entryAt (i : Nat) (s : Setting) : Except Fault (Key × Setting) :=
  match s.parts? with
  | none => .error ⟨.type, s!"cannot convert dictionary update sequence element #{i} to a sequence"⟩
  | some [first, value] =>
    match first.key? with
    | some key => .ok (key, value)
    | none => .error ⟨.type, s!"unhashable type: '{first.typeName}'"⟩
  | some parts =>
    .error ⟨.value, s!"dictionary update sequence element #{i} has length {parts.length}; 2 is required"⟩

/-- The table with the pairs of a list put in, whose first value is number `i`. -/
def putPairs (i : Nat) (t : Table) : List Setting → Except Fault Table
  | [] => .ok t
  | s :: rest => do
    let (key, value) ← s.entryAt i
    putPairs (i + 1) (t.put key value) rest

/-- The table that a value stands for. -/
def asTable (s : Setting) : Except Fault Table :=
  match s with
  | .table t => .ok t
  | s =>
    match s.parts? with
    | some parts => putPairs 0 .nil parts
    | none => .error ⟨.type, s!"'{s.typeName}' object is not iterable"⟩

end Setting

end LineScript
