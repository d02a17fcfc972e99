import LineScript.Table.Key

/-!
# Nested tables

Settings come in tables: a table gives values to keys, and a value may be a table again.
Tables are merged key by key, so that a partial table overrides just what it names.

## Main definitions

* `Setting`, `Table` — values and tables.
* `Table.get?`, `Table.put` — reading and writing one key; keys keep their first place.
* `Table.merge` — a table overridden by another one.
* `Setting.ofKey`, `Setting.key?` — keys as values, and values as keys.
* `Setting.nested`, `Setting.shown` — values as texts.
-/

namespace LineScript

mutual

/-- A value in a table. -/
inductive Setting where
  /-- No value. -/
  | null
  /-- A truth value. -/
  | boolean (b : Bool)
  /-- A whole number. -/
  | integer (n : Int)
  /-- A number with a fraction, as written. -/
  | float (text : String)
  /-- A day of the calendar. -/
  | day (d : Day)
  /-- A text. -/
  | text (s : String)
  /-- A list of values. -/
  | list (items : SettingList)
  /-- A table. -/
  | table (entries : Table)

/-- A list of values. -/
inductive SettingList where
  /-- The empty list. -/
  | nil
  /-- A value before others. -/
  | cons (head : Setting) (tail : SettingList)

/-- A table: its keys in order, with their values. -/
inductive Table where
  /-- The empty table. -/
  | nil
  /-- A key and its value before others. -/
  | cons (key : Key) (value : Setting) (rest : Table)

end

instance : Inhabited Setting := ⟨.null⟩

instance : Inhabited Table := ⟨.nil⟩

namespace Table

/-- The value of a key. -/
def get? (key : Key) : Table → Option Setting
  | .nil => none
  | .cons k v rest => if k.same key then some v else rest.get? key

/-- The table with a value for a key: in the key's place, or at the end when it is new. -/
def put (key : Key) (value : Setting) : Table → Table
  | .nil => .cons key value .nil
  | .cons k v rest => if k.same key then .cons k value rest else .cons k v (rest.put key value)

/-- Whether the table has no key. -/
def isEmpty : Table → Bool
  | .nil => true
  | .cons .. => false

/-- The entries in order. -/
def toList : Table → List (Key × Setting)
  | .nil => []
  | .cons k v rest => (k, v) :: rest.toList

/-- The table with the entries of a list put in one after the other. -/
def ofList (entries : List (Key × Setting)) : Table :=
  entries.foldl (fun t e => t.put e.1 e.2) .nil

@[simp] theorem get?_nil (key : Key) : get? key .nil = none := rfl

/-- A key that was put reads back. -/
theorem get?_put_self (key : Key) (value : Setting) :
    ∀ t : Table, (t.put key value).get? key = some value
  | .nil => by simp [put, get?]
  | .cons k v rest => by
    have ih := get?_put_self key value rest
    by_cases h : k.same key = true <;> simp [put, get?, h, ih]

/-- Putting a key leaves the others alone. -/
theorem get?_put_of_not_same {key other : Key} (h : key.same other = false) (value : Setting) :
    ∀ t : Table, (t.put key value).get? other = t.get? other
  | .nil => by simp [put, get?, h]
  | .cons k v rest => by
    have ih := get?_put_of_not_same h value rest
    by_cases hk : k.same key = true
    · simp [put, get?, hk, Key.same_eq_false_of_same hk h]
    · simp [put, get?, hk, ih]

end Table

mutual

/-- A value overridden by another one: tables merge, anything else is replaced. -/
def Setting.override (old : Option Setting) : Setting → Setting
  | .table o =>
    match old with
    | some (.table b) => .table (Table.merge b o)
    | _ => .table o
  | .null => .null
  | .boolean b => .boolean b
  | .integer n => .integer n
  | .float t => .float t
  | .day t => .day t
  | .text s => .text s
  | .list items => .list items

/-- The table `base` overridden by another one, key by key. -/
def Table.merge (base : Table) : Table → Table
  | .nil => base
  | .cons key value rest =>
    Table.merge (base.put key (Setting.override (base.get? key) value)) rest

end

@[simp] theorem Table.merge_nil (base : Table) : base.merge .nil = base := by
  simp [Table.merge]

/-! ### Settings as keys -/

/-- A key as a value. -/
def Setting.ofKey : Key → Setting
  | .null => .null
  | .boolean b => .boolean b
  | .integer n => .integer n
  | .float t => .float t
  | .day d => .day d
  | .text s => .text s

/-- A value as a key, if it can be one. -/
def Setting.key? : Setting → Option Key
  | .null => some .null
  | .boolean b => some (.boolean b)
  | .integer n => some (.integer n)
  | .float t => some (.float t)
  | .day d => some (.day d)
  | .text s => some (.text s)
  | .list _ | .table _ => none

@[simp] theorem Setting.key?_ofKey (k : Key) : (Setting.ofKey k).key? = some k := by cases k <;> rfl

/-! ### Settings as text -/

mutual

/-- The form of a value inside a list or a table. -/
def Setting.nested : Setting → String
  | .list items => "[" ++ String.intercalate ", " items.nestedItems ++ "]"
  | .table entries => "\x7b" ++ String.intercalate ", " entries.nestedEntries ++ "\x7d"
  | .null => Key.null.nested
  | .boolean b => (Key.boolean b).nested
  | .integer n => (Key.integer n).nested
  | .float t => (Key.float t).nested
  | .day d => (Key.day d).nested
  | .text s => (Key.text s).nested

/-- The forms of the values of a list. -/
def SettingList.nestedItems : SettingList → List String
  | .nil => []
  | .cons head tail => head.nested :: tail.nestedItems

/-- The forms of the entries of a table. -/
def Table.nestedEntries : Table → List String
  | .nil => []
  | .cons key value rest => (key.nested ++ ": " ++ value.nested) :: rest.nestedEntries

end

/-- The form of a value on its own: a text as it is. -/
def Setting.shown (s : Setting) : String :=
  match s.key? with
  | some k => k.shown
  | none => s.nested

/-- The name of the type of a value in messages. -/
def Setting.typeName : Setting → String
  | .list _ => "list"
  | .table _ => "dict"
  | s => (s.key?.map Key.typeName).getD ""

end LineScript
