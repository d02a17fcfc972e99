import LineScript.Table.Pairs

/-!
# Settings as JSON

Settings are written as JSON in ASCII characters only, with the keys of every table in order
and a blank behind every comma and colon.

## Main definitions

* `jsonText` — a text between quotes.
* `Key.memberName` — a key.
* `Setting.json`, `Table.json` — a value, and a table.
-/

namespace LineScript

/-- A character between quotes. -/
def jsonChar (c : Char) : List Char :=
  let n := c.toNat
  if c == '"' then ['\\', '"']
  else if c == '\\' then ['\\', '\\']
  else if c == '\n' then ['\\', 'n']
  else if c == '\r' then ['\\', 'r']
  else if c == '\t' then ['\\', 't']
  else if n == 8 then ['\\', 'b']
  else if n == 12 then ['\\', 'f']
  else if 0x20 ≤ n && n < 0x7F then [c]
  else if n ≤ 0xFFFF then '\\' :: 'u' :: hexDigits 4 n
  else
    let m := n - 0x10000
    '\\' :: 'u' :: hexDigits 4 (0xD800 + m / 0x400) ++ '\\' :: 'u' :: hexDigits 4 (0xDC00 + m % 0x400)

/-- A text between quotes. -/
def jsonText (s : String) : String := String.ofList ('"' :: s.toList.flatMap jsonChar ++ ['"'])

/-- A number with a fraction; those that are not finite have names of their own. -/
def jsonFloat (t : String) : String :=
  match t with
  | "inf" => "Infinity"
  | "-inf" => "-Infinity"
  | "nan" => "NaN"
  | t => t

/-- The members of an object between its braces. -/
def jsonObject (members : List (String × String)) : String :=
  "\x7b" ++ String.intercalate ", " (members.map fun (k, v) => k ++ ": " ++ v) ++ "\x7d"

/-- The name of the member of an object that a key stands for. -/
def Key.memberName : Key → String
  | .null => "null"
  | .boolean b => if b then "true" else "false"
  | .float t => jsonFloat t
  | k => k.shown

/-- The members of an object, in the order of their keys. -/
def jsonTable (members : Keyed String) : Except Fault String :=
  members.sorted.map fun es => jsonObject (es.map fun (k, v) => (jsonText k.memberName, v))

mutual

/-- A value. -/
def Setting.json : Setting → Except Fault String
  | .null => .ok "null"
  | .boolean b => .ok (if b then "true" else "false")
  | .integer n => .ok (intText n)
  | .float t => .ok (jsonFloat t)
  | .day d => .ok (jsonText d.text)
  | .text s => .ok (jsonText s)
  | .list items => do return "[" ++ String.intercalate ", " (← items.jsonItems) ++ "]"
  | .table entries => do jsonTable (← entries.jsonMembers)

/-- The values of a list. -/
def SettingList.jsonItems : SettingList → Except Fault (List String)
  | .nil => .ok []
  | .cons head tail => do return (← head.json) :: (← tail.jsonItems)

/-- The keys of a table with their values. -/
def Table.jsonMembers : Table → Except Fault (Keyed String)
  | .nil => .ok []
  | .cons key value rest => do return (key, ← value.json) :: (← rest.jsonMembers)

end

/-- A table. -/
def Table.json (t : Table) : Except Fault String := do jsonTable (← t.jsonMembers)

end LineScript
