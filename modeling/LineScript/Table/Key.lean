import LineScript.Numeral
import LineScript.Table.Day

/-!
# Keys

The keys of a table are texts, numbers, days, the truth values and the null value.  Two numbers are
one key when they are equal, whether they are written with a fraction or not, and the truth
values count as one and zero.  So a key keeps the way it is written, and says something
besides; keys are the same when they say the same.

## Main definitions

* `Key` — the keys.
* `Key.sense`, `Key.same` — what a key says, and whether two keys say the same.
* `Key.before?` — the order of keys.
* `Key.shown`, `Key.nested` — keys as texts.
-/

namespace LineScript

/-- A key of a table. -/
inductive Key where
  /-- The null value. -/
  | null
  /-- A truth value. -/
  | boolean (b : Bool)
  /-- A whole number. -/
  | integer (n : Int)
  /-- A number with a fraction, as written. -/
  | float (text : String)
  /-- A day of the calendar. -/
  | day (d : Day)
  /-- A text. -/
  | text (s : String)
  deriving DecidableEq, Repr, Inhabited

instance : Coe String Key := ⟨.text⟩

namespace Key

/-- What a key says, apart from the way a number is written. -/
inductive Sense where
  /-- The null value. -/
  | null
  /-- A number. -/
  | number (q : Rat)
  /-- An infinity. -/
  | infinite (negative : Bool)
  /-- What is not a number. -/
  | undefined
  /-- A day. -/
  | day (d : Day)
  /-- A text. -/
  | text (s : String)
  deriving DecidableEq

/-- What a binary number says. -/
def Sense.ofDouble (d : Double) : Sense :=
  match d, d.ratio? with
  | .infinite negative, _ => .infinite negative
  | _, some (num, den) => .number (mkRat num den)
  | _, none => .undefined

/-- What a key says. -/
def sense : Key → Sense
  | .null => .null
  | .boolean b => .number (if b then 1 else 0)
  | .integer n => .number n
  | .float t => .ofDouble ((Double.read? t.toList).getD .nan)
  | .day d => .day d
  | .text s => .text s

/-- Whether two keys are the same. -/
def same (a b : Key) : Bool := a.sense == b.sense

@[simp] theorem same_self (a : Key) : a.same a = true := by simp [same]

@[simp] theorem same_text (s t : String) : same (.text s) (.text t) = (s == t) := by
  rw [Bool.eq_iff_iff]
  simp [same, sense]

/-- A key that is the same as one of two keys that differ is not the same as the other. -/
theorem same_eq_false_of_same {a b c : Key} (h : a.same b = true) (hbc : b.same c = false) :
    a.same c = false := by
  simp only [same, beq_iff_eq, beq_eq_false_iff_ne] at *
  rwa [h]

/-! ### Order -/

/-- Whether one sense comes before another one, if the two have an order: texts have one
among themselves, and numbers have one. -/
def Sense.before? : Sense → Sense → Option Bool
  | .text a, .text b => some (a < b)
  | .number p, .number q => some (p < q)
  | .number _, .infinite negative => some !negative
  | .infinite negative, .number _ => some negative
  | .infinite a, .infinite b => some (a && !b)
  | .undefined, .number _ | .undefined, .infinite _ | .undefined, .undefined => some false
  | .number _, .undefined | .infinite _, .undefined => some false
  | _, _ => none

/-- Whether one key comes before another one, if the two have an order. -/
def before? (a b : Key) : Option Bool := a.sense.before? b.sense

/-! ### Keys as texts -/

/-- The form of a key inside a list or a table. -/
def nested : Key → String
  | .null => "None"
  | .boolean b => if b then "True" else "False"
  | .integer n => intText n
  | .float t => t
  | .day d => s!"datetime.date({d.year}, {d.month}, {d.day})"
  | .text s => quote s

/-- The form of a key on its own: a text as it is. -/
def shown : Key → String
  | .text s => s
  | .day d => d.text
  | k => k.nested

/-- The text that a key is. -/
def text? : Key → Option String
  | .text s => some s
  | _ => none

/-- The name of the type of a key in messages. -/
def typeName : Key → String
  | .null => "NoneType"
  | .boolean _ => "bool"
  | .integer _ => "int"
  | .float _ => "float"
  | .day _ => "datetime.date"
  | .text _ => "str"

end Key

end LineScript
