import LineScript.Symbols
import LineScript.Value.Basic

/-!
# Scopes

Names are bound in scopes, and scopes are nested: a name is looked up in a scope, then in
the one around it, and so on to the root.  A name that carries the global mark belongs to
the root, wherever it is used.

## Main definitions

* `Bindings` — names with their values, in the order in which they were bound first.
* `Scope`, `Scopes` — one scope, and all of them.
* `Scopes.route` — the scope and the bare name that a name stands for.
* `Scopes.lookup`, `Scopes.assign`, `Scopes.push` — the operations.
-/

namespace LineScript

/-! ### Bindings -/

/-- Names with their values, in the order in which they were bound first. -/
abbrev Bindings := List (String × Value)

/-- The bindings with a name bound to a value. -/
def Bindings.put (key : String) (value : Value) : Bindings → Bindings
  | [] => [(key, value)]
  | (k, v) :: rest => if k == key then (k, value) :: rest else (k, v) :: put key value rest

/-- The value of a name. -/
def Bindings.get? (key : String) : Bindings → Option Value
  | [] => none
  | (k, v) :: rest => if k == key then some v else get? key rest

/-- The names that are bound. -/
def Bindings.names (b : Bindings) : List String := b.map Prod.fst

@[simp] theorem Bindings.get?_put_self (key : String) (value : Value) (b : Bindings) :
    (Bindings.put key value b).get? key = some value := by
  induction b with
  | nil => simp [put, get?]
  | cons e rest ih =>
    by_cases h : e.1 = key <;> simp [put, get?, h, ih]

theorem Bindings.get?_put_of_ne {key other : String} (h : other ≠ key) (value : Value) (b : Bindings) :
    (Bindings.put key value b).get? other = b.get? other := by
  induction b with
  | nil => simp [put, get?, Ne.symm h]
  | cons e rest ih =>
    by_cases hk : e.1 = key
    · simp [put, get?, hk, Ne.symm h]
    · by_cases ho : e.1 = other <;> simp [put, get?, hk, ho, ih, h]

/-! ### Scopes -/

/-- A scope. -/
structure Scope where
  /-- What the scope is called. -/
  name : String
  /-- The scopes around it, the nearest first. -/
  ancestors : List Nat := []
  /-- The names that are bound in it. -/
  bindings : Bindings := []
  deriving Inhabited

/-- A scope as it shows itself: its name and the names bound in it, sorted. -/
def Scope.describe (s : Scope) : String :=
  let names := s.bindings.names.mergeSort fun a b => a ≤ b
  s!"<Context {s.name} {quoteList names}>"

/-- All scopes, by their numbers. -/
structure Scopes where
  /-- The mark of global names, if there is one. -/
  mark : Option String
  /-- The scopes. -/
  scopes : Array Scope
  deriving Inhabited

namespace Scopes

/-- A root scope on its own, which is number zero. -/
def root (mark : Option String) (name : String) : Scopes := ⟨mark, #[{ name := name }]⟩

/-- The scope of a number. -/
def get (s : Scopes) (id : Nat) : Scope := s.scopes.getD id default

/-- A scope and those around it, the nearest first. -/
def chain (s : Scopes) (id : Nat) : List Nat := id :: (s.get id).ancestors

/-- The outermost scope around a scope. -/
def rootOf (s : Scopes) (id : Nat) : Nat := (s.chain id).getLast (by simp [chain])

/-- The scope around a scope. -/
def parent? (s : Scopes) (id : Nat) : Option Nat := (s.get id).ancestors.head?

/-- The scope to start from and the bare name, for a name used in a scope. -/
def route (s : Scopes) (id : Nat) (name : String) : Nat × String :=
  match s.mark.bind fun mark => Symbols.bareName? mark name with
  | some bare => (s.rootOf id, bare)
  | none => (id, name)

/-- Whether a scope itself binds a name. -/
def binds (s : Scopes) (key : String) (id : Nat) : Bool := ((s.get id).bindings.get? key).isSome

/-- The nearest scope that binds a name. -/
def owner? (s : Scopes) (id : Nat) (key : String) : Option Nat := (s.chain id).find? (s.binds key)

/-- The value of a name in a scope; none when the name is bound nowhere around it. -/
def lookup (s : Scopes) (id : Nat) (name : String) : Option Value :=
  let (start, key) := s.route id name
  (s.chain start).findSome? fun i => (s.get i).bindings.get? key

/-- The scopes with a name bound to a value: in the root for a name with the global mark,
and otherwise in the scope itself. -/
def assign (s : Scopes) (id : Nat) (name : String) (value : Value) : Scopes :=
  let (target, key) := s.route id name
  { s with scopes := s.scopes.modify target fun scope =>
      { scope with bindings := Bindings.put key value scope.bindings } }

/-- A new scope inside another one. -/
def push (s : Scopes) (id : Nat) (name : String) : Nat × Scopes :=
  (s.scopes.size, { s with scopes := s.scopes.push { name := name, ancestors := s.chain id } })

end Scopes

end LineScript
