import LineScript.Scope

/-!
# What the operations on scopes do

Scopes are seen through `Scopes.get`, which is total: a number that belongs to no scope stands
for an empty one.  An assignment changes the bindings of one scope, and a new scope leaves the
others as they are.

## Main results

* `Scopes.get_assign`, `Scopes.get_push` — every scope after an assignment, and with a new scope.
* `Scopes.chain_assign`, `Scopes.chain_push` — the scopes around a scope, likewise.
* `Scopes.exists_of_lookup` — a value that is found is bound somewhere.
* `Scopes.All` — a property of every value that is bound, with `assign`, `push`, `lookup`, `root`.
-/

namespace LineScript

/-! ### Bindings -/

theorem Bindings.mem_of_get? {key : String} {v : Value} : ∀ {b : Bindings}, b.get? key = some v →
    (key, v) ∈ b := by
  intro b
  induction b with
  | nil => nofun
  | cons e rest ih =>
    obtain ⟨k, w⟩ := e
    intro h
    by_cases hk : k = key
    · subst hk
      simp only [Bindings.get?, beq_self_eq_true, if_true, Option.some.injEq] at h
      subst h
      exact List.mem_cons_self
    · simp only [Bindings.get?, beq_iff_eq, hk, if_false] at h
      exact List.mem_cons_of_mem _ (ih h)

/-- A binding after a name is bound is the new one or was there before. -/
theorem Bindings.mem_put {key : String} {value : Value} {p : String × Value} : ∀ {b : Bindings},
    p ∈ b.put key value → p = (key, value) ∨ p ∈ b := by
  intro b
  induction b with
  | nil =>
    intro h
    exact .inl (List.mem_singleton.1 h)
  | cons e rest ih =>
    obtain ⟨k, w⟩ := e
    intro h
    by_cases hk : k = key
    · subst hk
      simp only [Bindings.put, beq_self_eq_true, if_true, List.mem_cons] at h
      exact h.imp_right (List.mem_cons_of_mem _)
    · simp only [Bindings.put, beq_iff_eq, hk, if_false, List.mem_cons] at h
      rcases h with rfl | h
      · exact .inr List.mem_cons_self
      · exact (ih h).imp_right (List.mem_cons_of_mem _)

/-! ### Scopes -/

namespace Scopes

/-- The number of scopes. -/
def size (s : Scopes) : Nat := s.scopes.size

variable (s : Scopes) (id : Nat) (name : String) (value : Value)

theorem get_eq_getD (i : Nat) : s.get i = s.scopes[i]?.getD default :=
  Array.getD_eq_getD_getElem? ..

theorem get_of_size_le {i : Nat} (h : s.size ≤ i) : s.get i = default := by
  rw [get_eq_getD, Array.getElem?_eq_none h, Option.getD_none]

@[simp] theorem size_assign : (s.assign id name value).size = s.size := by
  simp [assign, size]

@[simp] theorem mark_assign : (s.assign id name value).mark = s.mark := rfl

/-- The scopes after an assignment: the one that the name belongs to has one binding more or
another one, and the others are as they were. -/
theorem get_assign (i : Nat) :
    (s.assign id name value).get i =
      if (s.route id name).1 = i ∧ i < s.size then
        { s.get i with bindings := (s.get i).bindings.put (s.route id name).2 value }
      else s.get i := by
  rw [get_eq_getD, get_eq_getD, assign, Array.getElem?_modify]
  by_cases hi : i < s.size
  · rw [Array.getElem?_eq_getElem hi]
    by_cases ht : (s.route id name).1 = i <;> simp [ht, hi]
  · rw [Array.getElem?_eq_none (Nat.not_lt.1 hi)]
    simp [hi]

@[simp] theorem size_push : (s.push id name).2.size = s.size + 1 := by
  simp [push, size]

@[simp] theorem mark_push : (s.push id name).2.mark = s.mark := rfl

@[simp] theorem fst_push : (s.push id name).1 = s.size := rfl

/-- The scopes with a new one, which has the last number. -/
theorem get_push (i : Nat) :
    (s.push id name).2.get i =
      if i = s.size then { name := name, ancestors := s.chain id } else s.get i := by
  rw [get_eq_getD, get_eq_getD, push, Array.getElem?_push]
  by_cases hi : i = s.size
  · simp [hi, size]
  · rw [if_neg hi]
    exact congrArg (Option.getD · default) (if_neg hi)

/-- An assignment leaves the scopes where they are. -/
@[simp] theorem chain_assign (i : Nat) : (s.assign id name value).chain i = s.chain i := by
  have hget : ((s.assign id name value).get i).ancestors = (s.get i).ancestors := by
    rw [get_assign]
    split <;> rfl
  rw [chain, hget, chain]

@[simp] theorem rootOf_assign (i : Nat) : (s.assign id name value).rootOf i = s.rootOf i := by
  simp only [rootOf, chain_assign]

/-- A new scope is inside the scopes around the one that it is put into. -/
theorem chain_push (i : Nat) :
    (s.push id name).2.chain i = if i = s.size then i :: s.chain id else s.chain i := by
  rw [chain, get_push]
  split <;> rfl

/-- The root of a new scope is that of the scope around it. -/
theorem rootOf_push (i : Nat) :
    (s.push id name).2.rootOf i = if i = s.size then s.rootOf id else s.rootOf i := by
  by_cases hi : i = s.size
  · simp only [rootOf, chain_push, hi, if_true]
    exact List.getLast_cons_cons
  · simp only [rootOf, chain_push, hi, if_false]

/-- A value that is found is bound in some scope. -/
theorem exists_of_lookup {v : Value} (h : s.lookup id name = some v) :
    ∃ i key, (key, v) ∈ (s.get i).bindings := by
  obtain ⟨i, _, hi⟩ := List.exists_of_findSome?_eq_some h
  exact ⟨i, _, Bindings.mem_of_get? hi⟩

/-! ### What is bound -/

/-- Every value that a scope binds has a property. -/
def All (good : Value → Prop) (s : Scopes) : Prop := ∀ i, ∀ p ∈ (s.get i).bindings, good p.2

namespace All

variable {good : Value → Prop} {s : Scopes}

theorem assign (h : s.All good) (id : Nat) (name : String) {v : Value} (hv : good v) :
    (s.assign id name v).All good := by
  intro i p hp
  rw [get_assign] at hp
  split at hp
  · obtain rfl | hp := Bindings.mem_put hp
    · exact hv
    · exact h i p hp
  · exact h i p hp

theorem push (h : s.All good) (id : Nat) (name : String) : (s.push id name).2.All good := by
  intro i p hp
  rw [get_push] at hp
  split at hp
  · cases hp
  · exact h i p hp

theorem lookup (h : s.All good) {id : Nat} {name : String} {v : Value}
    (hv : s.lookup id name = some v) : good v := by
  obtain ⟨i, key, hmem⟩ := s.exists_of_lookup id name hv
  exact h i _ hmem

theorem root (mark : Option String) (name : String) : (Scopes.root mark name).All good := by
  intro i p hp
  rcases i with _ | i
  · cases hp
  · rw [get_of_size_le _ (Nat.le_add_left 1 i)] at hp
    cases hp

end All

end Scopes

end LineScript
