import Mathlib.Data.List.Basic
import LineScript.Proofs.Expansion
import LineScript.Proofs.StandardSymbols

/-!
# What checked symbols take from their table

A table is read by its keys alone, so a key that is put again changes what it says in one place, and
a table that is overridden still has all its keys.  Checked symbols are read off such a table, mark by
mark and family by family.

## Main definitions

* `Table.Distinct` — tables in which no key stands twice.

## Main results

* `Table.toList_put` — a key that is put again keeps its place among the others.
* `Table.get?_merge` — **what an overridden table says.**
* `Symbols.isSome_get?_family` — no overrides take an operation out of a family.
-/

namespace LineScript

variable {key : Key}

namespace Table

/-! ### Entries -/

/-- No key stands in the table twice. -/
def Distinct (t : Table) : Prop := t.toList.Pairwise fun a b => a.1.same b.1 = false

instance (t : Table) : Decidable t.Distinct := inferInstanceAs (Decidable (List.Pairwise _ _))

theorem exists_mem_of_get? {v : Setting} : ∀ {t : Table}, t.get? key = some v →
    ∃ k, (k, v) ∈ t.toList
  | .nil, h => by cases h
  | .cons k w rest, h => by
    rw [get?] at h
    split at h
    · cases h
      exact ⟨k, List.mem_cons_self⟩
    · obtain ⟨k', hk'⟩ := exists_mem_of_get? h
      exact ⟨k', List.mem_cons_of_mem _ hk'⟩

/-- **A key that is put again keeps its place**, and the entries around it stay as they are. -/
theorem toList_put {old : Setting} (new : Setting) : ∀ {t : Table},
    t.get? key = some old → ∃ before k after, t.toList = before ++ (k, old) :: after ∧
      (t.put key new).toList = before ++ (k, new) :: after
  | .nil, h => by cases h
  | .cons k v rest, h => by
    rw [get?] at h
    split at h
    next hsame =>
      cases h
      refine ⟨[], k, rest.toList, rfl, ?_⟩
      rw [put, if_pos hsame]
      rfl
    next hsame =>
      obtain ⟨before, k', after, hold, hnew⟩ := toList_put new h
      refine ⟨(k, v) :: before, k', after, ?_, ?_⟩
      · rw [toList, hold, List.cons_append]
      · rw [put, if_neg hsame, toList, hnew, List.cons_append]

/-! ### Overrides -/

theorem get?_of_same {other : Key} (h : key.same other = true) : ∀ t : Table,
    t.get? other = t.get? key
  | .nil => rfl
  | .cons k v rest => by
    have hsense : key.sense = other.sense := by simpa [Key.same] using h
    have hk : k.same other = k.same key := by rw [Key.same, Key.same, hsense]
    rw [get?, get?, get?_of_same h rest, hk]

theorem isSome_get?_put (other : Key) (value : Setting) {t : Table} (h : (t.get? key).isSome = true) :
    ((t.put other value).get? key).isSome = true := by
  cases hsame : other.same key with
  | true => rw [get?_of_same hsame, get?_put_self, Option.isSome_some]
  | false => rwa [get?_put_of_not_same hsame]

/-- Overrides take no key away. -/
theorem isSome_get?_merge : ∀ (overrides : Table) {base : Table},
    (base.get? key).isSome = true → ((base.merge overrides).get? key).isSome = true
  | .nil, base, h => by rwa [merge]
  | .cons k v rest, base, h => by
    rw [merge]
    exact isSome_get?_merge rest (isSome_get?_put k _ h)

theorem get?_eq_none : ∀ {t : Table}, (∀ e ∈ t.toList, key.same e.1 = false) → t.get? key = none
  | .nil, _ => rfl
  | .cons k v rest, h => by
    obtain ⟨hk, hrest⟩ := List.forall_mem_cons.1 h
    have hne : k.same key = false := Bool.beq_comm.trans hk
    rw [get?, if_neg (by simp [hne]), get?_eq_none hrest]

/-- What a key says in an overridden table: what its override makes of what it said, or what it said. -/
theorem get?_merge : ∀ {overrides : Table} (base : Table), overrides.Distinct →
    (base.merge overrides).get? key =
      ((overrides.get? key).map (Setting.override (base.get? key))).or (base.get? key)
  | .nil, base, _ => by rw [merge]; rfl
  | .cons k v rest, base, h => by
    obtain ⟨hfirst, hrest⟩ := List.pairwise_cons.1 h
    rw [merge, get?_merge _ hrest, get?]
    cases hsame : k.same key with
    | true =>
      -- no later entry overrides the key again
      simp only [get?_of_same hsame, get?_eq_none hfirst, get?_put_self]
      rfl
    | false =>
      rw [get?_put_of_not_same hsame]
      rfl

end Table

/-! ### Checked symbols -/

namespace Symbols

theorem get?_of_familyTable {t ops : Table} {f : Family} (h : familyTable t f = .ok ops) :
    t.get? f.label = some (.table ops) := by
  unfold familyTable at h
  split at h
  next ops' heq =>
    split at h
    · cases h
    · cases h
      exact heq
  · cases h

/-- **Overrides take no operation out of a family:** an operation of the default table has a symbol in
every table that is accepted. -/
theorem isSome_get?_family {overrides : Table} (hdistinct : overrides.Distinct) {s : Symbols}
    (hs : ofOverrides overrides = .ok s) (f : Family)
    (hkey : ((standardSymbols.family f).get? key).isSome = true) :
    ((s.family f).get? key).isSome = true := by
  have hstandard : Table.standard.get? f.label = some (.table (standardSymbols.family f)) := by
    cases f <;> rfl
  have hfamily := get?_of_familyTable ((checked_of_ofTable hs).family f)
  rw [Table.get?_merge _ hdistinct, hstandard] at hfamily
  -- only a table in place of a table is accepted, and it is put over the default one
  cases hover : overrides.get? f.label with
  | none =>
    rw [hover] at hfamily
    rwa [← Setting.table.inj (Option.some.inj hfamily)]
  | some v =>
    rw [hover] at hfamily
    cases v with
    | table entries =>
      rw [Option.map_some, Setting.override] at hfamily
      rw [← Setting.table.inj (Option.some.inj hfamily)]
      exact Table.isSome_get?_merge entries hkey
    | _ => rw [Option.map_some, Setting.override] at hfamily; cases hfamily

end Symbols

end LineScript
