import LineScript.Proofs.SymbolTables

/-!
# Overrides along paths

A path of keys leads from a table into the tables in it.  Along every path, an overridden table says
what the overrides say where that is no table, or where the base has no table to put it over; two
tables are merged, and where the overrides lack a key, the base holds from there on.  So to override
twice by the same is to override once.

## Main definitions

* `Setting.at?`, `Table.at?` — the value at the end of a path.
* `Setting.Proper` — values in whose tables no key stands twice.
* `Table.Overridden` — a table that reads, path by path, as another one with overrides.

## Main results

* `Setting.override_cases` — what overriding can do.
* `Setting.at?_override` — an overridden value along a path.
* `Setting.Proper.idempotent` — a value overrides another one once for all.
* `Table.merge_along_paths` — **tables are overridden path by path.**
-/

namespace LineScript

variable {key : Key} {path : List Key}

namespace Setting

variable {old : Option Setting} {v w : Setting} {t : Table}

/-- What overriding can do: a table is put over a table, and all else stands as it is. -/
theorem override_cases (old : Option Setting) (v : Setting) :
    (∃ b o, old = some (.table b) ∧ v = .table o ∧ override old v = .table (b.merge o)) ∨
      (∀ b o, old = some (.table b) → v ≠ .table o) ∧ override old v = v := by
  cases v with
  | table o =>
    by_cases h : ∃ b, old = some (.table b)
    · obtain ⟨b, rfl⟩ := h
      exact .inl ⟨b, o, rfl, rfl, by rw [override]⟩
    · refine .inr ⟨fun b _ hb => absurd ⟨b, hb⟩ h, ?_⟩
      rw [override]
      exact fun b hb => h ⟨b, hb⟩
  | _ => exact .inr ⟨fun _ _ _ h => (by cases h), by rw [override]⟩

theorem override_eq_self (h : ∀ b o, old = some (.table b) → v ≠ .table o) : override old v = v := by
  obtain ⟨b, o, hb, hv, -⟩ | ⟨-, hself⟩ := override_cases old v
  · exact absurd hv (h b o hb)
  · exact hself

/-! ### Paths -/

/-- The value at the end of a path of keys. -/
def at? : List Key → Setting → Option Setting
  | [], s => some s
  | key :: path, .table t => (t.get? key).bind (at? path)
  | _ :: _, _ => none

theorem at?_append : ∀ (p q : List Key) (s : Setting), at? (p ++ q) s = (at? p s).bind (at? q)
  | [], _, _ => rfl
  | key :: p, q, s => by
    cases s with
    | table t =>
      rw [List.cons_append, at?, at?, Option.bind_assoc]
      exact congrArg _ (funext (at?_append p q))
    | _ => rfl

theorem bind_at?_cons (h : ∀ b, old ≠ some (.table b)) : old.bind (at? (key :: path)) = none := by
  cases old with
  | none => rfl
  | some s =>
    rw [Option.bind_some, at?]
    exact fun t ht => h t (congrArg some ht)

/-- No key stands twice in any table that a path leads to. -/
def Proper (v : Setting) : Prop := ∀ path t, at? path v = some (.table t) → t.Distinct

theorem Proper.distinct (h : (Setting.table t).Proper) : t.Distinct := h [] t rfl

theorem Proper.get? (h : (Setting.table t).Proper) (hv : t.get? key = some v) : v.Proper :=
  fun path t' ht => h (key :: path) t' (by rwa [at?, hv])

theorem proper_table (ht : t.Distinct) (h : ∀ e ∈ t.toList, e.2.Proper) : (Setting.table t).Proper := by
  rintro (_ | ⟨key, path⟩) u hu
  · cases hu
    exact ht
  · obtain ⟨v, hv, hu⟩ := Option.bind_eq_some_iff.1 hu
    obtain ⟨k, hmem⟩ := Table.exists_mem_of_get? hv
    exact h (k, v) hmem path u hu

/-- Where the overrides say something, it is put over what stands there. -/
theorem at?_override : ∀ {path : List Key} {v : Setting} (old : Option Setting), v.Proper →
    at? path v = some w → at? path (override old v) = some (override (old.bind (at? path)) w)
  | [], v, old, _, h => by
    cases h
    cases old <;> rfl
  | key :: path, .table o, old, hv, h => by
    -- below two tables it is overriding again; anything else is replaced as a whole
    obtain ⟨b, _, rfl, ⟨⟩, hover⟩ | ⟨hold, hover⟩ := override_cases old (.table o)
    · obtain ⟨u, hu, hw⟩ := Option.bind_eq_some_iff.1 h
      rw [hover, at?, Table.get?_merge b hv.distinct, hu]
      exact at?_override _ (hv.get? hu) hw
    · rw [hover, h, bind_at?_cons fun b hb => hold b o hb rfl, override_eq_self fun _ _ h => by cases h]

/-- Where they lack a key, what stood under it stays. -/
theorem at?_override_cons {o : Table} (ho : o.Distinct) (hkey : o.get? key = none) :
    at? (key :: path) (override old (.table o)) = old.bind (at? (key :: path)) := by
  obtain ⟨b, _, rfl, ⟨⟩, hover⟩ | ⟨hold, hover⟩ := override_cases old (.table o)
  · rw [hover, Option.bind_some, at?, at?, Table.get?_merge b ho, hkey]
    rfl
  · rw [hover, bind_at?_cons fun b hb => hold b o hb rfl, at?, hkey]
    rfl

end Setting

/-! ### Overriding twice -/

/-- To put the value over anything twice is to put it there once. -/
def Setting.Idempotent (v : Setting) : Prop :=
  ∀ old, override (some (override old v)) v = override old v

namespace Table

theorem get?_of_mem : ∀ {t : Table}, t.Distinct → ∀ e ∈ t.toList, t.get? e.1 = some e.2
  | .nil, _ => fun _ he => absurd he List.not_mem_nil
  | .cons k v rest, h => by
    obtain ⟨hfirst, hrest⟩ := List.pairwise_cons.1 h
    refine List.forall_mem_cons.2 ⟨by simp [get?], fun e he => ?_⟩
    rw [get?, hfirst e he]
    exact get?_of_mem hrest e he

theorem put_of_get? {v : Setting} : ∀ {t : Table}, t.get? key = some v → t.put key v = t
  | .cons k w rest, h => by
    rw [get?] at h
    rw [put]
    split at h
    next hsame =>
      cases h
      rw [if_pos hsame]
    next hsame => rw [if_neg hsame, put_of_get? h]

/-- A table whose keys were overridden already is not changed by the same overrides. -/
theorem merge_of_overridden {t : Table} : ∀ {o : Table}, (∀ e ∈ o.toList, e.2.Idempotent) →
    (∀ e ∈ o.toList, ∃ old, t.get? e.1 = some (Setting.override old e.2)) → t.merge o = t
  | .nil, _, _ => merge_nil t
  | .cons k v rest, hvalues, h => by
    obtain ⟨hv, hvalues⟩ := List.forall_mem_cons.1 hvalues
    obtain ⟨⟨old, hold⟩, hrest⟩ := List.forall_mem_cons.1 h
    rw [merge, hold, hv old, put_of_get? hold, merge_of_overridden hvalues hrest]

end Table

mutual

/-- **A value overrides another one once for all.** -/
theorem Setting.Proper.idempotent {v : Setting} (hv : v.Proper) : v.Idempotent := by
  intro old
  cases v with
  | table o =>
    have ho := hv.distinct
    have hvalues := o.idempotent_of_mem fun e he => hv.get? (Table.get?_of_mem ho e he)
    obtain ⟨b, _, rfl, ⟨⟩, hover⟩ | ⟨-, hover⟩ := Setting.override_cases old (.table o)
    · rw [hover, Setting.override, Table.merge_of_overridden hvalues fun e he => ⟨b.get? e.1, ?_⟩]
      rw [Table.get?_merge b ho, Table.get?_of_mem ho e he]
      rfl
    · -- the overrides stand there as they are, so each of their keys was overridden in nothing
      rw [hover, Setting.override, Table.merge_of_overridden hvalues fun e he => ⟨none, ?_⟩]
      rw [Setting.override_eq_self fun _ _ h => by cases h]
      exact Table.get?_of_mem ho e he
  | _ => simp only [Setting.override]

theorem Table.idempotent_of_mem (t : Table) (h : ∀ e ∈ t.toList, e.2.Proper) :
    ∀ e ∈ t.toList, e.2.Idempotent := by
  cases t with
  | nil => exact fun _ he => absurd he List.not_mem_nil
  | cons k v rest =>
    obtain ⟨hv, hrest⟩ := List.forall_mem_cons.1 h
    exact List.forall_mem_cons.2 ⟨Setting.Proper.idempotent hv, rest.idempotent_of_mem hrest⟩

end

/-! ### Tables along paths -/

namespace Table

/-- The value at the end of a path that begins in the table. -/
abbrev at? (path : List Key) (t : Table) : Option Setting := Setting.at? path (.table t)

/-- The table `merged` reads, path by path, as `base` with `overrides` put over it. -/
structure Overridden (base overrides merged : Table) : Prop where
  /-- Overrides that are no tables hold. -/
  leaf : ∀ path v, overrides.at? path = some v → (∀ o, v ≠ .table o) → merged.at? path = some v
  /-- Overrides hold where the base has no table. -/
  fresh : ∀ path v, overrides.at? path = some v → (∀ b, base.at? path ≠ some (.table b)) →
    merged.at? path = some v
  /-- Where the overrides lack a key, the base holds, there and further on. -/
  silent : ∀ path o key rest, overrides.at? path = some (.table o) → o.get? key = none →
    merged.at? (path ++ key :: rest) = base.at? (path ++ key :: rest)
  /-- Two tables are merged key by key. -/
  tables : ∀ path b o, base.at? path = some (.table b) → overrides.at? path = some (.table o) →
    merged.at? path = some (.table (b.merge o)) ∧ ∀ key, (b.merge o).get? key =
      ((o.get? key).map (Setting.override (b.get? key))).or (b.get? key)

/-- **Tables are overridden path by path.**  Whatever the base is, and however deeply both are nested,
every path of the merged table leads to what the overrides and the base have on it, if no key stands
twice in a table of the overrides.  Overriding by the same once more changes nothing, and neither does
overriding by nothing. -/
theorem merge_along_paths {overrides : Table} (h : (Setting.table overrides).Proper) (base : Table) :
    Overridden base overrides (base.merge overrides) ∧
      (base.merge overrides).merge overrides = base.merge overrides ∧ base.merge .nil = base := by
  -- to merge tables is to override one by the other, so the laws of values hold from the empty path on
  have hover : Setting.override (some (.table base)) (.table overrides) =
    .table (base.merge overrides) := by rw [Setting.override]
  have hat : ∀ {path w}, overrides.at? path = some w →
      Setting.at? path (.table (base.merge overrides)) =
        some (Setting.override (base.at? path) w) := by
    intro path w hw
    rw [← hover]
    exact Setting.at?_override _ h hw
  refine ⟨⟨?_, ?_, ?_, ?_⟩, ?_, merge_nil base⟩
  · intro path v hv hleaf
    rw [at?, hat hv, Setting.override_eq_self fun _ o _ => hleaf o]
  · intro path v hv hfresh
    rw [at?, hat hv, Setting.override_eq_self fun b _ hb => absurd hb (hfresh b)]
  · intro path o key rest ho hkey
    rw [at?, at?, Setting.at?_append, Setting.at?_append, hat ho]
    exact Setting.at?_override_cons (h path o ho) hkey
  · intro path b o hb ho
    refine ⟨?_, fun key => get?_merge b (h path o ho)⟩
    rw [at?, hat ho, hb, Setting.override]
  · have htwice := h.idempotent (some (.table base))
    rw [hover, Setting.override] at htwice
    exact Setting.table.inj htwice

/-- One mark and one operation are overridden. -/
def partialOverrides : Table :=
  ofList [("comment", .text "//"), ("arithmetic", .table (ofTexts [("module", "mod")]))]

/-- The other operations of the family stay. -/
theorem merge_partialOverrides : (Setting.table partialOverrides).Proper ∧
    (standard.merge partialOverrides).at? ["arithmetic", "module"] = some (.text "mod") ∧
    (standard.merge partialOverrides).at? ["arithmetic", "plus"] = some (.text "+") ∧
    (standard.merge partialOverrides).merge partialOverrides = standard.merge partialOverrides := by
  have htext : ∀ s, (Setting.text s).Proper := fun s path t h => by cases path <;> cases h
  have hproper : (Setting.table partialOverrides).Proper := by
    refine Setting.proper_table (by decide) (List.forall_mem_cons.2 ⟨htext _, ?_⟩)
    refine List.forall_mem_singleton.2 (Setting.proper_table (by decide) ?_)
    exact List.forall_mem_singleton.2 (htext _)
  obtain ⟨hover, htwice, -⟩ := merge_along_paths hproper standard
  exact ⟨hproper, hover.leaf _ _ rfl fun _ h => (by cases h), hover.silent ["arithmetic"] _ _ [] rfl rfl,
    htwice⟩

end Table

end LineScript
