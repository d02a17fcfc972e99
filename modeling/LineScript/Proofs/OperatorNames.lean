import LineScript.Proofs.SymbolTables
import LineScript.Proofs.WellFormed

/-!
# What operators mean

An operator is read off a text by its symbol and named afterwards, by looking the symbol up in the
table of its family.  The grammar takes every symbol of the table as a text, whatever it is in the
table, and the look-up finds texts only.  So an operator that is read always stands in the table of
its family, and it has a name exactly when some operation of the family has that very text for its
symbol.

## Main definitions

* `Term.operators`, `Expr.operations` — the operators of a term and the operations of an expression,
  in the same order.
* `Symbols.Denotes` — a key of a family whose symbol, as a text, is a given one.
* `Symbols.Spells` — a family has a given text for a symbol.

## Main results

* `lowering_operations` — operations are operators that are looked up.
* `exists_denotes_of_read` — an operator that is read stands in the table of its family.
* `operations_meant` — **an operator means what the table says, if the table spells it out.**
-/

namespace LineScript

/-! ### Operators and operations -/

mutual

/-- The operators of a term by their families and symbols, the outermost one first. -/
def Term.operators : Term → List (Family × List Char)
  | .number _ | .string _ | .null | .boolean _ | .reference _ => []
  | .call _ args => operatorsIn args
  | .negation operand => operand.operators
  | .binary family symbol left right => (family, symbol) :: (left.operators ++ right.operators)

/-- The operators of several terms. -/
def operatorsIn : List Term → List (Family × List Char)
  | [] => []
  | t :: ts => t.operators ++ operatorsIn ts

end

mutual

/-- The operations of an expression by their families and names, the outermost one first. -/
def Expr.operations : Expr → List (Family × Option Key)
  | .literal .. | .reference .. => []
  | .operation _ family op left right => (family, op) :: (left.operations ++ right.operations)
  | .negation _ operand => operand.operations
  | .call _ _ args => operationsIn args

/-- The operations of several expressions. -/
def operationsIn : List Expr → List (Family × Option Key)
  | [] => []
  | e :: es => e.operations ++ operationsIn es

end

/-- The operation that an operator becomes. -/
def Symbols.operation (s : Symbols) (o : Family × List Char) : Family × Option Key :=
  (o.1, s.familyOperator? (String.ofList o.2) o.1)

/-- **The operations of an expression are the operators of its term**, each looked up in its
family. -/
theorem lowering_operations (s : Symbols) (line : SourceLine) :
    Lowering s line (fun t e => e.operations = t.operators.map s.operation)
      fun ts es => operationsIn es = (operatorsIn ts).map s.operation where
  number _ := rfl
  string := rfl
  null := rfl
  boolean := rfl
  reference := rfl
  call hargs := hargs
  negation hoperand := hoperand
  binary hleft hright := by
    rw [Expr.operations, Term.operators, hleft, hright, List.map_cons, List.map_append]
    rfl
  nil := rfl
  cons he hes := by rw [operationsIn, operatorsIn, he, hes, List.map_append]

section Uses

variable {uses : Family → List Char → Prop}

mutual

/-- A property of the operators that a term uses is one of each of them. -/
theorem Term.Uses.of_mem : ∀ {t : Term}, t.Uses uses → ∀ o ∈ t.operators, uses o.1 o.2
  | .number _, _, _, ho | .string _, _, _, ho | .null, _, _, ho | .boolean _, _, _, ho
  | .reference _, _, _, ho => absurd ho List.not_mem_nil
  | .call _ _, h, _, ho => AllUses.of_mem h _ ho
  | .negation operand, h, o, ho => Term.Uses.of_mem (t := operand) h o ho
  | .binary .., h, o, ho => by
    rcases List.mem_cons.1 ho with rfl | ho
    · exact h.1
    · rcases List.mem_append.1 ho with ho | ho
      · exact h.2.1.of_mem o ho
      · exact h.2.2.of_mem o ho

theorem AllUses.of_mem : ∀ {ts : List Term}, AllUses uses ts → ∀ o ∈ operatorsIn ts, uses o.1 o.2
  | [], _, _, ho => absurd ho List.not_mem_nil
  | _ :: _, h, o, ho => by
    rcases List.mem_append.1 ho with ho | ho
    · exact h.1.of_mem o ho
    · exact h.2.of_mem o ho

end

end Uses

/-! ### Symbols and names -/

namespace Symbols

/-- The key is one of the family, and its symbol, as a text, is this one. -/
def Denotes (s : Symbols) (f : Family) (symbol : List Char) (k : Key) : Prop :=
  ∃ v, (k, v) ∈ (s.family f).toList ∧ v.shown.toList = symbol

/-- The family has this very text for the symbol of an operation. -/
def Spells (s : Symbols) (f : Family) (symbol : List Char) : Prop :=
  ∃ k, (k, .text (String.ofList symbol)) ∈ (s.family f).toList

variable {s : Symbols} {f : Family} {symbol : List Char} {k : Key}

theorem denotes_of_mem_text (h : (k, .text (String.ofList symbol)) ∈ (s.family f).toList) :
    s.Denotes f symbol k :=
  ⟨_, h, String.toList_ofList⟩

/-- The name of a symbol is the key of an entry that has it for a text. -/
theorem mem_of_familyOperator? (h : s.familyOperator? (String.ofList symbol) f = some k) :
    (k, .text (String.ofList symbol)) ∈ (s.family f).toList := by
  obtain ⟨⟨k', v⟩, hfind, rfl⟩ := Option.map_eq_some_iff.1 h
  have hmem := List.mem_of_find?_eq_some hfind
  have hfits := List.find?_some hfind
  dsimp only at hfits
  split at hfits
  · rw [beq_iff_eq] at hfits
    rwa [← hfits]
  · cases hfits

/-- A symbol has no name exactly when the family has no such text. -/
theorem familyOperator?_eq_none_iff :
    s.familyOperator? (String.ofList symbol) f = none ↔ ¬ s.Spells f symbol := by
  constructor
  · rintro h ⟨k, hk⟩
    have hnot := List.find?_eq_none.1 (Option.map_eq_none_iff.1 h) _ hk
    simp at hnot
  · intro h
    rw [Option.eq_none_iff_forall_ne_some]
    exact fun k hk => h ⟨k, mem_of_familyOperator? hk⟩

/-- The symbol of an operation, as the grammar takes it, denotes the operation. -/
theorem exists_denotes_of_isSome {key : String} (h : ((s.family f).get? key).isSome = true) :
    ∃ k, s.Denotes f ((s.family f).symbolText key).toList k := by
  obtain ⟨v, hv⟩ := Option.isSome_iff_exists.1 h
  obtain ⟨k, hk⟩ := Table.exists_mem_of_get? hv
  refine ⟨k, v, hk, ?_⟩
  rw [Table.symbolText, hv]
  rfl

end Symbols

section Reading

variable {overrides : Table} {s : Symbols}

/-- Every symbol of the grammar denotes an operation of the family that it is read for. -/
theorem exists_denotes_of_mem_symbolsAt (hdistinct : overrides.Distinct)
    (hs : Symbols.ofOverrides overrides = .ok s) (words : String × String) (k : Nat) :
    ∀ symbol ∈ (s.grammar words).symbolsAt k, ∃ key, s.Denotes (familyAt k) symbol key := by
  -- the operations that the grammar asks for by name are those of the default table
  have harithmetic : ∀ key ∈ ["plus", "subtract", "multiply", "divide", "module"],
      ∃ k, s.Denotes .arithmetic (s.arithmetic.symbolText key).toList k := fun key hkey =>
    Symbols.exists_denotes_of_isSome (f := .arithmetic) <|
      Symbols.isSome_get?_family hdistinct hs .arithmetic <| by
        simp only [List.mem_cons, List.not_mem_nil, or_false] at hkey
        rcases hkey with rfl | rfl | rfl | rfl | rfl <;> decide
  have hlogical : ∀ key ∈ ["and", "or"],
      ∃ k, s.Denotes .logical (s.logical.symbolText key).toList k := fun key hkey =>
    Symbols.exists_denotes_of_isSome (f := .logical) <|
      Symbols.isSome_get?_family hdistinct hs .logical <| by
        simp only [List.mem_cons, List.not_mem_nil, or_false] at hkey
        rcases hkey with rfl | rfl <;> decide
  intro symbol hsymbol
  rcases k with _ | _ | _ | _ | _ | _ | _ | k
  · cases hsymbol
  · cases hsymbol
  · obtain ⟨key, hkey, rfl⟩ := List.mem_map.1 hsymbol
    exact harithmetic key (List.mem_cons_of_mem _ (List.mem_cons_of_mem _ hkey))
  · obtain ⟨key, hkey, rfl⟩ := List.mem_map.1 hsymbol
    exact harithmetic key (List.mem_append_left ["multiply", "divide", "module"] hkey)
  · obtain ⟨o, ho, rfl⟩ := List.mem_map.1 hsymbol
    obtain ⟨⟨key, v⟩, hmem, rfl⟩ := List.mem_map.1 ho
    exact ⟨key, v, hmem, rfl⟩
  · rw [List.mem_singleton.1 hsymbol]
    exact hlogical "and" List.mem_cons_self
  · rw [List.mem_singleton.1 hsymbol]
    exact hlogical "or" (List.mem_cons_of_mem _ List.mem_cons_self)
  · cases hsymbol

/-- **An operator that is read stands in the table of its family.** -/
theorem exists_denotes_of_read (hdistinct : overrides.Distinct)
    (hs : Symbols.ofOverrides overrides = .ok s) {words : String × String} {text : List Char}
    {t : Term} (hread : Term.read (s.grammar words) text = .ok t) :
    ∀ o ∈ t.operators, ∃ k, s.Denotes o.1 o.2 k := by
  have huses : t.Uses fun f symbol => ∃ k, s.Denotes f symbol k :=
    uses_of_read (exists_denotes_of_mem_symbolsAt hdistinct hs words) hread
  exact huses.of_mem

end Reading

/-! ### Meaning -/

namespace Symbols

/-- What is known of an operator and the operation that it has become. -/
structure Meant (s : Symbols) (o : Family × List Char) (op : Family × Option Key) : Prop where
  /-- It is an operation of the same family. -/
  family : op.1 = o.1
  /-- The operator is that of some operation of the family. -/
  denoted : ∃ k, s.Denotes o.1 o.2 k
  /-- Its name is that of an operation with this symbol. -/
  named : ∀ k, op.2 = some k → s.Denotes o.1 o.2 k
  /-- It has no name exactly when no operation of the family has this very text. -/
  missing : op.2 = none ↔ ¬ s.Spells o.1 o.2
  /-- It has a name when all symbols of the family are texts. -/
  texts : (∀ entry ∈ (s.family o.1).toList, isText entry.2 = true) → ∃ k, op.2 = some k
  /-- So has it always in arithmetic. -/
  arithmetic : o.1 = .arithmetic → ∃ k, op.2 = some k

/-- A text that denotes an operation is spelled out. -/
theorem Denotes.spells {s : Symbols} {f : Family} {symbol : List Char} {k : Key}
    (h : s.Denotes f symbol k) (htexts : ∀ entry ∈ (s.family f).toList, isText entry.2 = true) :
    s.Spells f symbol := by
  obtain ⟨v, hmem, rfl⟩ := h
  have htext : isText v = true := htexts _ hmem
  cases v with
  | text x => exact ⟨k, by rwa [Setting.shown, String.ofList_toList]⟩
  | _ => cases htext

/-- The symbols of arithmetic are texts. -/
theorem isText_of_mem_arithmetic {t : Table} {s : Symbols} (h : ofTable t = .ok s) :
    ∀ entry ∈ s.arithmetic.toList, isText entry.2 = true := by
  have hoperators := (checked_of_ofTable h).operators
  unfold checkOperators at hoperators
  split at hoperators
  · cases hoperators
  next htexts => simpa using htexts

/-- An operator of some operation of its family means what the look-up finds. -/
theorem meant_operation {t : Table} {s : Symbols} (hs : ofTable t = .ok s)
    {o : Family × List Char} (ho : ∃ k, s.Denotes o.1 o.2 k) : s.Meant o (s.operation o) := by
  obtain ⟨k, hk⟩ := ho
  have hmissing : (s.operation o).2 = none ↔ ¬ s.Spells o.1 o.2 := familyOperator?_eq_none_iff
  have hname (htexts : ∀ entry ∈ (s.family o.1).toList, isText entry.2 = true) :
      ∃ k, (s.operation o).2 = some k := by
    rw [← Option.ne_none_iff_exists', Ne, hmissing, not_not]
    exact hk.spells htexts
  refine ⟨rfl, ⟨k, hk⟩, fun k h => denotes_of_mem_text (mem_of_familyOperator? h), hmissing, hname,
    fun harithmetic => hname ?_⟩
  rw [harithmetic]
  exact isText_of_mem_arithmetic hs

end Symbols

/-- **What is read as an operator is an operation of the table.**  Whatever the overrides, the
operations of an expression are the operators that were read, in their order.  Each of them is that of
some operation of its family; if it has a name, the symbol under that name is the one that was read;
and it has one unless the table holds that symbol as something else than a text, which it never does
in arithmetic. -/
theorem operations_meant {overrides : Table} {s : Symbols} {words : String × String}
    {text : List Char} {line : SourceLine} {t : Term} {e : Expr} (hdistinct : overrides.Distinct)
    (hs : Symbols.ofOverrides overrides = .ok s) (hread : Term.read (s.grammar words) text = .ok t)
    (hlower : t.lower s words.1 line = .ok e) :
    List.Forall₂ s.Meant t.operators e.operations := by
  rw [(lowering_operations s line).of_lower hlower, List.forall₂_map_right_iff, List.forall₂_same]
  intro o ho
  exact Symbols.meant_operation hs (exists_denotes_of_read hdistinct hs hread o ho)

/-- Overrides that compare by a number and by a word. -/
def mixedOverrides : Table :=
  .ofList [(.text "comparison", .table (.ofList
    [(.text "equal", .integer 5), (.text "less", .text "lt")]))]

/-- The operator between `b` and `c` has its name in the table, the one between `a` and `b` has
none. -/
theorem operations_meant_mixed :
    ∃ s words t e, mixedOverrides.Distinct ∧ Symbols.ofOverrides mixedOverrides = .ok s ∧
      s.booleans = .ok words ∧ Term.read (s.grammar words) "a 5 b lt c".toList = .ok t ∧
      t.lower s words.1 ⟨1, "", none⟩ = .ok e ∧ List.Forall₂ s.Meant t.operators e.operations ∧
      e.operations = [(.comparison, some (.text "less")), (.comparison, none)] := by
  have hdistinct : mixedOverrides.Distinct := by decide
  refine ⟨_, ("true", "false"), _, _, hdistinct, rfl, rfl, rfl, rfl, ?_, rfl⟩
  exact @operations_meant _ _ ("true", "false") "a 5 b lt c".toList ⟨1, "", none⟩ _ _ hdistinct rfl
    rfl rfl

/-- A number that compares is read as an operator, and the operation has no name. -/
theorem number_compares_without_name :
    ∃ s words t e, Symbols.ofOverrides (.ofList [(.text "comparison", .table (.ofList
        [(.text "equal", .integer 5)]))]) = .ok s ∧
      s.booleans = .ok words ∧ Term.read (s.grammar words) "a 5 b".toList = .ok t ∧
      t.lower s words.1 ⟨1, "", none⟩ = .ok e ∧ t.operators = [(.comparison, ['5'])] ∧
      s.Denotes .comparison ['5'] (.text "equal") ∧ e.operations = [(.comparison, none)] := by
  refine ⟨_, _, _, _, rfl, rfl, rfl, rfl, rfl, ⟨.integer 5, ?_, rfl⟩, rfl⟩
  exact List.mem_cons_self

end LineScript
