import LineScript.Proofs.Discipline
import LineScript.Proofs.NodeLines
import LineScript.Proofs.TextReading
import LineScript.Proofs.Twins

/-!
# Trees that are well formed

The types of the tree say that operands, conditions, arguments and the values of assignments and
returns are expressions.  What they leave open is said here: operations are known by their names,
literals are plain values, conditionals have a branch, functions have distinct identifiers for
parameters, and returns stand inside functions.  Every script that is read is such a tree, when the
table gives a known name to every operator that it lets one write.

An operator is read off the text by its symbol, so it is one of the symbols of the grammar; a
statement that is taken keeps the finished statements and the open blocks well formed; and reading
hands over one statement after another.

## Main definitions

* `Expr.WellFormed`, `Statement.WellFormed`, `BodyWellFormed` — trees that are well formed.
* `Symbols.Names` — the names that a table gives to operators have a property.
* `Builder.WellFormed` — a builder whose statements and open blocks are well formed.

## Main results

* `wellFormed_of_readExpression` — an expression that is read is well formed.
* `Builder.wellFormed_of_apply` — a statement more keeps a builder well formed.
* `parse_wellFormed` — **a script that is read is well formed.**
-/

namespace LineScript

/-! ### Trees -/

section Trees

variable (known : Family → Option Key → Prop)

mutual

/-- An expression whose operations are known by their names and whose literals are plain values. -/
def Expr.WellFormed : Expr → Prop
  | .literal _ l => (Value.ofLiteral l).Plain
  | .reference _ _ => True
  | .operation _ family op left right => known family op ∧ left.WellFormed ∧ right.WellFormed
  | .negation _ operand => operand.WellFormed
  | .call _ _ args => AllWellFormed args

/-- Expressions that are well formed. -/
def AllWellFormed : List Expr → Prop
  | [] => True
  | e :: es => e.WellFormed ∧ AllWellFormed es

end

mutual

/-- A statement that is well formed where it stands, inside a function or not. -/
def Statement.WellFormed (inside : Bool) : Statement → Prop
  | .expression _ e | .assignment _ _ e => e.WellFormed known
  | .returning _ e => inside = true ∧ ∀ e' ∈ e, e'.WellFormed known
  | .importing _ _ => True
  | .conditional _ branches otherwise =>
    branches ≠ [] ∧ BranchesWellFormed inside branches ∧ OtherwiseWellFormed inside otherwise
  | .loop _ holds body => holds.WellFormed known ∧ BodyWellFormed inside body
  | .function _ _ params body =>
    (params.Nodup ∧ ∀ p ∈ params, isIdentifier p.toList = true) ∧ BodyWellFormed true body

/-- Statements that are well formed. -/
def BodyWellFormed (inside : Bool) : List Statement → Prop
  | [] => True
  | st :: rest => st.WellFormed inside ∧ BodyWellFormed inside rest

/-- Branches whose conditions and statements are well formed. -/
def BranchesWellFormed (inside : Bool) : List Branch → Prop
  | [] => True
  | .mk _ holds body :: rest =>
    (holds.WellFormed known ∧ BodyWellFormed inside body) ∧ BranchesWellFormed inside rest

/-- A last branch, if there is one, whose statements are well formed. -/
def OtherwiseWellFormed (inside : Bool) : Option (List Statement) → Prop
  | none => True
  | some body => BodyWellFormed inside body

end

end Trees

variable {known : Family → Option Key → Prop} {inside : Bool}

theorem allWellFormed_iff {es : List Expr} :
    AllWellFormed known es ↔ ∀ e ∈ es, e.WellFormed known := by
  induction es with
  | nil => simp [AllWellFormed]
  | cons e es ih => simp [AllWellFormed, ih]

variable {body : List Statement} {st : Statement} {text : List Char}

theorem bodyWellFormed_iff :
    BodyWellFormed known inside body ↔ ∀ st ∈ body, st.WellFormed known inside := by
  induction body with
  | nil => simp [BodyWellFormed]
  | cons st rest ih => simp [BodyWellFormed, ih]

theorem branchesWellFormed_iff {branches : List Branch} :
    BranchesWellFormed known inside branches ↔ ∀ b ∈ branches,
      b.condition.WellFormed known ∧ BodyWellFormed known inside b.body := by
  induction branches with
  | nil => simp [BranchesWellFormed]
  | cons b rest ih =>
    obtain ⟨line, holds, body⟩ := b
    simp [BranchesWellFormed, Branch.condition, ih]

@[simp] theorem bodyWellFormed_append {xs ys : List Statement} :
    BodyWellFormed known inside (xs ++ ys) ↔
      BodyWellFormed known inside xs ∧ BodyWellFormed known inside ys := by
  simp only [bodyWellFormed_iff, List.forall_mem_append]

@[simp] theorem branchesWellFormed_append {xs ys : List Branch} :
    BranchesWellFormed known inside (xs ++ ys) ↔
      BranchesWellFormed known inside xs ∧ BranchesWellFormed known inside ys := by
  simp only [branchesWellFormed_iff, List.forall_mem_append]

/-- The expressions of a statement that is well formed are. -/
theorem Statement.WellFormed.exprs (h : st.WellFormed known inside) :
    ∀ e ∈ st.exprs, e.WellFormed known := by
  cases st with
  | expression | assignment => exact List.forall_mem_singleton.2 h
  | returning line e => exact fun e' he' => h.2 e' (Option.mem_toList.1 he')
  | importing | function => exact List.forall_mem_nil _
  | conditional line branches otherwise =>
    intro e' he'
    obtain ⟨b, hb, rfl⟩ := List.mem_map.1 he'
    exact (branchesWellFormed_iff.1 h.2.1 b hb).1
  | loop line holds body => exact List.forall_mem_singleton.2 h.1

/-- What stands in a body that is well formed is well formed where it stands. -/
theorem wellFormed_of_occurs {deep : Bool} (hst : Occurs deep st body) :
    ∀ {inside : Bool}, BodyWellFormed known inside body →
      ∃ inside', st.WellFormed known inside' := by
  induction hst with
  | here hmem => exact fun h => ⟨_, bodyWellFormed_iff.1 h _ hmem⟩
  | loop hmem _ ih => exact fun h => ih (bodyWellFormed_iff.1 h _ hmem).2
  | branch hmem hb _ ih =>
    intro inside h
    exact ih (branchesWellFormed_iff.1 (bodyWellFormed_iff.1 h _ hmem).2.1 _ hb).2
  | otherwise hmem _ ih => exact fun h => ih (bodyWellFormed_iff.1 h _ hmem).2.2
  | function _ hmem _ ih => exact fun h => ih (bodyWellFormed_iff.1 h _ hmem).2

/-! ### The operators of a term -/

section Operators

variable (uses : Family → List Char → Prop)

mutual

/-- The operators of a term have a property, by their families and symbols. -/
def Term.Uses : Term → Prop
  | .number _ | .string _ | .null | .boolean _ | .reference _ => True
  | .call _ args => AllUses args
  | .negation operand => operand.Uses
  | .binary family symbol left right => uses family symbol ∧ left.Uses ∧ right.Uses

/-- So have those of several terms. -/
def AllUses : List Term → Prop
  | [] => True
  | t :: ts => t.Uses ∧ AllUses ts

end

/-- The operators of what a reader ends with have a property. -/
def ReadsUses (o : Option (Term × List Char)) : Prop := ∀ t rest, o = some (t, rest) → t.Uses uses

end Operators

section Readers

variable {uses : Family → List Char → Prop} {inner : Reader Term} {g : Grammar}

theorem ReadsUses.none : ReadsUses uses none := fun _ _ h => by cases h

theorem ReadsUses.some {t : Term} {rest : List Char} (h : t.Uses uses) :
    ReadsUses uses (some (t, rest)) := fun _ _ heq => by cases heq; exact h

theorem ReadsUses.orElse {o : Option (Term × List Char)} {o' : Unit → Option (Term × List Char)}
    (h : ReadsUses uses o) (h' : ReadsUses uses (o' ())) : ReadsUses uses (o.orElse o') := by
  cases o with
  | none => exact h'
  | some p => exact h

/-- A part that is made a term without operators. -/
theorem ReadsUses.map {α : Type} {o : Option (α × List Char)} {f : α → Term}
    (hf : ∀ a, (f a).Uses uses) : ReadsUses uses (o.map fun (a, rest) => (f a, rest)) := by
  cases o with
  | none => exact .none
  | some p => exact .some (hf p.1)

theorem readsUses_readNumber (s : List Char) : ReadsUses uses (readNumber s) := by
  unfold readNumber
  split
  · exact .none
  · split
    · split
      · exact .some trivial
      · exact .some trivial
    · exact .some trivial

theorem readsUses_readStringTerm (s : List Char) : ReadsUses uses (readStringTerm s) := by
  unfold readStringTerm
  split
  · exact .map fun _ => trivial
  · exact .map fun _ => trivial
  · exact .none

section Primary

variable (hinner : ∀ s, ReadsUses uses (inner s))

include hinner

theorem readsUses_readGroup (s : List Char) :
    ReadsUses uses (readGroup inner s) := by
  unfold readGroup
  split
  next s' =>
    split
    next t rest ht =>
      split
      · exact .some (hinner _ t rest ht)
      · exact .none
    next => exact .none
  next => exact .none

theorem allUses_readMoreArgs : ∀ (n : Nat) (s : List Char),
    AllUses uses (readMoreArgs inner n s).1
  | 0, _ => trivial
  | n + 1, s => by
    unfold readMoreArgs
    split
    next rest _ =>
      split
      next t rest' ht => exact ⟨hinner _ t rest' ht, allUses_readMoreArgs n rest'⟩
      next => trivial
    next => trivial

theorem allUses_readArgs (s : List Char) : AllUses uses (readArgs inner s).1 := by
  unfold readArgs
  split
  next t rest ht => exact ⟨hinner _ t rest ht, allUses_readMoreArgs hinner _ rest⟩
  next => trivial

theorem readsUses_readCall (mark s : List Char) :
    ReadsUses uses (readCall mark inner s) := by
  unfold readCall
  split
  next name rest _ =>
    split
    next rest' _ =>
      have hargs := allUses_readArgs hinner (skipBlanks rest')
      dsimp only
      split
      · exact .some hargs
      · exact .none
    next => exact .none
  next => exact .none

theorem readsUses_readPrimary (s : List Char) : ReadsUses uses (readPrimary g inner s) := by
  refine (readsUses_readGroup hinner s).orElse ?_
  refine (readsUses_readNumber s).orElse ?_
  refine (readsUses_readStringTerm s).orElse (.orElse ?_ (.orElse ?_ ?_))
  · cases Symbols.afterMark? g.null s with
    | none => exact .none
    | some rest => exact .some trivial
  · exact .map fun _ => trivial
  · exact (readsUses_readCall hinner g.globalMark s).orElse (.map fun _ => trivial)

theorem readsUses_readUnary : ∀ (n : Nat) (s : List Char),
    ReadsUses uses (readUnary g inner n s)
  | 0, s => readsUses_readPrimary hinner s
  | n + 1, s => by
    unfold readUnary
    split
    next rest _ =>
      split
      next t rest' ht =>
        have hoperand : t.Uses uses := readsUses_readUnary n _ t rest' ht
        exact .some hoperand
      next => exact readsUses_readPrimary hinner s
    next => exact readsUses_readPrimary hinner s

end Primary

section Levels

variable {family : Family} {symbols : List (List Char)} {operand : Reader Term}
  (hsymbols : ∀ symbol ∈ symbols, uses family symbol) (hoperand : ∀ s, ReadsUses uses (operand s))

include hsymbols hoperand

/-- An operator of a chain is one of the symbols of its level. -/
theorem uses_readChain : ∀ (n : Nat) (t : Term) (s : List Char), t.Uses uses →
    (readChain family symbols operand n t s).1.Uses uses
  | 0, _, _, ht => ht
  | n + 1, t, s, ht => by
    unfold readChain
    split
    next symbol hsymbol =>
      split
      next right rest hright =>
        refine uses_readChain n _ rest ⟨?_, ht, hoperand _ right rest hright⟩
        exact hsymbols symbol (mem_of_longestAt hsymbol).1
      next => exact ht
    next => exact ht

theorem readsUses_readLevel (s : List Char) :
    ReadsUses uses (readLevel family symbols operand s) := by
  unfold readLevel
  cases hfirst : operand s with
  | none => exact .none
  | some p => exact .some (uses_readChain hsymbols hoperand _ p.1 p.2 (hoperand s p.1 p.2 hfirst))

end Levels

variable (hsymbols : ∀ k, ∀ symbol ∈ g.symbolsAt k, uses (familyAt k) symbol)

include hsymbols

theorem readsUses_readAt {n : Nat} (hinner : ∀ s, ReadsUses uses (readTerm g n s)) : ∀ (k : Nat) (s : List Char),
      ReadsUses uses (readAt g n k s)
  | 0, s => readsUses_readPrimary hinner s
  | 1, s => readsUses_readUnary hinner s.length s
  | k + 2, s =>
    readsUses_readLevel (hsymbols (k + 2)) (readsUses_readAt hinner (k + 1)) s

/-- **The operators of a term are symbols of the grammar**, of the level they are read at. -/
theorem readsUses_readTerm (n : Nat) : ∀ s, ReadsUses uses (readTerm g n s) := by
  induction n with
  | zero => exact fun _ => .none
  | succ n ih =>
    intro s
    rw [readTerm_succ]
    exact readsUses_readAt hsymbols ih 6 s

theorem uses_of_read {t : Term} (h : Term.read g text = .ok t) : t.Uses uses := by
  unfold Term.read at h
  split at h
  · cases h
  next heq =>
    cases h
    exact readsUses_readTerm hsymbols _ text _ _ heq
  · cases h

end Readers

/-! ### Expressions that are read -/

theorem Literal.plain_of_ofNumber {l : Literal} (h : Literal.ofNumber text = .ok l) :
    (Value.ofLiteral l).Plain := by
  unfold Literal.ofNumber at h
  split at h
  · cases h
    exact Value.plain_decimal _
  · split at h
    · cases h
    · cases h
      unfold Literal.ofInt
      split
      next hrange => exact ⟨rfl, nofun, nofun, fun k hk => by cases hk; exact hrange⟩
      next => exact Value.plain_decimal _

/-- The names that a table gives to operators have a property: to those of expressions, and to
those in front of the mark of an assignment. -/
structure Symbols.Names (s : Symbols) (known : Family → Option Key → Prop) : Prop where
  expression : ∀ {words}, s.booleans = .ok words → ∀ k, ∀ symbol ∈ (s.grammar words).symbolsAt k,
    known (familyAt k) (s.familyOperator? (String.ofList symbol) (familyAt k))
  assignment : ∀ {origin source st name symbol value}, st ∈ statementsOf s origin source →
    st.item = .assignment name (some symbol) value → symbol ≠ [] →
      known .arithmetic (s.familyOperator? (String.ofList symbol) .arithmetic)

/-- Any table gives names of some kind. -/
theorem Symbols.names_trivial (s : Symbols) : s.Names fun _ _ => True where
  expression _ _ _ _ := trivial
  assignment _ _ _ := trivial

section Lowering

variable {s : Symbols} {line : SourceLine}

/-- A term whose operators have known names becomes a well-formed expression. -/
theorem lowering_wellFormed (s : Symbols) (line : SourceLine) :
    let uses := fun family symbol => known family (s.familyOperator? (String.ofList symbol) family)
    Lowering s line (fun t e => t.Uses uses → e.WellFormed known)
      fun ts es => AllUses uses ts → AllWellFormed known es where
  number h _ := Literal.plain_of_ofNumber h
  string _ := Value.plain_string _
  null _ := Value.plain_null
  boolean _ := Value.plain_boolean _
  reference _ := trivial
  call hargs ht := hargs ht
  negation hoperand ht := hoperand ht
  binary hleft hright ht := ⟨ht.1, hleft ht.2.1, hright ht.2.2⟩
  nil _ := trivial
  cons he hes hts := ⟨he hts.1, hes hts.2⟩

/-- **An expression that is read is well formed.** -/
theorem wellFormed_of_readExpression (hs : s.Names known) {e : Expr}
    (h : readExpression s line text = .ok e) : e.WellFormed known := by
  obtain ⟨words, t, hwords, ht, hlower⟩ := term_of_readExpression h
  have huses : t.Uses fun family symbol =>
      known family (s.familyOperator? (String.ofList symbol) family) :=
    uses_of_read (hs.expression hwords) ht
  exact (lowering_wellFormed s line).of_lower hlower huses

end Lowering

/-! ### Builders -/

/-- Whether one of the open blocks is a function. -/
def anyFunction (stack : List OpenBlock) : Bool := stack.any fun block => block.kind == .function

variable (known) in
/-- Open blocks that are well formed where they stand, closed where they are. -/
def StackWellFormed : List OpenBlock → Prop
  | [] => True
  | block :: rest => block.close.WellFormed known (anyFunction rest) ∧ StackWellFormed rest

variable (known) in
/-- A builder whose statements and open blocks are well formed. -/
def Builder.WellFormed (b : Builder) : Prop :=
  BodyWellFormed known false b.done ∧ StackWellFormed known b.stack

theorem OpenBlock.wellFormed_add {block : OpenBlock} (hblock : block.close.WellFormed known inside)
    (hst : st.WellFormed known (block.kind == .function || inside)) :
    (block.add st).close.WellFormed known inside := by
  rcases block with ⟨line, holds, body⟩ | ⟨line, name, params, body⟩ |
    ⟨line, branches, ⟨l, holds, body⟩ | body⟩
  iterate 2 exact ⟨hblock.1, bodyWellFormed_append.2 ⟨hblock.2, hst, trivial⟩⟩
  -- the branch that is filled is the last one of the closed conditional
  · obtain ⟨hbranches, ⟨hholds, hbody⟩, -⟩ := branchesWellFormed_append.1 hblock.2.1
    refine ⟨by simp, branchesWellFormed_append.2 ⟨hbranches, ⟨hholds, ?_⟩, trivial⟩, trivial⟩
    exact bodyWellFormed_append.2 ⟨hbody, hst, trivial⟩
  · exact ⟨hblock.1, hblock.2.1, bodyWellFormed_append.2 ⟨hblock.2.2, hst, trivial⟩⟩

namespace Builder

variable {s : Symbols} {line : SourceLine} {text : List Char} {b b' : Builder}

section Steps

variable (hb : b.WellFormed known)

include hb

theorem wellFormed_add (hst : st.WellFormed known b.insideFunction) :
    (b.add st).WellFormed known := by
  obtain ⟨done, stack⟩ := b
  cases stack with
  | nil => exact ⟨bodyWellFormed_append.2 ⟨hb.1, hst, trivial⟩, trivial⟩
  | cons block rest => exact ⟨hb.1, OpenBlock.wellFormed_add hb.2.1 hst, hb.2.2⟩

theorem wellFormed_push {block : OpenBlock}
    (hblock : block.close.WellFormed known b.insideFunction) : (b.push block).WellFormed known :=
  ⟨hb.1, hblock, hb.2⟩

theorem wellFormed_of_closeBlock {kind : BlockKind} (h : b.closeBlock kind text = .ok b') :
    b'.WellFormed known := by
  obtain ⟨done, stack⟩ := b
  cases stack with
  | nil => cases h
  | cons block rest =>
    simp only [closeBlock, expect] at h
    split at h
    · cases h
      -- the closed block is a statement of the block around it
      have hrest : Builder.WellFormed known ⟨done, rest⟩ := ⟨hb.1, hb.2.2⟩
      exact wellFormed_add hrest hb.2.1
    · cases h

theorem wellFormed_of_openOtherwise (h : b.openOtherwise text = .ok b') :
    b'.WellFormed known := by
  obtain ⟨done, stack⟩ := b
  cases stack with
  | nil => cases h
  | cons block rest =>
    simp only [openOtherwise, expect] at h
    rcases block with _ | _ | ⟨line, branches, ⟨l, holds, body⟩ | body⟩ <;> cases h
    obtain ⟨hdone, ⟨-, hbranches, -⟩, hrest⟩ := hb
    exact ⟨hdone, ⟨by simp, hbranches, trivial⟩, hrest⟩

theorem wellFormed_of_openBranch (hs : s.Names known) {condition : List Char}
    (h : b.openBranch s line text condition = .ok b') : b'.WellFormed known := by
  obtain ⟨⟨first, branches, rest⟩, he, h⟩ := exists_of_bind_eq_ok h
  obtain ⟨e, hread, h⟩ := exists_of_bind_eq_ok h
  cases h
  obtain ⟨done, l, holds, body, hstack, rfl⟩ := expectBranch_eq_ok (eq_ok_of_mapError he)
  obtain ⟨hdone, hopen⟩ := hb
  rw [hstack] at hopen
  obtain ⟨⟨-, hbranches, -⟩, hrest⟩ := hopen
  have hholds := wellFormed_of_readExpression hs hread
  refine ⟨hdone, ⟨by simp, ?_, trivial⟩, hrest⟩
  exact branchesWellFormed_append.2 ⟨hbranches, ⟨hholds, trivial⟩, trivial⟩

end Steps

variable (hs : s.Names known)

include hs

theorem wellFormed_of_assignment {name expression : List Char}
    {operator : Option (List Char)} (hknown : ∀ symbol, operator = some symbol → symbol ≠ [] →
      known .arithmetic (s.familyOperator? (String.ofList symbol) .arithmetic))
    (h : assignment s line name operator expression = .ok st) : st.WellFormed known inside := by
  obtain ⟨e, he, h⟩ := exists_of_bind_eq_ok h
  have hvalue := wellFormed_of_readExpression hs he
  rcases operator with _ | _ | ⟨c, symbol⟩ <;> cases h
  · exact hvalue
  · exact hvalue
  · exact ⟨hknown _ rfl (List.cons_ne_nil c symbol), trivial, hvalue⟩

theorem wellFormed_of_bareCall {name arguments : List Char}
    (h : bareCall s line text name arguments = .ok st) : st.WellFormed known inside := by
  obtain ⟨e, he, h⟩ := exists_of_bind_eq_ok h
  have hcall := wellFormed_of_readExpression hs he
  cases e <;> cases h
  exact hcall

/-- A return is taken inside a function only. -/
theorem wellFormed_of_returning {expression : List Char}
    (h : b.returning s line expression = .ok st) : st.WellFormed known b.insideFunction := by
  unfold returning at h
  split at h
  · cases h
  next houtside =>
    have hinside : b.insideFunction = true := by simpa using houtside
    split at h
    · cases h
      exact ⟨hinside, fun _ he => by cases he⟩
    · obtain ⟨e, he, h⟩ := exists_of_bind_eq_ok h
      cases h
      exact ⟨hinside, fun _ he' => by cases he'; exact wellFormed_of_readExpression hs he⟩

/-- **A statement more keeps a builder well formed.** -/
theorem wellFormed_of_apply {origin : Option String} {source : List Char} {st : SourceStatement}
    (hst : st ∈ statementsOf s origin source) (h : b.apply s st.line st.text st.item = .ok b')
    (hb : b.WellFormed known) : b'.WellFormed known := by
  -- where the statement comes from matters for the operator of an assignment only
  have hoperator : ∀ name operator value, st.item = .assignment name operator value →
      ∀ symbol, operator = some symbol → symbol ≠ [] →
        known .arithmetic (s.familyOperator? (String.ofList symbol) .arithmetic) := by
    rintro name _ value hitem symbol rfl hne
    exact hs.assignment hst hitem hne
  obtain ⟨line, text, item⟩ := st
  cases item with
  | comment | inclusion => cases h; exact hb
  | loopClose | functionClose | ifClose =>
    exact wellFormed_of_closeBlock hb (eq_ok_of_mapError h)
  | loopOpen condition =>
    obtain ⟨e, he, h⟩ := exists_of_bind_eq_ok h
    cases h
    exact wellFormed_push hb ⟨wellFormed_of_readExpression hs he, trivial⟩
  | functionOpen name params =>
    obtain ⟨ps, hps, h⟩ := exists_of_bind_eq_ok h
    cases h
    exact wellFormed_push hb ⟨of_readParams (eq_ok_of_mapError hps), trivial⟩
  | ifOpen condition =>
    obtain ⟨e, he, h⟩ := exists_of_bind_eq_ok h
    cases h
    have hholds := wellFormed_of_readExpression hs he
    exact wellFormed_push hb ⟨by simp, ⟨⟨hholds, trivial⟩, trivial⟩, trivial⟩
  | otherwise => exact wellFormed_of_openOtherwise hb (eq_ok_of_mapError h)
  | elseIf condition => exact wellFormed_of_openBranch hb hs h
  | returning expression =>
    obtain ⟨r, hr, h⟩ := exists_of_bind_eq_ok h
    cases h
    exact wellFormed_add hb (wellFormed_of_returning hs hr)
  | importing target =>
    cases h
    exact wellFormed_add hb trivial
  | assignment name operator expression =>
    obtain ⟨a, ha, h⟩ := exists_of_bind_eq_ok h
    cases h
    exact wellFormed_add hb (wellFormed_of_assignment hs (hoperator _ _ _ rfl) ha)
  | bareCall name arguments =>
    obtain ⟨c, hc, h⟩ := exists_of_bind_eq_ok h
    cases h
    exact wellFormed_add hb (wellFormed_of_bareCall hs hc)
  | expression =>
    obtain ⟨e, he, h⟩ := exists_of_bind_eq_ok h
    cases h
    exact wellFormed_add hb (wellFormed_of_readExpression hs he)

end Builder

/-! ### Scripts -/

theorem wellFormed_of_feedStream {s : Symbols} (hs : s.Names known) : ∀ {sts : List SourceStatement}
    {b b' : Builder}, (∀ st ∈ sts, ∃ origin source, st ∈ statementsOf s origin source) →
      feedStream s sts b = .ok b' → b.WellFormed known → b'.WellFormed known := by
  intro sts
  induction sts with
  | nil =>
    intro b b' _ h hb
    cases h
    exact hb
  | cons st rest ih =>
    intro b b' hsts h hb
    obtain ⟨b₁, hb₁, h⟩ := exists_of_bind_eq_ok h
    obtain ⟨origin, source, hst⟩ := hsts st List.mem_cons_self
    have hfirst := Builder.wellFormed_of_apply hs hst hb₁ hb
    exact ih (fun st' hst' => hsts st' (List.mem_cons_of_mem st hst')) h hfirst

/-- **A script that is read is well formed**, through all inclusions. -/
theorem parse_wellFormed {τ : Type} {s : Symbols} (hs : s.Names known) {load : Loader τ}
    {base origin : Option String} {source : String} {t t' : τ} {script : Script}
    (h : parse s load base origin source t = (.ok script, t')) :
    BodyWellFormed known false script.body := by
  -- the builder was fed one stream, each statement of which is one of some text
  obtain ⟨loads, d, out, hspliced, hstream⟩ := stream_of_parse h
  have hout : ∀ st ∈ out, ∃ origin source, st ∈ statementsOf s origin source := by
    intro st hst
    rcases hspliced.mem st hst with hmain | ⟨o, loaded, -, hin⟩
    · exact ⟨_, _, hmain⟩
    · exact ⟨_, _, hin⟩
  exact (wellFormed_of_feedStream hs hout hstream ⟨trivial, trivial⟩).1

end LineScript
