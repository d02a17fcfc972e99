import LineScript.Proofs.FiniteArithmetic
import LineScript.Proofs.Isolation
import LineScript.Proofs.NodeLines

/-!
# The numbers in a text

A number is written with digits and a point, so it is a finite one, however many digits it has; there
is no way to write an infinity.

## Main definitions

* `Expr.Finite` — an expression in which every number is finite.

## Main results

* `finite_of_readExpression` — an expression that is read has finite numbers in it.
* `IsRead.finite` — **the numbers in a script that is read are finite.**
-/

namespace LineScript

/-! ### Expressions -/

/-- A literal that is no number, or a finite one. -/
def Literal.Finite : Literal → Prop
  | .decimal d => d.IsFinite
  | _ => True

mutual

/-- An expression in which every number is finite. -/
def Expr.Finite : Expr → Prop
  | .literal _ l => l.Finite
  | .reference _ _ => True
  | .operation _ _ _ left right => left.Finite ∧ right.Finite
  | .negation _ operand => operand.Finite
  | .call _ _ args => AllFinite args

/-- Expressions in which every number is finite. -/
def AllFinite : List Expr → Prop
  | [] => True
  | e :: es => e.Finite ∧ AllFinite es

end

theorem allFinite_iff {es : List Expr} : AllFinite es ↔ ∀ e ∈ es, e.Finite := by
  induction es with
  | nil => exact ⟨fun _ e he => absurd he List.not_mem_nil, fun _ => trivial⟩
  | cons e es ih => rw [AllFinite, ih, List.forall_mem_cons]

theorem Literal.finite_of_ofNumber {text : List Char} {l : Literal} (h : ofNumber text = .ok l) :
    l.Finite := by
  unfold ofNumber at h
  split at h
  · cases h
    trivial
  · split at h
    · cases h
    · cases h
      unfold ofInt
      split <;> trivial

/-- The numbers in the expression of a term are finite. -/
theorem lowering_finite (s : Symbols) (line : SourceLine) :
    Lowering s line (fun _ e => e.Finite) fun _ es => AllFinite es where
  number h := Literal.finite_of_ofNumber h
  string := trivial
  null := trivial
  boolean := trivial
  reference := trivial
  call hargs := hargs
  negation hoperand := hoperand
  binary hleft hright := ⟨hleft, hright⟩
  nil := trivial
  cons he hes := ⟨he, hes⟩

/-- An expression that is read has finite numbers in it. -/
theorem finite_of_readExpression {s : Symbols} {line : SourceLine} {text : List Char} {e : Expr}
    (h : readExpression s line text = .ok e) : e.Finite := by
  obtain ⟨_, t, -, -, ht⟩ := term_of_readExpression h
  exact (lowering_finite s line).of_lower ht

theorem Expr.ReadOn.finite {s : Symbols} {line : SourceLine} {e : Expr} (h : e.ReadOn s line) :
    e.Finite := by
  cases h with
  | whole h => exact finite_of_readExpression h
  | combined h => exact ⟨trivial, finite_of_readExpression h⟩

/-! ### Statements -/

/-- **The numbers in a script that is read are finite**, through all inclusions. -/
theorem IsRead.finite {σ : Type} {env : Env σ} {st : Statement} (h : IsRead env st) :
    ∀ e ∈ st.exprs, e.Finite := by
  obtain ⟨base, origin, source, state, script, state', hparse, hst⟩ := h
  obtain ⟨loads, d, out, -, hmarks⟩ := read_of_parse hparse
  intro e he
  obtain ⟨m, hm, hin⟩ := Statement.exists_mark he
  obtain ⟨st', -, hread⟩ := hmarks m (marks_subset_of_occurs hst hm)
  exact ((SourceStatement.of_read hread).2 e hin).finite

end LineScript
