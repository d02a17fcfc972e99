import LineScript.Source
import LineScript.Proofs.Reading
import Mathlib.Data.List.Forall2

/-!
# Trees with something left out

A blur says what of a tree is not looked at: of the lines that its nodes carry, and of the texts
of its string literals.  The builder does not look at them either.  So two builders that are the
same up to a blur stay so when each is given a statement, if what the two statements say is the
same up to the blur; and what they end with, a script or a failure, agrees.

## Main definitions

* `Blur` — what is left of lines and of texts.
* `Expr.blur`, `Statement.blur`, `Script.blur`, `Builder.blur` — what is left of trees.
* `Term.Like` — terms that are the same up to their strings.
* `Parallel` — two results that agree: related values, or related failures.
* `Item.Like` — statements that say the same.
* `feedStream`, `streamScript` — a stream of statements, handed to a builder.

## Main results

* `Term.lower_like` — terms that are the same up to their strings are lowered alike.
* `Builder.apply_like` — **statements that say the same do the same to builders.**
* `streamScript_like` — streams of such statements are the same script, or fail alike.
-/

namespace LineScript

/-- What is left of lines, and of the texts of string literals. -/
structure Blur where
  /-- What is left of a line. -/
  line : SourceLine → SourceLine
  /-- What is left of the text of a string literal. -/
  string : String → String

/-! ### Trees -/

/-- What is left of a literal. -/
def Literal.blur (β : Blur) : Literal → Literal
  | .string s => .string (β.string s)
  | l => l

mutual

/-- What is left of an expression. -/
def Expr.blur (β : Blur) : Expr → Expr
  | .literal line l => .literal (β.line line) (l.blur β)
  | .reference line name => .reference (β.line line) name
  | .operation line family op left right =>
    .operation (β.line line) family op (left.blur β) (right.blur β)
  | .negation line operand => .negation (β.line line) (operand.blur β)
  | .call line name args => .call (β.line line) name (blurArgs β args)

/-- What is left of the arguments of a call. -/
def blurArgs (β : Blur) : List Expr → List Expr
  | [] => []
  | e :: es => e.blur β :: blurArgs β es

end

mutual

/-- What is left of a statement. -/
def Statement.blur (β : Blur) : Statement → Statement
  | .expression line e => .expression (β.line line) (e.blur β)
  | .assignment line name e => .assignment (β.line line) name (e.blur β)
  | .returning line e => .returning (β.line line) (e.map (Expr.blur β))
  | .importing line target => .importing (β.line line) target
  | .conditional line branches otherwise =>
    .conditional (β.line line) (blurBranches β branches) (blurOtherwise β otherwise)
  | .loop line holds body => .loop (β.line line) (holds.blur β) (blurBody β body)
  | .function line name params body => .function (β.line line) name params (blurBody β body)

/-- What is left of some statements. -/
def blurBody (β : Blur) : List Statement → List Statement
  | [] => []
  | st :: rest => st.blur β :: blurBody β rest

/-- What is left of the branches of a conditional. -/
def blurBranches (β : Blur) : List Branch → List Branch
  | [] => []
  | .mk line holds body :: rest =>
    .mk (β.line line) (holds.blur β) (blurBody β body) :: blurBranches β rest

/-- What is left of the last branch of a conditional. -/
def blurOtherwise (β : Blur) : Option (List Statement) → Option (List Statement)
  | none => none
  | some body => some (blurBody β body)

end

/-- What is left of a script. -/
def Script.blur (β : Blur) (script : Script) : Script :=
  ⟨β.line script.line, blurBody β script.body⟩

variable {β : Blur}

@[simp] theorem blurBody_append (xs ys : List Statement) :
    blurBody β (xs ++ ys) = blurBody β xs ++ blurBody β ys := by
  induction xs with
  | nil => rw [List.nil_append, blurBody, List.nil_append]
  | cons x xs ih => rw [List.cons_append, blurBody, blurBody, ih, List.cons_append]

@[simp] theorem blurBranches_append (xs ys : List Branch) :
    blurBranches β (xs ++ ys) = blurBranches β xs ++ blurBranches β ys := by
  induction xs with
  | nil => rw [List.nil_append, blurBranches, List.nil_append]
  | cons x xs ih =>
    obtain ⟨line, holds, body⟩ := x
    rw [List.cons_append, blurBranches, blurBranches, ih, List.cons_append]

/-! ### Builders -/

/-- What is left of the branch under way. -/
def Stage.blur (β : Blur) : Stage → Stage
  | .branch line holds body => .branch (β.line line) (holds.blur β) (blurBody β body)
  | .otherwise body => .otherwise (blurBody β body)

/-- What is left of an open block. -/
def OpenBlock.blur (β : Blur) : OpenBlock → OpenBlock
  | .loop line holds body => .loop (β.line line) (holds.blur β) (blurBody β body)
  | .function line name params body => .function (β.line line) name params (blurBody β body)
  | .conditional line branches stage =>
    .conditional (β.line line) (blurBranches β branches) (stage.blur β)

@[simp] theorem OpenBlock.kind_blur (b : OpenBlock) : (b.blur β).kind = b.kind := by
  cases b <;> rfl

@[simp] theorem OpenBlock.line_blur (b : OpenBlock) : (b.blur β).line = β.line b.line := by
  cases b <;> rfl

theorem OpenBlock.blur_add (st : Statement) (b : OpenBlock) :
    (b.add st).blur β = (b.blur β).add (st.blur β) := by
  rcases b with _ | _ | ⟨_, _, _ | _⟩ <;>
    simp [OpenBlock.add, OpenBlock.blur, Stage.blur, blurBody]

theorem OpenBlock.blur_close (b : OpenBlock) : b.close.blur β = (b.blur β).close := by
  rcases b with _ | _ | ⟨_, _, _ | _⟩ <;>
    simp [OpenBlock.close, OpenBlock.blur, Stage.blur, Statement.blur, blurBranches, blurOtherwise]

/-- The line and the branches of a conditional that a further branch can join. -/
def OpenBlock.branched : OpenBlock → Option (SourceLine × List Branch)
  | .conditional line branches (.branch l holds body) => some (line, branches ++ [.mk l holds body])
  | _ => none

theorem OpenBlock.branched_blur (b : OpenBlock) :
    (b.blur β).branched = b.branched.map fun p => (β.line p.1, blurBranches β p.2) := by
  rcases b with _ | _ | ⟨_, _, _ | _⟩ <;>
    simp [OpenBlock.blur, OpenBlock.branched, Stage.blur, blurBranches]

namespace Builder

/-- A last branch joins a conditional that a further branch can join. -/
theorem openOtherwise_eq (text : List Char) (b : Builder) :
    b.openOtherwise text = b.expect .conditional text >>= fun (block, rest) =>
      match block.branched with
      | some (line, branches) =>
        .ok { b with stack := .conditional line branches (.otherwise []) :: rest }
      | none => .error (.duplicateElse block.line.number) := by
  unfold openOtherwise
  congr 1
  funext ⟨block, rest⟩
  rcases block with _ | _ | ⟨_, _, _ | _⟩ <;> rfl

theorem expectBranch_eq (text : List Char) (b : Builder) :
    b.expectBranch text = b.expect .conditional text >>= fun (block, rest) =>
      match block.branched with
      | some (line, branches) => .ok (line, branches, rest)
      | none => .error (.elseIfAfterElse block.line.number) := by
  unfold expectBranch
  congr 1
  funext ⟨block, rest⟩
  rcases block with _ | _ | ⟨_, _, _ | _⟩ <;> rfl

/-- What is left of a builder. -/
def blur (β : Blur) (b : Builder) : Builder :=
  ⟨blurBody β b.done, b.stack.map (OpenBlock.blur β)⟩

theorem blur_add (st : Statement) (b : Builder) :
    (b.add st).blur β = (b.blur β).add (st.blur β) := by
  obtain ⟨done, _ | ⟨block, rest⟩⟩ := b
  · simp [Builder.add, blur, blurBody]
  · simp [Builder.add, blur, OpenBlock.blur_add]

theorem blur_push (block : OpenBlock) (b : Builder) :
    (b.push block).blur β = (b.blur β).push (block.blur β) := rfl

theorem insideFunction_blur (b : Builder) : (b.blur β).insideFunction = b.insideFunction := by
  simp [insideFunction, blur, List.any_map, Function.comp_def]

end Builder

/-! ### Results that agree -/

/-- Two results that agree: related values, or related failures. -/
inductive Parallel {ε ε' α α' : Type} (E : ε → ε' → Prop) (R : α → α' → Prop) :
    Except ε α → Except ε' α' → Prop where
  | ok {a : α} {a' : α'} : R a a' → Parallel E R (.ok a) (.ok a')
  | error {e : ε} {e' : ε'} : E e e' → Parallel E R (.error e) (.error e')

namespace Parallel

variable {ε ε' δ δ' α α' γ γ' : Type} {E : ε → ε' → Prop} {D : δ → δ' → Prop} {R : α → α' → Prop}
  {S : γ → γ' → Prop} {x : Except ε α} {y : Except ε' α'}

theorem bind (h : Parallel E R x y) {f : α → Except ε γ} {g : α' → Except ε' γ'}
    (hf : ∀ a a', R a a' → Parallel E S (f a) (g a')) : Parallel E S (x >>= f) (y >>= g) := by
  cases h with
  | ok ha => exact hf _ _ ha
  | error he => exact .error he

theorem map (h : Parallel E R x y) {f : α → γ} {g : α' → γ'}
    (hf : ∀ a a', R a a' → S (f a) (g a')) : Parallel E S (x.map f) (y.map g) := by
  cases h with
  | ok ha => exact .ok (hf _ _ ha)
  | error he => exact .error he

theorem mapError (h : Parallel E R x y) {f : ε → δ} {g : ε' → δ'}
    (hf : ∀ e e', E e e' → D (f e) (g e')) : Parallel D R (x.mapError f) (y.mapError g) := by
  cases h with
  | ok ha => exact .ok ha
  | error he => exact .error (hf _ _ he)

end Parallel

/-! ### Terms -/

mutual

/-- Terms that are the same up to their strings, of which the same is left. -/
inductive Term.Like (β : Blur) : Term → Term → Prop where
  | number {text : List Char} : Term.Like β (.number text) (.number text)
  | string {body body' : List Char} :
    β.string (String.ofList (unescape body)) = β.string (String.ofList (unescape body')) →
      Term.Like β (.string body) (.string body')
  | null : Term.Like β .null .null
  | boolean {word : List Char} : Term.Like β (.boolean word) (.boolean word)
  | reference {name : List Char} : Term.Like β (.reference name) (.reference name)
  | call {name : List Char} {args args' : List Term} :
    Term.AllLike β args args' → Term.Like β (.call name args) (.call name args')
  | negation {operand operand' : Term} :
    Term.Like β operand operand' → Term.Like β (.negation operand) (.negation operand')
  | binary {family : Family} {symbol : List Char} {left left' right right' : Term} :
    Term.Like β left left' → Term.Like β right right' →
      Term.Like β (.binary family symbol left right) (.binary family symbol left' right')

/-- Terms, one after the other, that are the same up to their strings. -/
inductive Term.AllLike (β : Blur) : List Term → List Term → Prop where
  | nil : Term.AllLike β [] []
  | cons {t t' : Term} {ts ts' : List Term} :
    Term.Like β t t' → Term.AllLike β ts ts' → Term.AllLike β (t :: ts) (t' :: ts')

end

mutual

/-- Every term is like itself. -/
theorem Term.Like.refl : ∀ t : Term, t.Like β t
  | .number _ => .number
  | .string _ => .string rfl
  | .null => .null
  | .boolean _ => .boolean
  | .reference _ => .reference
  | .call _ args => .call (Term.AllLike.refl args)
  | .negation operand => .negation (Term.Like.refl operand)
  | .binary _ _ left right => .binary (Term.Like.refl left) (Term.Like.refl right)

theorem Term.AllLike.refl : ∀ ts : List Term, Term.AllLike β ts ts
  | [] => .nil
  | t :: ts => .cons (Term.Like.refl t) (Term.AllLike.refl ts)

end

/-- The failures of reading that are no errors of the script: a table without words for the truth
values, and a number with more digits than can be converted. -/
def ReadFault (s : Symbols) (f : Fault) : Prop :=
  s.booleans = .error f ∨ ∃ n, digitLimit < n ∧ f = tooManyDigits n

theorem readFault_of_ofNumber {s : Symbols} {text : List Char} {f : Fault}
    (h : Literal.ofNumber text = .error f) : ReadFault s f := by
  unfold Literal.ofNumber at h
  split at h
  · cases h
  · split at h
    next hlimit =>
      cases h
      exact .inr ⟨_, hlimit, rfl⟩
    next => cases h

section Lowering

variable {s : Symbols} {yes : String} {line line' : SourceLine}

mutual

/-- **Terms that are the same up to their strings are lowered alike**, on lines of which the same
is left. -/
theorem Term.lower_like (hline : β.line line = β.line line') : ∀ {t t' : Term}, t.Like β t' →
    Parallel (fun f f' => f = f' ∧ ReadFault s f) (fun e e' => e.blur β = e'.blur β)
      (t.lower s yes line) (t'.lower s yes line')
  | .number text, _, .number => by
    rw [Term.lower, Term.lower]
    cases hn : Literal.ofNumber text with
    | error f => exact .error ⟨rfl, readFault_of_ofNumber hn⟩
    | ok l => exact .ok (by rw [Expr.blur, Expr.blur, hline])
  | .string body, _, .string h => by
    rw [Term.lower, Term.lower]
    exact .ok (by rw [Expr.blur, Expr.blur, Literal.blur, Literal.blur, hline, h])
  | .null, _, .null | .boolean _, _, .boolean | .reference _, _, .reference => by
    rw [Term.lower, Term.lower]
    exact .ok (by rw [Expr.blur, Expr.blur, hline])
  | .call name args, _, .call h => by
    rw [Term.lower, Term.lower]
    refine (Term.lowerAll_like hline h).map fun es es' hes => ?_
    rw [Expr.blur, Expr.blur, hline, hes]
  | .negation operand, _, .negation h => by
    rw [Term.lower, Term.lower]
    refine (Term.lower_like hline h).map fun e e' he => ?_
    rw [Expr.blur, Expr.blur, hline, he]
  | .binary family symbol left right, _, .binary hl hr => by
    rw [Term.lower, Term.lower]
    refine (Term.lower_like hline hl).bind fun l l' hl =>
      (Term.lower_like hline hr).bind fun r r' hr => .ok ?_
    rw [Expr.blur, Expr.blur, hline, hl, hr]

theorem Term.lowerAll_like (hline : β.line line = β.line line') :
    ∀ {ts ts' : List Term}, Term.AllLike β ts ts' →
      Parallel (fun f f' => f = f' ∧ ReadFault s f) (fun es es' => blurArgs β es = blurArgs β es')
        (lowerAll s yes line ts) (lowerAll s yes line' ts')
  | [], _, .nil => by
    rw [lowerAll, lowerAll]
    exact .ok rfl
  | t :: ts, _, .cons h hs => by
    rw [lowerAll, lowerAll]
    refine (Term.lower_like hline h).bind fun e e' he =>
      (Term.lowerAll_like hline hs).bind fun es es' hes => .ok ?_
    rw [blurArgs, blurArgs, he, hes]

end

end Lowering

/-! ### Statements that say the same -/

/-- Causes for which a script is not well formed. -/
def Malformed (c c' : Cause) : Prop := c.kind = .malformed ∧ c'.kind = .malformed

/-- Failures that are taken for the same: errors, on lines of which the same is left, that the
script is not well formed, or one failure that is no error of the script. -/
inductive Failure.Like (s : Symbols) (β : Blur) : Failure → Failure → Prop where
  | malformed {c c' : Cause} {line line' : SourceLine} : Malformed c c' →
      β.line line = β.line line' → Failure.Like s β (.atLine c line) (.atLine c' line')
  | fault {f : Fault} : ReadFault s f → Failure.Like s β (.fault f) (.fault f)

section Statements

variable (s : Symbols) (β : Blur) (line line' : SourceLine)

/-- Two texts say the same as expressions. -/
def SaysAlike (text text' : List Char) : Prop :=
  Parallel (Failure.Like s β) (fun e e' => e.blur β = e'.blur β) (readExpression s line text)
    (readExpression s line' text')

/-- Two statements, each given by its text and what it is, say the same. -/
inductive Item.Like : List Char → Item → List Char → Item → Prop where
  | comment {text text' : List Char} : Item.Like text .comment text' .comment
  | loopClose {text text' : List Char} : Item.Like text .loopClose text' .loopClose
  | functionClose {text text' : List Char} : Item.Like text .functionClose text' .functionClose
  | ifClose {text text' : List Char} : Item.Like text .ifClose text' .ifClose
  | otherwise {text text' : List Char} : Item.Like text .otherwise text' .otherwise
  | loopOpen {text text' holds holds' : List Char} : SaysAlike s β line line' holds holds' →
      Item.Like text (.loopOpen holds) text' (.loopOpen holds')
  | functionOpen {text text' name params params' : List Char} :
      Parallel Malformed Eq (readParams params) (readParams params') →
        Item.Like text (.functionOpen name params) text' (.functionOpen name params')
  | ifOpen {text text' holds holds' : List Char} : SaysAlike s β line line' holds holds' →
      Item.Like text (.ifOpen holds) text' (.ifOpen holds')
  | elseIf {text text' holds holds' : List Char} : SaysAlike s β line line' holds holds' →
      Item.Like text (.elseIf holds) text' (.elseIf holds')
  | returning {text text' e e' : List Char} : (strip e).isEmpty = (strip e').isEmpty →
      SaysAlike s β line line' e e' → Item.Like text (.returning e) text' (.returning e')
  | importing {text text' target : List Char} :
      Item.Like text (.importing target) text' (.importing target)
  | assignment {text text' name e e' : List Char} {operator : Option (List Char)} :
      SaysAlike s β line line' e e' →
        Item.Like text (.assignment name operator e) text' (.assignment name operator e')
  | bareCall {text text' name args args' : List Char} :
      SaysAlike s β line line' (name ++ '(' :: args ++ [')']) (name ++ '(' :: args' ++ [')']) →
        Item.Like text (.bareCall name args) text' (.bareCall name args')
  | expression {text text' : List Char} : SaysAlike s β line line' text text' →
      Item.Like text .expression text' .expression

end Statements

variable {s : Symbols} {line line' : SourceLine}

/-- Texts whose terms are the same up to strings say the same. -/
theorem saysAlike_of_read (hline : β.line line = β.line line')
    {text text' : List Char} (hempty : (strip text).isEmpty = (strip text').isEmpty)
    (hread : ∀ words, s.booleans = .ok words → Parallel (fun _ _ => True) (Term.Like β)
      (Term.read (s.grammar words) (strip text)) (Term.read (s.grammar words) (strip text'))) :
    SaysAlike s β line line' text text' := by
  unfold SaysAlike readExpression
  simp only [← hempty]
  split
  · exact .error (.malformed ⟨rfl, rfl⟩ hline)
  cases hw : s.booleans with
  | error f => exact .error (.fault (.inl hw))
  | ok words =>
    have hterms := hread words hw
    dsimp only
    generalize Term.read (s.grammar words) (strip text) = r at hterms ⊢
    generalize Term.read (s.grammar words) (strip text') = r' at hterms ⊢
    cases hterms with
    | ok ht =>
      refine (Term.lower_like hline ht).mapError ?_
      rintro f _ ⟨rfl, hf⟩
      exact .fault hf
    | error _ => exact .error (.malformed ⟨rfl, rfl⟩ hline)

/-- Parameters that cannot be read are an error of the script. -/
theorem malformed_of_readParams {text : List Char} {c : Cause} (h : readParams text = .error c) :
    c.kind = .malformed := by
  unfold readParams at h
  dsimp only at h
  split at h
  · cases h
    rfl
  · split at h <;> cases h
    rfl

namespace Builder

variable {b b' : Builder}

section

variable (h : b.blur β = b'.blur β)

include h

/-- What `expect` finds in builders of which the same is left. -/
theorem expect_like (kind : BlockKind) (text text' : List Char) :
    Parallel Malformed
      (fun p p' => p.1.blur β = p'.1.blur β ∧
        p.2.map (OpenBlock.blur β) = p'.2.map (OpenBlock.blur β))
      (b.expect kind text) (b'.expect kind text') := by
  obtain ⟨done, stack⟩ := b
  obtain ⟨done', stack'⟩ := b'
  obtain ⟨-, hstack⟩ := Builder.mk.inj h
  unfold expect
  cases stack with
  | nil =>
    cases stack' with
    | nil => exact .error ⟨rfl, rfl⟩
    | cons _ _ => cases hstack
  | cons block rest =>
    cases stack' with
    | nil => cases hstack
    | cons block' rest' =>
      obtain ⟨hblock, hrest⟩ := List.cons.inj hstack
      have hkind : block.kind = block'.kind := by
        rw [← OpenBlock.kind_blur (β := β) block, hblock, OpenBlock.kind_blur]
      dsimp only
      rw [hkind]
      split
      · exact .ok ⟨hblock, hrest⟩
      · exact .error ⟨rfl, rfl⟩

theorem done_like : blurBody β b.done = blurBody β b'.done :=
  congrArg Builder.done h

theorem stack_like : b.stack.map (OpenBlock.blur β) = b'.stack.map (OpenBlock.blur β) :=
  congrArg Builder.stack h

theorem closeBlock_like (kind : BlockKind) (text text' : List Char) :
    Parallel Malformed (fun c c' => c.blur β = c'.blur β) (b.closeBlock kind text)
      (b'.closeBlock kind text') := by
  refine (expect_like h kind text text').bind ?_
  rintro ⟨block, rest⟩ ⟨block', rest'⟩ ⟨hblock, hrest⟩
  refine .ok ?_
  rw [blur_add, blur_add, OpenBlock.blur_close, OpenBlock.blur_close, hblock]
  congr 1
  simp only [blur]
  rw [done_like h, hrest]

end

/-- Of two open blocks of which the same is left, both can be joined by a further branch or none
can. -/
theorem branched_like {block block' : OpenBlock} (h : block.blur β = block'.blur β) :
    block.branched = none ∧ block'.branched = none ∨
      ∃ p p', block.branched = some p ∧ block'.branched = some p' ∧ β.line p.1 = β.line p'.1 ∧
        blurBranches β p.2 = blurBranches β p'.2 := by
  have hmap : block.branched.map (fun p => (β.line p.1, blurBranches β p.2)) =
      block'.branched.map (fun p => (β.line p.1, blurBranches β p.2)) := by
    rw [← OpenBlock.branched_blur, h, OpenBlock.branched_blur]
  cases hb : block.branched with
  | none =>
    rw [hb, Option.map_none, eq_comm, Option.map_eq_none_iff] at hmap
    exact .inl ⟨rfl, hmap⟩
  | some p =>
    rw [hb, Option.map_some, eq_comm, Option.map_eq_some_iff] at hmap
    obtain ⟨p', hp', heq⟩ := hmap
    obtain ⟨hline, hbranches⟩ := Prod.mk.inj heq
    exact .inr ⟨p, p', rfl, hp', hline.symm, hbranches.symm⟩

theorem openOtherwise_like (h : b.blur β = b'.blur β) (text text' : List Char) :
    Parallel Malformed (fun c c' => c.blur β = c'.blur β) (b.openOtherwise text)
      (b'.openOtherwise text') := by
  rw [openOtherwise_eq, openOtherwise_eq]
  refine (expect_like h .conditional text text').bind ?_
  rintro ⟨block, rest⟩ ⟨block', rest'⟩ ⟨hblock, hrest⟩
  dsimp only at hblock hrest ⊢
  obtain ⟨hp, hp'⟩ | ⟨p, p', hp, hp', hline, hbranches⟩ := branched_like hblock <;> rw [hp, hp']
  · exact .error ⟨rfl, rfl⟩
  · refine .ok ?_
    simp only [blur, List.map_cons, OpenBlock.blur, Stage.blur]
    rw [done_like h, hrest, hline, hbranches]

theorem expectBranch_like (h : b.blur β = b'.blur β) (text text' : List Char) :
    Parallel Malformed
      (fun p p' => β.line p.1 = β.line p'.1 ∧ blurBranches β p.2.1 = blurBranches β p'.2.1 ∧
        p.2.2.map (OpenBlock.blur β) = p'.2.2.map (OpenBlock.blur β))
      (b.expectBranch text) (b'.expectBranch text') := by
  rw [expectBranch_eq, expectBranch_eq]
  refine (expect_like h .conditional text text').bind ?_
  rintro ⟨block, rest⟩ ⟨block', rest'⟩ ⟨hblock, hrest⟩
  dsimp only at hblock hrest ⊢
  obtain ⟨hp, hp'⟩ | ⟨p, p', hp, hp', hline, hbranches⟩ := branched_like hblock <;> rw [hp, hp']
  · exact .error ⟨rfl, rfl⟩
  · exact .ok ⟨hline, hbranches, hrest⟩

section Statements

variable (hline : β.line line = β.line line')

include hline

theorem openBranch_like (h : b.blur β = b'.blur β) {text text' holds holds' : List Char}
    (halike : SaysAlike s β line line' holds holds') :
    Parallel (Failure.Like s β) (fun c c' => c.blur β = c'.blur β) (b.openBranch s line text holds)
      (b'.openBranch s line' text' holds') := by
  have hexpect := (expectBranch_like h text text').mapError (D := Failure.Like s β)
    (f := (.atLine · line)) (g := (.atLine · line')) fun c c' hc => .malformed hc hline
  refine hexpect.bind ?_
  rintro ⟨first, branches, rest⟩ ⟨first', branches', rest'⟩ ⟨hfirst, hbranches, hrest⟩
  refine Parallel.bind halike fun e e' he => .ok ?_
  simp only [blur, List.map_cons, OpenBlock.blur, Stage.blur] at hfirst hbranches hrest ⊢
  rw [done_like h, hrest, hfirst, hbranches, hline, he]

theorem assignment_like {name e e' : List Char} (operator : Option (List Char))
    (halike : SaysAlike s β line line' e e') :
    Parallel (Failure.Like s β) (fun st st' => st.blur β = st'.blur β)
      (assignment s line name operator e) (assignment s line' name operator e') := by
  refine Parallel.bind halike fun e e' he => ?_
  rcases operator with _ | _ | _ <;> refine .ok ?_ <;>
    simp only [Statement.blur, Expr.blur, hline, he]

theorem bareCall_like {text text' name args args' : List Char}
    (halike : SaysAlike s β line line' (name ++ '(' :: args ++ [')'])
      (name ++ '(' :: args' ++ [')'])) :
    Parallel (Failure.Like s β) (fun st st' => st.blur β = st'.blur β)
      (bareCall s line text name args) (bareCall s line' text' name args') := by
  refine Parallel.bind halike fun e e' he => ?_
  cases e <;> cases e' <;> simp only [Expr.blur, reduceCtorEq] at he
  case call.call =>
    refine .ok ?_
    simp only [Statement.blur, Expr.blur, hline, he]
  all_goals exact .error (.malformed ⟨rfl, rfl⟩ hline)

theorem returning_like (h : b.blur β = b'.blur β) {e e' : List Char}
    (hempty : (strip e).isEmpty = (strip e').isEmpty) (halike : SaysAlike s β line line' e e') :
    Parallel (Failure.Like s β) (fun st st' => st.blur β = st'.blur β) (b.returning s line e)
      (b'.returning s line' e') := by
  have hinside : b.insideFunction = b'.insideFunction := by
    rw [← insideFunction_blur (β := β), h, insideFunction_blur]
  unfold returning
  rw [hinside, hempty]
  split
  · exact .error (.malformed ⟨rfl, rfl⟩ hline)
  · split
    · exact .ok (by simp only [Statement.blur, hline, Option.map_none])
    · refine Parallel.bind halike fun e e' he => .ok ?_
      simp only [Statement.blur, hline, he, Option.map_some]

/-- **Statements that say the same do the same to builders**, up to what is left out. -/
theorem apply_like (h : b.blur β = b'.blur β) {text text' : List Char} {item item' : Item}
    (hitem : Item.Like s β line line' text item text' item') :
    Parallel (Failure.Like s β) (fun c c' => c.blur β = c'.blur β) (b.apply s line text item)
      (b'.apply s line' text' item') := by
  have hcause : ∀ {x y : Except Cause Builder},
      Parallel Malformed (fun c c' => c.blur β = c'.blur β) x y →
        Parallel (Failure.Like s β) (fun c c' => c.blur β = c'.blur β) (x.mapError (.atLine · line))
          (y.mapError (.atLine · line')) :=
    fun hxy => hxy.mapError fun c c' hc => .malformed hc hline
  have hadd : ∀ {st st' : Statement}, st.blur β = st'.blur β →
      (b.add st).blur β = (b'.add st').blur β := by
    intro st st' hst
    rw [blur_add, blur_add, h, hst]
  have hpush : ∀ {block block' : OpenBlock}, block.blur β = block'.blur β →
      (b.push block).blur β = (b'.push block').blur β := by
    intro block block' hblock
    rw [blur_push, blur_push, h, hblock]
  cases hitem with
  | comment => exact .ok h
  | loopClose => exact hcause (closeBlock_like h .loop text text')
  | functionClose => exact hcause (closeBlock_like h .function text text')
  | ifClose => exact hcause (closeBlock_like h .conditional text text')
  | otherwise => exact hcause (openOtherwise_like h text text')
  | loopOpen halike =>
    refine Parallel.bind halike fun e e' he => .ok (hpush ?_)
    simp only [OpenBlock.blur, hline, he]
  | functionOpen hparams =>
    refine (hparams.mapError fun c c' hc => .malformed hc hline).bind ?_
    rintro ps _ rfl
    exact .ok (hpush (by simp only [OpenBlock.blur, hline]))
  | ifOpen halike =>
    refine Parallel.bind halike fun e e' he => .ok (hpush ?_)
    simp only [OpenBlock.blur, Stage.blur, hline, he]
  | elseIf halike => exact openBranch_like hline h halike
  | returning hempty halike =>
    exact (returning_like hline h hempty halike).bind fun st st' hst => .ok (hadd hst)
  | importing => exact .ok (hadd (by simp only [Statement.blur, hline]))
  | assignment halike =>
    exact (assignment_like hline _ halike).bind fun st st' hst => .ok (hadd hst)
  | bareCall halike => exact (bareCall_like hline halike).bind fun st st' hst => .ok (hadd hst)
  | expression halike =>
    refine Parallel.bind halike fun e e' he => .ok (hadd ?_)
    simp only [Statement.blur, hline, he]

end Statements

/-- Builders of which the same is left end alike. -/
theorem finish_like (h : b.blur β = b'.blur β) :
    Parallel (Failure.Like s β) (fun body body' => blurBody β body = blurBody β body') b.finish
      b'.finish := by
  have hstack := stack_like h
  unfold finish
  cases hs : b.stack with
  | nil =>
    rw [hs, List.map_nil, eq_comm, List.map_eq_nil_iff] at hstack
    rw [hstack]
    exact .ok (done_like h)
  | cons block rest =>
    rw [hs, List.map_cons, eq_comm, List.map_eq_cons_iff] at hstack
    obtain ⟨block', rest', hs', hblock, -⟩ := hstack
    rw [hs']
    refine .error (.malformed ⟨rfl, rfl⟩ ?_)
    rw [← OpenBlock.line_blur, ← OpenBlock.line_blur, hblock]

end Builder

/-! ### Streams of statements -/

/-- Hand a stream of statements to a builder, up to the first failure. -/
def feedStream (s : Symbols) : List SourceStatement → Builder → Except Failure Builder
  | [], b => .ok b
  | st :: rest, b => b.apply s st.line st.text st.item >>= feedStream s rest

/-- The script that a stream of statements is, known by a line. -/
def streamScript (s : Symbols) (line : SourceLine) (sts : List SourceStatement) :
    Except Failure Script :=
  (feedStream s sts {} >>= Builder.finish).map (⟨line, ·⟩)

theorem feedStream_append (xs ys : List SourceStatement) (b : Builder) :
    feedStream s (xs ++ ys) b = feedStream s xs b >>= feedStream s ys := by
  induction xs generalizing b with
  | nil => rfl
  | cons x xs ih =>
    rw [List.cons_append, feedStream, feedStream]
    cases b.apply s x.line x.text x.item with
    | error f => rfl
    | ok b₁ => exact ih b₁

/-- Two statements do the same to builders of which the same is left. -/
def SourceStatement.ActsLike (s : Symbols) (β : Blur) (st st' : SourceStatement) : Prop :=
  ∀ b b' : Builder, b.blur β = b'.blur β →
    Parallel (Failure.Like s β) (fun c c' => c.blur β = c'.blur β)
      (b.apply s st.line st.text st.item) (b'.apply s st'.line st'.text st'.item)

variable {sts sts' : List SourceStatement} (h : List.Forall₂ (SourceStatement.ActsLike s β) sts sts')

include h

/-- Streams of statements that do the same, one by one, do the same. -/
theorem feedStream_like :
    ∀ {b b' : Builder}, b.blur β = b'.blur β →
      Parallel (Failure.Like s β) (fun c c' => c.blur β = c'.blur β)
        (feedStream s sts b) (feedStream s sts' b') := by
  induction h with
  | nil => exact fun hb => .ok hb
  | cons hst _ ih =>
    intro b b' hb
    exact (hst b b' hb).bind fun c c' hc => ih hc

/-- Streams of statements that do the same, one by one, are the same script, or fail alike. -/
theorem streamScript_like (hline : β.line line = β.line line') :
    Parallel (Failure.Like s β) (fun script script' => script.blur β = script'.blur β)
      (streamScript s line sts) (streamScript s line' sts') := by
  refine ((feedStream_like h rfl).bind fun b b' hb => Builder.finish_like hb).map ?_
  intro body body' hbody
  simp only [Script.blur, hline, hbody]

end LineScript
