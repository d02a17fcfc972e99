import LineScript.Source
import LineScript.Proofs.BlockGrammar
import LineScript.Proofs.Expansion
import LineScript.Proofs.StandardSymbols

/-!
# Scripts and the grammar of blocks

A script is read back from its tree in order: the marks that open, divide and close its
blocks, with what they say, and its simple statements.  The builder keeps what is read back
from it equal to the statements it was given, and it follows the stack of the grammar of
blocks.  So a text is a script exactly when the grammar derives its statements, and its tree
is their derivation.

## Main definitions

* `Mark`, `SourceStatement.read` — what a statement says, read on its own.
* `Statement.marks`, `bodyMarks` — a tree read back.
* `Builder.nest`, `Builder.marks` — the stack of a builder, and the builder read back.
* `FailsAt` — where the statements of a text stop to make a script.

## Main results

* `Builder.apply_agrees` — one statement more.
* `parse_follows_grammar` — **the blocks of a text are those of the grammar.**
-/

namespace LineScript

/-! ### Marks -/

/-- What a statement says, once its expressions and parameters are read. -/
inductive Mark where
  /-- The beginning of a loop. -/
  | loopOpen (line : SourceLine) (condition : Expr)
  /-- The end of a loop. -/
  | loopClose
  /-- The beginning of a function. -/
  | functionOpen (line : SourceLine) (name : String) (params : List String)
  /-- The end of a function. -/
  | functionClose
  /-- The beginning of a conditional and of its first branch. -/
  | ifOpen (line first : SourceLine) (condition : Expr)
  /-- The beginning of a further branch. -/
  | elseIf (line : SourceLine) (condition : Expr)
  /-- The beginning of the last branch. -/
  | otherwise
  /-- The end of a conditional. -/
  | ifClose
  /-- A return. -/
  | returning (line : SourceLine) (expr : Option Expr)
  /-- Any other statement. -/
  | simple (st : Statement)

/-- What a mark is to the grammar of blocks. -/
def Mark.terminal : Mark → Terminal
  | .loopOpen .. => .loopOpen
  | .loopClose => .loopClose
  | .functionOpen .. => .functionOpen
  | .functionClose => .functionClose
  | .ifOpen .. => .ifOpen
  | .elseIf .. => .elseIf
  | .otherwise => .otherwise
  | .ifClose => .ifClose
  | .returning .. => .returning
  | .simple _ => .simple

/-- The mark that closes a block of a kind. -/
def Mark.closer : BlockKind → Mark
  | .loop => .loopClose
  | .function => .functionClose
  | .conditional => .ifClose

/-- What a statement says, read on its own: its condition, its expression, its call and its
parameters have to make sense, wherever the statement stands.  A comment says nothing, and
neither does an inclusion. -/
def SourceStatement.read (s : Symbols) (st : SourceStatement) : Except Failure (Option Mark) :=
  match st.item with
  | .comment | .inclusion _ => .ok none
  | .loopClose => .ok (some .loopClose)
  | .functionClose => .ok (some .functionClose)
  | .ifClose => .ok (some .ifClose)
  | .otherwise => .ok (some .otherwise)
  | .loopOpen condition => (readExpression s st.line condition).map fun e => some (.loopOpen st.line e)
  | .ifOpen condition =>
    (readExpression s st.line condition).map fun e => some (.ifOpen st.line st.line e)
  | .elseIf condition => (readExpression s st.line condition).map fun e => some (.elseIf st.line e)
  | .functionOpen name params =>
    ((readParams params).mapError (.atLine · st.line)).map fun ps =>
      some (.functionOpen st.line (String.ofList name) ps)
  | .returning expression =>
    if (strip expression).isEmpty then .ok (some (.returning st.line none))
    else (readExpression s st.line expression).map fun e => some (.returning st.line (some e))
  | .importing target => .ok (some (.simple (.importing st.line (String.ofList target))))
  | .assignment name operator expression =>
    (Builder.assignment s st.line name operator expression).map fun a => some (.simple a)
  | .bareCall name arguments =>
    (Builder.bareCall s st.line st.text name arguments).map fun c => some (.simple c)
  | .expression =>
    (readExpression s st.line st.text).map fun e => some (.simple (.expression st.line e))

variable {s : Symbols} {m : Mark}

variable {st : SourceStatement}

/-- What a statement says is what it is to the grammar. -/
theorem SourceStatement.terminal?_of_read {m : Option Mark}
    (h : st.read s = .ok m) : st.item.terminal? = m.map Mark.terminal := by
  obtain ⟨line, text, item⟩ := st
  cases item with
  | comment | inclusion | loopClose | functionClose | ifClose | otherwise | importing =>
    cases h
    rfl
  | returning expression =>
    simp only [read] at h
    split at h
    · cases h
      rfl
    · obtain ⟨e, -, rfl⟩ := exists_of_map_eq_ok h
      rfl
  | _ =>
    obtain ⟨e, -, rfl⟩ := exists_of_map_eq_ok h
    rfl

/-! ### Reading a tree back -/

mutual

/-- A statement read back, with all that stands inside it. -/
def Statement.marks : Statement → List Mark
  | .expression line e => [.simple (.expression line e)]
  | .assignment line name e => [.simple (.assignment line name e)]
  | .importing line target => [.simple (.importing line target)]
  | .returning line e => [.returning line e]
  | .loop line condition body => .loopOpen line condition :: bodyMarks body ++ [.loopClose]
  | .function line name params body =>
    .functionOpen line name params :: bodyMarks body ++ [.functionClose]
  | .conditional line branches otherwise =>
    headMarks line branches ++ otherwiseMarks otherwise ++ [.ifClose]

/-- Statements read back, one after the other. -/
def bodyMarks : List Statement → List Mark
  | [] => []
  | st :: rest => st.marks ++ bodyMarks rest

/-- The branches of a conditional read back; the first one opens the conditional. -/
def headMarks (line : SourceLine) : List Branch → List Mark
  | [] => []
  | .mk first condition body :: rest =>
    .ifOpen line first condition :: bodyMarks body ++ branchMarks rest

/-- Further branches of a conditional read back. -/
def branchMarks : List Branch → List Mark
  | [] => []
  | .mk line condition body :: rest => .elseIf line condition :: bodyMarks body ++ branchMarks rest

/-- The last branch of a conditional read back, if there is one. -/
def otherwiseMarks : Option (List Statement) → List Mark
  | none => []
  | some body => .otherwise :: bodyMarks body

end

theorem bodyMarks_append (xs ys : List Statement) :
    bodyMarks (xs ++ ys) = bodyMarks xs ++ bodyMarks ys := by
  induction xs with
  | nil => rfl
  | cons st xs ih => rw [List.cons_append, bodyMarks, bodyMarks, ih, List.append_assoc]

theorem branchMarks_append (xs ys : List Branch) :
    branchMarks (xs ++ ys) = branchMarks xs ++ branchMarks ys := by
  induction xs with
  | nil => rfl
  | cons b xs ih =>
    obtain ⟨line, condition, body⟩ := b
    simp only [List.cons_append, branchMarks, ih, List.append_assoc]

/-- Behind a first branch, branches are further ones. -/
theorem headMarks_append (line : SourceLine) {xs : List Branch} (hxs : xs ≠ []) (ys : List Branch) :
    headMarks line (xs ++ ys) = headMarks line xs ++ branchMarks ys := by
  cases xs with
  | nil => exact absurd rfl hxs
  | cons b xs =>
    obtain ⟨first, condition, body⟩ := b
    simp only [List.cons_append, headMarks, branchMarks_append, List.append_assoc]

/-- A statement more in the last of some branches is read back behind them. -/
theorem headMarks_append_body (line : SourceLine) (xs : List Branch) (l : SourceLine)
    (condition : Expr) (body more : List Statement) :
    headMarks line (xs ++ [.mk l condition (body ++ more)]) =
      headMarks line (xs ++ [.mk l condition body]) ++ bodyMarks more := by
  cases xs with
  | nil => simp [headMarks, branchMarks, bodyMarks_append]
  | cons b xs =>
    rw [headMarks_append line (List.cons_ne_nil b xs), headMarks_append line (List.cons_ne_nil b xs)]
    simp [branchMarks, bodyMarks_append]

/-! ### Reading a builder back -/

namespace OpenBlock

/-- What stands on the stack of the grammar for an open block. -/
def shape : OpenBlock → Shape
  | .loop .. => .loop
  | .function .. => .function
  | .conditional _ _ (.branch ..) => .branch
  | .conditional _ _ (.otherwise _) => .otherwise

/-- An open block read back. -/
def marks : OpenBlock → List Mark
  | .loop line condition body => .loopOpen line condition :: bodyMarks body
  | .function line name params body => .functionOpen line name params :: bodyMarks body
  | .conditional line branches (.branch l c body) => headMarks line (branches ++ [.mk l c body])
  | .conditional line branches (.otherwise body) =>
    headMarks line branches ++ .otherwise :: bodyMarks body

@[simp] theorem kind_shape (b : OpenBlock) : b.shape.kind = b.kind := by
  rcases b with _ | _ | ⟨_, _, _ | _⟩ <;> rfl

@[simp] theorem shape_add (st : Statement) (b : OpenBlock) : (b.add st).shape = b.shape := by
  rcases b with _ | _ | ⟨_, _, _ | _⟩ <;> rfl

theorem marks_add (st : Statement) (b : OpenBlock) : (b.add st).marks = b.marks ++ st.marks := by
  rcases b with _ | _ | ⟨_, _, _ | _⟩
  all_goals simp [add, marks, bodyMarks_append, headMarks_append_body, bodyMarks]

theorem marks_close (b : OpenBlock) : b.close.marks = b.marks ++ [Mark.closer b.kind] := by
  rcases b with _ | _ | ⟨_, _, _ | _⟩
  all_goals simp [close, marks, Statement.marks, otherwiseMarks, kind, Mark.closer]

end OpenBlock

variable {b : Builder}

namespace Builder

/-- The stack of the grammar for the open blocks of a builder, each labelled by its line. -/
def nest (b : Builder) : Nest SourceLine := b.stack.map fun block => (block.shape, block.line)

/-- Open blocks read back, the innermost last. -/
def stackMarks : List OpenBlock → List Mark
  | [] => []
  | block :: rest => stackMarks rest ++ block.marks

/-- A builder read back. -/
def marks (b : Builder) : List Mark := bodyMarks b.done ++ stackMarks b.stack

@[simp] theorem nest_add (st : Statement) (b : Builder) : (b.add st).nest = b.nest := by
  obtain ⟨done, _ | ⟨block, rest⟩⟩ := b <;> simp [add, nest]

theorem marks_add (st : Statement) (b : Builder) : (b.add st).marks = b.marks ++ st.marks := by
  obtain ⟨done, _ | ⟨block, rest⟩⟩ := b
  · simp [add, marks, stackMarks, bodyMarks_append, bodyMarks]
  · simp [add, marks, stackMarks, OpenBlock.marks_add]

theorem nest_push (block : OpenBlock) (b : Builder) :
    (b.push block).nest = (block.shape, block.line) :: b.nest := rfl

theorem marks_push (block : OpenBlock) (b : Builder) :
    (b.push block).marks = b.marks ++ block.marks := by
  simp [push, marks, stackMarks]

theorem insideFunction_eq (b : Builder) : b.insideFunction = Nest.inFunction false b.nest := by
  simp only [insideFunction, Nest.inFunction, nest, List.any_map, Bool.false_or]
  congr 1
  funext block
  rcases block with _ | _ | ⟨_, _, _ | _⟩ <;> rfl

/-! ### One statement more -/

/-- Whether a builder after some step is what the grammar wants: its stack, and what is read
back from it. -/
def Follows (b : Builder) (n : Nest SourceLine) (m : Mark) (b' : Builder) : Prop :=
  b'.nest = n ∧ b'.marks = b.marks ++ [m]

/-- What the grammar makes of one statement more, and what a builder does: both take it, and the
builder follows the stack, or both refuse it, and it is an error of the text. -/
def Agrees (b : Builder) (m : Mark) (line : SourceLine) (r : Except Failure Builder) :
    Option (Nest SourceLine) → Prop
  | some n => ∃ b', r = .ok b' ∧ b.Follows n m b'
  | none => ∃ c, r = .error (.atLine c line) ∧ c.kind = .malformed

variable {line : SourceLine}

theorem closeBlock_agrees (k : BlockKind) (line : SourceLine) (text : List Char) :
    b.Agrees (Mark.closer k) line ((b.closeBlock k text).mapError (.atLine · line))
      (b.nest.step false (Terminal.closer k, line)) := by
  rw [Nest.step_closer]
  obtain ⟨done, _ | ⟨block, rest⟩⟩ := b
  · exact ⟨_, rfl, rfl⟩
  · simp only [nest, List.map_cons, OpenBlock.kind_shape]
    by_cases hk : block.kind = k
    · rw [if_pos hk]
      refine ⟨add block.close ⟨done, rest⟩, ?_, nest_add _ _, ?_⟩
      · simp [closeBlock, expect, hk, bind, Except.bind, pure, Except.pure, Except.mapError]
      · rw [marks_add, OpenBlock.marks_close, hk]
        simp [marks, stackMarks]
    · rw [if_neg hk]
      refine ⟨.otherOpen (String.ofList text) block.kind block.line.number, ?_, rfl⟩
      simp [closeBlock, expect, hk, bind, Except.bind, Except.mapError]

theorem openOtherwise_agrees (line : SourceLine) (text : List Char) :
    b.Agrees .otherwise line ((b.openOtherwise text).mapError (.atLine · line))
      (b.nest.step false (.otherwise, line)) := by
  obtain ⟨done, _ | ⟨_ | _ | ⟨first, branches, ⟨l, c, body⟩ | body⟩, rest⟩⟩ := b
  case cons.conditional.branch =>
    refine ⟨_, rfl, rfl, ?_⟩
    simp [marks, stackMarks, OpenBlock.marks, bodyMarks]
  all_goals exact ⟨_, rfl, rfl⟩

theorem openBranch_agrees {condition : List Char} {e : Expr}
    (he : readExpression s line condition = .ok e) (text : List Char) :
    b.Agrees (.elseIf line e) line (b.openBranch s line text condition)
      (b.nest.step false (.elseIf, line)) := by
  obtain ⟨done, _ | ⟨_ | _ | ⟨first, branches, ⟨l, c, body⟩ | body⟩, rest⟩⟩ := b
  case cons.conditional.branch =>
    refine ⟨⟨done, .conditional first (branches ++ [.mk l c body]) (.branch line e []) :: rest⟩, ?_,
      rfl, ?_⟩
    · simp only [openBranch, expectBranch, expect]
      rw [he]
      rfl
    · have hne : branches ++ [Branch.mk l c body] ≠ [] := by simp
      simp only [marks, stackMarks, OpenBlock.marks]
      rw [headMarks_append first hne]
      simp [branchMarks, bodyMarks]
  all_goals exact ⟨_, rfl, rfl⟩

theorem marks_of_assignment {name expression : List Char} {operator : Option (List Char)}
    {st : Statement} (h : assignment s line name operator expression = .ok st) :
    st.marks = [.simple st] := by
  obtain ⟨e, -, h⟩ := exists_of_bind_eq_ok h
  split at h <;> cases h <;> rfl

theorem marks_of_bareCall {text name arguments : List Char} {st : Statement}
    (h : bareCall s line text name arguments = .ok st) : st.marks = [.simple st] := by
  obtain ⟨e, -, h⟩ := exists_of_bind_eq_ok h
  split at h <;> cases h
  rfl

/-- A return is refused where no function is open, and otherwise read as it stands. -/
theorem map_marks_returning (b : Builder) (s : Symbols) (line : SourceLine)
    (text expression : List Char) :
    (b.returning s line expression).map Statement.marks =
      if Nest.inFunction false b.nest then
        (SourceStatement.read s ⟨line, text, .returning expression⟩).map Option.toList
      else .error (.atLine .returnOutside line) := by
  rw [returning, insideFunction_eq, SourceStatement.read]
  cases Nest.inFunction false b.nest with
  | false => rfl
  | true =>
    simp only [Bool.not_true, Bool.false_eq_true, if_false, if_true]
    split
    · rfl
    · cases readExpression s line expression <;> rfl

/-- **A statement that the grammar accepts is taken:** the builder follows the stack, and what
is read back from it grows by what the statement says.  **One that the grammar refuses is an
error** of the text, on its line. -/
theorem apply_agrees (hread : st.read s = .ok (some m)) :
    b.Agrees m st.line (b.apply s st.line st.text st.item)
      (b.nest.step false (m.terminal, st.line)) := by
  obtain ⟨line, text, item⟩ := st
  cases item with
  | comment | inclusion => cases hread
  | loopClose => cases hread; exact closeBlock_agrees .loop line text
  | functionClose => cases hread; exact closeBlock_agrees .function line text
  | ifClose => cases hread; exact closeBlock_agrees .conditional line text
  | otherwise => cases hread; exact openOtherwise_agrees line text
  | elseIf condition =>
    obtain ⟨e, he, hm⟩ := exists_of_map_eq_ok hread
    cases hm
    exact openBranch_agrees he text
  | loopOpen condition | ifOpen condition =>
    obtain ⟨e, he, hm⟩ := exists_of_map_eq_ok hread
    cases hm
    exact ⟨_, by simp only [apply, he]; rfl, nest_push _ _, marks_push _ _⟩
  | functionOpen name params =>
    obtain ⟨ps, hps, hm⟩ := exists_of_map_eq_ok hread
    cases hm
    exact ⟨_, by simp only [apply, hps]; rfl, nest_push _ _, marks_push _ _⟩
  | returning expression =>
    -- the only statement that looks further than the innermost block
    rw [← Option.some.inj (SourceStatement.terminal?_of_read hread), Nest.step]
    have hreturn := map_marks_returning b s line text expression
    rw [hread] at hreturn
    split
    next hinside =>
      rw [if_pos hinside] at hreturn
      obtain ⟨r, hr, hmarks⟩ := exists_of_map_eq_ok hreturn
      exact ⟨_, by simp only [apply, hr]; rfl, nest_add _ _, by rw [marks_add, hmarks]; rfl⟩
    next houtside =>
      rw [if_neg houtside] at hreturn
      cases hr : b.returning s line expression <;> rw [hr] at hreturn <;> cases hreturn
      exact ⟨_, by simp only [apply, hr]; rfl, rfl⟩
  | importing target =>
    cases hread
    exact ⟨_, rfl, nest_add _ _, marks_add _ _⟩
  | assignment name operator expression =>
    obtain ⟨a, ha, hm⟩ := exists_of_map_eq_ok hread
    cases hm
    refine ⟨b.add a, by simp only [apply, ha]; rfl, nest_add _ _, ?_⟩
    rw [marks_add, marks_of_assignment ha]
  | bareCall name arguments =>
    obtain ⟨c, hc, hm⟩ := exists_of_map_eq_ok hread
    cases hm
    refine ⟨b.add c, by simp only [apply, hc]; rfl, nest_add _ _, ?_⟩
    rw [marks_add, marks_of_bareCall hc]
  | expression =>
    obtain ⟨e, he, hm⟩ := exists_of_map_eq_ok hread
    cases hm
    exact ⟨_, by simp only [apply, he]; rfl, nest_add _ _, marks_add _ _⟩

end Builder

/-! ### All statements of a text -/

/-- The statements of a text without the comments among them. -/
def codeOf (s : Symbols) (origin : Option String) (source : List Char) : List SourceStatement :=
  (statementsOf s origin source).filter fun st => st.item != .comment

/-- What statements are to the grammar of blocks. -/
def wordOf (sts : List SourceStatement) : List Terminal := sts.filterMap fun st => st.item.terminal?

/-- The same, each labelled by its line. -/
def labelledWord (sts : List SourceStatement) : List (Terminal × SourceLine) :=
  sts.filterMap fun st => st.item.terminal?.map fun t => (t, st.line)

theorem map_fst_labelledWord (sts : List SourceStatement) :
    (labelledWord sts).map Prod.fst = wordOf sts := by
  simp [labelledWord, wordOf, List.map_filterMap, Function.comp_def]

theorem labelledWord_cons (hread : st.read s = .ok (some m))
    (sts : List SourceStatement) :
    labelledWord (st :: sts) = (m.terminal, st.line) :: labelledWord sts := by
  have := SourceStatement.terminal?_of_read hread
  simp [labelledWord, this]

/-- Where the statements of a text stop to make a script: at the first statement behind which
nothing can make a script of them, or, when all of them can be completed, at the beginning of
the innermost block that is left open, which its closing mark alone would complete. -/
inductive FailsAt (sts : List SourceStatement) : Failure → Prop
  /-- A statement that cannot stand where it does. -/
  | refused {pre post : List SourceStatement} {st : SourceStatement} {cause : Cause} :
    sts = pre ++ st :: post → Viable (wordOf pre) → ¬ Viable (wordOf (pre ++ [st])) →
      cause.kind = .malformed → FailsAt sts (.atLine cause st.line)
  /-- A block without an end. -/
  | unclosed {pre post : List SourceStatement} {opener : SourceStatement} {kind : BlockKind}
      {inside : Bool} :
    Viable (wordOf sts) → sts = pre ++ opener :: post →
      opener.item.terminal? = some (Terminal.opener kind) →
      Derives inside .item (wordOf (opener :: post) ++ [Terminal.closer kind]) →
      FailsAt sts (.atLine (.unclosed kind) opener.line)

section Feeding

variable {τ : Type} {s : Symbols} (load : Loader τ) (inner : Feeder τ) (p : Place)

/-- Comments make no difference. -/
theorem feedAll_filter : ∀ (sts : List SourceStatement) (b : Builder) (t : τ),
    feedAll s load inner p (sts.filter fun st => st.item != .comment) b t =
      feedAll s load inner p sts b t := by
  intro sts
  induction sts with
  | nil => intro b t; rfl
  | cons st sts ih =>
    intro b t
    obtain ⟨line, text, item⟩ := st
    by_cases hc : item = .comment
    · subst hc
      exact ih b t
    · rw [List.filter_cons_of_pos (by simpa using hc), feedAll, feedAll]
      split
      · next b' t' _ => exact ih b' t'
      · rfl

/-- What is not an inclusion is handed to the builder as it is. -/
theorem feedItem_of_read (hread : st.read s = .ok (some m)) (b : Builder)
    (t : τ) : feedItem s load inner p st b t = (b.apply s st.line st.text st.item, t) := by
  obtain ⟨line, text, item⟩ := st
  cases item with
  | inclusion => cases hread
  | _ => rfl

/-- **Statements that the grammar accepts are all taken,** and read back in their order. -/
theorem feedAll_of_run : ∀ {sts : List SourceStatement} (b : Builder) {n : Nest SourceLine} (t : τ),
    (∀ st ∈ sts, ∃ m, st.read s = .ok (some m)) →
      b.nest.run false (labelledWord sts) = some n →
      ∃ b' ms, feedAll s load inner p sts b t = (.ok b', t) ∧ b'.nest = n ∧
        b'.marks = b.marks ++ ms ∧ sts.map (·.read s) = ms.map fun m => .ok (some m) := by
  intro sts
  induction sts with
  | nil =>
    intro b n t _ hrun
    cases hrun
    exact ⟨b, [], rfl, rfl, by simp, rfl⟩
  | cons st sts ih =>
    intro b n t hread hrun
    obtain ⟨m, hm⟩ := hread st List.mem_cons_self
    rw [labelledWord_cons hm, Nest.run_cons] at hrun
    have hagrees := Builder.apply_agrees (b := b) hm
    cases hstep : b.nest.step false (m.terminal, st.line) with
    | none => rw [hstep] at hrun; cases hrun
    | some n₁ =>
      rw [hstep] at hrun hagrees
      obtain ⟨b₁, hb₁, rfl, hmarks⟩ := hagrees
      obtain ⟨b', ms, hfeed, hnest, hmarks', hms⟩ :=
        ih b₁ t (fun st' h => hread st' (List.mem_cons_of_mem _ h)) hrun
      refine ⟨b', m :: ms, ?_, hnest, ?_, ?_⟩
      · rw [feedAll, feedItem_of_read load inner p hm, hb₁]
        exact hfeed
      · rw [hmarks', hmarks]
        simp
      · simp [hm, hms]

/-- **The first statement that the grammar refuses is where the builder fails.** -/
theorem feedAll_of_refused : ∀ {sts : List SourceStatement} (b : Builder) (t : τ),
    (∀ st ∈ sts, ∃ m, st.read s = .ok (some m)) → b.nest.run false (labelledWord sts) = none →
      ∃ pre st post c, sts = pre ++ st :: post ∧
        (∃ n, b.nest.run false (labelledWord pre) = some n) ∧
        b.nest.run false (labelledWord (pre ++ [st])) = none ∧ c.kind = .malformed ∧
        feedAll s load inner p sts b t = (.error (.atLine c st.line), t) := by
  intro sts
  induction sts with
  | nil => intro b t _ hrun; cases hrun
  | cons st sts ih =>
    intro b t hread hrun
    obtain ⟨m, hm⟩ := hread st List.mem_cons_self
    rw [labelledWord_cons hm, Nest.run_cons] at hrun
    have hagrees := Builder.apply_agrees (b := b) hm
    cases hstep : b.nest.step false (m.terminal, st.line) with
    | none =>
      rw [hstep] at hagrees
      obtain ⟨c, hc, hkind⟩ := hagrees
      refine ⟨[], st, sts, c, rfl, ⟨_, rfl⟩, ?_, hkind, ?_⟩
      · rw [List.nil_append, labelledWord_cons hm, Nest.run_cons, hstep]
        rfl
      · rw [feedAll, feedItem_of_read load inner p hm, hc]
    | some n₁ =>
      rw [hstep] at hrun hagrees
      obtain ⟨b₁, hb₁, rfl, -⟩ := hagrees
      obtain ⟨pre, st', post, c, rfl, ⟨n, hn⟩, hnone, hkind, hfeed⟩ :=
        ih b₁ t (fun st' h => hread st' (List.mem_cons_of_mem _ h)) hrun
      refine ⟨st :: pre, st', post, c, rfl, ⟨n, ?_⟩, ?_, hkind, ?_⟩
      · rw [labelledWord_cons hm, Nest.run_cons, hstep]
        exact hn
      · rw [List.cons_append, labelledWord_cons hm, Nest.run_cons, hstep]
        exact hnone
      · rw [feedAll, feedItem_of_read load inner p hm, hb₁]
        exact hfeed

end Feeding

/-! ### Scripts -/

/-- The statements of a text are no blocks on one line: each is what its own text is. -/
theorem classify_of_mem_statementsOf {table : Table} (hs : Symbols.ofTable table = .ok s)
    {origin : Option String} {source : List Char} (h : st ∈ statementsOf s origin source) :
    classify s st.text = .item st.item := by
  obtain ⟨line, -, h⟩ := List.mem_flatMap.mp h
  unfold lineStatements at h
  simp only at h
  split at h
  · cases h
  · obtain ⟨part, -, h⟩ := List.mem_flatMap.mp h
    obtain ⟨pair, hpair, rfl⟩ := List.mem_map.mp h
    exact classify_of_mem_expand hs hpair

/-- A statement of the code of a text says something, if it can be read and is no inclusion. -/
theorem exists_mark_of_mem_codeOf {origin : Option String} {source : List Char}
    (h : st ∈ codeOf s origin source)
    (hinc : ∀ locator, st.item ≠ .inclusion locator) (hread : ∃ m, st.read s = .ok m) :
    ∃ m, st.read s = .ok (some m) := by
  obtain ⟨m | m, hm⟩ := hread
  · exfalso
    have hcomment := (List.mem_filter.mp h).2
    have hterminal := SourceStatement.terminal?_of_read hm
    cases hitem : st.item with
    | comment => simp [hitem] at hcomment
    | inclusion locator => exact hinc locator hitem
    | _ => rw [hitem] at hterminal; cases hterminal
  · exact ⟨m, hm⟩

/-- A block that is left open at the end fails at its beginning. -/
theorem failsAt_of_open {sts : List SourceStatement} {block : OpenBlock}
    {rest : List OpenBlock} (hstack : b.stack = block :: rest)
    (hrun : Nest.run false [] (labelledWord sts) = some b.nest) :
    FailsAt sts (.atLine (.unclosed block.kind) block.line) := by
  have hviable : Viable (wordOf sts) := by
    rw [← map_fst_labelledWord, viable_iff_run]
    exact ⟨_, hrun⟩
  have hexplains := explains_of_run hrun
  simp only [Builder.nest, hstack, List.map_cons] at hexplains
  obtain ⟨xs, ys, hsplit, -, hpartial⟩ := hexplains
  -- the label of the innermost block leads back to the statement it comes from
  obtain ⟨pre, tail, rfl, -, htail⟩ := List.filterMap_eq_append_iff.mp hsplit
  obtain ⟨skipped, opener, post, rfl, -, hopener, rfl⟩ := List.filterMap_eq_cons_iff.mp htail
  obtain ⟨terminal, hterminal, hlabel⟩ := Option.map_eq_some_iff.mp hopener
  simp only [Prod.mk.injEq, OpenBlock.kind_shape] at hlabel
  obtain ⟨rfl, hline⟩ := hlabel
  rw [← hline]
  have hitem := hpartial.item
  have hword : wordOf (opener :: post) = Terminal.opener block.kind :: wordOf post := by
    simp [wordOf, hterminal]
  rw [OpenBlock.kind_shape, ← labelledWord, map_fst_labelledWord, ← hword] at hitem
  exact .unclosed hviable (List.append_assoc pre skipped (opener :: post)).symm hterminal hitem

/-- A text without inclusions is parsed by handing its code to an empty builder. -/
theorem parse_eq {τ : Type} (s : Symbols) (load : Loader τ) (base origin : Option String)
    (source : String) (t : τ) :
    ∃ (inner : Feeder τ) (p : Place), parse s load base origin source t =
      match feedAll s load inner p (codeOf s origin source.toList) {} t with
      | (.ok b, t) => (b.finish.map fun body => ⟨firstLine origin source.toList, body⟩, t)
      | (.error f, t) => (.error f, t) := by
  refine ⟨feed s load (inclusionLimit - 1), .outermost base origin, ?_⟩
  rw [codeOf, feedAll_filter]
  rfl

/-- **The blocks of a text are those of the grammar.**  For a text without inclusions, whose
conditions, expressions, calls and parameters all make sense on their own: its statements are
no blocks on one line; the text is a script if and only if the grammar derives them; the tree
of the script, read back, says what they say, one after the other; and when the text is no
script, the error stands where they stop to make one. -/
theorem parse_follows_grammar {τ : Type} {table : Table} {s : Symbols}
    (hs : Symbols.ofTable table = .ok s) (load : Loader τ) (base origin : Option String)
    (source : String) (t : τ)
    (hinc : ∀ st ∈ codeOf s origin source.toList, ∀ locator, st.item ≠ .inclusion locator)
    (hread : ∀ st ∈ codeOf s origin source.toList, ∃ m, st.read s = .ok m) :
    (∀ st ∈ codeOf s origin source.toList, classify s st.text = .item st.item) ∧
    ((∃ script, (parse s load base origin source t).1 = .ok script) ↔
      Derives false .body (wordOf (codeOf s origin source.toList))) ∧
    (∀ script, (parse s load base origin source t).1 = .ok script →
      (codeOf s origin source.toList).map (·.read s) =
        (bodyMarks script.body).map fun m => .ok (some m)) ∧
    (∀ f, (parse s load base origin source t).1 = .error f →
      FailsAt (codeOf s origin source.toList) f) := by
  refine ⟨fun st hst => classify_of_mem_statementsOf hs (List.mem_filter.mp hst).1, ?_⟩
  obtain ⟨inner, p, hparse⟩ := parse_eq s load base origin source t
  have hmark : ∀ st ∈ codeOf s origin source.toList, ∃ m, st.read s = .ok (some m) :=
    fun st hst => exists_mark_of_mem_codeOf hst (hinc st hst) (hread st hst)
  rw [hparse, ← map_fst_labelledWord, derives_iff_run]
  clear hparse hinc hread
  generalize codeOf s origin source.toList = sts at hmark
  cases hrun : Nest.run false [] (labelledWord sts) with
  | none =>
    -- the stack refuses a statement, and so does the builder
    obtain ⟨pre, st, post, c, hsts, hpre, hnone, hkind, hfeed⟩ :=
      feedAll_of_refused load inner p {} t hmark hrun
    rw [hfeed]
    refine ⟨by simp, by simp, ?_⟩
    intro f hf
    cases hf
    refine .refused hsts ?_ ?_ hkind
    · rw [← map_fst_labelledWord, viable_iff_run]
      exact hpre
    · rw [← map_fst_labelledWord, viable_iff_run]
      rintro ⟨n, hn⟩
      exact Option.some_ne_none n (hn.symm.trans hnone)
  | some n =>
    obtain ⟨b, ms, hfeed, rfl, hmarks, hms⟩ :=
      feedAll_of_run load inner p {} t hmark hrun
    rw [hfeed]
    cases hstack : b.stack with
    | nil =>
      have hnest : b.nest = [] := by simp [Builder.nest, hstack]
      have hdone : bodyMarks b.done = ms := by
        simpa [Builder.marks, hstack, Builder.stackMarks, bodyMarks] using hmarks
      simp [Builder.finish, hstack, hnest, Except.map, hdone, hms]
    | cons block rest =>
      have hnest : b.nest ≠ [] := by simp [Builder.nest, hstack]
      refine ⟨by simp [Builder.finish, hstack, hnest, Except.map], ?_, ?_⟩
      · simp [Builder.finish, hstack, Except.map]
      · intro f hf
        simp only [Builder.finish, hstack, Except.map] at hf
        cases hf
        exact failsAt_of_open hstack hrun

/-- A function that holds a loop on one line and a return behind it. -/
def loopInFunction : String := "f n #\n n @ $ m @\n~ n\n#"

/-- The function is a script, and its tree says what its six statements say. -/
theorem parse_loopInFunction :
    ∃ script, (parse standardSymbols (.ofTexts []) none none loopInFunction ()).1 = .ok script ∧
      (codeOf standardSymbols none loopInFunction.toList).map (·.read standardSymbols) =
        (bodyMarks script.body).map fun m => .ok (some m) := by
  have hread : (codeOf standardSymbols none loopInFunction.toList).all
      (fun st => (st.read standardSymbols).toOption.join.isSome) = true := by decide +kernel
  have hword : wordOf (codeOf standardSymbols none loopInFunction.toList) =
      (unlabelled [.functionOpen, .loopOpen, .simple, .loopClose, .returning,
        .functionClose]).map Prod.fst := by decide +kernel
  rw [List.all_eq_true] at hread
  obtain ⟨-, hiff, hback, -⟩ :=
    parse_follows_grammar ofTable_standard (.ofTexts []) none none loopInFunction ()
      (fun st hst locator hitem => by
        have hnone : st.read standardSymbols = .ok none := by rw [SourceStatement.read, hitem]
        have hsome := hread st hst
        rw [hnone] at hsome
        exact Bool.false_ne_true hsome)
      (fun st hst => by
        cases h : st.read standardSymbols with
        | error f =>
          have hsome := hread st hst
          rw [h] at hsome
          exact (Bool.false_ne_true hsome).elim
        | ok m => exact ⟨m, rfl⟩)
  obtain ⟨script, hscript⟩ := hiff.mpr (by rw [hword, derives_iff_run]; rfl)
  exact ⟨script, hscript, hback script hscript⟩

end LineScript
