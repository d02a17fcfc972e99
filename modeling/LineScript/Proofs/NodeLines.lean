import LineScript.Proofs.BlockTree
import LineScript.Proofs.Lines
import LineScript.Proofs.Splicing

/-!
# The lines of the nodes of a script

Every expression of a script is read from one statement, so all of its nodes stand on the line of
that statement, and that line is a physical line of the text that the statement was taken from:
the text of the script itself, or a text that was loaded for an inclusion.  Reading a tree back
(`bodyMarks`) shows which statement an expression was read from.

## Main definitions

* `SourceLine.IsLineOf`, `SourceLine.IsLineOfAny` — a line is a physical line of a text, or of one
  of those loaded for it.
* `Lowering` — properties that a term has with its expression, by its parts.
* `Statement.exprs`, `Statement.NodesOn` — the expressions of a statement itself, and that all its
  nodes stand on lines with a property.
* `Mark.exprs`, `Expr.ReadOn` — the expressions of what a statement says, and where they come from.

## Main results

* `onLine_of_readExpression` — an expression that is read on a line stands on it.
* `SourceStatement.of_read` — the expressions of a statement were read on its line.
* `Builder.marks_of_apply` — a statement more is a mark more that was read from it.
* `read_of_parse` — what the statements of a script say was read from statements of its texts.
* `parse_keeps` — reading a text keeps what loads keep, and parameters that are read are identifiers.
* `parse_nodesOn` — **the nodes of a script stand on physical lines of its texts.**
-/

namespace LineScript

/-! ### Physical lines -/

/-- A line is a physical line of a text, numbered from one. -/
def SourceLine.IsLineOf (l : SourceLine) (origin : Option String) (text : List Char) : Prop :=
  l.origin = origin ∧ 0 < l.number ∧ (splitLines text)[l.number - 1]? = some l.text.toList

/-- A line is a physical line of a text, or of one of those loaded for it, under its origin. -/
def SourceLine.IsLineOfAny (l : SourceLine) (origin : Option String) (text : List Char)
    (loads : List (String × List Char)) : Prop :=
  l.IsLineOf origin text ∨ ∃ o loaded, (o, loaded) ∈ loads ∧ l.IsLineOf (some o) loaded

variable {origin base : Option String} {text : List Char} {s : Symbols} {line : SourceLine}
  {st : SourceStatement} {e : Expr} {τ : Type} {load : Loader τ} {source : String}

theorem mem_numberLines {l : SourceLine} :
    ∀ {lines : List (List Char)} {n : Nat}, l ∈ numberLines origin n lines →
      l.origin = origin ∧ n ≤ l.number ∧ lines[l.number - n]? = some l.text.toList
  | [], _, h => nomatch h
  | line :: rest, n, h => by
    rcases List.mem_cons.1 h with rfl | h
    · refine ⟨rfl, Nat.le_refl n, ?_⟩
      rw [Nat.sub_self, List.getElem?_cons_zero, String.toList_ofList]
    · obtain ⟨horigin, hn, hline⟩ := mem_numberLines h
      refine ⟨horigin, Nat.le_of_succ_le hn, ?_⟩
      rw [show l.number - n = l.number - (n + 1) + 1 by omega, List.getElem?_cons_succ]
      exact hline

theorem isLineOf_of_mem_sourceLines {l : SourceLine} (h : l ∈ sourceLines origin text) :
    l.IsLineOf origin text :=
  mem_numberLines h

theorem line_of_mem_lineStatements (h : st ∈ lineStatements s line) : st.line = line := by
  unfold lineStatements at h
  dsimp only at h
  split at h
  · cases h
  · obtain ⟨part, -, hst⟩ := List.mem_flatMap.1 h
    obtain ⟨p, -, rfl⟩ := List.mem_map.1 hst
    rfl

/-- Every statement of a text stands on a physical line of it. -/
theorem isLineOf_of_mem_statementsOf (h : st ∈ statementsOf s origin text) :
    st.line.IsLineOf origin text := by
  obtain ⟨line, hline, hst⟩ := List.mem_flatMap.1 h
  rw [line_of_mem_lineStatements hst]
  exact isLineOf_of_mem_sourceLines hline

/-! ### Expressions -/

/-- Properties of terms with their expressions, and of several of them, that leaves have and that
operations, changes of sign and calls keep. -/
structure Lowering (s : Symbols) (line : SourceLine) (P : Term → Expr → Prop)
    (Q : List Term → List Expr → Prop) : Prop where
  number : ∀ {text l}, Literal.ofNumber text = .ok l → P (.number text) (.literal line l)
  string : ∀ {body x}, P (.string body) (.literal line (.string x))
  null : P .null (.literal line .null)
  boolean : ∀ {word b}, P (.boolean word) (.literal line (.boolean b))
  reference : ∀ {name x}, P (.reference name) (.reference line x)
  call : ∀ {name x ts es}, Q ts es → P (.call name ts) (.call line x es)
  negation : ∀ {t e}, P t e → P (.negation t) (.negation line e)
  binary : ∀ {family symbol left right l r}, P left l → P right r →
    P (.binary family symbol left right)
      (.operation line family (s.familyOperator? (String.ofList symbol) family) l r)
  nil : Q [] []
  cons : ∀ {t e ts es}, P t e → Q ts es → Q (t :: ts) (e :: es)

namespace Lowering

variable {s : Symbols} {yes : String} {line : SourceLine} {P : Term → Expr → Prop}
  {Q : List Term → List Expr → Prop}

mutual

/-- **What leaves have and the rest keeps, every term has with its expression.** -/
theorem of_lower (h : Lowering s line P Q) :
    ∀ {t : Term} {e : Expr}, t.lower s yes line = .ok e → P t e
  | .number _, _, ht => by
    obtain ⟨l, hl, rfl⟩ := exists_of_map_eq_ok ht
    exact h.number hl
  | .string _, _, ht => by cases ht; exact h.string
  | .null, _, ht => by cases ht; exact h.null
  | .boolean _, _, ht => by cases ht; exact h.boolean
  | .reference _, _, ht => by cases ht; exact h.reference
  | .call _ _, _, ht => by
    obtain ⟨es, hes, rfl⟩ := exists_of_map_eq_ok ht
    exact h.call (of_lowerAll h hes)
  | .negation _, _, ht => by
    obtain ⟨o, ho, rfl⟩ := exists_of_map_eq_ok ht
    exact h.negation (of_lower h ho)
  | .binary .., _, ht => by
    obtain ⟨l, hl, ht⟩ := exists_of_bind_eq_ok ht
    obtain ⟨r, hr, ht⟩ := exists_of_bind_eq_ok ht
    cases ht
    exact h.binary (of_lower h hl) (of_lower h hr)

theorem of_lowerAll (h : Lowering s line P Q) :
    ∀ {ts : List Term} {es : List Expr}, lowerAll s yes line ts = .ok es → Q ts es
  | [], _, hts => by cases hts; exact h.nil
  | _ :: _, _, hts => by
    obtain ⟨e, he, hts⟩ := exists_of_bind_eq_ok hts
    obtain ⟨es, hes, hts⟩ := exists_of_bind_eq_ok hts
    cases hts
    exact h.cons (of_lower h he) (of_lowerAll h hes)

end

end Lowering

/-- The expression of a term stands on the line it is read on. -/
theorem lowering_onLine (s : Symbols) (line : SourceLine) :
    Lowering s line (fun _ e => e.OnLine line) fun _ es => AllOnLine line es where
  number _ := rfl
  string := rfl
  null := rfl
  boolean := rfl
  reference := rfl
  call hargs := ⟨rfl, hargs⟩
  negation hoperand := ⟨rfl, hoperand⟩
  binary hleft hright := ⟨rfl, hleft, hright⟩
  nil := trivial
  cons he hes := ⟨he, hes⟩

/-- An expression that is read on a line stands on it. -/
theorem onLine_of_readExpression (h : readExpression s line text = .ok e) : e.OnLine line := by
  obtain ⟨_, t, -, -, ht⟩ := term_of_readExpression h
  exact (lowering_onLine s line).of_lower ht

/-! ### Statements -/

/-- The expressions of a statement itself, not of the statements in it. -/
def Statement.exprs : Statement → List Expr
  | .expression _ e => [e]
  | .assignment _ _ e => [e]
  | .returning _ e => e.toList
  | .importing _ _ => []
  | .conditional _ branches _ => branches.map Branch.condition
  | .loop _ holds _ => [holds]
  | .function .. => []

/-- The nodes of a statement that are evaluated, its expressions and its import, stand on lines
with a property, each expression on one line. -/
structure Statement.NodesOn (P : SourceLine → Prop) (st : Statement) : Prop where
  expr : ∀ e ∈ st.exprs, ∃ l, P l ∧ e.OnLine l
  importing : ∀ line target, st = .importing line target → P line

/-- The expressions of what a statement says. -/
def Mark.exprs : Mark → List Expr
  | .loopOpen _ e | .ifOpen _ _ e | .elseIf _ e => [e]
  | .returning _ e => e.toList
  | .simple st => st.exprs
  | _ => []

/-- The line of a statement that begins with a mark. -/
def Mark.line? : Mark → Option SourceLine
  | .loopOpen line _ | .functionOpen line .. | .ifOpen line .. | .returning line _ => some line
  | .simple st => some st.line
  | _ => none

/-- An expression that a statement on a line has: it was read there, or it is the operation of an
assignment, on a name and on an expression that was. -/
inductive Expr.ReadOn (s : Symbols) (line : SourceLine) : Expr → Prop where
  | whole {text : List Char} {e : Expr} : readExpression s line text = .ok e → ReadOn s line e
  | combined {text : List Char} {op : Option Key} {name : String} {e : Expr} :
      readExpression s line text = .ok e →
        ReadOn s line (.operation line .arithmetic op (.reference line name) e)

theorem Expr.ReadOn.onLine (h : e.ReadOn s line) : e.OnLine line := by
  cases h with
  | whole h => exact onLine_of_readExpression h
  | combined h => exact ⟨rfl, rfl, onLine_of_readExpression h⟩

/-- **What a statement says stands on its line**, and its expressions were read there. -/
theorem SourceStatement.of_read {m : Mark} (h : st.read s = .ok (some m)) :
    (∀ l ∈ m.line?, l = st.line) ∧ ∀ e ∈ m.exprs, e.ReadOn s st.line := by
  have hline : ∀ {line : SourceLine}, ∀ l ∈ some line, l = line := fun l hl => by cases hl; rfl
  have hsingle : ∀ {line : SourceLine} {e : Expr}, e.ReadOn s line → ∀ e' ∈ [e], e'.ReadOn s line :=
    List.forall_mem_singleton.2
  obtain ⟨line, text, item⟩ := st
  cases item with
  | comment | inclusion => cases h
  | loopClose | functionClose | ifClose | otherwise =>
    cases h
    exact ⟨fun _ hl => (by cases hl), List.forall_mem_nil _⟩
  | importing target =>
    cases h
    exact ⟨hline, List.forall_mem_nil _⟩
  | functionOpen name params =>
    obtain ⟨ps, -, hm⟩ := exists_of_map_eq_ok h
    cases hm
    exact ⟨hline, List.forall_mem_nil _⟩
  | elseIf condition =>
    obtain ⟨e, he, hm⟩ := exists_of_map_eq_ok h
    cases hm
    exact ⟨fun _ hl => (by cases hl), hsingle (.whole he)⟩
  | loopOpen condition | ifOpen condition | expression =>
    obtain ⟨e, he, hm⟩ := exists_of_map_eq_ok h
    cases hm
    exact ⟨hline, hsingle (.whole he)⟩
  | returning expression =>
    simp only [read] at h
    split at h
    · cases h
      exact ⟨hline, List.forall_mem_nil _⟩
    · obtain ⟨e, he, hm⟩ := exists_of_map_eq_ok h
      cases hm
      exact ⟨hline, hsingle (.whole he)⟩
  | assignment name operator expression =>
    obtain ⟨a, ha, hm⟩ := exists_of_map_eq_ok h
    cases hm
    obtain ⟨e, he, ha⟩ := exists_of_bind_eq_ok ha
    -- under an operator the expression is a right operand, otherwise it stands alone
    split at ha <;> cases ha
    exacts [⟨hline, hsingle (.whole he)⟩, ⟨hline, hsingle (.whole he)⟩,
      ⟨hline, hsingle (.combined he)⟩]
  | bareCall name arguments =>
    obtain ⟨c, hc, hm⟩ := exists_of_map_eq_ok h
    cases hm
    obtain ⟨e, he, hc⟩ := exists_of_bind_eq_ok hc
    split at hc <;> cases hc
    exact ⟨hline, hsingle (.whole he)⟩

/-! ### What a builder was given -/

namespace Builder

/-- A statement that is taken makes sense on its own. -/
theorem exists_read_of_apply {b b' : Builder} (h : b.apply s st.line st.text st.item = .ok b') :
    ∃ m, st.read s = .ok m := by
  obtain ⟨line, text, item⟩ := st
  cases item with
  | comment | inclusion | loopClose | functionClose | ifClose | otherwise | importing =>
    exact ⟨_, rfl⟩
  | loopOpen | ifOpen | functionOpen | assignment | bareCall | expression =>
    obtain ⟨e, he, -⟩ := exists_of_bind_eq_ok h
    exact ⟨_, congrArg (Except.map _) he⟩
  | elseIf condition =>
    obtain ⟨_, -, h⟩ := exists_of_bind_eq_ok h
    obtain ⟨e, he, -⟩ := exists_of_bind_eq_ok h
    exact ⟨_, congrArg (Except.map _) he⟩
  | returning expression =>
    obtain ⟨r, hr, -⟩ := exists_of_bind_eq_ok h
    have hreturn := map_marks_returning b s line text expression
    rw [hr] at hreturn
    split at hreturn
    · obtain ⟨m, hm, -⟩ := exists_of_map_eq_ok hreturn.symm
      exact ⟨m, hm⟩
    · cases hreturn

/-- The lines that the open blocks of a builder begin on. -/
def lines (b : Builder) : List SourceLine := b.nest.map Prod.snd

theorem line_mem_lines {b : Builder} {block : OpenBlock} (h : block ∈ b.stack) :
    block.line ∈ b.lines :=
  List.mem_map.2 ⟨(block.shape, block.line), List.mem_map.2 ⟨block, h, rfl⟩, rfl⟩

/-- **A statement more is a mark more that was read from it**, or none; a block that it opens begins
on its line. -/
theorem marks_of_apply {b b' : Builder} (h : b.apply s st.line st.text st.item = .ok b') :
    (∃ m, st.read s = .ok m ∧ b'.marks = b.marks ++ m.toList) ∧
      ∀ l ∈ b'.lines, l = st.line ∨ l ∈ b.lines := by
  obtain ⟨m, hread⟩ := exists_read_of_apply h
  cases m with
  | none =>
    have hitem := SourceStatement.terminal?_of_read hread
    obtain ⟨line, text, item⟩ := st
    cases item <;> cases hitem <;> cases h
    all_goals exact ⟨⟨none, hread, (List.append_nil _).symm⟩, fun _ => .inr⟩
  | some m =>
    -- the grammar accepts the statement, for it would be an error otherwise
    have hagrees := apply_agrees (b := b) hread
    rw [h] at hagrees
    cases hstep : b.nest.step false (m.terminal, st.line) with
    | none =>
      rw [hstep] at hagrees
      obtain ⟨c, herror, -⟩ := hagrees
      cases herror
    | some n =>
      rw [hstep] at hagrees
      obtain ⟨b₁, hb₁, hnest, hmarks⟩ := hagrees
      cases hb₁
      refine ⟨⟨some m, hread, hmarks⟩, ?_⟩
      rw [lines, hnest]
      exact Nest.labels_of_step hstep

end Builder

/-- Every mark of a builder was there before or was read from a statement of the stream, and every
open block was there or begins on the line of one. -/
theorem read_of_feedStream : ∀ {sts : List SourceStatement} {b b' : Builder},
    feedStream s sts b = .ok b' →
      (∀ m ∈ b'.marks, m ∈ b.marks ∨ ∃ st ∈ sts, st.read s = .ok (some m)) ∧
        ∀ l ∈ b'.lines, l ∈ b.lines ∨ ∃ st ∈ sts, l = st.line := by
  intro sts
  induction sts with
  | nil =>
    intro b b' h
    cases h
    exact ⟨fun _ => .inl, fun _ => .inl⟩
  | cons st rest ih =>
    intro b b' h
    obtain ⟨b₁, hb₁, h⟩ := exists_of_bind_eq_ok h
    obtain ⟨hmarks, hlines⟩ := ih h
    obtain ⟨⟨m', hread, hmarks₁⟩, hlines₁⟩ := Builder.marks_of_apply hb₁
    refine ⟨fun m hm => ?_, fun l hl => ?_⟩
    · rcases hmarks m hm with hm | ⟨st', hst', hread'⟩
      · rw [hmarks₁] at hm
        rcases List.mem_append.1 hm with hm | hm
        · exact .inl hm
        · rw [Option.mem_toList] at hm
          cases hm
          exact .inr ⟨st, List.mem_cons_self, hread⟩
      · exact .inr ⟨st', List.mem_cons_of_mem st hst', hread'⟩
    · rcases hlines l hl with hl | ⟨st', hst', hl⟩
      · exact (hlines₁ l hl).symm.imp_right fun hl => ⟨st, List.mem_cons_self, hl⟩
      · exact .inr ⟨st', List.mem_cons_of_mem st hst', hl⟩

/-! ### Statements of a tree -/

theorem mem_bodyMarks {st : Statement} {m : Mark} : ∀ {body : List Statement}, st ∈ body →
    m ∈ st.marks → m ∈ bodyMarks body
  | x :: rest, hst, hm => by
    rw [bodyMarks]
    rcases List.mem_cons.1 hst with rfl | hst
    · exact List.mem_append_left _ hm
    · exact List.mem_append_right _ (mem_bodyMarks hst hm)

/-- The condition of a branch, and what stands in it, among the marks of further branches. -/
theorem mem_branchMarks {b : Branch} : ∀ {branches : List Branch}, b ∈ branches →
    .elseIf b.line b.condition ∈ branchMarks branches ∧ bodyMarks b.body ⊆ branchMarks branches
  | .mk line holds body :: rest, hb => by
    rw [branchMarks]
    rcases List.mem_cons.1 hb with rfl | hb
    · exact ⟨List.mem_cons_self, fun m hm =>
        List.mem_cons_of_mem _ (List.mem_append_left _ hm)⟩
    · obtain ⟨hcondition, hbody⟩ := mem_branchMarks hb
      exact ⟨List.mem_cons_of_mem _ (List.mem_append_right _ hcondition), fun m hm =>
        List.mem_cons_of_mem _ (List.mem_append_right _ (hbody hm))⟩

/-- The condition of a branch, and what stands in it, among the marks of a conditional. -/
theorem mem_headMarks {b : Branch} : ∀ {branches : List Branch}, b ∈ branches →
    (.ifOpen line b.line b.condition ∈ headMarks line branches ∨
      .elseIf b.line b.condition ∈ headMarks line branches) ∧
        bodyMarks b.body ⊆ headMarks line branches
  | .mk first holds body :: rest, hb => by
    rw [headMarks]
    rcases List.mem_cons.1 hb with rfl | hb
    · exact ⟨.inl List.mem_cons_self, fun m hm =>
        List.mem_cons_of_mem _ (List.mem_append_left _ hm)⟩
    · obtain ⟨hcondition, hbody⟩ := mem_branchMarks hb
      exact ⟨.inr (List.mem_cons_of_mem _ (List.mem_append_right _ hcondition)), fun m hm =>
        List.mem_cons_of_mem _ (List.mem_append_right _ (hbody hm))⟩

/-- The expressions of a statement itself are those of its marks. -/
theorem Statement.exists_mark : ∀ {st : Statement} {e : Expr}, e ∈ st.exprs →
    ∃ m ∈ st.marks, e ∈ m.exprs
  | .expression .., _, he | .assignment .., _, he | .returning .., _, he =>
    ⟨_, List.mem_cons_self, he⟩
  | .loop line holds body, _, he => ⟨.loopOpen line holds, by simp [Statement.marks], he⟩
  | .conditional line branches otherwise, _, he => by
    obtain ⟨b, hb, rfl⟩ := List.mem_map.1 he
    rw [Statement.marks, List.append_assoc]
    have hhead : .ifOpen line b.line b.condition ∈ headMarks line branches ∨
        .elseIf b.line b.condition ∈ headMarks line branches := (mem_headMarks hb).1
    rcases hhead with hm | hm <;> exact ⟨_, List.mem_append_left _ hm, List.mem_cons_self⟩

/-- The marks of a statement in a body are among those of the body. -/
theorem marks_subset_of_occurs {st : Statement} {body : List Statement} (hst : Occurs true st body) :
    st.marks ⊆ bodyMarks body := by
  intro m hm
  induction hst with
  | here hmem => exact mem_bodyMarks hmem hm
  | loop hmem _ ih | function _ hmem _ ih =>
    refine mem_bodyMarks hmem ?_
    rw [Statement.marks]
    exact List.mem_append_left _ (List.mem_cons_of_mem _ ih)
  | branch hmem hb _ ih =>
    refine mem_bodyMarks hmem ?_
    rw [Statement.marks, List.append_assoc]
    exact List.mem_append_left _ ((mem_headMarks hb).2 ih)
  | otherwise hmem _ ih =>
    refine mem_bodyMarks hmem ?_
    rw [Statement.marks]
    exact List.mem_append_left _ (List.mem_append_right _ (List.mem_cons_of_mem _ ih))

/-- A script that is read is what a builder makes of one stream of statements. -/
theorem stream_of_parse {t t' : τ} {script : Script}
    (h : parse s load base origin source t = (.ok script, t')) :
    ∃ loads d out, Spliced s load (.outermost base origin) (statementsOf s origin source.toList) t
        loads d out t' ∧ feedStream s out {} = .ok ⟨script.body, []⟩ := by
  unfold parse parseWithin at h
  dsimp only at h
  split at h
  next b t₁ hfeed =>
    obtain ⟨hfinish, rfl⟩ := Prod.mk.inj h
    obtain ⟨body, hbody, rfl⟩ := exists_of_map_eq_ok hfinish
    obtain ⟨done, _ | ⟨block, rest⟩⟩ := b <;> cases hbody
    exact spliced_of_feed hfeed
  next => cases (Prod.mk.inj h).1

/-- **The marks of a script were read** from the statements of its texts. -/
theorem read_of_parse {t t' : τ} {script : Script}
    (h : parse s load base origin source t = (.ok script, t')) :
    ∃ loads d out, Spliced s load (.outermost base origin) (statementsOf s origin source.toList) t
        loads d out t' ∧
      ∀ m ∈ bodyMarks script.body, ∃ st ∈ out, st.read s = .ok (some m) := by
  obtain ⟨loads, d, out, hspliced, hstream⟩ := stream_of_parse h
  refine ⟨loads, d, out, hspliced, fun m hm => ?_⟩
  -- no block is open at the end, so the marks of the builder are those of the script
  rcases (read_of_feedStream hstream).1 m (List.mem_append_left _ hm) with hm | hread
  · cases hm
  · exact hread

theorem SourceStatement.params_of_read {name : String} {params : List String}
    (h : st.read s = .ok (some (.functionOpen line name params))) :
    ∀ p ∈ params, isIdentifier p.toList = true := by
  have hitem := terminal?_of_read h
  obtain ⟨l, text, item⟩ := st
  cases item <;> cases hitem
  obtain ⟨ps, hps, hm⟩ := exists_of_map_eq_ok h
  cases hm
  exact (of_readParams (Builder.eq_ok_of_mapError hps)).2

/-- **What loads keep true of the state, reading a text keeps**, and every parameter of a
function in a script that is read is an identifier. -/
theorem parse_keeps {I : τ → Prop} (hload : ∀ locator base t, I t → I (load locator base t).2)
    {t t' : τ} {r : Except Failure Script} (h : parse s load base origin source t = (r, t'))
    (ht : I t) : I t' ∧ ∀ script, r = .ok script → ParamsRead script.body := by
  constructor
  · have hfeed :=
      feed_keeps (s := s) hload inclusionLimit (.outermost base origin) source.toList {} ht
    unfold parse parseWithin at h
    dsimp only at h
    split at h
    next heq =>
      rw [heq] at hfeed
      cases h
      exact hfeed
    next heq =>
      rw [heq] at hfeed
      cases h
      exact hfeed
  · rintro script rfl st hst p hp
    obtain ⟨loads, d, out, -, hmarks⟩ := read_of_parse h
    cases st with
    | function line name params body =>
      -- the mark of the definition was read, and its parameters with it
      have hmark : Mark.functionOpen line name params ∈
          (Statement.function line name params body).marks := by
        simp [Statement.marks]
      obtain ⟨st, -, hread⟩ := hmarks _ (marks_subset_of_occurs hst hmark)
      exact SourceStatement.params_of_read hread p hp
    | _ => cases hp

/-- **The nodes of a script stand on physical lines of its texts:** of the text of the script
itself, or of one that was loaded for an inclusion in it, under the origin of that text. -/
theorem parse_nodesOn {t t' : τ} {script : Script}
    (h : parse s load base origin source t = (.ok script, t')) :
    ∃ loads d out, Spliced s load (.outermost base origin) (statementsOf s origin source.toList) t
        loads d out t' ∧
      ∀ st, Occurs true st script.body →
        st.NodesOn fun l => l.IsLineOfAny origin source.toList loads := by
  obtain ⟨loads, d, out, hspliced, hmarks⟩ := read_of_parse h
  have hline : ∀ {st : Statement} {m : Mark}, Occurs true st script.body → m ∈ st.marks →
      ∃ st' : SourceStatement, st'.read s = .ok (some m) ∧
        st'.line.IsLineOfAny origin source.toList loads := by
    intro st m hst hm
    obtain ⟨st', hst', hread⟩ := hmarks m (marks_subset_of_occurs hst hm)
    refine ⟨st', hread, ?_⟩
    rcases hspliced.mem st' hst' with hmain | ⟨o, text, hload, hin⟩
    · exact .inl (isLineOf_of_mem_statementsOf hmain)
    · exact .inr ⟨o, text, hload, isLineOf_of_mem_statementsOf hin⟩
  refine ⟨loads, d, out, hspliced, fun st hst => ⟨fun e he => ?_, ?_⟩⟩
  · obtain ⟨m, hm, hin⟩ := Statement.exists_mark he
    obtain ⟨st', hread, hl⟩ := hline hst hm
    exact ⟨_, hl, ((SourceStatement.of_read hread).2 e hin).onLine⟩
  · rintro line target rfl
    obtain ⟨st', hread, hl⟩ := hline hst List.mem_cons_self
    rwa [(SourceStatement.of_read hread).1 line rfl]

end LineScript
