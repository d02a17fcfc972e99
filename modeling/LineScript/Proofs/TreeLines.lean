import LineScript.Proofs.Refusals
import LineScript.Proofs.WellFormed

/-!
# The lines of a tree that is read

Whatever is read stands on a line of the text that it is read from: every statement and every
expression of the tree, and also the place of the failure when the text cannot be read.  A text that
is loaded has lines of its own, which name where they come from.

## Main definitions

* `Statement.LinesIn`, `BodyLinesIn` — statements that stand, with all that is in them, on lines with
  a property.
* `Failure.PlacedIn` — a failure that names no line, or one with a property.

## Main results

* `bodyLinesIn_of_occurs` — statements keep to lines when each of them does.
* `failsWith_parse` — a text fails on one of its lines, or with one of few failures that have none.
* `placed_parse` — **a script and a failure to read one keep to the lines of the text.**
-/

namespace LineScript

/-! ### Trees and failures -/

section Trees

variable (P : SourceLine → Prop)

/-- An expression that stands on a line with a property. -/
def Expr.LineIn (e : Expr) : Prop := ∃ l, P l ∧ e.OnLine l

mutual

/-- A statement that stands on a line with a property, as does all that is in it. -/
def Statement.LinesIn : Statement → Prop
  | .expression line e | .assignment line _ e => P line ∧ e.LineIn P
  | .returning line e => P line ∧ ∀ e' ∈ e, e'.LineIn P
  | .importing line _ => P line
  | .conditional line branches otherwise =>
    P line ∧ BranchesLinesIn branches ∧ OtherwiseLinesIn otherwise
  | .loop line holds body => P line ∧ holds.LineIn P ∧ BodyLinesIn body
  | .function line _ _ body => P line ∧ BodyLinesIn body

/-- Statements that stand on lines with a property. -/
def BodyLinesIn : List Statement → Prop
  | [] => True
  | st :: rest => st.LinesIn ∧ BodyLinesIn rest

/-- Branches whose conditions and statements stand on lines with a property. -/
def BranchesLinesIn : List Branch → Prop
  | [] => True
  | .mk _ holds body :: rest => (holds.LineIn P ∧ BodyLinesIn body) ∧ BranchesLinesIn rest

/-- A last branch, if there is one, whose statements stand on lines with a property. -/
def OtherwiseLinesIn : Option (List Statement) → Prop
  | none => True
  | some body => BodyLinesIn body

end

/-- A failure that names no line, or one with a property. -/
def Failure.PlacedIn : Failure → Prop
  | .script e => e.line = none ∨ ∃ l : SourceLine, P l ∧ e.line = some (l.number : Int) ∧
    e.text = some l.text ∧ e.origin = l.origin
  | .fault _ => True

end Trees

variable {P : SourceLine → Prop}

namespace Failure

variable {f : Failure} {line : SourceLine}

theorem placedIn_ofCause (c : Cause) : (Failure.ofCause c).PlacedIn P := .inl rfl

theorem placedIn_atLine (c : Cause) (h : P line) : (Failure.atLine c line).PlacedIn P :=
  .inr ⟨line, h, rfl, rfl, rfl⟩

/-- A failure that is given a line with the property, unless it has one. -/
theorem PlacedIn.stamp (h : f.PlacedIn P) {line? : Option SourceLine} (hline : ∀ l ∈ line?, P l) :
    (f.stamp line?).PlacedIn P := by
  cases f with
  | fault f => trivial
  | script e =>
    cases line? with
    | none => exact h
    | some l =>
      rcases h with hnone | ⟨l', hl', hline', htext, horigin⟩
      · refine .inr ⟨l, hline l rfl, ?_⟩
        simp only [ScriptError.stamp, ScriptError.stampAt, hnone, and_self]
      · refine .inr ⟨l', hl', ?_⟩
        rw [ScriptError.stamp_of_line hline']
        exact ⟨hline', htext, horigin⟩

end Failure

/-! ### Trees whose statements keep to lines -/

theorem allOnLine_iff {l : SourceLine} {es : List Expr} :
    AllOnLine l es ↔ ∀ e ∈ es, e.OnLine l := by
  induction es with
  | nil => exact ⟨fun _ => nofun, fun _ => trivial⟩
  | cons e rest ih => exact (and_congr_right fun _ => ih).trans List.forall_mem_cons.symm

theorem Expr.LineIn.line {e : Expr} : e.LineIn P → P e.line := by
  rintro ⟨l, hl, he⟩
  cases e with
  | literal | reference => exact he ▸ hl
  | operation | negation | call => exact he.1 ▸ hl

mutual

/-- A statement whose statements stand on lines with a property, each with its own expressions. -/
theorem Statement.linesIn_of_occurs : ∀ {st : Statement},
    (∀ x, Occurs true x [st] → P x.line ∧ ∀ e ∈ x.exprs, e.LineIn P) → st.LinesIn P
  | .expression _ e, h | .assignment _ _ e, h =>
    have hst := h _ (.here List.mem_cons_self)
    ⟨hst.1, hst.2 e List.mem_cons_self⟩
  | .returning _ _, h =>
    have hst := h _ (.here List.mem_cons_self)
    ⟨hst.1, fun e he => hst.2 e (Option.mem_toList.2 he)⟩
  | .importing .., h => (h _ (.here List.mem_cons_self)).1
  | .conditional _ _ otherwise, h =>
    have hst := h _ (.here List.mem_cons_self)
    ⟨hst.1, branchesLinesIn_of_occurs (fun b hb => hst.2 _ (List.mem_map.2 ⟨b, hb, rfl⟩))
      fun ⟨_, _, _⟩ hb x hx => h x (.branch List.mem_cons_self hb hx),
      otherwiseLinesIn_of_occurs fun _ hbody x hx => by
        subst hbody
        exact h x (.otherwise List.mem_cons_self hx)⟩
  | .loop _ holds _, h =>
    have hst := h _ (.here List.mem_cons_self)
    ⟨hst.1, hst.2 holds List.mem_cons_self,
      bodyLinesIn_of_occurs fun x hx => h x (.loop List.mem_cons_self hx)⟩
  | .function .., h =>
    ⟨(h _ (.here List.mem_cons_self)).1,
      bodyLinesIn_of_occurs fun x hx => h x (.function rfl List.mem_cons_self hx)⟩

theorem bodyLinesIn_of_occurs : ∀ {body : List Statement},
    (∀ x, Occurs true x body → P x.line ∧ ∀ e ∈ x.exprs, e.LineIn P) → BodyLinesIn P body
  | [], _ => trivial
  | st :: _, h =>
    ⟨Statement.linesIn_of_occurs fun x hx => h x (.of_mem List.mem_cons_self hx),
      bodyLinesIn_of_occurs fun x hx => h x (hx.mono fun _ hy => List.mem_cons_of_mem st hy)⟩

theorem branchesLinesIn_of_occurs : ∀ {branches : List Branch},
    (∀ b ∈ branches, b.condition.LineIn P) → (∀ b ∈ branches, ∀ x, Occurs true x b.body →
      P x.line ∧ ∀ e ∈ x.exprs, e.LineIn P) → BranchesLinesIn P branches
  | [], _, _ => trivial
  | .mk .. :: _, hconditions, h =>
    ⟨⟨hconditions _ List.mem_cons_self, bodyLinesIn_of_occurs (h _ List.mem_cons_self)⟩,
      branchesLinesIn_of_occurs (fun b hb => hconditions b (List.mem_cons_of_mem _ hb))
        fun b hb => h b (List.mem_cons_of_mem _ hb)⟩

theorem otherwiseLinesIn_of_occurs : ∀ {otherwise : Option (List Statement)},
    (∀ body, otherwise = some body → ∀ x, Occurs true x body →
      P x.line ∧ ∀ e ∈ x.exprs, e.LineIn P) → OtherwiseLinesIn P otherwise
  | none, _ => trivial
  | some body, h => bodyLinesIn_of_occurs (h body rfl)

end

theorem bodyLinesIn_iff {body : List Statement} :
    BodyLinesIn P body ↔ ∀ st ∈ body, st.LinesIn P := by
  induction body with
  | nil => exact ⟨fun _ => nofun, fun _ => trivial⟩
  | cons st rest ih => exact (and_congr_right fun _ => ih).trans List.forall_mem_cons.symm

theorem branchesLinesIn_iff {branches : List Branch} : BranchesLinesIn P branches ↔
    ∀ b ∈ branches, b.condition.LineIn P ∧ BodyLinesIn P b.body := by
  induction branches with
  | nil => exact ⟨fun _ => nofun, fun _ => trivial⟩
  | cons b rest ih =>
    obtain ⟨line, holds, body⟩ := b
    rw [List.forall_mem_cons]
    exact and_congr_right fun _ => ih

theorem Statement.LinesIn.line {st : Statement} (h : st.LinesIn P) : P st.line := by
  cases st with
  | importing => exact h
  | expression | assignment | returning | conditional | loop | function => exact h.1

/-- The expressions of a statement itself. -/
theorem Statement.LinesIn.exprs {st : Statement} (h : st.LinesIn P) : ∀ e ∈ st.exprs, e.LineIn P := by
  intro e he
  cases st with
  | expression | assignment =>
    cases List.mem_singleton.1 he
    exact h.2
  | loop =>
    cases List.mem_singleton.1 he
    exact h.2.1
  | returning => exact h.2 e (Option.mem_toList.1 he)
  | conditional =>
    obtain ⟨b, hb, rfl⟩ := List.mem_map.1 he
    exact (branchesLinesIn_iff.1 h.2.1 b hb).1
  | importing | function => cases he

/-- The line of a statement is that of one of its marks, for a conditional has a branch. -/
theorem Statement.WellFormed.exists_line {known : Family → Option Key → Prop} {inside : Bool}
    {st : Statement} (h : st.WellFormed known inside) : ∃ m ∈ st.marks, m.line? = some st.line := by
  cases st with
  | expression | assignment | returning | importing => exact ⟨_, List.mem_cons_self, rfl⟩
  | loop | function => exact ⟨_, List.mem_append_left _ List.mem_cons_self, rfl⟩
  | conditional line branches otherwise =>
    obtain ⟨hne, -⟩ := h
    rcases branches with _ | ⟨⟨l, holds, body⟩, rest⟩
    · exact absurd rfl hne
    · rw [Statement.marks, List.append_assoc]
      exact ⟨_, List.mem_append_left _ List.mem_cons_self, rfl⟩

/-! ### Texts -/

section Texts

variable {τ : Type} {s : Symbols} {load : Loader τ} {base origin : Option String} {source : String}

/-- **A text fails on one of its lines, or with one of few failures that have none**; a block that is
still open at the end fails on the line that it begins on. -/
theorem failsWith_parse (t : τ)
    (hloaded : ∀ origin text, ∀ st ∈ statementsOf s (some origin) text, P st.line)
    (hsource : ∀ st ∈ statementsOf s origin source.toList, P st.line) :
    FailsWith (ReadingFailure s load P) (parse s load base origin source t).1 := by
  have hfeed : FailsWith (ReadingFailure s load P)
      (feed s load inclusionLimit (.outermost base origin) source.toList {} t).1 :=
    failsWith_feed hloaded inclusionLimit {} t hsource
  unfold parse parseWithin
  dsimp only
  split
  next b t₁ heq =>
    refine .map _ ?_
    obtain ⟨loads, d, out, hspliced, hstream⟩ := spliced_of_feed heq
    unfold Builder.finish
    split
    · trivial
    next block rest hstack =>
      have hline : block.line ∈ b.lines := Builder.line_mem_lines (by simp [hstack])
      refine .script ?_
      rcases (read_of_feedStream hstream).2 _ hline with hl | ⟨st, hst, hl⟩
      · cases hl
      · rw [hl]
        rcases hspliced.mem st hst with hst | ⟨o, text, -, hst⟩
        · exact hsource st hst
        · exact hloaded o text st hst
  next f t₁ heq =>
    rw [heq] at hfeed
    exact hfeed

/-- **A script keeps to the lines of its text**, and so does the failure to read one; lines of other
texts name where they come from. -/
theorem placed_parse (hloaded : ∀ l : SourceLine, l.origin ≠ none → P l) (t : τ)
    (hsource : ∀ l : SourceLine, l.IsLineOf origin source.toList → P l) :
    Delivers (Failure.PlacedIn P) (fun script => BodyLinesIn P script.body)
      (parse s load base origin source t).1 := by
  have hmain : ∀ st ∈ statementsOf s origin source.toList, P st.line :=
    fun st hst => hsource st.line (isLineOf_of_mem_statementsOf hst)
  have hothers : ∀ o text, ∀ st ∈ statementsOf s (some o) text, P st.line := by
    intro o text st hst
    refine hloaded st.line ?_
    rw [(isLineOf_of_mem_statementsOf hst).1]
    exact Option.some_ne_none o
  rcases hparse : parse s load base origin source t with ⟨f | script, t'⟩
  · have hfails : FailsWith (ReadingFailure s load P) (parse s load base origin source t).1 :=
      failsWith_parse t hothers hmain
    rw [hparse] at hfails
    cases hfails with
    | script hline => exact Failure.placedIn_atLine _ hline
    | fault _ => trivial
  · obtain ⟨loads, d, out, hspliced, hmarks⟩ := read_of_parse hparse
    have hbody := parse_wellFormed s.names_trivial hparse
    refine bodyLinesIn_of_occurs fun x hx => ?_
    -- a mark of a statement was read from one that stands on a line with the property
    have hread : ∀ m ∈ x.marks, ∃ st : SourceStatement, P st.line ∧ st.read s = .ok (some m) := by
      intro m hm
      obtain ⟨st, hst, hread⟩ := hmarks m (marks_subset_of_occurs hx hm)
      refine ⟨st, ?_, hread⟩
      rcases hspliced.mem st hst with hst | ⟨o, text, -, hst⟩
      · exact hmain st hst
      · exact hothers o text st hst
    refine ⟨?_, fun e he => ?_⟩
    · obtain ⟨inside, hwell⟩ := wellFormed_of_occurs hx hbody
      obtain ⟨m, hm, hline⟩ := hwell.exists_line
      obtain ⟨st, hst, hread⟩ := hread m hm
      rwa [(SourceStatement.of_read hread).1 x.line hline]
    · obtain ⟨m, hm, hin⟩ := Statement.exists_mark he
      obtain ⟨st, hst, hread⟩ := hread m hm
      exact ⟨st.line, hst, ((SourceStatement.of_read hread).2 e hin).onLine⟩

end Texts

end LineScript
