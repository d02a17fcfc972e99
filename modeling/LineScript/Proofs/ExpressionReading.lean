import LineScript.Proofs.ReadAnywhere

/-!
# Reading undoes rendering

A rendering is made of the texts that the reader of expressions takes, so it is read as a term of its
expression, whatever may follow.

## Main results

* `Renders.reads` — a rendering of an expression is read as a term of that expression.
* `readExpression_rendering` — every rendering of an expression is read as that expression.
-/

namespace LineScript

/-! ### Renderings -/

/-- Further arguments of a rendering are read as terms of their expressions. -/
theorem exists_furtherArgs {line : SourceLine} : ∀ {more : List Argument},
    (∀ x ∈ more, Gap x.before ∧ Gap x.after) →
    (∀ x ∈ more, ∃ term, term.lower standardSymbols "true" line = .ok x.expr ∧
      Reads term x.text 6) →
    ∃ terms, lowerAll standardSymbols "true" line terms = .ok (more.map Argument.expr) ∧
      FurtherArgs terms (more.flatMap Argument.written) := by
  intro more
  induction more with
  | nil => exact fun _ _ => ⟨[], rfl, .nil⟩
  | cons x xs ih =>
    intro hgaps hreads
    obtain ⟨⟨hbefore, hafter⟩, hgaps⟩ := List.forall_mem_cons.1 hgaps
    obtain ⟨⟨term, hterm, hread⟩, hreads⟩ := List.forall_mem_cons.1 hreads
    obtain ⟨terms, hlower, hmore⟩ := ih hgaps hreads
    refine ⟨term :: terms, ?_, ?_⟩
    · rw [lowerAll, hterm, hlower]
      rfl
    · have hcons := FurtherArgs.cons hbefore hafter hread.passage hmore
      simpa [Argument.written] using hcons

namespace Renders

variable {line : SourceLine} {k : Nat} {e : Expr} {t : List Char}

/-- **A rendering of an expression is read as a term of that expression**, whatever may follow. -/
theorem reads (h : Renders line k e t) :
    ∃ term, term.lower standardSymbols "true" line = .ok e ∧ Reads term t k := by
  -- on the rendering; the term is fixed before what follows, which is what the chains need
  induction h with
  | null => exact ⟨.null, by rw [Term.lower], .null⟩
  | yes => exact ⟨.boolean ['t', 'r', 'u', 'e'], by rw [Term.lower]; rfl, .boolean (by decide)⟩
  | no => exact ⟨.boolean ['f', 'a', 'l', 's', 'e'], by rw [Term.lower]; rfl, .boolean (by decide)⟩
  | @integer digits n hd hlimit hn hrange =>
    obtain ⟨c, s, rfl⟩ := List.exists_cons_of_ne_nil hd.ne_nil
    refine ⟨.number (c :: s), ?_, .number ⟨c, s, rfl, hd.digit c List.mem_cons_self⟩ ?_⟩
    · rw [Term.lower, ofNumber_whole hd hlimit hn hrange]
      rfl
    · exact fun rest hrest => readNumber_whole hd hrest
  | @decimal whole fraction n j hw hf hn hj =>
    obtain ⟨c, s, rfl⟩ := List.exists_cons_of_ne_nil hw.ne_nil
    refine ⟨.number (c :: s ++ '.' :: fraction), ?_,
      .number ⟨c, _, rfl, hw.digit c List.mem_cons_self⟩ ?_⟩
    · rw [Term.lower, ofNumber_decimal hw, hn, hj]
      rfl
    · intro rest hrest
      rw [List.append_assoc, List.cons_append]
      exact readNumber_decimal hw hf hrest
  | string s =>
    refine ⟨.string (s.toList.flatMap printChar), ?_, ?_⟩
    · rw [Term.lower, unescape_print, String.ofList_toList]
    · rw [toList_printText]
      refine .string (.inl rfl) _ fun rest => ?_
      exact (readString_eq_some_iff (by decide)).2 ⟨rfl, stringBody_print _⟩
  | @reference name hname => exact ⟨.reference name, by rw [Term.lower], .reference hname⟩
  | @invoke name a b hname ha hb =>
    refine ⟨.call name [], by rw [Term.lower, lowerAll]; rfl, .call hname ha fun n rest _ => ?_⟩
    refine ⟨[], .nil, ?_⟩
    rw [skipBlanks_close hb, readArgs, readTerm_close]
    rfl
  | @call name a b c t e more hname ha hb hc ht hgaps hmore iht ihmore =>
    obtain ⟨term, hterm, hread⟩ := iht
    obtain ⟨terms, hterms, hargs⟩ := exists_furtherArgs hgaps ihmore
    refine ⟨.call name (term :: terms), ?_, ?_⟩
    · rw [Term.lower, lowerAll, hterm, hterms]
      rfl
    · have htext : b ++ (t ++ (more.flatMap Argument.written ++ (c ++ [')']))) =
          b ++ (t ++ (more.flatMap Argument.written ++ c)) ++ [')'] := by
        simp only [List.append_assoc]
      rw [htext]
      exact .call hname ha fun n rest hn => ⟨c, hc, hargs.readArgs_eq hb hread.passage hc hn rest⟩
  | @group a b t e ha hb ht ih =>
    obtain ⟨term, hterm, hread⟩ := ih
    exact ⟨term, hterm, hread.group ha hb hread.passage.solid.exists_cons⟩
  | @negation a t e ha ht ih =>
    obtain ⟨term, hterm, hread⟩ := ih
    refine ⟨.negation term, ?_, hread.negation ha hread.passage.solid.exists_cons⟩
    rw [Term.lower, hterm]
    rfl
  | @operation a b t u l r op ha hb hl hr ihl ihr =>
    obtain ⟨left, hleft, hreadl⟩ := ihl
    obtain ⟨right, hright, hreadr⟩ := ihr
    refine ⟨.binary op.family op.symbol left right, ?_,
      (hreadl.passage.operation op ha hb hreadr.passage).reads⟩
    rw [Term.lower, hleft, hright, op.familyOperator]
    rfl
  | @loosen k t e ht ih =>
    obtain ⟨term, hterm, hread⟩ := ih
    exact ⟨term, hterm, hread.passage.loosen.reads⟩

theorem solid (h : Renders line k e t) : Solid t := by
  obtain ⟨term, -, hread⟩ := h.reads
  exact hread.passage.solid

end Renders

/-! ### Whole texts -/

/-- **Reading undoes rendering.**  Every printable expression has renderings, and every rendering
of an expression, with whatever parentheses and blanks, is read as that expression, each node of
it on the given line. -/
theorem readExpression_rendering (line : SourceLine) :
    (∀ e, Printable line e → ∃ text, Rendering line e text) ∧
      ∀ e text, Rendering line e text → readExpression standardSymbols line text = .ok e := by
  constructor
  · intro e he
    obtain ⟨t, ht⟩ := he.exists_renders
    exact ⟨[] ++ (t ++ []), [], t, [], .nil, .nil, ht.loosen_le (Nat.zero_le 6), rfl⟩
  · rintro e _ ⟨a, t, b, ha, hb, ht, rfl⟩
    obtain ⟨term, hterm, hread⟩ := ht.reads
    have hstrip := ht.solid.strip_between ha.blanks hb.blanks
    have hwhole : readTerm standardGrammar (t.length + 1) t = some (term, []) := by
      have h := hread.readAt (Nat.le_refl _) .nil
      rwa [List.append_nil] at h
    have hne : t.isEmpty = false := List.isEmpty_eq_false_iff.2 ht.solid.ne_nil
    have hterm' : Term.read (standardSymbols.grammar ("true", "false")) t = .ok term := by
      rw [grammar_standard, Term.read, hwhole]
    have hbooleans : standardSymbols.booleans = .ok ("true", "false") := rfl
    simp only [readExpression, hstrip, hne, hbooleans, hterm', hterm]
    rfl

/-- A product in a comparison in an alternative, with parentheses that are needed and blanks that
are not. -/
def mixedText : String := " ( a+ 1.50 )*- root.a( \"x\" ,$) <= 7|true"

/-- The expression of the text above. -/
def mixedExpr (line : SourceLine) : Expr :=
  .operation line .logical (some (.text "or"))
    (.operation line .comparison (some (.text "less_equal"))
      (.operation line .arithmetic (some (.text "multiply"))
        (.operation line .arithmetic (some (.text "plus")) (.reference line "a")
          (.literal line (.decimal (.finite false 150 (-2)))))
        (.negation line
          (.call line "root.a" [.literal line (.string "x"), .literal line .null])))
      (.literal line (.integer 7)))
    (.literal line (.boolean true))

theorem isName_a : IsName ['a'] := by
  have h : IsName (['a'] ++ ([] : List (List Char)).flatMap ('.' :: ·)) :=
    .dotted (by decide) (by decide) (by decide) nofun
  exact h

theorem printable_mixed (line : SourceLine) : Printable line (mixedExpr line) := by
  refine .operation .or (.operation .lessEqual (.operation .multiply (.operation .plus
    (.reference isName_a) (.decimal (k := 2) (by decide))) (.negation (.call isName_a.marked ?_)))
      (.integer (by decide))) (.boolean true)
  intro e he
  rcases List.mem_cons.1 he with rfl | he
  · exact .string "x"
  · cases List.mem_singleton.1 he
    exact .null

theorem rendering_mixed (line : SourceLine) : Rendering line (mixedExpr line) mixedText.toList := by
  have hgap : Gap [' '] := fun c hc => .inl (List.mem_singleton.1 hc)
  have hdecimal : Renders line 0 (.literal line (.decimal (.finite false 150 (-2))))
      (['1'] ++ '.' :: ['5', '0']) :=
    .decimal (.of_all nofun (by decide)) (.of_all nofun (by decide)) rfl rfl
  have hseven : Renders line 0 (.literal line (.integer 7)) ['7'] :=
    .integer (.of_all nofun (by decide)) (by decide) rfl (by decide)
  have hsum := Renders.operation .plus .nil hgap
    (Renders.loosen_le (.reference isName_a) (by decide)) (hdecimal.loosen_le (by decide))
  let last : Argument := ⟨[' '], [], .literal line .null, ['$']⟩
  have hgaps : ∀ x ∈ [last], Gap x.before ∧ Gap x.after :=
    fun x hx => by cases List.mem_singleton.1 hx; exact ⟨hgap, .nil⟩
  have hlast : ∀ x ∈ [last], Renders line 6 x.expr x.text :=
    fun x hx => by cases List.mem_singleton.1 hx; exact Renders.null.loosen_le (by decide)
  have hcall := Renders.call isName_a.marked .nil hgap .nil
    (Renders.loosen_le (.string "x") (by decide)) hgaps hlast
  have hproduct := Renders.operation .multiply .nil .nil
    ((Renders.group hgap hgap (hsum.loosen_le (by decide))).loosen_le (by decide))
    (.negation hgap (hcall.loosen_le (by decide)))
  have hcomparison := Renders.operation .lessEqual hgap hgap (hproduct.loosen_le (by decide))
    (hseven.loosen_le (by decide))
  have hor := Renders.operation .or .nil .nil (hcomparison.loosen_le (by decide))
    (Renders.yes.loosen_le (by decide))
  exact ⟨[' '], _, [], hgap, .nil, hor, rfl⟩

/-- The text is read as its expression, and the expression has such texts. -/
theorem readExpression_mixed :
    (∃ text, Rendering default (mixedExpr default) text) ∧
      readExpression standardSymbols default mixedText.toList = .ok (mixedExpr default) :=
  ⟨(readExpression_rendering default).1 _ (printable_mixed default),
    (readExpression_rendering default).2 _ _ (rendering_mixed default)⟩

end LineScript
