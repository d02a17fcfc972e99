import LineScript.Proofs.Escapes
import LineScript.Proofs.StringBlindness

/-!
# Texts of one expression

A text of one line on which no rule for statements applies is the script of one expression, and its
run is the run of the expression.  So the run of such a text gives a value when the expression does,
and fails when the expression fails or cannot be read.

## Main definitions

* `Pattern.demands` — patterns that need a character which is not in a list.
* `Undemanded` — characters of which no statement other than an expression is made.
* `Run.Returns`, `Run.Breaks` — how a run ends, from every machine.
* `Gives`, `Fails` — how the run of a text ends.

## Main results

* `Pattern.not_way_of_demands` — such a pattern matches nowhere in a text of the list.
* `parse_of_item` — a line of one statement is the script of that statement.
* `parse_expression` — the script of a text of one expression.
* `gives_of_returns`, `fails_of_breaks`, `fails_of_parse` — **the end of a run of a text is that of
  its expression.**
-/

namespace LineScript

open Run

variable {σ : Type}

/-! ### Patterns that need other characters -/

namespace Pattern

/-- The pattern needs a character that is not in the list. -/
def demands (chars : List Char) : Pattern → Bool
  | .one accepts => chars.all fun c => !accepts c
  | .text s => s.any fun c => !chars.contains c
  | .seq first second => first.demands chars || second.demands chars
  | .either first second => first.demands chars && second.demands chars
  | .group _ inner => inner.demands chars
  | .nothing | .chars .. | .many _ | .unless _ | .finish => false

/-- A pattern that needs other characters matches nowhere in a text of the list. -/
theorem not_way_of_demands {chars : List Char} : ∀ {p : Pattern}, p.demands chars = true →
    ∀ {c c' : Cursor}, (∀ ch ∈ c.rest, ch ∈ chars) → ¬ p.Way c c' := by
  intro p
  induction p with
  | nothing | chars | many | «unless» | finish => intro hp; cases hp
  | one accepts =>
    rintro hp c c' hrest ⟨⟨ch, rest, heq, hch⟩, -⟩
    have hmem : ch ∈ chars := hrest ch (heq ▸ List.mem_cons_self)
    have hnot := List.all_eq_true.1 hp ch hmem
    rw [hch] at hnot
    cases hnot
  | text s =>
    rintro hp c c' hrest ⟨hfits, -⟩
    obtain ⟨ch, hch, hnot⟩ := List.any_eq_true.1 hp
    have hmem := hrest ch (hfits.subset hch)
    simp [hmem] at hnot
  | seq first second ih₁ ih₂ =>
    rintro hp c c' hrest ⟨mid, hmid, hc'⟩
    rcases Bool.or_eq_true_iff.1 hp with hp | hp
    · exact ih₁ hp hrest hmid
    · obtain ⟨front, hfront, -⟩ := hmid.front first.only_any
      exact ih₂ hp (fun ch hch => hrest ch (hfront ▸ List.mem_append_right front hch)) hc'
  | either first second ih₁ ih₂ =>
    intro hp c c' hrest hway
    obtain ⟨hp₁, hp₂⟩ := Bool.and_eq_true_iff.1 hp
    exact hway.elim (ih₁ hp₁ hrest) (ih₂ hp₂ hrest)
  | group name inner ih =>
    rintro hp c c' hrest ⟨mid, hmid, -⟩
    exact ih hp hrest hmid

end Pattern

/-! ### Texts of one expression -/

/-- Every rule for statements needs a character that is not in the list. -/
def Undemanded (chars : List Char) : Prop :=
  ∀ r : Rule, (r.pattern standardSymbols).demands chars = true

/-- A text whose masked form has no other characters is an expression. -/
theorem classify_of_undemanded {chars text : List Char} (hchars : Undemanded chars)
    (h : ∀ c ∈ mask text, c ∈ chars) : classify standardSymbols text = .item .expression := by
  rcases classify_cases standardSymbols text with hform | ⟨r, c, hway, -⟩
  · exact hform
  · exact absurd hway (Pattern.not_way_of_demands (hchars r) h)

variable {c : Char} {more : List (List Char)}

/-- The statements of a text whose first line is one statement. -/
theorem statementsOf_line {text line : List Char} {item : Item}
    (hlines : splitLines text = line :: more) (hne : strip line ≠ [])
    (hcomment : isComment standardSymbols.comment.toList line = false) (hwhole : ';' ∉ mask line)
    (hitem : classify standardSymbols (strip line) = .item item) (origin : Option String) :
    statementsOf standardSymbols origin text =
      ⟨⟨1, String.ofList line, origin⟩, strip line, item⟩ ::
        (numberLines origin 2 more).flatMap (lineStatements standardSymbols) := by
  have hempty : (strip line).isEmpty = false := by rwa [List.isEmpty_eq_false_iff]
  have hparts : splitStatements standardSymbols.separator.toList line = [line] :=
    splitStatements_of_not_mem hwhole
  simp [statementsOf, sourceLines, hlines, numberLines, lineStatements, hempty, hcomment, hparts,
    expand_of_item hitem]

/-- A line of one statement is the script of that statement. -/
theorem parse_of_item {τ : Type} (load : Loader τ) (base origin : Option String) (t : τ)
    {text : List Char} {item : Item} (hline : ∀ c ∈ text, isLineBreak c = false)
    (hne : strip text ≠ []) (hcomment : isComment standardSymbols.comment.toList text = false)
    (hwhole : ';' ∉ mask text) (hitem : classify standardSymbols (strip text) = .item item)
    (hinclusion : ∀ locator, item ≠ .inclusion locator) :
    (parse standardSymbols load base origin (String.ofList text) t).1 =
      streamScript standardSymbols ⟨1, String.ofList text, origin⟩
        [⟨⟨1, String.ofList text, origin⟩, strip text, item⟩] := by
  have hsplit : splitLines text = [text] := by
    refine splitLines_of_no_break hline ?_
    rintro rfl
    exact hne rfl
  have hstatements := statementsOf_line hsplit hne hcomment hwhole hitem origin
  rw [numberLines, List.flatMap_nil] at hstatements
  rw [parse_of_no_inclusion, String.toList_ofList, hstatements]
  · simp [firstLine, hne, hsplit]
  · rw [String.toList_ofList, hstatements]
    exact List.forall_mem_singleton.2 hinclusion

/-- A line is no comment if it begins with another character than the mark. -/
theorem isComment_cons (hc : isBlank c = false) (hne : c ≠ '\\') (s : List Char) :
    isComment standardSymbols.comment.toList (c :: s) = false := by
  refine Bool.eq_false_iff.2 fun hmark => ?_
  rw [isComment, stripLeft, List.dropWhile_cons_of_neg (by rw [hc]; decide)] at hmark
  exact hne (List.cons_prefix_cons.1 (List.isPrefixOf_iff_prefix.1 hmark)).1.symm

/-- The first statement of a text whose first line has no other characters than those of the list:
it is an expression, and the whole line but for blanks. -/
theorem statementsOf_first {chars text s : List Char} (hchars : Undemanded chars)
    (hsep : ';' ∉ chars) (hlines : splitLines text = (c :: s) :: more)
    (hmask : ∀ d ∈ mask (c :: s), d ∈ chars) (hc : isBlank c = false) (hcomment : c ≠ '\\')
    (origin : Option String) :
    statementsOf standardSymbols origin text =
      ⟨⟨1, String.ofList (c :: s), origin⟩, strip (c :: s), .expression⟩ ::
        (numberLines origin 2 more).flatMap (lineStatements standardSymbols) := by
  obtain ⟨s', hstrip, hfront⟩ := strip_of_solid hc s
  -- blanks at the end are beside the point: what is masked before them stays as it is
  have hmask' : ∀ d ∈ mask (c :: s'), d ∈ chars := by
    obtain ⟨tail, rfl⟩ := hfront
    intro d hd
    refine hmask d ?_
    rw [← List.cons_append, mask, maskFrom_append]
    exact List.mem_append_left _ hd
  refine statementsOf_line hlines ?_ (isComment_cons hc hcomment s) (fun h => hsep (hmask _ h)) ?_ _
  · rw [hstrip]
    exact List.cons_ne_nil c s'
  · rw [hstrip]
    exact classify_of_undemanded hchars hmask'

/-! ### Runs with a known end -/

/-- The run gives this result, from every machine. -/
def Run.Returns {α : Type} (x : Run σ α) (a : α) : Prop := ∀ m, ∃ m', outcome x m = (.ok a, m')

/-- The run fails, from every machine. -/
def Run.Breaks {α : Type} (x : Run σ α) : Prop := ∀ m, ∃ stop m', outcome x m = (.error stop, m')

section Ends

variable {α β : Type} {x : Run σ α} {f : α → Run σ β}

theorem Run.Returns.bind {a : α} {b : β} (hx : Returns x a) (hf : Returns (f a) b) :
    Returns (x >>= f) b := by
  intro m
  obtain ⟨m₁, hm₁⟩ := hx m
  obtain ⟨m', hm'⟩ := hf m₁
  exact ⟨m', (outcome_bind_of_ok f hm₁).trans hm'⟩

theorem Run.Returns.atLine {a : α} (line : SourceLine) (hx : Returns x a) :
    Returns (Run.atLine line x) a := by
  intro m
  obtain ⟨m', hm'⟩ := hx { m with line := some line }
  exact ⟨m', outcome_atLine hm'⟩

theorem Run.Breaks.bind (hx : Breaks x) : Breaks (x >>= f) := by
  intro m
  obtain ⟨stop, m', hm'⟩ := hx m
  exact ⟨stop, m', outcome_bind_of_error f hm'⟩

theorem Run.Returns.breaks {a : α} (hx : Returns x a) (hf : Breaks (f a)) : Breaks (x >>= f) := by
  intro m
  obtain ⟨m₁, hm₁⟩ := hx m
  obtain ⟨stop, m', hm'⟩ := hf m₁
  exact ⟨stop, m', (outcome_bind_of_ok f hm₁).trans hm'⟩

theorem Run.Breaks.atLine (line : SourceLine) (hx : Breaks x) : Breaks (Run.atLine line x) := by
  intro m
  obtain ⟨stop, m', hm'⟩ := hx { m with line := some line }
  cases stop with
  | raised | exhausted => exact ⟨_, m', outcome_atLine hm'⟩

end Ends

/-! ### Runs of texts -/

/-- The run of a text gives a value. -/
def Gives (r : Runner σ) (text : String) (v : Value) : Prop :=
  ∃ r', r.eval text = (.ok v.toHost, r')

/-- The run of a text fails. -/
def Fails (r : Runner σ) (text : String) : Prop :=
  ∃ stop r', r.eval text = (.error stop, r')

section Runs

variable {r : Runner σ} {text : String} {line : SourceLine}

theorem parseHost_text (env : Env σ) (text : String) :
    parseHost env (.text text) = parseSource env text := by
  have htext : ∀ read : String → Run σ Script,
      (do read (← orFault ((HostValue.text text).asText (← view env) "strip"))) = read text :=
    fun _ => rfl
  exact htext (parseSource env)

variable {env : Env σ} {script : Script} {f : Failure} {n scope : Nat} {v : Value} {e : Expr}
  {inner : Inner σ}

/-- A text that is a script is read. -/
theorem outcome_parseSource_of_ok {m : Machine σ} {state : σ}
    (h : parse env.symbols env.host.load env.base none text m.host = (.ok script, state)) :
    outcome (parseSource env text) m = (.ok script, { m with host := state }) := by
  rw [parseSource, outcome_bind_of_ok _ (outcome_parse h)]
  rfl

/-- A text that is no script fails where it is read. -/
theorem outcome_parseSource_of_error {m : Machine σ} {state : σ}
    (h : parse env.symbols env.host.load env.base none text m.host = (.error f, state)) :
    outcome (parseSource env text) m =
      (.error (.raised ⟨m.fresh, f⟩), { m with host := state, fresh := m.fresh + 1 }) := by
  rw [parseSource, outcome_bind_of_ok _ (outcome_parse h)]
  rfl

theorem returns_parseSource
    (h : ∀ t, (parse env.symbols env.host.load env.base none text t).1 = .ok script) :
    Returns (parseSource env text) script :=
  fun m => ⟨_, outcome_parseSource_of_ok (Prod.ext (h m.host) rfl)⟩

theorem breaks_parseSource
    (h : ∀ t, (parse env.symbols env.host.load env.base none text t).1 = .error f) :
    Breaks (parseSource env text) :=
  fun m => ⟨_, _, outcome_parseSource_of_error (Prod.ext (h m.host) rfl)⟩

/-- A text is run by reading it and running its script, once the record is forgotten. -/
theorem exists_outcome_evalSource (env : Env σ) (inner : Inner σ) (text : String) (m : Machine σ) :
    ∃ m', outcome (evalSource env inner (.text text)) m = outcome (do
      let script ← parseSource env text
      return hostResult (← inner.runScript script)) m' := by
  rw [evalSource, parseHost_text, outcome_bind_of_ok (x := isIdle) _ rfl]
  cases m.calls.isEmpty with
  | true => exact ⟨_, outcome_bind_of_ok (x := forgetRecord) _ rfl⟩
  | false => exact ⟨m, rfl⟩

theorem returns_evalSource
    (hparse : ∀ t, (parse env.symbols env.host.load env.base none text t).1 = .ok script)
    (hrun : Returns (runScript env n script) (some v)) :
    Returns (evalSource env (env.inner n) (.text text)) v.toHost := by
  intro m
  obtain ⟨m₁, hm₁⟩ := exists_outcome_evalSource env (env.inner n) text m
  rw [hm₁]
  exact (returns_parseSource hparse).bind (hrun.bind fun m => ⟨m, rfl⟩) m₁

theorem breaks_evalSource
    (hparse : (∃ f, ∀ t, (parse env.symbols env.host.load env.base none text t).1 = .error f) ∨
      ∃ script, (∀ t, (parse env.symbols env.host.load env.base none text t).1 = .ok script) ∧
        Breaks (runScript env n script)) : Breaks (evalSource env (env.inner n) (.text text)) := by
  intro m
  obtain ⟨m₁, hm₁⟩ := exists_outcome_evalSource env (env.inner n) text m
  rw [hm₁]
  rcases hparse with ⟨f, hf⟩ | ⟨script, hscript, hrun⟩
  · exact (breaks_parseSource hf).bind m₁
  · exact (returns_parseSource hscript).breaks hrun.bind m₁

variable {l : SourceLine}

/-- A script of one expression gives its value. -/
theorem returns_runScript (hflags : v.flags = .none)
    (he : Returns (e.eval env (env.inner n) rootScope) v) :
    Returns (runScript env (n + 1) ⟨l, [.expression line e]⟩) (some v) := by
  have hstatement : Returns ((Statement.expression line e).exec env (env.inner n) n rootScope)
      (some v) := by
    rw [Statement.exec]
    exact .atLine line (he.bind fun m => ⟨m, rfl⟩)
  have hvalue : v.withoutFlags = v := by
    rw [Value.withoutFlags, ← hflags]
  have hlast : (if v.hasFlag .conditional || v.hasFlag .loop then none else some v) = some v := by
    simp [Value.hasFlag, hflags]
  refine .bind (a := some v) ?_ fun m => ⟨m, ?_⟩
  · rw [execAll]
    refine hstatement.bind fun m => ⟨m, ?_⟩
    dsimp only
    rw [hlast]
    rfl
  · rw [Option.map_some, hvalue]
    rfl

theorem breaks_runScript (he : Breaks (e.eval env (env.inner n) rootScope)) :
    Breaks (runScript env (n + 1) ⟨l, [.expression line e]⟩) := by
  have hstatement : Breaks ((Statement.expression line e).exec env (env.inner n) n rootScope) := by
    rw [Statement.exec]
    exact .atLine line he.bind
  have hall : Breaks (execAll env (env.inner n) n rootScope none [.expression line e]) := by
    rw [execAll]
    exact hstatement.bind
  exact hall.bind

theorem returns_literal (l : Literal) :
    Returns (Expr.eval env inner scope (.literal line l)) (.ofLiteral l) := by
  rw [Expr.eval]
  exact .atLine line fun m => ⟨m, rfl⟩

theorem returns_negation {l : Literal} (h : (Value.ofLiteral l).negate = .ok v) :
    Returns (Expr.eval env inner scope (.negation line (.literal line l))) v := by
  rw [Expr.eval]
  refine .atLine line ((returns_literal l).bind fun m => ⟨m, ?_⟩)
  rw [h]
  rfl

theorem breaks_negation {l : Literal} (h : (Value.ofLiteral l).negate = .error f) :
    Breaks (Expr.eval env inner scope (.negation line (.literal line l))) := by
  rw [Expr.eval]
  refine .atLine line ((returns_literal l).breaks fun m => ?_)
  rw [h]
  exact ⟨_, _, rfl⟩

/-- What the run of a text gives, and that it fails, is settled by the run of its expression. -/
theorem gives_of_returns (hflags : v.flags = .none)
    (hparse : ∀ t, (parse r.env.symbols r.env.host.load r.env.base none text t).1 =
      .ok ⟨l, [.expression line e]⟩) (he : ∀ inner, Returns (e.eval r.env inner rootScope) v) :
    Gives r text v := by
  -- the limit is never reached, but the script needs one step of it
  obtain ⟨n, hn⟩ : ∃ n, stepLimit = n + 1 := ⟨9999999, rfl⟩
  obtain ⟨m', hm'⟩ := returns_evalSource hparse (returns_runScript (n := n) hflags (he _)) r.machine
  rw [← hn] at hm'
  exact ⟨_, Runner.perform_of_outcome hm'⟩

theorem fails_of_breaks
    (hparse : ∀ t, (parse r.env.symbols r.env.host.load r.env.base none text t).1 =
      .ok ⟨l, [.expression line e]⟩) (he : ∀ inner, Breaks (e.eval r.env inner rootScope)) :
    Fails r text := by
  obtain ⟨n, hn⟩ : ∃ n, stepLimit = n + 1 := ⟨9999999, rfl⟩
  obtain ⟨stop, m', hm'⟩ :=
    breaks_evalSource (.inr ⟨_, hparse, breaks_runScript (n := n) (he _)⟩) r.machine
  rw [← hn] at hm'
  exact ⟨stop, _, Runner.perform_of_outcome hm'⟩

theorem fails_of_parse
    (hparse : ∀ t, (parse r.env.symbols r.env.host.load r.env.base none text t).1 = .error f) :
    Fails r text := by
  obtain ⟨stop, m', hm'⟩ := breaks_evalSource (n := stepLimit) (.inl ⟨f, hparse⟩) r.machine
  exact ⟨stop, _, Runner.perform_of_outcome hm'⟩

end Runs

/-! ### Reading a text of one expression -/

section Texts

variable {τ : Type} {chars : List Char} {c : Char} {s : List Char}

/-- The line that a text of one line is. -/
def onlyLine (text : List Char) : SourceLine := ⟨1, String.ofList text, none⟩

/-- A text of one line of an expression is the script of the expression. -/
theorem parse_expression (hchars : Undemanded chars) (hsep : ';' ∉ chars)
    (hlines : ∀ d ∈ c :: s, isLineBreak d = false) (hmask : ∀ d ∈ mask (c :: s), d ∈ chars)
    (hc : isBlank c = false) (hcomment : c ≠ '\\') (hstrip : strip (c :: s) = c :: s)
    (load : Loader τ) (base : Option String) (t : τ) :
    (parse standardSymbols load base none (String.ofList (c :: s)) t).1 =
      (readExpression standardSymbols (onlyLine (c :: s)) (c :: s)).map fun e =>
        ⟨onlyLine (c :: s), [.expression (onlyLine (c :: s)) e]⟩ := by
  have hitem : classify standardSymbols (strip (c :: s)) = .item .expression := by
    rw [hstrip]
    exact classify_of_undemanded hchars hmask
  have hparse := parse_of_item load base none t hlines (by simp [hstrip])
    (isComment_cons hc hcomment s) (fun h => hsep (hmask _ h)) hitem fun _ => Item.noConfusion
  rw [hparse, hstrip, onlyLine]
  simp only [streamScript, feedStream, Builder.apply]
  cases readExpression standardSymbols ⟨1, String.ofList (c :: s), none⟩ (c :: s) <;> rfl

/-- A text whose first line cannot be read is no script. -/
theorem parse_of_unread {text : List Char} {f : Failure} (hchars : Undemanded chars)
    (hsep : ';' ∉ chars) (hlines : splitLines text = (c :: s) :: more)
    (hmask : ∀ d ∈ mask (c :: s), d ∈ chars) (hc : isBlank c = false) (hcomment : c ≠ '\\')
    {origin : Option String}
    (hread : readExpression standardSymbols ⟨1, String.ofList (c :: s), origin⟩ (strip (c :: s)) =
      .error f) (load : Loader τ) (base : Option String) (t : τ) :
    (parse standardSymbols load base origin (String.ofList text) t).1 = .error f := by
  have hstatements := statementsOf_first hchars hsep hlines hmask hc hcomment origin
  have hfeed : feed standardSymbols load inclusionLimit (.outermost base origin) text {} t =
      (.error f, t) := by
    obtain ⟨n, hn⟩ : ∃ n, inclusionLimit = n + 1 := ⟨_, rfl⟩
    have horigin : (Place.outermost base origin).origin = origin := rfl
    rw [hn, feed, horigin, hstatements, feedAll,
      feedItem_of_not_inclusion fun _ => Item.noConfusion]
    simp only [Builder.apply, hread]
    rfl
  rw [parse, parseWithin, String.toList_ofList, hfeed]

end Texts

end LineScript
