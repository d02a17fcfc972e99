import Mathlib.Data.List.SplitBy
import LineScript.Proofs.MaskedForms
import LineScript.Proofs.Splicing
import LineScript.Proofs.StatementCuts

/-!
# Strings do not shape scripts

What stands inside the string literals of a text has no say in what the text is.  Two texts whose
lines have the same masked forms are cut into statements at the same offsets, the statements are
recognised by the same rules, and their parts are twins.  A literal without an end makes its
statement fail on its line, whatever stands in the literal.

## Main definitions

* `unsaid` — the blur that leaves nothing of the texts of strings and lines.
* `Item.Matches` — statements that say the same, or both are inclusions.
* `SourceStatement.Fails` — statements that no builder takes.

## Main results

* `classify_veiled` — closed statements with the same masked form are of the same form.
* `classify_unclosed` — a statement with an open literal is a comment or fails.
* `lineStatements_mask` — lines with the same masked form have statements that do the same.
* `parse_of_mask_eq` — **texts that differ only inside string literals are the same script up to
  strings, or are rejected on the same line**, unless they have a number with too many digits.
-/

namespace LineScript

/-! ### Parts of veiled statements -/

/-- The parts that a rule names. -/
def Rule.groups : Rule → List String
  | .comment | .loopClose | .functionClose | .otherwise | .ifClose => []
  | .inlineLoop => ["condition", "body"]
  | .inlineFunction => ["header", "body"]
  | .inlineIf => ["condition", "then", "otherwise"]
  | .loopOpen | .elseIf | .ifOpen => ["condition"]
  | .functionOpen => ["name", "params", "bare"]
  | .returning => ["expression"]
  | .importing => ["target"]
  | .assignment => ["name", "operator", "expression"]
  | .bareCall => ["name", "arguments"]

theorem Rule.groupNames_pattern (s : Symbols) (r : Rule) : (r.pattern s).groupNames = r.groups := by
  cases r with
  | assignment =>
    change "name" ::
      (("operator" :: (Pattern.anyOf ((arithmeticSymbols s).map .text)).groupNames ++ []) ++
        ["expression"]) = _
    rw [groupNames_anyOf_texts]
    rfl
  | _ => rfl

section Parts

variable {s : Symbols} {a b : List Char} {r : Rule} {c : Cursor} {g : String}

theorem part?_eq_slice (hg : g ∈ r.groups) (text : List Char) : (r.matchAt s text c).part? g =
    (c.groups.find? fun e => e.1 == g).map fun e => slice text e.2.1 e.2.2 :=
  part?_matchAt (by rwa [Rule.groupNames_pattern])

/-- The parts of closed texts with the same masked form are such texts. -/
theorem part?_veiled (h : Veiled a b) (hc : c.Groomed a) (hg : g ∈ r.groups) :
    Option.Rel Veiled ((r.matchAt s a c).part? g) ((r.matchAt s b c).part? g) := by
  rw [part?_eq_slice hg, part?_eq_slice hg]
  cases hfind : c.groups.find? fun e => e.1 == g with
  | none => exact .none
  | some e =>
    have htidy := hc.tidy e (List.mem_of_find?_eq_some hfind)
    exact .some (h.slice htidy.start htidy.stop htidy.le)

theorem part_veiled (h : Veiled a b) (hc : c.Groomed a) (hg : g ∈ r.groups) :
    Veiled ((r.matchAt s a c).part g) ((r.matchAt s b c).part g) := by
  change Veiled (((r.matchAt s a c).part? g).getD []) (((r.matchAt s b c).part? g).getD [])
  rcases none_or_some_of_rel (part?_veiled h hc hg) with
    ⟨ha, hb⟩ | ⟨x, y, ha, hb, hxy⟩ <;> rw [ha, hb]
  · exact .refl (fun _ hc => by cases hc) List.not_mem_nil
  · exact hxy

/-- Names and operators are the same. -/
theorem part?_eq (h : Veiled a b) (hc : c.Groomed a) (hg : g ∈ r.groups)
    (hname : isNameGroup g = true) : (r.matchAt s a c).part? g = (r.matchAt s b c).part? g := by
  rw [part?_eq_slice hg, part?_eq_slice hg]
  cases hfind : c.groups.find? fun e => e.1 == g with
  | none => rfl
  | some e =>
    have heq : e.1 = g := by simpa using List.find?_some hfind
    have hquiet := hc.quiet e (List.mem_of_find?_eq_some hfind) (heq ▸ hname)
    have hslice := h.slice hquiet.start hquiet.stop hquiet.le
    exact congrArg some (hslice.eq_of_quoteFree hquiet.quoteFree)

theorem part_eq (h : Veiled a b) (hc : c.Groomed a) (hg : g ∈ r.groups)
    (hname : isNameGroup g = true) : (r.matchAt s a c).part g = (r.matchAt s b c).part g :=
  congrArg (·.getD []) (part?_eq h hc hg hname)

/-- The last part of a statement is what is left of it. -/
theorem part_of_endsIn (h : c.EndsIn a g) (hg : g ∈ r.groups) :
    ∃ i, (r.matchAt s a c).part g = a.drop i ∧ Closed (a.take i) := by
  obtain ⟨-, c₀, -, hout, hgroups⟩ := h
  refine ⟨c₀.position, ?_, hout⟩
  change ((r.matchAt s a c).part? g).getD [] = _
  rw [part?_eq_slice hg, hgroups, List.find?_cons_of_pos (by simp)]
  exact slice_length a c₀.position

/-- A statement that is not closed has a last part that is not. -/
theorem not_closed_part (h : c.EndsIn a g) (hg : g ∈ r.groups) (ha : ¬ Closed a)
    (hline : '\n' ∉ a) :
    ¬ Closed ((r.matchAt s a c).part g) ∧ '\n' ∉ (r.matchAt s a c).part g := by
  obtain ⟨i, hpart, hi⟩ := part_of_endsIn (s := s) (r := r) h hg
  rw [hpart]
  refine ⟨fun hclosed => ?_, fun hmem => hline (List.mem_of_mem_drop hmem)⟩
  rw [← List.take_append_drop i a, hi.append_iff] at ha
  exact ha hclosed

/-- The name in front of the last part has no quotes. -/
theorem quoteFree_name_of_endsIn (h : c.EndsIn a g) (hg : g ≠ "name") (hname : "name" ∈ r.groups)
    (hline : '\n' ∉ a) :
    QuoteFree ((r.matchAt s a c).part "name") ∧ '\n' ∉ (r.matchAt s a c).part "name" := by
  obtain ⟨-, c₀, hc₀, -, hgroups⟩ := h
  change QuoteFree (((r.matchAt s a c).part? "name").getD []) ∧
    '\n' ∉ ((r.matchAt s a c).part? "name").getD []
  rw [part?_eq_slice hname, hgroups, List.find?_cons_of_neg (by simpa using hg)]
  cases hfind : c₀.groups.find? fun e => e.1 == "name" with
  | none => exact ⟨fun _ hc => absurd hc List.not_mem_nil, List.not_mem_nil⟩
  | some e =>
    have heq : e.1 = "name" := by simpa using List.find?_some hfind
    have hquiet := hc₀.quiet e (List.mem_of_find?_eq_some hfind) (heq ▸ rfl)
    exact ⟨hquiet.quoteFree,
      fun hmem => hline (List.mem_of_mem_drop (List.mem_of_mem_take hmem))⟩

end Parts

/-! ### Rules -/

theorem matchRule?_eq (s : Symbols) (text masked : List Char) (r : Rule) :
    matchRule? s text masked r =
      (if r.mayMatch s masked then (r.pattern s).match? masked else none).map
        (r.matchAt s text) := by
  unfold matchRule?
  split <;> rfl

/-- Texts with the same masked form are recognised by the same rule at the same cursor, or by
none. -/
theorem findRule?_of_mask_eq (s : Symbols) {a b : List Char} (h : mask a = mask b) :
    findRule? s a = none ∧ findRule? s b = none ∨
      ∃ (r : Rule) (c : Cursor), (r.pattern s).Way ⟨0, mask a, []⟩ c ∧
        findRule? s a = some (r.matchAt s a c) ∧ findRule? s b = some (r.matchAt s b c) := by
  unfold findRule?
  dsimp only
  rw [← h]
  induction Rule.all with
  | nil => exact .inl ⟨rfl, rfl⟩
  | cons r rules ih =>
    rw [List.findSome?_cons, List.findSome?_cons, matchRule?_eq, matchRule?_eq]
    cases hc : if r.mayMatch s (mask a) then (r.pattern s).match? (mask a) else none with
    | none => exact ih
    | some c =>
      have hmatch : (r.pattern s).match? (mask a) = some c := by
        split at hc
        · exact hc
        · cases hc
      exact .inr ⟨r, c, Pattern.way_of_match hmatch, rfl, rfl⟩

/-! ### Closed statements -/

/-- Parameters with a quote among them cannot be read. -/
theorem exists_error_of_quote {q : Char} (hq : isQuote q = true) {params : List Char}
    (h : q ∈ params) : ∃ c, readParams params = .error c := by
  -- the text between gaps that the quote stands in
  obtain ⟨part, hpart, hmem⟩ : ∃ part ∈ params.splitBy fun x y =>
      splitParams.isGap x == splitParams.isGap y, q ∈ part := by
    rw [← List.flatten_splitBy (fun x y => splitParams.isGap x == splitParams.isGap y) params] at h
    exact List.mem_flatten.1 h
  have hquote : splitParams.isGap q = false := by
    rcases eq_or_eq_of_isQuote hq with rfl | rfl <;> rfl
  have hchain : (part.map splitParams.isGap).IsChain (· = ·) :=
    (List.isChain_map _).2
      ((List.isChain_of_mem_splitBy hpart).imp fun _ _ hxy => by simpa using hxy)
  have hgap : ∀ x ∈ part, splitParams.isGap x = false := by
    intro x hx
    by_contra hne
    have heq := hchain.pairwise.forall (List.mem_map_of_mem hx) (List.mem_map_of_mem hmem)
    exact hne ((heq (by rwa [hquote])).trans hquote)
  have hparam : part ∈ splitParams params := by
    refine List.mem_filter.2 ⟨hpart, ?_⟩
    simpa using hgap
  have hidentifier : isIdentifier part = false := by
    cases part with
    | nil => rfl
    | cons x part =>
      rw [isIdentifier, Bool.and_eq_false_iff]
      rcases List.mem_cons.1 hmem with rfl | hmem
      · exact .inl (passesQuotes_isIdentStart.eq_false hq)
      · refine .inr (Bool.eq_false_iff.2 fun hall => ?_)
        have hchar := List.all_eq_true.1 hall q hmem
        rw [passesQuotes_isIdentChar.eq_false hq] at hchar
        cases hchar
  unfold readParams
  dsimp only
  split
  next p _ => exact ⟨_, rfl⟩
  next hnone =>
    have := List.find?_eq_none.1 hnone part hparam
    simp [hidentifier] at this

theorem readParams_veiled {x y : List Char} (h : Veiled x y) :
    Parallel Malformed Eq (readParams x) (readParams y) := by
  by_cases hx : QuoteFree x
  · rw [← h.eq_of_quoteFree hx]
    cases hp : readParams x with
    | ok ps => exact .ok rfl
    | error c => exact .error ⟨malformed_of_readParams hp, malformed_of_readParams hp⟩
  · have hy : ¬ QuoteFree y := fun hy => hx (h.symm.eq_of_quoteFree hy ▸ hy)
    have hquote : ∀ {z : List Char}, ¬ QuoteFree z → ∃ c, readParams z = .error c := by
      intro z hz
      simp only [QuoteFree, not_forall, Bool.not_eq_false] at hz
      obtain ⟨q, hmem, hq⟩ := hz
      exact exists_error_of_quote hq hmem
    obtain ⟨c, hc⟩ := hquote hx
    obtain ⟨c', hc'⟩ := hquote hy
    rw [hc, hc']
    exact .error ⟨malformed_of_readParams hc, malformed_of_readParams hc'⟩

section Closed

variable {s : Symbols} {β : Blur} {line line' : SourceLine} {a b : List Char}

theorem veiled_mark (hs : s.Plain) {m : String} (hm : m ∈ s.marks) : Veiled m.toList m.toList :=
  .refl (hs.plain m hm).quoteFree (hs.inLine m hm)

theorem Veiled.withMark (hs : s.Plain) (h : Veiled a b) {m : String} (hm : m ∈ s.marks) :
    Veiled (LineScript.withMark a m) (LineScript.withMark b m) := by
  have hblank : Veiled [' '] [' '] := .refl (quoteFree_singleton rfl) (by decide)
  exact h.append (hblank.append (veiled_mark hs hm))

/-- Statements that say the same, or both are inclusions. -/
def Item.Matches (s : Symbols) (β : Blur) (line line' : SourceLine) (text : List Char) (item : Item)
    (text' : List Char) (item' : Item) : Prop :=
  (∃ locator locator', item = .inclusion locator ∧ item' = .inclusion locator') ∨
    Item.Like s β line line' text item text' item'

/-- The target of an import is a literal, or a name. -/
theorem target_cases (hs : s.Plain) {c : Cursor} (hline : '\n' ∉ a)
    (h : (Rule.pattern s .importing).Way ⟨0, mask a, []⟩ c) :
    (∃ q rest, isQuote q = true ∧ (Rule.importing.matchAt s a c).part "target" = q :: rest) ∨
      QuoteFree ((Rule.importing.matchAt s a c).part "target") := by
  obtain ⟨-, -, i, hgroups, hshape⟩ := importing_endsIn hs hline h
  have hpart : (Rule.importing.matchAt s a c).part "target" = a.drop i := by
    change ((Rule.importing.matchAt s a c).part? "target").getD [] = _
    rw [part?_eq_slice (by decide), hgroups, List.find?_cons_of_pos (by simp)]
    exact slice_length a i
  rwa [hpart]

/-- Imports of the same masked form are both inclusions, or the same import. -/
theorem matches_ofTarget {x y : List Char} (h : Veiled x y)
    (hx : (∃ q rest, isQuote q = true ∧ x = q :: rest) ∨ QuoteFree x) :
    Item.Matches s β line line' a (.ofTarget x) b (.ofTarget y) := by
  rcases hx with ⟨q, rest, hq, rfl⟩ | hx
  · cases y with
    | nil => cases h.mask_eq
    | cons d y =>
      obtain rfl : q = d := (List.cons.inj h.mask_eq).1
      exact .inl ⟨rest.dropLast, y.dropLast, if_pos hq, if_pos hq⟩
  · obtain rfl := h.eq_of_quoteFree hx
    unfold Item.ofTarget
    split
    next c rest =>
      rw [hx c List.mem_cons_self]
      exact .inr .importing
    next => exact .inr .importing

variable (hs : s.Plain) (hβ : ∀ x y, β.string x = β.string y) (hline : β.line line = β.line line')

include hs hβ hline

/-- Closed texts with the same masked form say the same up to strings. -/
theorem saysAlike_of_veiled (h : Veiled a b) : SaysAlike s β line line' a b := by
  refine saysAlike_of_read hline (isEmpty_strip_congr h.mask_eq) fun words hwords => ?_
  obtain ⟨words', hwords', hgrammar⟩ := hs.grammar
  obtain rfl : words = words' := Except.ok.inj (hwords.symm.trans hwords')
  exact h.strip.twin.read hβ hgrammar

/-- **Closed statements with the same masked form are of the same form:** both are blocks on one
line, whose parts are such statements again, or they say the same. -/
theorem classify_veiled (h : Veiled a b) :
    (∃ block block', classify s a = .inline block ∧ classify s b = .inline block' ∧
        List.Forall₂ Veiled (block.parts s) (block'.parts s)) ∨
      ∃ item item', classify s a = .item item ∧ classify s b = .item item' ∧
        Item.Matches s β line line' a item b item' := by
  unfold classify
  rcases findRule?_of_mask_eq s h.mask_eq with ⟨ha, hb⟩ | ⟨r, c, hway, ha, hb⟩ <;> rw [ha, hb]
  · exact .inr ⟨_, _, rfl, rfl, .inr (.expression (saysAlike_of_veiled hs hβ hline h))⟩
  -- the same rule matches both with its groups at the same offsets, so each group is veiled
  have hc := (closed_and_groomed_of_way hs h.left hway).2 h.closed
  have hpart : ∀ g ∈ r.groups, Veiled ((r.matchAt s a c).part g) ((r.matchAt s b c).part g) :=
    fun g hg => part_veiled h hc hg
  have halike : ∀ {x y}, Veiled x y → SaysAlike s β line line' x y :=
    saysAlike_of_veiled hs hβ hline
  have hloop : s.loop ∈ s.marks := by simp [Symbols.marks]
  have hfunction : s.function ∈ s.marks := by simp [Symbols.marks]
  have hcond : s.conditional ∈ s.marks := by simp [Symbols.marks]
  have hother : s.otherwise ∈ s.marks := by simp [Symbols.marks]
  cases r with
  | comment | loopClose | functionClose | otherwise | ifClose =>
    exact .inr ⟨_, _, rfl, rfl, .inr (by constructor)⟩
  | loopOpen | elseIf | ifOpen =>
    exact .inr ⟨_, _, rfl, rfl, .inr (by constructor; exact halike (hpart _ (by decide)))⟩
  | inlineLoop =>
    have hhead := hpart "condition" (by decide)
    have hbody := hpart "body" (by decide)
    exact .inl ⟨_, _, rfl, rfl,
      .cons (hhead.withMark hs hloop) (.cons hbody (.cons (veiled_mark hs hloop) .nil))⟩
  | inlineFunction =>
    have hhead := hpart "header" (by decide)
    have hbody := hpart "body" (by decide)
    exact .inl ⟨_, _, rfl, rfl,
      .cons (hhead.withMark hs hfunction) (.cons hbody (.cons (veiled_mark hs hfunction) .nil))⟩
  | inlineIf =>
    have hhead := hpart "condition" (by decide)
    have hbody := hpart "then" (by decide)
    have hlast := part?_veiled (s := s) (r := .inlineIf) (g := "otherwise") h hc (by decide)
    refine .inl ⟨_, _, rfl, rfl, ?_⟩
    rcases none_or_some_of_rel hlast with ⟨ha, hb⟩ | ⟨x, y, ha, hb, hxy⟩ <;> rw [ha, hb]
    · exact .cons (hhead.withMark hs hcond) (.cons hbody (.cons (veiled_mark hs hcond) .nil))
    · exact .cons (hhead.withMark hs hcond) (.cons hbody (.cons (veiled_mark hs hother)
        (.cons hxy (.cons (veiled_mark hs hcond) .nil))))
  | functionOpen =>
    have hname := part_eq (s := s) (r := .functionOpen) (g := "name") h hc (by decide) rfl
    have hbare := hpart "bare" (by decide)
    have hparams := part?_veiled (s := s) (r := .functionOpen) (g := "params") h hc (by decide)
    refine .inr ⟨_, _, rfl, rfl, .inr ?_⟩
    rw [hname]
    refine .functionOpen (readParams_veiled ?_)
    rcases none_or_some_of_rel hparams with ⟨ha, hb⟩ | ⟨x, y, ha, hb, hxy⟩ <;> rw [ha, hb]
    · exact hbare
    · exact hxy
  | returning =>
    have hexpr := hpart "expression" (by decide)
    exact .inr ⟨_, _, rfl, rfl,
      .inr (.returning (isEmpty_strip_congr hexpr.mask_eq) (halike hexpr))⟩
  | importing =>
    have htarget := hpart "target" (by decide)
    exact .inr ⟨_, _, rfl, rfl, matches_ofTarget htarget (target_cases hs h.left hway)⟩
  | assignment =>
    have hname := part_eq (s := s) (r := .assignment) (g := "name") h hc (by decide) rfl
    have hoperator := part?_eq (s := s) (r := .assignment) (g := "operator") h hc (by decide) rfl
    have hexpr := hpart "expression" (by decide)
    refine .inr ⟨_, _, rfl, rfl, .inr ?_⟩
    rw [hname, hoperator]
    exact .assignment (halike hexpr)
  | bareCall =>
    have hname := part_eq (s := s) (r := .bareCall) (g := "name") h hc (by decide) rfl
    have hname' := hpart "name" (by decide)
    have hargs := hpart "arguments" (by decide)
    refine .inr ⟨_, _, rfl, rfl, .inr ?_⟩
    rw [← hname] at hname' ⊢
    refine .bareCall (halike ?_)
    have hopen : Veiled ['('] ['('] := .refl (quoteFree_singleton rfl) (by decide)
    have hclose : Veiled [')'] [')'] := .refl (quoteFree_singleton rfl) (by decide)
    have hcall := hname'.append (hopen.append (hargs.append hclose))
    simpa using hcall

end Closed

/-! ### Statements with an open literal -/

section Unclosed

variable {s : Symbols} {x : List Char}

theorem isEmpty_strip_of_not_closed (hx : ¬ Closed x) : (strip x).isEmpty = false := by
  cases hnil : strip x with
  | nil => exact absurd (closed_strip.1 (hnil ▸ closed_nil)) hx
  | cons => rfl

/-- A text with an open literal is no expression. -/
theorem readExpression_unclosed (hs : s.Plain) (hx : ¬ Closed x) (hline : '\n' ∉ x)
    (line : SourceLine) :
    ∃ c, c.kind = .malformed ∧ readExpression s line x = .error (.atLine c line) := by
  have hstrip : ¬ Closed (strip x) := fun h => hx (closed_strip.1 h)
  have hline' : '\n' ∉ strip x := fun h => hline ((strip_sublist x).subset h)
  have hempty := isEmpty_strip_of_not_closed hx
  obtain ⟨words, hwords, hgrammar⟩ := hs.grammar
  have htwin : Twin false (strip x) (strip x) :=
    twin_of_mask_eq (iff_of_false Bool.noConfusion hstrip) rfl hline' hline'
  obtain ⟨d, hd⟩ := htwin.read_unclosed hgrammar
  refine ⟨.invalidExpression (String.ofList (strip x)) d, rfl, ?_⟩
  unfold readExpression
  simp only [hempty, hwords, hd]
  rfl

/-- No builder takes the statement: it is an error on its line. -/
def SourceStatement.Fails (s : Symbols) (st : SourceStatement) : Prop :=
  ∀ b : Builder, ∃ c, c.kind = .malformed ∧
    b.apply s st.line st.text st.item = .error (.atLine c st.line)

/-- Statements that fail, on lines of which the same is left, fail alike. -/
theorem SourceStatement.Fails.actsLike {β : Blur} {st st' : SourceStatement} (h : st.Fails s)
    (h' : st'.Fails s) (hline : β.line st.line = β.line st'.line) : st.ActsLike s β st' := by
  intro b b' _
  obtain ⟨c, hc, hb⟩ := h b
  obtain ⟨c', hc', hb'⟩ := h' b'
  rw [hb, hb']
  exact .error (.malformed ⟨hc, hc'⟩ hline)

/-- The match behind a form that some rule gives. -/
theorem classify_cases (s : Symbols) (x : List Char) :
    classify s x = .item .expression ∨ ∃ (r : Rule) (c : Cursor),
      (r.pattern s).Way ⟨0, mask x, []⟩ c ∧ classify s x = (r.matchAt s x c).form := by
  unfold classify
  rcases findRule?_of_mask_eq s (rfl : mask x = mask x) with
    ⟨hx, -⟩ | ⟨r, c, hway, hx, -⟩ <;> rw [hx]
  · exact .inl rfl
  · exact .inr ⟨r, c, hway, rfl⟩

/-- The parentheses around arguments do not close a literal in them. -/
theorem not_closed_call {name args : List Char} (hname : QuoteFree name) (hargs : ¬ Closed args) :
    ¬ Closed (name ++ '(' :: args ++ [')']) := by
  have hopen : QuoteFree ['('] := quoteFree_singleton rfl
  have hclose : QuoteFree [')'] := quoteFree_singleton rfl
  rw [closed_append_quoteFree hclose, (closed_of_quoteFree hname).append_iff,
    ← List.singleton_append, (closed_of_quoteFree hopen).append_iff]
  exact hargs

/-- **A statement with an open literal is a comment, or it fails.** -/
theorem classify_unclosed (hs : s.Plain) (hx : ¬ Closed x) (hline : '\n' ∉ x) :
    classify s x = .item .comment ∨ ∃ item, classify s x = .item item ∧
      ∀ line, SourceStatement.Fails s ⟨line, x, item⟩ := by
  have hread : ∀ {y : List Char} (line : SourceLine), ¬ Closed y → '\n' ∉ y →
      ∃ c, c.kind = .malformed ∧ readExpression s line y = .error (.atLine c line) :=
    fun line hy hline => readExpression_unclosed hs hy hline line
  rcases classify_cases s x with hform | ⟨r, c, hway, hform⟩ <;> rw [hform]
  · refine .inr ⟨.expression, rfl, fun line b => ?_⟩
    obtain ⟨cause, hcause, herror⟩ := hread line hx hline
    refine ⟨cause, hcause, ?_⟩
    simp only [Builder.apply, herror]
    rfl
  -- a rule whose match ends in a mark leaves no literal open
  have hopen : r.isOpenEnded = true := by
    by_contra hr
    exact hx ((closed_and_groomed_of_way hs hline hway).1 (Bool.eq_false_iff.2 hr))
  cases r with
  | comment => exact .inl rfl
  | returning =>
    obtain ⟨hpart, hline'⟩ := not_closed_part (s := s) (r := .returning)
      (returning_endsIn hs hline hway) (by decide) hx hline
    refine .inr ⟨_, rfl, fun line b => ?_⟩
    obtain ⟨cause, hcause, herror⟩ := hread line hpart hline'
    -- outside of functions a return is refused before its expression is read
    by_cases hinside : b.insideFunction = true
    · refine ⟨cause, hcause, ?_⟩
      simp only [Builder.apply, Builder.returning, hinside, isEmpty_strip_of_not_closed hpart,
        herror]
      rfl
    · refine ⟨.returnOutside, rfl, ?_⟩
      simp only [Builder.apply, Builder.returning, hinside]
      rfl
  | assignment =>
    obtain ⟨hpart, hline'⟩ := not_closed_part (s := s) (r := .assignment)
      (assignment_endsIn hs hline hway) (by decide) hx hline
    refine .inr ⟨_, rfl, fun line b => ?_⟩
    obtain ⟨cause, hcause, herror⟩ := hread line hpart hline'
    refine ⟨cause, hcause, ?_⟩
    simp only [Builder.apply, Builder.assignment, herror]
    rfl
  | bareCall =>
    have hends := bareCall_endsIn hs hline hway
    obtain ⟨hpart, hline'⟩ := not_closed_part (s := s) (r := .bareCall) hends (by decide) hx hline
    obtain ⟨hname, hnameLine⟩ :=
      quoteFree_name_of_endsIn (s := s) (r := .bareCall) hends (by decide) (by decide) hline
    have hcall := not_closed_call hname hpart
    have hcallLine : '\n' ∉ (Rule.bareCall.matchAt s x c).part "name" ++
        '(' :: (Rule.bareCall.matchAt s x c).part "arguments" ++ [')'] := by
      simp [hnameLine, hline']
    refine .inr ⟨_, rfl, fun line b => ?_⟩
    obtain ⟨cause, hcause, herror⟩ := hread line hcall hcallLine
    refine ⟨cause, hcause, ?_⟩
    simp only [Builder.apply, Builder.bareCall, herror]
    rfl
  | _ => cases hopen

/-- Where no blank stands at the front of a masked form, the comment mark does if the rule for
comments matches. -/
theorem isPrefixOf_of_comment_way {c : Cursor}
    (hhead : ∀ d rest, mask x = d :: rest → isBlank d = false)
    (h : (Rule.pattern s .comment).Way ⟨0, mask x, []⟩ c) :
    s.comment.toList.isPrefixOf (mask x) = true := by
  obtain ⟨mid, ⟨n, hrun, rfl⟩, hfits, -⟩ := h
  cases n with
  | zero => exact List.isPrefixOf_iff_prefix.2 hfits
  | succ n =>
    dsimp only at hrun
    cases hmask : mask x with
    | nil => rw [hmask] at hrun; exact hrun.elim
    | cons d rest =>
      rw [hmask] at hrun
      exact absurd (hrun.1.symm.trans (hhead d rest hmask)) Bool.noConfusion

/-- With the comment mark at its very front a statement is matched by the rule for comments, which
is the first one. -/
theorem findRule?_of_isPrefixOf_comment
    (hhead : ∀ d rest, mask x = d :: rest → isBlank d = false)
    (h : s.comment.toList.isPrefixOf (mask x) = true) :
    findRule? s x = some (Rule.comment.matchAt s x
      (Cursor.advance ⟨0, mask x, []⟩ s.comment.toList.length)) := by
  have htext : ∀ c : Cursor, c.rest = mask x →
      (Pattern.text s.comment.toList).run c some =
        some (c.advance s.comment.toList.length) := by
    intro c hc
    rw [Pattern.run, hc, if_pos h]
  -- no blank stands before the mark, so the first way is taken
  have hmatch : (Rule.pattern s .comment).match? (mask x) =
      some (Cursor.advance ⟨0, mask x, []⟩ s.comment.toList.length) := by
    change longestFirst _ [] (fun c => (Pattern.text s.comment.toList).run c some) 0 (mask x) = _
    cases hmask : mask x with
    | nil => rw [longestFirst_nil, htext _ hmask.symm]
    | cons d rest => rw [longestFirst_cons_of_not (hhead d rest hmask), htext _ hmask.symm]
  unfold findRule? Rule.all
  dsimp only
  rw [List.findSome?_cons, matchRule?_eq, hmatch]
  rfl

/-- A statement that begins with no blank is a comment if it begins with the comment mark. -/
theorem classify_eq_comment_iff (hx : ∀ c rest, x = c :: rest → isBlank c = false) :
    classify s x = .item .comment ↔ s.comment.toList.isPrefixOf (mask x) = true := by
  have hhead : ∀ c rest, mask x = c :: rest → isBlank c = false := by
    intro c rest hmask
    cases x with
    | nil => cases hmask
    | cons d x =>
      obtain rfl : d = c := (List.cons.inj hmask).1
      exact hx d x rfl
  constructor
  · intro hform
    rcases classify_cases s x with hform' | ⟨r, c, hway, hform'⟩ <;> rw [hform'] at hform
    · cases hform
    · cases r with
      | comment => exact isPrefixOf_of_comment_way hhead hway
      | importing =>
        simp only [RuleMatch.form, Rule.matchAt, Item.ofTarget] at hform
        split at hform
        · split at hform <;> cases hform
        · cases hform
      | _ => cases hform
  · intro hfits
    unfold classify
    rw [findRule?_of_isPrefixOf_comment hhead hfits]
    rfl

end Unclosed

/-! ### Expansion -/

section Lines

variable {s : Symbols} {β : Blur} {line line' : SourceLine}

variable (hs : s.Plain) (hβ : ∀ x y, β.string x = β.string y) (hline : β.line line = β.line line')

include hs hβ hline

theorem expandUpTo_veiled : ∀ (n : Nat) {a b : List Char}, Veiled a b →
      List.Forall₂ (fun p p' => Item.Matches s β line line' p.1 p.2 p'.1 p'.2) (expandUpTo s n a)
        (expandUpTo s n b) := by
  intro n
  induction n with
  | zero =>
    intro a b h
    rw [expandUpTo, expandUpTo]
    rcases classify_veiled hs hβ hline h with
      ⟨block, block', ha, hb, -⟩ | ⟨item, item', ha, hb, hitem⟩ <;> rw [ha, hb]
    · exact .cons (.inr (.expression (saysAlike_of_veiled hs hβ hline h))) .nil
    · exact .cons hitem .nil
  | succ n ih =>
    intro a b h
    rw [expandUpTo, expandUpTo]
    rcases classify_veiled hs hβ hline h with
      ⟨block, block', ha, hb, hparts⟩ | ⟨item, item', ha, hb, hitem⟩ <;> rw [ha, hb]
    · dsimp only
      generalize block.parts s = parts, block'.parts s = parts' at hparts
      induction hparts with
      | nil => exact .nil
      | cons hpart _ ihparts =>
        rw [List.flatMap_cons, List.flatMap_cons]
        exact List.rel_append (ih hpart.strip) ihparts
    · exact .cons hitem .nil

/-! ### Lines -/

/-- Statements that do the same, or both are inclusions. -/
def SourceStatement.Matches (s : Symbols) (β : Blur) (st st' : SourceStatement) : Prop :=
  (∃ locator locator', st.item = .inclusion locator ∧ st'.item = .inclusion locator') ∨
    st.ActsLike s β st'

omit hs hβ in
theorem SourceStatement.matches_of_item {p p' : List Char × Item}
    (h : Item.Matches s β line line' p.1 p.2 p'.1 p'.2) :
    Matches s β ⟨line, p.1, p.2⟩ ⟨line', p'.1, p'.2⟩ :=
  h.imp id fun hlike _ _ hb => Builder.apply_like hline hb hlike

omit hs hβ hline in
/-- The comment mark stands before the open literal of a statement, if at all. -/
theorem isPrefixOf_strip_of_not_closed {m u : List Char} (hm : QuoteFree m) (hu : ¬ Closed u) :
    m.isPrefixOf (strip u) = m.isPrefixOf (stripLeft u) := by
  rw [Bool.eq_iff_iff, List.isPrefixOf_iff_prefix, List.isPrefixOf_iff_prefix]
  have hprefix := strip_prefix_stripLeft u
  refine ⟨fun h => h.trans hprefix, fun h => ?_⟩
  -- what stands before the end of the mark has no quotes, so no literal is open there
  refine (List.prefix_or_prefix_of_prefix h hprefix).resolve_right fun hle => hu ?_
  exact closed_strip.1 (closed_of_quoteFree fun c hc => hm c (hle.subset hc))

/-- What statements of the same masked form stand for. -/
theorem expand_mask {u v : List Char} (h : mask u = mask v) (hu : '\n' ∉ u) (hv : '\n' ∉ v) :
    List.Forall₂ (SourceStatement.Matches s β)
      ((expand s (strip u)).map fun p => ⟨line, p.1, p.2⟩)
      ((expand s (strip v)).map fun p => ⟨line', p.1, p.2⟩) := by
  have hu' : '\n' ∉ strip u := fun hmem => hu ((strip_sublist u).subset hmem)
  have hv' : '\n' ∉ strip v := fun hmem => hv ((strip_sublist v).subset hmem)
  by_cases hclosed : Closed u
  · have hveiled : Veiled (strip u) (strip v) := (Veiled.mk h hclosed hu hv).strip
    unfold expand
    rw [← hveiled.length_eq, List.forall₂_map_left_iff, List.forall₂_map_right_iff]
    exact (expandUpTo_veiled hs hβ hline _ hveiled).imp fun p p' hp =>
      SourceStatement.matches_of_item hline hp
  · have hclosed' : ¬ Closed v := fun hc => hclosed ((closed_congr h).2 hc)
    have hopen : ¬ Closed (strip u) := fun hc => hclosed (closed_strip.1 hc)
    have hopen' : ¬ Closed (strip v) := fun hc => hclosed' (closed_strip.1 hc)
    have hmark : QuoteFree s.comment.toList :=
      (hs.mark s.comment).1.quoteFree
    -- both are comments, or neither is
    have hcomment :
        classify s (strip u) = .item .comment ↔ classify s (strip v) = .item .comment := by
      rw [classify_eq_comment_iff fun _ _ => isBlank_of_strip_eq_cons,
        classify_eq_comment_iff fun _ _ => isBlank_of_strip_eq_cons, isPrefixOf_mask hmark,
        isPrefixOf_mask hmark, isPrefixOf_strip_of_not_closed hmark hclosed,
        isPrefixOf_strip_of_not_closed hmark hclosed', ← isPrefixOf_mask hmark (stripLeft u),
        ← isPrefixOf_mask hmark (stripLeft v), mask_stripLeft, mask_stripLeft, h]
    rcases classify_unclosed hs hopen hu' with hform | ⟨item, hform, hfails⟩
    · rw [expand_of_item hform, expand_of_item (hcomment.1 hform)]
      exact .cons (SourceStatement.matches_of_item hline (.inr .comment)) .nil
    · rcases classify_unclosed hs hopen' hv' with hform' | ⟨item', hform', hfails'⟩
      · -- a comment does not fail
        have hitem := hcomment.2 hform'
        rw [hform] at hitem
        cases hitem
        obtain ⟨c, -, hc⟩ := hfails line {}
        cases hc
      · rw [expand_of_item hform, expand_of_item hform']
        exact .cons (.inr ((hfails line).actsLike (hfails' line') hline)) .nil

/-- **Lines with the same masked form have statements that do the same.** -/
theorem lineStatements_mask (h : mask line.text.toList = mask line'.text.toList)
    (hn : '\n' ∉ line.text.toList) (hn' : '\n' ∉ line'.text.toList) :
    List.Forall₂ (SourceStatement.Matches s β) (lineStatements s line)
      (lineStatements s line') := by
  have hcomment : isComment s.comment.toList line.text.toList =
      isComment s.comment.toList line'.text.toList := by
    have hmark : QuoteFree s.comment.toList :=
      (hs.mark s.comment).1.quoteFree
    unfold isComment
    rw [← isPrefixOf_mask hmark (stripLeft line.text.toList),
      ← isPrefixOf_mask hmark (stripLeft line'.text.toList), mask_stripLeft, mask_stripLeft, h]
  obtain ⟨hsep, hne⟩ := hs.mark s.separator
  have hparts := splitStatements_mask hsep hne h
  have hmem : ∀ x ∈ splitStatements s.separator.toList line.text.toList, '\n' ∉ x :=
    fun x hx hc => hn (mem_of_mem_splitStatements hsep hne hx hc)
  have hmem' : ∀ x ∈ splitStatements s.separator.toList line'.text.toList, '\n' ∉ x :=
    fun x hx hc => hn' (mem_of_mem_splitStatements hsep hne hx hc)
  unfold lineStatements
  dsimp only
  rw [isEmpty_strip_congr h, hcomment]
  split
  · exact .nil
  generalize splitStatements s.separator.toList line.text.toList = parts at hparts hmem
  generalize splitStatements s.separator.toList line'.text.toList = parts' at hparts hmem'
  induction hparts with
  | nil => exact .nil
  | @cons u v parts parts' huv _ ih =>
    have ih := ih (fun x hx => hmem x (List.mem_cons_of_mem u hx))
      (fun x hx => hmem' x (List.mem_cons_of_mem v hx))
    rw [List.map_cons, List.map_cons, List.filter_cons, List.filter_cons, isEmpty_strip_congr huv]
    split
    · rw [List.flatMap_cons, List.flatMap_cons]
      exact List.rel_append (expand_mask hs hβ hline huv (hmem u List.mem_cons_self)
        (hmem' v List.mem_cons_self)) ih
    · exact ih

end Lines

/-! ### Texts -/

/-- The blur that leaves nothing of the texts of strings and lines. -/
def unsaid : Blur := ⟨fun line => { line with text := "" }, fun _ => ""⟩

section Texts

variable {s : Symbols}

/-- Texts whose lines have the same masked forms have statements that do the same. -/
theorem statementsOf_mask (hs : s.Plain) (origin : Option String) {a b : List Char}
    (h : List.Forall₂ (fun x y => mask x = mask y) (splitLines a) (splitLines b)) :
    List.Forall₂ (SourceStatement.Matches s unsaid) (statementsOf s origin a)
      (statementsOf s origin b) := by
  have ha : ∀ x ∈ splitLines a, '\n' ∉ x := fun x hx => newline_notMem_of_mem_splitLines hx
  have hb : ∀ y ∈ splitLines b, '\n' ∉ y := fun y hy => newline_notMem_of_mem_splitLines hy
  unfold statementsOf sourceLines
  -- the lines are numbered alike
  generalize 1 = n
  generalize splitLines a = lines, splitLines b = lines' at h ha hb
  induction h generalizing n with
  | nil => exact .nil
  | @cons x y lines lines' hxy _ ih =>
    rw [numberLines, numberLines, List.flatMap_cons, List.flatMap_cons]
    have hline :
        unsaid.line ⟨n, String.ofList x, origin⟩ = unsaid.line ⟨n, String.ofList y, origin⟩ := rfl
    have hfirst := lineStatements_mask hs (fun _ _ => rfl) hline (by simpa using hxy)
      (by simpa using ha x List.mem_cons_self) (by simpa using hb y List.mem_cons_self)
    exact List.rel_append hfirst (ih (n + 1) (fun z hz => ha z (List.mem_cons_of_mem x hz))
      (fun z hz => hb z (List.mem_cons_of_mem y hz)))

variable {τ : Type}

/-- Statements without inclusions are their own spliced stream. -/
theorem spliced_self (load : Loader τ) (p : Place) (t : τ) : ∀ {sts : List SourceStatement},
    (∀ st ∈ sts, ∀ locator, st.item ≠ .inclusion locator) → Spliced s load p sts t [] 0 sts t
  | [], _ => .nil
  | st :: _, h => .keep (h st List.mem_cons_self)
      (spliced_self load p t fun st' hst' => h st' (List.mem_cons_of_mem st hst'))

/-- A text without inclusions is the script of its statements. -/
theorem parse_of_no_inclusion (load : Loader τ) (base origin : Option String) (source : String)
    (t : τ)
    (h : ∀ st ∈ statementsOf s origin source.toList, ∀ locator, st.item ≠ .inclusion locator) :
    (parse s load base origin source t).1 =
      streamScript s (firstLine origin source.toList) (statementsOf s origin source.toList) :=
  parseWithin_of_spliced base origin source (spliced_self load _ t h) (by decide)

/-- **What stands inside string literals does not shape a script.**  Take two texts of as many
lines, of which the lines that correspond have the same masked form, and in which no statement is
an inclusion.  Both are scripts, which are the same up to the texts of strings and lines; or both
are rejected as not well formed on lines of the same number; or both have an integer of the same
number of digits that is too long to be converted, and fail for that. -/
theorem parse_of_mask_eq {τ' : Type} (load : Loader τ) (load' : Loader τ')
    (base base' origin : Option String) (a b : String) (t : τ) (t' : τ')
    (hmask : List.Forall₂ (fun x y => mask x = mask y) (splitLines a.toList) (splitLines b.toList))
    (ha : ∀ st ∈ statementsOf standardSymbols origin a.toList,
      ∀ locator, st.item ≠ .inclusion locator)
    (hb : ∀ st ∈ statementsOf standardSymbols origin b.toList,
      ∀ locator, st.item ≠ .inclusion locator) :
    (∃ script script', (parse standardSymbols load base origin a t).1 = .ok script ∧
        (parse standardSymbols load' base' origin b t').1 = .ok script' ∧
        script.blur unsaid = script'.blur unsaid) ∨
      (∃ c c' line line', (parse standardSymbols load base origin a t).1 = .error (.atLine c line) ∧
        (parse standardSymbols load' base' origin b t').1 = .error (.atLine c' line') ∧
        c.kind = .malformed ∧ c'.kind = .malformed ∧ line.number = line'.number) ∨
      ∃ n, digitLimit < n ∧
        (parse standardSymbols load base origin a t).1 = .error (.fault (tooManyDigits n)) ∧
        (parse standardSymbols load' base' origin b t').1 = .error (.fault (tooManyDigits n)) := by
  have hmatches := statementsOf_mask plain_standard origin hmask
  have hacts : List.Forall₂ (SourceStatement.ActsLike standardSymbols unsaid)
      (statementsOf standardSymbols origin a.toList)
      (statementsOf standardSymbols origin b.toList) := by
    clear hb hmask
    generalize statementsOf standardSymbols origin a.toList = sts,
      statementsOf standardSymbols origin b.toList = sts' at hmatches ha
    induction hmatches with
    | nil => exact .nil
    | @cons st st' sts sts' hst _ ih =>
      refine .cons (hst.resolve_left ?_) (ih fun z hz => ha z (List.mem_cons_of_mem st hz))
      rintro ⟨locator, -, hlocator, -⟩
      exact ha st List.mem_cons_self locator hlocator
  have hline :
      unsaid.line (firstLine origin a.toList) = unsaid.line (firstLine origin b.toList) := rfl
  have hparallel := streamScript_like hacts hline
  rw [← parse_of_no_inclusion load base origin a t ha,
    ← parse_of_no_inclusion load' base' origin b t' hb] at hparallel
  generalize (parse standardSymbols load base origin a t).1 = x at hparallel ⊢
  generalize (parse standardSymbols load' base' origin b t').1 = y at hparallel ⊢
  cases hparallel with
  | ok hscript => exact .inl ⟨_, _, rfl, rfl, hscript⟩
  | error hfailure =>
    cases hfailure with
    | malformed hc hline =>
      have hnumber := congrArg SourceLine.number hline
      exact .inr (.inl ⟨_, _, _, _, rfl, rfl, hc.1, hc.2, hnumber⟩)
    | fault hfault =>
      rcases hfault with hwords | ⟨n, hn, rfl⟩
      · cases hwords
      · exact .inr (.inr ⟨n, hn, rfl, rfl⟩)

/-- What an inclusion locates. -/
def Item.locator? : Item → Option (List Char)
  | .inclusion locator => some locator
  | _ => none

/-- Two functions that return strings with marks in them: what stands in the strings is no separator
and closes no function. -/
theorem parse_marks_in_strings :
    ∃ script script',
      (parse standardSymbols shelf none none "f n #\n~ 'a;#' + \"\\\"@\"\n#" ()).1 = .ok script ∧
      (parse standardSymbols shelf none none "f n #\n~ '??@' + \"'$'\"\n#" ()).1 = .ok script' ∧
      script.blur unsaid = script'.blur unsaid := by
  have hmask : List.Forall₂ (fun x y => mask x = mask y)
      (splitLines "f n #\n~ 'a;#' + \"\\\"@\"\n#".toList)
      (splitLines "f n #\n~ '??@' + \"'$'\"\n#".toList) := by
    decide +kernel
  have hitems : ∀ {sts : List SourceStatement}, (sts.all fun st => st.item.locator?.isNone) = true →
      ∀ st ∈ sts, ∀ locator, st.item ≠ .inclusion locator := by
    intro sts hsts st hst locator hitem
    have hnone := List.all_eq_true.1 hsts st hst
    rw [hitem] at hnone
    cases hnone
  have ha : ∀ st ∈ statementsOf standardSymbols none "f n #\n~ 'a;#' + \"\\\"@\"\n#".toList,
      ∀ locator, st.item ≠ .inclusion locator := hitems (by decide +kernel)
  have hb : ∀ st ∈ statementsOf standardSymbols none "f n #\n~ '??@' + \"'$'\"\n#".toList,
      ∀ locator, st.item ≠ .inclusion locator := hitems (by decide +kernel)
  have hok : (parse standardSymbols shelf none none "f n #\n~ 'a;#' + \"\\\"@\"\n#" ()).1.map
      (fun _ => ()) = .ok () := by
    decide +kernel
  rcases parse_of_mask_eq shelf shelf none none none _ _ () () hmask ha hb with
    hparsed | ⟨c, -, line, -, herror, -⟩ | ⟨n, -, herror, -⟩
  · exact hparsed
  · rw [herror] at hok
    cases hok
  · rw [herror] at hok
    cases hok

end Texts

end LineScript
