import LineScript.Proofs.BlockTree
import LineScript.Proofs.Captures
import LineScript.Proofs.ReadAnywhere

/-!
# Blocks on one line mean their lines

A loop, a function or a conditional on one line stands for the statements that its lines would be:
the head with its mark, the bodies, the marks between and behind them.  The parts that are captured
are the very texts the line was put together from, and each of them stands for the same statements
when it has a line of its own.  What the statements do to a builder depends on neither their lines
nor the blanks in front of a mark.  So the two texts are the same script up to lines, or both are
none.

## Main definitions

* `Echoes` — statements that are the same up to what only errors tell.
* `Agree` — outcomes that are the same up to lines, or are both failures.
* `codeIn` — what a line stands for.
* `IsSnippet`, `IsCondition`, `IsHeader` — bodies, conditions and heads of functions.

## Main results

* `parse_agree` — texts whose code is the same are the same script up to lines.
* `codeIn_of_inline` — a block on one line stands for what its parts stand for.
* `blocks_mean_their_lines` — **blocks on one line mean their lines.**
-/

namespace LineScript

/-! ### Statements that are the same -/

/-- Two statements, each with its text and what it is, are the same.  The text of a statement is
read when it is an expression; the parts of all others are taken out of it before. -/
def Echoes (st st' : List Char × Item) : Prop :=
  st'.2 = st.2 ∧ (st.2 = .expression → st'.1 = st.1)

theorem Echoes.refl (st : List Char × Item) : Echoes st st := ⟨rfl, fun _ => rfl⟩

theorem forall₂_echoes_refl (sts : List (List Char × Item)) : List.Forall₂ Echoes sts sts :=
  List.forall₂_same.2 fun st _ => .refl st

/-- The text of a statement and what it is. -/
def SourceStatement.said (st : SourceStatement) : List Char × Item := (st.text, st.item)

variable {text head : List Char} {block : OneLiner}

theorem Item.Like.of_ne_expression {s : Symbols} {β : Blur} {line line' : SourceLine}
    {text' : List Char} {item item' : Item} (hne : item ≠ .expression)
    (h : Item.Like s β line line' text item text' item') (text'' : List Char) :
    Item.Like s β line line' text item text'' item' := by
  cases h
  case expression => exact absurd rfl hne
  all_goals constructor <;> assumption

/-- Statements that are the same do the same to builders, up to lines. -/
theorem actsLike_of_echoes {s : Symbols} {st st' : SourceStatement} (h : Echoes st.said st'.said) :
    st.ActsLike s lineless st' := by
  obtain ⟨line, text, item⟩ := st
  obtain ⟨line', text', item'⟩ := st'
  obtain ⟨hitem, htext⟩ := h
  change item' = item at hitem
  subst hitem
  by_cases hexpr : item' = .expression
  · exact actsLike_lineless (htext hexpr) rfl
  by_cases hinc : ∃ locator, item' = .inclusion locator
  · obtain ⟨locator, rfl⟩ := hinc
    exact fun b b' hb => .ok hb
  · have hline : lineless.line line = lineless.line line' := rfl
    have hlike := itemLike_lineless (s := s) line line' text fun locator heq => hinc ⟨locator, heq⟩
    exact fun b b' hb => Builder.apply_like hline hb (hlike.of_ne_expression hexpr text')

/-! ### Handing them over -/

section Feeding

variable {τ : Type} {s : Symbols} {load : Loader τ} {inner : Feeder τ}

theorem Parallel.forget {ε ε' α α' : Type} {E : ε → ε' → Prop} {R : α → α' → Prop}
    {x : Except ε α} {y : Except ε' α'} (h : Parallel E R x y) :
    Parallel (fun _ _ => True) R x y := by
  cases h with
  | ok ha => exact .ok ha
  | error _ => exact .error trivial

/-- Outcomes that agree: both are failures, or what they give is related; and the loader ends in
the same state. -/
def Agree {α : Type} (R : α → α → Prop) (o o' : Except Failure α × τ) : Prop :=
  Parallel (fun _ _ => True) R o.1 o'.1 ∧ o.2 = o'.2

/-- Builders that are the same up to lines. -/
def SameBuilder (b b' : Builder) : Prop := b.blur lineless = b'.blur lineless

/-- Scripts that are the same up to lines. -/
def SameScript (script script' : Script) : Prop := script.blur lineless = script'.blur lineless

theorem Agree.error {α : Type} {R : α → α → Prop} (f f' : Failure) (t : τ) :
    Agree R (.error f, t) (.error f', t) :=
  ⟨.error trivial, rfl⟩

/-- A way to hand over texts that does the same to builders that are the same up to lines. -/
def Feeder.Steady (inner : Feeder τ) : Prop :=
  ∀ (p : Place) (text : List Char) (t : τ) ⦃b b' : Builder⦄, SameBuilder b b' →
    Agree SameBuilder (inner p text b t) (inner p text b' t)

theorem feedInclusion_agree (hinner : inner.Steady) (p : Place) (line line' : SourceLine)
    (locator : String) (t : τ) {b b' : Builder} (hb : SameBuilder b b') :
    Agree SameBuilder (feedInclusion load inner p line locator b t)
      (feedInclusion load inner p line' locator b' t) := by
  unfold feedInclusion
  rcases load locator p.base t with ⟨f | ⟨text, origin⟩, t₁⟩
  · exact .error _ _ t₁
  · dsimp only
    split
    · exact .error _ _ t₁
    · cases text with
      | none => exact .error _ _ t₁
      | some text => exact hinner _ text t₁ hb

theorem feedItem_agree (hinner : inner.Steady) (p : Place) {st st' : SourceStatement}
    (hst : Echoes st.said st'.said) (t : τ) {b b' : Builder} (hb : SameBuilder b b') :
    Agree SameBuilder (feedItem s load inner p st b t) (feedItem s load inner p st' b' t) := by
  have hitem : st'.item = st.item := hst.1
  by_cases hinc : ∃ locator, st.item = .inclusion locator
  · obtain ⟨locator, hinc⟩ := hinc
    unfold feedItem
    rw [hitem, hinc]
    exact feedInclusion_agree hinner p st.line st'.line _ t hb
  · have hne : ∀ locator, st.item ≠ .inclusion locator := fun locator heq => hinc ⟨locator, heq⟩
    rw [feedItem_of_not_inclusion hne, feedItem_of_not_inclusion (hitem ▸ hne)]
    exact ⟨(actsLike_of_echoes hst b b' hb).forget, rfl⟩

/-- **Statements that are the same, one by one, do the same.** -/
theorem feedAll_agree (hinner : inner.Steady) (p : Place) {sts sts' : List SourceStatement}
    (h : List.Forall₂ (fun st st' => Echoes st.said st'.said) sts sts') :
    ∀ (t : τ) {b b' : Builder}, SameBuilder b b' →
      Agree SameBuilder (feedAll s load inner p sts b t) (feedAll s load inner p sts' b' t) := by
  induction h with
  | nil => exact fun t _ _ hb => ⟨.ok hb, rfl⟩
  | @cons st st' sts sts' hst _ ih =>
    intro t b b' hb
    have hitem : Agree SameBuilder (feedItem s load inner p st b t)
        (feedItem s load inner p st' b' t) := feedItem_agree hinner p hst t hb
    obtain ⟨hresult, hstate⟩ := hitem
    rw [feedAll, feedAll]
    rcases hf : feedItem s load inner p st b t with ⟨r, t₁⟩
    rcases hf' : feedItem s load inner p st' b' t with ⟨r', t₁'⟩
    rw [hf, hf'] at hresult hstate
    obtain rfl : t₁ = t₁' := hstate
    dsimp only at hresult
    cases hresult with
    | ok hb₁ => exact ih t₁ hb₁
    | error _ => exact .error _ _ t₁

/-- Texts are handed over alike, however deeply inclusions may be nested. -/
theorem steady_feed : ∀ n : Nat, (feed s load n).Steady
  | 0, _, _, t, _, _, _ => .error _ _ t
  | n + 1, p, _, t, _, _, hb =>
    feedAll_agree (steady_feed n) p (List.forall₂_same.2 fun st _ => .refl st.said) t hb

/-- **Texts whose code is the same are the same script up to lines**, or both are none. -/
theorem parse_agree (base origin : Option String) {source source' : String}
    (h : List.Forall₂ Echoes ((codeOf s origin source.toList).map SourceStatement.said)
      ((codeOf s origin source'.toList).map SourceStatement.said)) (t : τ) :
    Agree SameScript (parse s load base origin source t) (parse s load base origin source' t) := by
  rw [List.forall₂_map_left_iff, List.forall₂_map_right_iff] at h
  have hfeed : Agree SameBuilder
      (feed s load inclusionLimit (.outermost base origin) source.toList {} t)
      (feed s load inclusionLimit (.outermost base origin) source'.toList {} t) := by
    obtain ⟨n, hn⟩ : ∃ n, inclusionLimit = n + 1 := ⟨_, rfl⟩
    rw [hn, feed, feed, ← feedAll_filter, ← feedAll_filter load _ _ (statementsOf s _ source'.toList)]
    exact feedAll_agree (steady_feed n) _ h t rfl
  unfold parse parseWithin
  dsimp only
  generalize feed s load inclusionLimit (.outermost base origin) source.toList {} t = o at hfeed ⊢
  generalize feed s load inclusionLimit (.outermost base origin) source'.toList {} t = o' at hfeed ⊢
  obtain ⟨r, t₁⟩ := o
  obtain ⟨r', t₁'⟩ := o'
  obtain ⟨hresult, hstate⟩ := hfeed
  obtain rfl : t₁ = t₁' := hstate
  dsimp only at hresult
  cases hresult with
  | error _ => exact .error _ _ t₁
  | ok hb =>
    refine ⟨?_, rfl⟩
    exact (Builder.finish_like (s := s) hb).forget.map fun body body' hbody =>
      congrArg (Script.mk _) hbody

end Feeding

/-! ### Lines -/

/-- Nothing breaks the line. -/
def Unbroken (s : List Char) : Prop := ∀ c ∈ s, isLineBreak c = false

instance (s : List Char) : Decidable (Unbroken s) :=
  decidable_of_iff (s.all fun c => !isLineBreak c) (by
    simp only [Unbroken, List.all_eq_true, Bool.not_eq_true'])

/-- A part of a line of one statement: its literals have their ends, no separator stands outside of
them, and nothing breaks the line. -/
structure Fits (s : List Char) : Prop where
  closed : Closed s
  whole : ';' ∉ mask s
  unbroken : Unbroken s

theorem Fits.append {s t : List Char} (hs : Fits s) (ht : Fits t) : Fits (s ++ t) where
  closed := hs.closed.append_iff.2 ht.closed
  whole := by
    rw [mask_append hs.closed]
    exact fun hmem => (List.mem_append.1 hmem).elim hs.whole ht.whole
  unbroken := List.forall_mem_append.2 ⟨hs.unbroken, ht.unbroken⟩

theorem Undivided.fits {s : List Char} (h : Undivided s) (hline : Unbroken s) : Fits s where
  closed := h.closed
  whole hmem := Bool.noConfusion (h.free ';' hmem)
  unbroken := hline

/-- A line of one statement. -/
structure IsLine (text : List Char) : Prop extends Fits text where
  nonblank : ∃ c ∈ text, isBlank c = false

theorem Fits.append_isLine {s t : List Char} (hs : Fits s) (ht : IsLine t) : IsLine (s ++ t) := by
  obtain ⟨c, hmem, hc⟩ := ht.nonblank
  exact ⟨hs.append ht.toFits, c, List.mem_append_right s hmem, hc⟩

theorem IsLine.ne_nil (h : IsLine text) : text ≠ [] := by
  rintro rfl
  obtain ⟨c, hmem, -⟩ := h.nonblank
  exact List.not_mem_nil hmem

theorem IsLine.strip_ne_nil (h : IsLine text) : strip text ≠ [] := by
  intro hnil
  obtain ⟨c, hmem, hc⟩ := h.nonblank
  exact Bool.noConfusion (hc.symm.trans (strip_eq_nil.1 hnil c hmem))

/-- What a line of one statement stands for. -/
def codeIn (text : List Char) : List (List Char × Item) :=
  (expand standardSymbols (strip text)).filter fun st => st.2 != .comment

/-- A comment is a line that is skipped, or a statement that says nothing. -/
theorem codeIn_of_isComment (h : isComment standardSymbols.comment.toList text = true) :
    codeIn text = [] := by
  have hform : classify standardSymbols (strip text) = .item .comment := by
    have hquote : QuoteFree standardSymbols.comment.toList := quoteFree_singleton (c := '\\') rfl
    rw [classify_eq_comment_iff fun _ _ => isBlank_of_strip_eq_cons, isPrefixOf_mask hquote]
    -- the blanks behind a text are taken from its end, so it begins with the mark as before
    obtain ⟨rest, hrest⟩ := List.isPrefixOf_iff_prefix.1 h
    change '\\' :: rest = stripLeft text at hrest
    obtain ⟨rest', hstrip, -⟩ := strip_of_solid (c := '\\') rfl rest
    rw [hrest, strip_stripLeft] at hstrip
    rw [hstrip]
    rfl
  rw [codeIn, expand_of_item hform]
  rfl

theorem said_lineStatements (line : SourceLine) (h : IsLine line.text.toList) :
    ((lineStatements standardSymbols line).filter fun st => st.item != .comment).map
      SourceStatement.said = codeIn line.text.toList := by
  have hempty : (strip line.text.toList).isEmpty = false := by
    rw [List.isEmpty_eq_false_iff]
    exact h.strip_ne_nil
  unfold lineStatements
  dsimp only
  rw [hempty, Bool.false_or]
  split
  next hcomment => rw [codeIn_of_isComment hcomment]; rfl
  next =>
    have hsplit : splitStatements standardSymbols.separator.toList line.text.toList =
        [line.text.toList] := splitStatements_of_not_mem h.whole
    rw [hsplit, List.map_singleton, List.filter_cons_of_pos (by rw [hempty]; rfl), List.filter_nil,
      List.flatMap_singleton, List.filter_map, List.map_map]
    exact List.map_id _

/-- The code of a text is that of its lines. -/
theorem said_codeOf (origin : Option String) {lines : List (List Char)}
    (h : ∀ line ∈ lines, IsLine line) : ∀ n : Nat,
      (((numberLines origin n lines).flatMap (lineStatements standardSymbols)).filter
        fun st => st.item != .comment).map SourceStatement.said = lines.flatMap codeIn := by
  induction lines with
  | nil => exact fun n => rfl
  | cons line lines ih =>
    intro n
    obtain ⟨hline, hlines⟩ := List.forall_mem_cons.1 h
    have hfirst := said_lineStatements ⟨n, String.ofList line, origin⟩
      (by rwa [String.toList_ofList])
    rw [String.toList_ofList] at hfirst
    rw [numberLines, List.flatMap_cons, List.filter_append, List.map_append, hfirst, ih hlines,
      List.flatMap_cons]

theorem splitLines_intercalate : ∀ {lines : List (List Char)}, (∀ line ∈ lines, IsLine line) →
    splitLines (['\n'].intercalate lines) = lines
  | [], _ => rfl
  | [line], h => by
    have hline := h line List.mem_cons_self
    simpa using splitLines_of_no_break hline.unbroken hline.ne_nil
  | line :: line' :: lines, h => by
    obtain ⟨hline, hlines⟩ := List.forall_mem_cons.1 h
    rw [List.intercalate_cons_cons, List.append_assoc]
    change splitLines (line ++ '\n' :: ['\n'].intercalate (line' :: lines)) = _
    rw [splitLines_append hline.unbroken, splitLines_intercalate hlines]

/-- **Lines that stand for the same make the same script**, up to lines. -/
theorem parse_lines_agree {τ : Type} (load : Loader τ) (base origin : Option String)
    {lines lines' : List String} (hlines : ∀ line ∈ lines, IsLine line.toList)
    (hlines' : ∀ line ∈ lines', IsLine line.toList)
    (h : List.Forall₂ Echoes (lines.flatMap fun line => codeIn line.toList)
      (lines'.flatMap fun line => codeIn line.toList)) (t : τ) :
    Agree SameScript (parse standardSymbols load base origin ("\n".intercalate lines) t)
      (parse standardSymbols load base origin ("\n".intercalate lines') t) := by
  have hcode : ∀ {ls : List String}, (∀ line ∈ ls, IsLine line.toList) →
      (codeOf standardSymbols origin ("\n".intercalate ls).toList).map SourceStatement.said =
        ls.flatMap fun line => codeIn line.toList := by
    intro ls hls
    have hls' : ∀ line ∈ ls.map String.toList, IsLine line := by
      simpa using hls
    have hsplit : splitLines ("\n".intercalate ls).toList = ls.map String.toList := by
      rw [String.toList_intercalate]
      exact splitLines_intercalate hls'
    rw [codeOf, statementsOf, sourceLines, hsplit, said_codeOf origin hls', List.flatMap_map]
  refine parse_agree base origin ?_ t
  rw [hcode hlines, hcode hlines']
  exact h

/-! ### Blocks -/

/-- **A block on one line stands for what its parts stand for.** -/
theorem codeIn_of_inline (h : classify standardSymbols (strip text) = .inline block) :
    codeIn text = (block.parts standardSymbols).flatMap codeIn := by
  unfold codeIn
  rw [expand_of_inline ofTable_standard h, List.filter_flatMap]

theorem codeIn_of_item {item : Item} (h : classify standardSymbols (strip text) = .item item)
    (hne : item ≠ .comment) : codeIn text = [(strip text, item)] := by
  rw [codeIn, expand_of_item h]
  exact List.filter_cons_of_pos (by simpa using hne)

/-- A block on one line, and the lines of its parts, of which the first may be written with other
blanks. -/
theorem block_agree {τ : Type} (load : Loader τ) (base origin : Option String) {text first : String}
    {rest : List String} {part : List Char}
    (hblock : classify standardSymbols (strip text.toList) = .inline block)
    (hparts : block.parts standardSymbols = part :: rest.map String.toList)
    (hfirst : List.Forall₂ Echoes (codeIn part) (codeIn first.toList)) (htext : IsLine text.toList)
    (hlines : ∀ line ∈ first :: rest, IsLine line.toList) (t : τ) :
    Agree SameScript (parse standardSymbols load base origin text t)
      (parse standardSymbols load base origin ("\n".intercalate (first :: rest)) t) := by
  have hcode : codeIn text.toList = codeIn part ++ rest.flatMap fun line => codeIn line.toList := by
    rw [codeIn_of_inline hblock, hparts, List.flatMap_cons, List.flatMap_map]
  have htexts : ∀ line ∈ [text], IsLine line.toList := List.forall_mem_singleton.2 htext
  refine parse_lines_agree load base origin htexts hlines ?_ t
  rw [List.flatMap_singleton, hcode, List.flatMap_cons]
  exact List.rel_append hfirst (forall₂_echoes_refl _)

/-- The text is a head of a block, with blanks around it. -/
def HeadIn (text head : List Char) : Prop :=
  IsHead head ∧ ∃ front back, Blanks front ∧ Blanks back ∧ text = front ++ (head ++ back)

theorem IsHead.headIn (h : IsHead head) : HeadIn head head :=
  ⟨h, [], [], fun _ hc => absurd hc List.not_mem_nil, fun _ hc => absurd hc List.not_mem_nil,
    (List.append_nil head).symm⟩

theorem solid_singleton {m : Char} (hm : isBlank m = false) : Solid [m] :=
  ⟨List.cons_ne_nil m [], by simpa using hm, by simpa using hm⟩

/-- What is left of a block on one line, and of its first line, without the blanks around them. -/
theorem HeadIn.exists_gap (h : HeadIn text head) :
    ∃ gap, Blanks gap ∧ ∀ m, isBlank m = false →
      strip (text ++ [' ', m]) = head ++ (gap ++ [m]) ∧
        ∀ body, strip (text ++ [' ', m, ' '] ++ body ++ [' ', m]) = oneLine head gap m body := by
  obtain ⟨hhead, front, back, hfront, hback, rfl⟩ := h
  have hspace : Blanks [' '] := List.forall_mem_singleton.2 rfl
  refine ⟨back ++ [' '], List.forall_mem_append.2 ⟨hback, hspace⟩, fun m hm => ⟨?_, fun body => ?_⟩⟩
  · have hsolid := hhead.solid.append (solid_singleton hm) (back ++ [' '])
    simpa using hsolid.strip_between hfront (List.forall_mem_nil _)
  · have hsolid : Solid (oneLine head (back ++ [' ']) m body) := by
      rw [oneLine_eq, List.append_assoc]
      exact hhead.solid.append (solid_singleton hm) _
    have hstrip := hsolid.strip_between hfront (List.forall_mem_nil _)
    simpa [oneLine] using hstrip

/-- A head with a mark stands for one statement, whatever the blanks around it. -/
theorem HeadIn.echoes (h : HeadIn text head) {m : Char} (hm : isBlank m = false) {item : Item}
    (hexpr : item ≠ .expression) (hcomment : item ≠ .comment)
    (hform : ∀ gap, Blanks gap → classify standardSymbols (head ++ (gap ++ [m])) = .item item) :
    List.Forall₂ Echoes (codeIn (head ++ [' ', m])) (codeIn (text ++ [' ', m])) := by
  have hcode : ∀ {x}, HeadIn x head → ∃ text, codeIn (x ++ [' ', m]) = [(text, item)] := by
    intro x hx
    obtain ⟨gap, hgap, hstrip⟩ := hx.exists_gap
    refine ⟨_, codeIn_of_item ?_ hcomment⟩
    rw [(hstrip m hm).1]
    exact hform gap hgap
  obtain ⟨first, hfirst⟩ := hcode h.1.headIn
  obtain ⟨second, hsecond⟩ := hcode h
  rw [hfirst, hsecond]
  exact .cons ⟨rfl, fun heq => absurd heq hexpr⟩ .nil

theorem HeadIn.echoes_if (h : HeadIn text head) :
    List.Forall₂ Echoes (codeIn (head ++ [' ', '?'])) (codeIn (text ++ [' ', '?'])) :=
  h.echoes rfl Item.noConfusion Item.noConfusion fun _ => classify_ifOpen h.1

/-! ### Texts that blocks are put together from -/

/-- A mark of a block, with or without blanks around it. -/
def isMark (text : List Char) : Bool :=
  text.all (fun c => !isQuote c && c != ';' && !isLineBreak c) && text.any fun c => !isBlank c

theorem isLine_of_isMark (h : isMark text = true) : IsLine text := by
  simp only [isMark, List.all_eq_true, List.any_eq_true, Bool.and_eq_true, Bool.not_eq_true',
    bne_iff_ne] at h
  obtain ⟨hall, hany⟩ := h
  have hquote : QuoteFree text := fun c hc => (hall c hc).1.1
  refine ⟨⟨closed_of_quoteFree hquote, ?_, fun c hc => (hall c hc).2⟩, hany⟩
  rw [mask_of_quoteFree hquote]
  exact fun hmem => (hall ';' hmem).1.2 rfl

/-- A body of a block: a text on one line that is neither blank nor has blanks around it, with an
end for every literal and no separator outside of literals. -/
structure IsSnippet (s : String) : Prop extends Fits s.toList where
  nonempty : s ≠ ""
  trimmed : strip s.toList = s.toList

namespace IsSnippet

variable {s : String} (h : IsSnippet s)

include h

theorem isBody : IsBody s.toList where
  solid := by
    rw [← h.trimmed]
    refine solid_strip ?_
    rw [h.trimmed]
    simpa using h.nonempty
  closed := h.closed
  inLine hmem := Bool.noConfusion (h.unbroken '\n' hmem)

theorem isLine : IsLine s.toList := by
  obtain ⟨c, rest, heq⟩ := List.exists_cons_of_ne_nil h.isBody.solid.ne_nil
  exact ⟨h.toFits, c, heq ▸ List.mem_cons_self, h.isBody.solid.first c (by rw [heq]; rfl)⟩

end IsSnippet

/-- A condition: a text on one line that is an expression. -/
structure IsCondition (c : String) : Prop where
  reads : ∃ line e, readExpression standardSymbols line c.toList = .ok e
  unbroken : Unbroken c.toList

namespace IsCondition

variable {c : String} (h : IsCondition c)

include h

theorem fits : Fits c.toList := by
  obtain ⟨line, e, hread⟩ := h.reads
  exact (undivided_of_readExpression hread).1.fits h.unbroken

theorem headIn : HeadIn c.toList (strip c.toList) := by
  obtain ⟨line, e, hread⟩ := h.reads
  obtain ⟨hundivided, hne⟩ := undivided_of_readExpression hread
  obtain ⟨front, back, hfront, hback, heq⟩ := exists_strip c.toList
  refine ⟨⟨solid_strip hne, ⟨closed_strip.2 hundivided.closed, ?_⟩, fun hmem => ?_⟩, front, back,
    hfront, hback, heq⟩
  · rw [mask_strip hundivided.closed]
    exact fun c hc => hundivided.free c ((strip_sublist _).subset hc)
  · exact Bool.noConfusion (h.unbroken '\n' ((strip_sublist _).subset hmem))

end IsCondition

/-- A name of a function: an identifier that may carry the global mark. -/
def IsFunctionName (name : List Char) : Prop :=
  ∃ identifier, isIdentifier identifier = true ∧
    (name = identifier ∨ name = standardSymbols.globalMark.toList ++ identifier)

/-- A character of a list of parameters: no quote, no parenthesis, and nothing that shapes a
line. -/
def isParamChar (c : Char) : Bool := !isQuote c && !isBorder c && Pattern.noParenthesis c

/-- The texts that a function can begin with: its name, which parameters may follow, in parentheses
or without them. -/
inductive IsHeader : List Char → Prop where
  | name {name : List Char} : IsFunctionName name → IsHeader name
  | enclosed {name gap params : List Char} : IsFunctionName name → Blanks gap →
      (∀ c ∈ params, isParamChar c = true) → IsHeader (name ++ (gap ++ ('(' :: params ++ [')'])))
  | bare {name gap params : List Char} : IsFunctionName name → Blanks gap → gap ≠ [] →
      (∀ c ∈ params, isParamChar c = true) → Solid params → IsHeader (name ++ (gap ++ params))

theorem bare_params {params : List Char} (h : ∀ c ∈ params, isParamChar c = true) : Bare params := by
  intro c hc
  have hchar := h c hc
  simp only [isParamChar, Bool.and_eq_true, Bool.not_eq_true'] at hchar
  exact hchar.1

namespace IsFunctionName

variable {name : List Char} (h : IsFunctionName name)

include h

theorem bare : Bare name := by
  obtain ⟨identifier, hid, hname⟩ := h
  obtain ⟨-, -, -, -, hall⟩ := isIdentifier_eq_true_iff.1 hid
  have hbare : Bare identifier := fun c hc => bare_of_isIdentChar (hall c hc)
  rcases hname with rfl | rfl
  · exact hbare
  · exact List.forall_mem_append.2 ⟨bare_standardGrammar _ (by decide), hbare⟩

theorem solid : Solid name := by
  obtain ⟨identifier, hid, hname⟩ := h
  obtain ⟨c, rest, heq, -, hall⟩ := isIdentifier_eq_true_iff.1 hid
  have hblank : ∀ d ∈ identifier, isBlank d = false := fun d hd =>
    not_isBlank_of_isIdentChar (hall d hd)
  have hne : identifier ≠ [] := heq ▸ List.cons_ne_nil c rest
  have hmark : ∀ d ∈ standardSymbols.globalMark.toList, isBlank d = false := fun d hd => by
    simpa using (List.all_eq_true (p := (!isBlank ·))).1 (by decide) d hd
  rcases hname with rfl | rfl
  · exact solid_of_forall hne hblank
  · exact solid_of_forall (List.append_ne_nil_of_right_ne_nil _ hne)
      (List.forall_mem_append.2 ⟨hmark, hblank⟩)

end IsFunctionName

/-- What a function begins with can be captured as the head of a block. -/
theorem IsHeader.isHead {header : List Char} (h : IsHeader header) (hline : Unbroken header) :
    IsHead header := by
  have hn : '\n' ∉ header := fun hmem => Bool.noConfusion (hline '\n' hmem)
  cases h with
  | name hname => exact ⟨hname.solid, hname.bare.undivided, hn⟩
  | @enclosed name gap params hname hgap hparams =>
    refine ⟨?_, hname.bare.undivided.append (hgap.bare.undivided.append ?_), hn⟩
    · have hsolid := hname.solid.append (solid_singleton (m := ')') rfl) (gap ++ '(' :: params)
      simpa using hsolid
    · refine Bare.undivided (List.forall_mem_append.2 ⟨?_, bare_singleton rfl rfl⟩)
      exact List.forall_mem_cons.2 ⟨⟨rfl, rfl⟩, bare_params hparams⟩
  | bare hname hgap _ hparams hsolid =>
    exact ⟨hname.solid.append hsolid _,
      hname.bare.undivided.append (hgap.bare.undivided.append (bare_params hparams).undivided), hn⟩

/-! ### Blocks and their lines -/

section Agreement

variable {τ : Type} (load : Loader τ) (base origin : Option String) (t : τ) {c s s' : String}

/-- A block with one body, and its lines. -/
theorem block_one_body {m : Char} {h : String} (hm : isMark [m] = true)
    (hhead : HeadIn h.toList head) (hfits : Fits h.toList) (hs : IsSnippet s)
    (hblock : ∀ gap, Blanks gap →
      classify standardSymbols (oneLine head gap m s.toList) = .inline block)
    (hparts : block.parts standardSymbols = [head ++ [' ', m], s.toList, [m]])
    (hfirst : List.Forall₂ Echoes (codeIn (head ++ [' ', m])) (codeIn (h.toList ++ [' ', m]))) :
    Agree SameScript
      (parse standardSymbols load base origin
        (h ++ String.ofList [' ', m, ' '] ++ s ++ String.ofList [' ', m]) t)
      (parse standardSymbols load base origin
        ("\n".intercalate [h ++ String.ofList [' ', m], s, String.ofList [m]]) t) := by
  have hmark : IsLine [m] := isLine_of_isMark hm
  have hblank : isBlank m = false := by
    simpa [isMark] using (Bool.and_eq_true_iff.1 hm).2
  have hspace : Fits [' '] := ⟨rfl, by decide, List.forall_mem_singleton.2 rfl⟩
  have hlines : block.parts standardSymbols =
      (head ++ [' ', m]) :: [s, String.ofList [m]].map String.toList := by
    simp only [hparts, List.map_cons, List.map_nil, String.toList_ofList]
  obtain ⟨gap, hgap, hstrip⟩ := hhead.exists_gap
  refine block_agree load base origin ?_ hlines ?_ ?_ ?_ t
  · simp only [String.toList_append, String.toList_ofList]
    rw [(hstrip m hblank).2]
    exact hblock gap hgap
  · rwa [String.toList_append, String.toList_ofList]
  · simp only [String.toList_append, String.toList_ofList]
    have hbefore : Fits (h.toList ++ [' ', m, ' '] ++ s.toList) :=
      (hfits.append ((hspace.append hmark.toFits).append hspace)).append hs.toFits
    exact hbefore.append_isLine (hspace.append_isLine hmark)
  · simp only [List.forall_mem_cons, String.toList_append, String.toList_ofList]
    exact ⟨hfits.append_isLine (hspace.append_isLine hmark), hs.isLine, hmark,
      fun _ h => absurd h List.not_mem_nil⟩

theorem loop_agree (hc : IsCondition c) (hs : IsSnippet s) :
    Agree SameScript (parse standardSymbols load base origin (c ++ " @ " ++ s ++ " @") t)
      (parse standardSymbols load base origin ("\n".intercalate [c ++ " @", s, "@"]) t) := by
  have hhead := hc.headIn
  refine block_one_body load base origin t (m := '@') (by decide) hhead hc.fits hs
    (fun gap hgap => classify_loop hhead.1 hgap hs.isBody) rfl ?_
  exact hhead.echoes rfl Item.noConfusion Item.noConfusion fun _ => classify_loopOpen hhead.1

theorem function_agree {h : String} (hh : IsHeader h.toList) (hline : Unbroken h.toList)
    (hs : IsSnippet s) :
    Agree SameScript (parse standardSymbols load base origin (h ++ " # " ++ s ++ " #") t)
      (parse standardSymbols load base origin ("\n".intercalate [h ++ " #", s, "#"]) t) := by
  have hhead := hh.isHead hline
  exact block_one_body load base origin t (m := '#') (by decide) hhead.headIn
    (hhead.undivided.fits hline) hs (fun gap hgap => classify_function hhead hgap hs.isBody) rfl
    (forall₂_echoes_refl _)

theorem conditional_agree (hc : IsCondition c) (hs : IsSnippet s) (hfree : '?' ∉ mask s.toList) :
    Agree SameScript (parse standardSymbols load base origin (c ++ " ? " ++ s ++ " ?") t)
      (parse standardSymbols load base origin ("\n".intercalate [c ++ " ?", s, "?"]) t) := by
  have hhead := hc.headIn
  exact block_one_body load base origin t (m := '?') (by decide) hhead hc.fits hs
    (fun gap hgap => classify_conditional hhead.1 hgap hs.isBody hfree) rfl hhead.echoes_if

theorem conditionalElse_agree (hc : IsCondition c) (hs : IsSnippet s) (hs' : IsSnippet s')
    (hfree : '?' ∉ mask s.toList) :
    Agree SameScript
      (parse standardSymbols load base origin (c ++ " ? " ++ s ++ " ?? " ++ s' ++ " ?") t)
      (parse standardSymbols load base origin
        ("\n".intercalate [c ++ " ?", s, "??", s', "?"]) t) := by
  have hhead := hc.headIn
  obtain ⟨gap, hgap, hstrip⟩ := hhead.exists_gap
  have hmark : ∀ text ∈ [" ? ", " ?", " ?? ", "??", "?"], IsLine text.toList := by
    have hall : ([" ? ", " ?", " ?? ", "??", "?"].all fun text => isMark text.toList) = true := by
      decide
    exact fun text htext => isLine_of_isMark (List.all_eq_true.1 hall text htext)
  have hblock : classify standardSymbols (strip (c ++ " ? " ++ s ++ " ?? " ++ s' ++ " ?").toList) =
      .inline (.conditional (strip c.toList) s.toList (some s'.toList)) := by
    have htext := (hstrip '?' rfl).2 (withElse '?' s.toList s'.toList)
    rw [← classify_conditionalElse hhead.1 hgap hs.isBody hfree hs'.isBody, ← htext]
    simp [withElse]
  refine block_agree load base origin hblock rfl ?_ ?_ ?_ t
  · rw [String.toList_append]
    exact hhead.echoes_if
  · simp only [String.toList_append]
    have hthen := (hc.fits.append (hmark " ? " (by decide)).toFits).append hs.toFits
    have hother := (hthen.append (hmark " ?? " (by decide)).toFits).append hs'.toFits
    exact hother.append_isLine (hmark " ?" (by decide))
  · simp only [List.forall_mem_cons, String.toList_append]
    exact ⟨hc.fits.append_isLine (hmark " ?" (by decide)), hs.isLine, hmark "??" (by decide),
      hs'.isLine, hmark "?" (by decide), fun _ h => absurd h List.not_mem_nil⟩

end Agreement

/-- **Blocks on one line mean their lines.**  With the default table, a loop, a function or a
conditional that is written on one line is the same script, up to lines, as when its head, its
bodies and its marks have lines of their own; or neither is a script.  The loader ends in the same
state.  The condition is any text on one line that is an expression, and the head of a function is
its name with or without parameters.  A body is any text on one line that is trimmed and not blank,
in which all literals have their ends and no separator stands outside of them; it may be a block on
one line again, but the first one of a conditional has no mark of a conditional outside of
literals. -/
theorem blocks_mean_their_lines {τ : Type} (load : Loader τ) (base origin : Option String) (t : τ)
    {s s' : String} (hs : IsSnippet s) (hs' : IsSnippet s') :
    (∀ c, IsCondition c → Agree SameScript
      (parse standardSymbols load base origin (c ++ " @ " ++ s ++ " @") t)
      (parse standardSymbols load base origin ("\n".intercalate [c ++ " @", s, "@"]) t)) ∧
    (∀ h : String, IsHeader h.toList → Unbroken h.toList → Agree SameScript
      (parse standardSymbols load base origin (h ++ " # " ++ s ++ " #") t)
      (parse standardSymbols load base origin ("\n".intercalate [h ++ " #", s, "#"]) t)) ∧
    ('?' ∉ mask s.toList → ∀ c, IsCondition c →
      Agree SameScript
        (parse standardSymbols load base origin (c ++ " ? " ++ s ++ " ?") t)
        (parse standardSymbols load base origin ("\n".intercalate [c ++ " ?", s, "?"]) t) ∧
      Agree SameScript
        (parse standardSymbols load base origin (c ++ " ? " ++ s ++ " ?? " ++ s' ++ " ?") t)
        (parse standardSymbols load base origin
          ("\n".intercalate [c ++ " ?", s, "??", s', "?"]) t)) :=
  ⟨fun _ hc => loop_agree load base origin t hc hs,
    fun _ hh hline => function_agree load base origin t hh hline hs,
    fun hfree _ hc => ⟨conditional_agree load base origin t hc hs hfree,
      conditionalElse_agree load base origin t hc hs hs' hfree⟩⟩

/-- A loop on one line whose body includes a text with a return. -/
def nestedLoop : String := "n > 0 @ $ 'step' @"

/-- As the body of a function the loop makes a script, on one line and on its own lines; as the
body of another loop it makes none, since a return stands outside of functions; and in a
conditional it may be followed by a body with marks in literals. -/
theorem blocks_mean_their_lines_nested :
    (parse standardSymbols shelf none none
      ("root.f (n, m)" ++ " # " ++ nestedLoop ++ " #") ()).1.toOption.isSome = true ∧
    Agree SameScript
      (parse standardSymbols shelf none none ("root.f (n, m)" ++ " # " ++ nestedLoop ++ " #") ())
      (parse standardSymbols shelf none none
        ("\n".intercalate ["root.f (n, m)" ++ " #", nestedLoop, "#"]) ()) ∧
    Agree SameScript
      (parse standardSymbols shelf none none (" n < '@'" ++ " @ " ++ nestedLoop ++ " @") ())
      (parse standardSymbols shelf none none
        ("\n".intercalate [" n < '@'" ++ " @", nestedLoop, "@"]) ()) ∧
    Agree SameScript
      (parse standardSymbols shelf none none
        (" n < '@'" ++ " ? " ++ nestedLoop ++ " ?? " ++ "x = '?;'" ++ " ?") ())
      (parse standardSymbols shelf none none
        ("\n".intercalate [" n < '@'" ++ " ?", nestedLoop, "??", "x = '?;'", "?"]) ()) := by
  have hloop : IsSnippet nestedLoop :=
    ⟨⟨by decide, by decide, by decide⟩, by decide, by decide⟩
  have hother : IsSnippet "x = '?;'" :=
    ⟨⟨by decide, by decide, by decide⟩, by decide, by decide⟩
  have hcondition : IsCondition " n < '@'" := ⟨⟨⟨1, "", none⟩, _, rfl⟩, by decide⟩
  have hname : IsFunctionName "root.f".toList := ⟨['f'], by decide, .inr rfl⟩
  have hparams : ∀ c ∈ "n, m".toList, isParamChar c = true := List.all_eq_true.1 (by decide)
  have hspace : Blanks [' '] := List.forall_mem_singleton.2 rfl
  have hheader : IsHeader "root.f (n, m)".toList := .enclosed hname hspace hparams
  obtain ⟨hloops, hfunctions, hconditionals⟩ :=
    blocks_mean_their_lines shelf none none () hloop hother
  refine ⟨by decide +kernel, hfunctions "root.f (n, m)" hheader (by decide),
    hloops " n < '@'" hcondition, ?_⟩
  exact (hconditionals (by decide) " n < '@'" hcondition).2

end LineScript
