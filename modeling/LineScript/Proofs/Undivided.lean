import LineScript.Proofs.MaskedForms

/-!
# Texts without borders

Some characters of the default table shape a line and are part of no expression: the comment mark,
the separator of statements, and the marks of loops, functions and conditionals.  A text is undivided
when it has none of them outside literals and every literal in it has its end.  The parts that
expressions are made of are undivided.

## Main definitions

* `isBorder` — the characters that shape a line.
* `Undivided` — texts without borders outside literals.

## Main results

* `undivided_literal`, `bare_standardGrammar` — literals and the symbols of the grammar have no borders.
-/

namespace LineScript

/-- A character that begins a comment, separates statements, or marks a block. -/
def isBorder (c : Char) : Bool := c == '\\' || c == ';' || c == '@' || c == '#' || c == '?'

/-- Every literal of the text has its end, and no border stands outside of literals. -/
structure Undivided (s : List Char) : Prop where
  closed : Closed s
  free : ∀ c ∈ mask s, isBorder c = false

/-- A text with neither quotes nor borders. -/
def Bare (s : List Char) : Prop := ∀ c ∈ s, isQuote c = false ∧ isBorder c = false

variable {s : List Char} {c : Char}

theorem Bare.quoteFree (h : Bare s) : QuoteFree s := fun c hc => (h c hc).1

theorem bare_singleton (hquote : isQuote c = false) (hborder : isBorder c = false) : Bare [c] :=
  List.forall_mem_singleton.2 ⟨hquote, hborder⟩

theorem Bare.undivided (h : Bare s) : Undivided s where
  closed := closed_of_quoteFree h.quoteFree
  free := by
    rw [mask_of_quoteFree h.quoteFree]
    exact fun c hc => (h c hc).2

theorem Undivided.append {t : List Char} (hs : Undivided s) (ht : Undivided t) :
    Undivided (s ++ t) where
  closed := hs.closed.append_iff.2 ht.closed
  free c hc := by
    rw [mask_append hs.closed] at hc
    exact (List.mem_append.1 hc).elim (hs.free c) (ht.free c)

/-- A class of characters without the borders. -/
theorem isBorder_eq_false {p : Char → Bool} (hp : ['\\', ';', '@', '#', '?'].any p = false)
    (h : p c = true) : isBorder c = false := by
  rw [List.any_eq_false] at hp
  cases hc : isBorder c with
  | false => rfl
  | true =>
    refine absurd h (hp c ?_)
    simpa [isBorder, or_assoc] using hc

theorem Gap.blanks {a : List Char} (h : Gap a) : Blanks a := by
  intro c hc
  rcases h c hc with rfl | rfl <;> rfl

theorem Blanks.bare (h : Blanks s) : Bare s := fun c hc =>
  ⟨isQuote_eq_false_of_isBlank (h c hc), isBorder_eq_false rfl (h c hc)⟩

/-- A text is undivided when what is left of it without the blanks around it is. -/
theorem Undivided.of_strip (h : Undivided (strip s)) : Undivided s := by
  obtain ⟨front, back, hfront, hback, heq⟩ := exists_strip s
  rw [heq]
  exact hfront.bare.undivided.append (h.append hback.bare.undivided)

/-! ### Parts of expressions -/

theorem bare_of_isIdentChar (h : isIdentChar c = true) : isQuote c = false ∧ isBorder c = false :=
  ⟨passesQuotes_isIdentChar.isQuote_eq_false h, isBorder_eq_false (by decide) h⟩

theorem bare_of_isDigit (h : isDigit c = true) : isQuote c = false ∧ isBorder c = false :=
  ⟨passesQuotes_isDigit.isQuote_eq_false h, isBorder_eq_false (by decide) h⟩

/-- A literal is blanked but for its quotes. -/
theorem undivided_literal {q : Char} (hq : isQuote q = true) {body : List Char}
    (hbody : LiteralBody q body) : Undivided (q :: (body ++ [q])) := by
  have hopen : Quoting.outside.next q = .inside q := if_pos hq
  obtain ⟨hmask, hafter⟩ := hbody.behind hq []
  have hborder : isBorder q = false := by
    rcases eq_or_eq_of_isQuote hq with rfl | rfl <;> rfl
  constructor
  · unfold Closed
    rw [Quoting.after_cons, hopen, hafter, Quoting.after_nil]
  · intro c hc
    unfold mask at hc
    rw [maskFrom_cons, hopen, hmask] at hc
    simp only [Quoting.maskChar, mask, maskFrom_nil, List.mem_cons, List.mem_append,
      List.mem_replicate, List.not_mem_nil, or_false] at hc
    rcases hc with rfl | ⟨-, rfl⟩ | rfl
    · exact hborder
    · rfl
    · exact hborder

/-- The symbols of a grammar. -/
def Grammar.symbols (g : Grammar) : List (List Char) :=
  g.orSymbols ++ g.andSymbols ++ g.comparisonSymbols ++ g.sumSymbols ++ g.productSymbols ++
    g.booleans ++ [g.minus, g.null, g.globalMark]

theorem bare_standardGrammar : ∀ m ∈ standardGrammar.symbols, Bare m := by
  intro m hm c hc
  have h : (standardGrammar.symbols.all fun m =>
    m.all fun c => !isQuote c && !isBorder c) = true := by decide
  simpa using List.all_eq_true.1 (List.all_eq_true.1 h m hm) c hc

end LineScript
