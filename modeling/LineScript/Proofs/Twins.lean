import Mathlib.Data.List.TakeDrop
import LineScript.Proofs.Blur
import LineScript.Proofs.LeafReading

/-!
# Readers do not look into strings

Two texts are twins when they are the same up to what stands inside string literals: they have
literals of the same length in the same places, with the same quotes, and the same characters
around them.  A literal without an end may end them.  Readers take from twins what is the same up
to strings, and leave twins behind; and a text with a literal that has no end is no expression,
since no reader gets past it.

## Main definitions

* `Twin` — texts that are the same up to what stands inside literals.
* `Blind` — a reader that does not look into strings.
* `Grammar.QuoteFree` — no symbol of a grammar has a quote in it.

## Main results

* `Twin.span`, `Twin.fits` — runs of characters and symbols at the front of twins.
* `blind_readTerm` — **the reader of expressions does not look into strings.**
* `Twin.read`, `Twin.read_unclosed` — whole texts that are twins, and a text with a literal that
  has no end.
-/

namespace LineScript

/-- The texts are the same up to what stands inside string literals; the flag says that every
literal has its end. -/
inductive Twin : Bool → List Char → List Char → Prop where
  | nil : Twin true [] []
  | char {k : Bool} {c : Char} {s t : List Char} :
    isQuote c = false → Twin k s t → Twin k (c :: s) (c :: t)
  | literal {k : Bool} {q : Char} {s t s' t' body body' : List Char} : isQuote q = true →
      readString q s = some (body, s') → readString q t = some (body', t') → s.length = t.length →
        Twin k s' t' → Twin k (q :: s) (q :: t)
  | unclosed {q : Char} {s t : List Char} : isQuote q = true → readString q s = none →
      readString q t = none → s.length = t.length → Twin false (q :: s) (q :: t)

variable {c : Char} {p : Char → Bool}

theorem eq_or_eq_of_isQuote (h : isQuote c = true) : c = '"' ∨ c = '\'' := by
  simpa [isQuote] using h

theorem ne_of_isQuote {q : Char} (hc : isQuote c = false) (hq : isQuote q = true) : c ≠ q := by
  rintro rfl
  rw [hc] at hq
  cases hq

/-- A class of characters without the quotes. -/
def PassesQuotes (p : Char → Bool) : Prop := p '"' = false ∧ p '\'' = false

theorem PassesQuotes.eq_false (h : PassesQuotes p) (hc : isQuote c = true) : p c = false := by
  rcases eq_or_eq_of_isQuote hc with rfl | rfl
  · exact h.1
  · exact h.2

/-- A text without quotes. -/
def QuoteFree (s : List Char) : Prop := ∀ c ∈ s, isQuote c = false

theorem quoteFree_singleton (h : isQuote c = false) : QuoteFree [c] :=
  List.forall_mem_singleton.2 h

namespace Twin

variable {k : Bool} {s t : List Char}

theorem length_eq (h : Twin k s t) : s.length = t.length := by
  induction h with
  | nil => rfl
  | char _ _ ih => rw [List.length_cons, List.length_cons, ih]
  | literal _ _ _ hlength | unclosed _ _ _ hlength => rw [List.length_cons, List.length_cons, hlength]

/-- Twins are empty, begin with the same character that is no quote, or with the same quote. -/
theorem front (h : Twin k s t) : s = [] ∧ t = [] ∨
    (∃ c s' t', isQuote c = false ∧ s = c :: s' ∧ t = c :: t' ∧ Twin k s' t') ∨
      ∃ q s' t', isQuote q = true ∧ s = q :: s' ∧ t = q :: t' := by
  cases h with
  | nil => exact .inl ⟨rfl, rfl⟩
  | char hc h => exact .inr (.inl ⟨_, _, _, hc, rfl, rfl, h⟩)
  | literal hq | unclosed hq => exact .inr (.inr ⟨_, _, _, hq, rfl, rfl⟩)

/-- A run of characters that are no quotes is the same at the front of twins. -/
theorem run (hp : PassesQuotes p) (h : Twin k s t) :
    s.takeWhile p = t.takeWhile p ∧ Twin k (s.dropWhile p) (t.dropWhile p) := by
  have hstop : ∀ {k c s t}, ¬ p c = true → Twin k (c :: s) (c :: t) →
      (c :: s).takeWhile p = (c :: t).takeWhile p ∧
        Twin k ((c :: s).dropWhile p) ((c :: t).dropWhile p) := by
    intro k c s t hpc h
    rw [List.takeWhile_cons_of_neg hpc, List.takeWhile_cons_of_neg hpc,
      List.dropWhile_cons_of_neg hpc, List.dropWhile_cons_of_neg hpc]
    exact ⟨rfl, h⟩
  induction h with
  | nil => exact ⟨rfl, .nil⟩
  | @char k c s t hc h ih =>
    by_cases hpc : p c = true
    · simp only [List.takeWhile_cons_of_pos hpc, List.dropWhile_cons_of_pos hpc]
      exact ⟨by rw [ih.1], ih.2⟩
    · exact hstop hpc (.char hc h)
  | literal hq hs ht hlength h _ =>
    exact hstop (Bool.eq_false_iff.1 (hp.eq_false hq)) (.literal hq hs ht hlength h)
  | unclosed hq hs ht hlength =>
    exact hstop (Bool.eq_false_iff.1 (hp.eq_false hq)) (.unclosed hq hs ht hlength)

/-- What spans the front of twins is the same, and twins are left. -/
theorem span (hp : PassesQuotes p) (h : Twin k s t) :
    ∃ front s' t', s.span p = (front, s') ∧ t.span p = (front, t') ∧ Twin k s' t' := by
  obtain ⟨hfront, hrest⟩ := h.run hp
  refine ⟨s.takeWhile p, s.dropWhile p, t.dropWhile p, ?_, ?_, hrest⟩
  · rw [List.span_eq_takeWhile_dropWhile]
  · rw [List.span_eq_takeWhile_dropWhile, hfront]

theorem skipBlanks (h : Twin k s t) :
    Twin k (LineScript.skipBlanks s) (LineScript.skipBlanks t) :=
  (h.run ⟨rfl, rfl⟩).2

/-- Twins have the same symbols at the front, and go on as twins behind them. -/
theorem fits : ∀ {m : List Char}, QuoteFree m → ∀ {s t : List Char}, Twin k s t →
    m.isPrefixOf s = m.isPrefixOf t ∧
      (m.isPrefixOf s = true → Twin k (s.drop m.length) (t.drop m.length))
  | [], _, _, _, h => ⟨rfl, fun _ => h⟩
  | c :: m, hm, _, _, h => by
    obtain ⟨hc, hm⟩ := List.forall_mem_cons.1 hm
    rcases h.front with ⟨rfl, rfl⟩ | ⟨d, s, t, -, rfl, rfl, htail⟩ | ⟨q, s, t, hq, rfl, rfl⟩
    · exact ⟨rfl, fun hfits => by cases hfits⟩
    · obtain ⟨heq, hdrop⟩ := fits hm htail
      rw [List.isPrefixOf_cons_cons, List.isPrefixOf_cons_cons, heq, Bool.and_eq_true]
      exact ⟨rfl, fun hfits => hdrop (heq.trans hfits.2)⟩
    · -- a symbol does not begin with a quote
      have hne : (c == q) = false := beq_eq_false_iff_ne.2 (ne_of_isQuote hc hq)
      rw [List.isPrefixOf_cons_cons, List.isPrefixOf_cons_cons, hne]
      exact ⟨rfl, fun hfits => by cases hfits⟩

theorem afterMark? {m : List Char} (hm : QuoteFree m) (h : Twin k s t) :
    Option.Rel (Twin k) (Symbols.afterMark? m s) (Symbols.afterMark? m t) := by
  unfold Symbols.afterMark?
  rw [← (h.fits hm).1]
  split
  next hfits => exact .some ((h.fits hm).2 hfits)
  next => exact .none

/-- Twins begin with the same character, or neither begins with it. -/
theorem head (h : Twin k s t) (hc : isQuote c = false) :
    (∃ s' t', s = c :: s' ∧ t = c :: t' ∧ Twin k s' t') ∨ (∀ r, s ≠ c :: r) ∧ ∀ r, t ≠ c :: r := by
  have hnot : ∀ {d : Char} (_ : d ≠ c) (s r : List Char), d :: s ≠ c :: r := fun hdc _ _ heq =>
    hdc (List.cons.inj heq).1
  rcases h.front with ⟨rfl, rfl⟩ | ⟨d, s, t, -, rfl, rfl, htail⟩ | ⟨q, s, t, hq, rfl, rfl⟩
  · exact .inr ⟨fun _ => (List.cons_ne_nil _ _).symm, fun _ => (List.cons_ne_nil _ _).symm⟩
  · by_cases hdc : d = c
    · exact .inl ⟨s, t, by rw [hdc], by rw [hdc], htail⟩
    · exact .inr ⟨hnot hdc s, hnot hdc t⟩
  · have hqc := (ne_of_isQuote hc hq).symm
    exact .inr ⟨hnot hqc s, hnot hqc t⟩

end Twin

/-! ### Readers -/

/-- Of two options that agree, neither has a value, or the values are related. -/
theorem none_or_some_of_rel {α γ : Type} {R : α → γ → Prop} {x : Option α} {y : Option γ}
    (h : Option.Rel R x y) : x = none ∧ y = none ∨ ∃ a b, x = some a ∧ y = some b ∧ R a b := by
  cases h with
  | none => exact .inl ⟨rfl, rfl⟩
  | some hab => exact .inr ⟨_, _, rfl, rfl, hab⟩

/-- A reader that does not look into strings: from twins it takes related things, and leaves
twins. -/
def Blind {α : Type} (R : α → α → Prop) (r : Reader α) : Prop :=
  ∀ ⦃k : Bool⦄ ⦃s t : List Char⦄, Twin k s t →
    Option.Rel (fun p p' => R p.1 p'.1 ∧ Twin k p.2 p'.2) (r s) (r t)

/-- What follows in a reader that changes what it takes. -/
theorem Blind.map {α γ : Type} {R : α → α → Prop} {S : γ → γ → Prop} {r : Reader α} (h : Blind R r)
    {f : α → γ} (hf : ∀ a a', R a a' → S (f a) (f a')) :
    Blind S fun s => (r s).map fun p => (f p.1, p.2) := by
  intro k s t hst
  dsimp only
  rcases none_or_some_of_rel (h hst) with ⟨hs, ht⟩ | ⟨p, p', hs, ht, hp, hrest⟩ <;> rw [hs, ht]
  · exact .none
  · exact .some ⟨hf _ _ hp, hrest⟩

/-- A choice of two readers that do not look into strings. -/
theorem Blind.orElse {α : Type} {R : α → α → Prop} {r r' : Reader α} (h : Blind R r)
    (h' : Blind R r') : Blind R fun s => (r s).orElse fun _ => r' s := by
  intro k s t hst
  dsimp only
  rcases none_or_some_of_rel (h hst) with ⟨hs, ht⟩ | ⟨p, p', hs, ht, hp⟩ <;> rw [hs, ht]
  · exact h' hst
  · exact .some hp

section Leaves

variable {k : Bool} {s t : List Char} {β : Blur}

theorem passesQuotes_isDigit : PassesQuotes isDigit := ⟨by decide, by decide⟩

theorem passesQuotes_isIdentChar : PassesQuotes isIdentChar := ⟨by decide, by decide⟩

theorem passesQuotes_isIdentStart : PassesQuotes isIdentStart := ⟨by decide, by decide⟩

theorem blind_readNumber : Blind (Term.Like β) readNumber := by
  intro k s t h
  obtain ⟨whole, s', t', hs, ht, hrest⟩ := h.span passesQuotes_isDigit
  unfold readNumber
  rw [hs, ht]
  cases whole with
  | nil => exact .none
  | cons d whole =>
    dsimp only
    rcases hrest.head (c := '.') rfl with ⟨s'', t'', rfl, rfl, htail⟩ | ⟨hs', ht'⟩
    · obtain ⟨fraction, u, v, hu, hv, huv⟩ := htail.span passesQuotes_isDigit
      simp only
      rw [hu, hv]
      cases fraction with
      | nil => exact .some ⟨.number, hrest⟩
      | cons e fraction => exact .some ⟨.number, huv⟩
    · split
      next => exact absurd rfl (hs' _)
      next => exact .some ⟨.number, hrest⟩

theorem readStringTerm_quote {q : Char} (hq : isQuote q = true) (u : List Char) :
    readStringTerm (q :: u) = (readString q u).map fun p => (.string p.1, p.2) := by
  rcases eq_or_eq_of_isQuote hq with rfl | rfl <;> rfl

theorem blind_readStringTerm (hβ : ∀ x y, β.string x = β.string y) :
    Blind (Term.Like β) readStringTerm := by
  intro k s t h
  cases h with
  | nil => exact .none
  | @char _ c s t hc h =>
    -- neither of the two quotes stands here
    have hnone : ∀ u, readStringTerm (c :: u) = none := by
      intro u
      unfold readStringTerm
      split
      next heq => cases heq; cases hc
      next heq => cases heq; cases hc
      next => rfl
    rw [hnone, hnone]
    exact .none
  | literal hq hs ht _ h =>
    rw [readStringTerm_quote hq, readStringTerm_quote hq, hs, ht]
    exact .some ⟨.string (hβ _ _), h⟩
  | unclosed hq hs ht _ =>
    rw [readStringTerm_quote hq, readStringTerm_quote hq, hs, ht]
    exact .none

/-- A word at the front of twins is behind no identifier character in both, or in neither. -/
theorem blind_readWord {words : List (List Char)} (hwords : ∀ w ∈ words, QuoteFree w) :
    Blind Eq (readWord words) := by
  intro k s t h
  unfold readWord
  induction words with
  | nil => exact .none
  | cons w words ih =>
    rw [List.findSome?_cons, List.findSome?_cons]
    have ih := ih fun v hv => hwords v (List.mem_cons_of_mem w hv)
    rcases none_or_some_of_rel (h.afterMark? (hwords w List.mem_cons_self)) with
      ⟨hs, ht⟩ | ⟨s', t', hs, ht, h'⟩ <;> rw [hs, ht]
    · exact ih
    · rcases h'.front with ⟨rfl, rfl⟩ | ⟨c, s, t, -, rfl, rfl, -⟩ | ⟨q, s, t, hq, rfl, rfl⟩
      · exact .some ⟨rfl, h'⟩
      · dsimp only
        cases isIdentChar c with
        | true => exact ih
        | false => exact .some ⟨rfl, h'⟩
      · dsimp only
        rw [passesQuotes_isIdentChar.eq_false hq]
        exact .some ⟨rfl, h'⟩

theorem blind_readIdentifier : Blind Eq readIdentifier := by
  intro k s t h
  unfold readIdentifier
  rcases h.front with ⟨rfl, rfl⟩ | ⟨c, s, t, -, rfl, rfl, hrest⟩ | ⟨q, s, t, hq, rfl, rfl⟩
  · exact .none
  · dsimp only
    cases isIdentStart c with
    | true =>
      obtain ⟨tail, s', t', hs, ht, hst⟩ := hrest.span passesQuotes_isIdentChar
      rw [hs, ht]
      exact .some ⟨rfl, hst⟩
    | false => exact .none
  · dsimp only
    rw [passesQuotes_isIdentStart.eq_false hq]
    exact .none

theorem Twin.readMembers : ∀ (n : Nat) {s t : List Char}, Twin k s t →
    ∃ more s' t', LineScript.readMembers n s = (more, s') ∧
      LineScript.readMembers n t = (more, t') ∧ Twin k s' t'
  | 0, s, t, h => ⟨[], s, t, rfl, rfl, h⟩
  | n + 1, s, t, h => by
    unfold LineScript.readMembers
    rcases h.head (c := '.') rfl with ⟨s', t', rfl, rfl, htail⟩ | ⟨hs, ht⟩
    · simp only
      rcases none_or_some_of_rel (blind_readIdentifier htail) with
        ⟨hs, ht⟩ | ⟨⟨name, u⟩, ⟨_, v⟩, hs, ht, rfl, huv⟩ <;> rw [hs, ht]
      · exact ⟨[], _, _, rfl, rfl, h⟩
      · obtain ⟨more, u', v', hu, hv, huv'⟩ := Twin.readMembers n huv
        dsimp only at hu hv ⊢
        rw [hu, hv]
        exact ⟨'.' :: name ++ more, u', v', rfl, rfl, huv'⟩
    · split
      next => exact absurd rfl (hs _)
      next => exact ⟨[], s, t, rfl, rfl, h⟩

theorem blind_readDotted : Blind Eq readDotted := by
  intro k s t h
  unfold readDotted
  rcases none_or_some_of_rel (blind_readIdentifier h) with
    ⟨hs, ht⟩ | ⟨⟨name, u⟩, ⟨_, v⟩, hs, ht, rfl, huv⟩ <;> rw [hs, ht]
  · exact .none
  · obtain ⟨more, u', v', hu, hv, huv'⟩ := huv.readMembers u.length
    dsimp only at huv hu hv
    simp only [Option.map_some]
    rw [← huv.length_eq, hu, hv]
    exact .some ⟨rfl, huv'⟩

theorem blind_readName {mark : List Char} (hmark : QuoteFree mark) : Blind Eq (readName mark) := by
  intro k s t h
  unfold readName
  rcases none_or_some_of_rel (h.afterMark? hmark) with
    ⟨hs, ht⟩ | ⟨u, v, hs, ht, huv⟩ <;> rw [hs, ht]
  · exact blind_readDotted h
  · dsimp only
    rcases none_or_some_of_rel (blind_readDotted huv) with
      ⟨hu, hv⟩ | ⟨⟨name, u'⟩, ⟨_, v'⟩, hu, hv, rfl, huv'⟩ <;> rw [hu, hv]
    · exact blind_readDotted h
    · exact .some ⟨rfl, huv'⟩

end Leaves

/-! ### Primary terms -/

section Primary

variable {k : Bool} {β : Blur} {inner : Reader Term}

theorem Twin.readMoreArgs (hinner : Blind (Term.Like β) inner) : ∀ (n : Nat) {s t : List Char},
    Twin k s t → ∃ ts ts' s' t', LineScript.readMoreArgs inner n s = (ts, s') ∧
      LineScript.readMoreArgs inner n t = (ts', t') ∧ Term.AllLike β ts ts' ∧ Twin k s' t'
  | 0, s, t, h => ⟨[], [], s, t, rfl, rfl, .nil, h⟩
  | n + 1, s, t, h => by
    unfold LineScript.readMoreArgs
    rcases h.skipBlanks.head (c := ',') rfl with ⟨s', t', hs', ht', htail⟩ | ⟨hs', ht'⟩
    · rw [hs', ht']
      simp only
      rcases none_or_some_of_rel (hinner htail.skipBlanks) with
        ⟨hs, ht⟩ | ⟨⟨a, u⟩, ⟨a', v⟩, hs, ht, ha, huv⟩ <;> rw [hs, ht]
      · exact ⟨[], [], s, t, rfl, rfl, .nil, h⟩
      · obtain ⟨ts, ts', u', v', hu, hv, hts, huv'⟩ := Twin.readMoreArgs hinner n huv
        dsimp only at hu hv ⊢
        rw [hu, hv]
        exact ⟨a :: ts, a' :: ts', u', v', rfl, rfl, .cons ha hts, huv'⟩
    · split
      next heq => exact absurd heq (hs' _)
      next => exact ⟨[], [], s, t, rfl, rfl, .nil, h⟩

theorem Twin.readArgs (hinner : Blind (Term.Like β) inner) {s t : List Char} (h : Twin k s t) :
    ∃ ts ts' s' t', LineScript.readArgs inner s = (ts, s') ∧
      LineScript.readArgs inner t = (ts', t') ∧ Term.AllLike β ts ts' ∧ Twin k s' t' := by
  unfold LineScript.readArgs
  rcases none_or_some_of_rel (hinner h) with
    ⟨hs, ht⟩ | ⟨⟨a, u⟩, ⟨a', v⟩, hs, ht, ha, huv⟩ <;> rw [hs, ht]
  · exact ⟨[], [], s, t, rfl, rfl, .nil, h⟩
  · obtain ⟨ts, ts', u', v', hu, hv, hts, huv'⟩ := huv.readMoreArgs hinner u.length
    dsimp only at huv hu hv ⊢
    rw [← huv.length_eq, hu, hv]
    exact ⟨a :: ts, a' :: ts', u', v', rfl, rfl, .cons ha hts, huv'⟩

theorem blind_readGroup (hinner : Blind (Term.Like β) inner) :
    Blind (Term.Like β) (readGroup inner) := by
  intro k s t h
  unfold readGroup
  rcases h.head (c := '(') rfl with ⟨s', t', rfl, rfl, htail⟩ | ⟨hs, ht⟩
  · simp only
    rcases none_or_some_of_rel (hinner htail.skipBlanks) with
      ⟨hs, ht⟩ | ⟨⟨a, u⟩, ⟨a', v⟩, hs, ht, ha, huv⟩ <;> rw [hs, ht]
    · exact .none
    · dsimp only
      rcases huv.skipBlanks.head (c := ')') rfl with ⟨u', v', hu, hv, huv'⟩ | ⟨hu, hv⟩
      · dsimp only at hu hv
        rw [hu, hv]
        exact .some ⟨ha, huv'⟩
      · split
        next heq => exact absurd heq (hu _)
        next => exact .none
  · split
    next => exact absurd rfl (hs _)
    next => exact .none

theorem blind_readCall {mark : List Char} (hmark : QuoteFree mark)
    (hinner : Blind (Term.Like β) inner) : Blind (Term.Like β) (readCall mark inner) := by
  intro k s t h
  unfold readCall
  rcases none_or_some_of_rel (blind_readName hmark h) with
    ⟨hs, ht⟩ | ⟨⟨name, u⟩, ⟨_, v⟩, hs, ht, rfl, huv⟩ <;> rw [hs, ht]
  · exact .none
  dsimp only at huv ⊢
  rcases huv.skipBlanks.head (c := '(') rfl with ⟨u', v', hu, hv, huv'⟩ | ⟨hu, hv⟩
  · obtain ⟨args, args', u₂, v₂, hu₂, hv₂, hargs, huv₂⟩ := huv'.skipBlanks.readArgs hinner
    rw [hu, hv]
    simp only [hu₂, hv₂]
    rcases huv₂.skipBlanks.head (c := ')') rfl with ⟨u₃, v₃, hu₃, hv₃, huv₃⟩ | ⟨hu₃, hv₃⟩
    · rw [hu₃, hv₃]
      exact .some ⟨.call hargs, huv₃⟩
    · split
      next heq => exact absurd heq (hu₃ _)
      next => exact .none
  · split
    next heq => exact absurd heq (hu _)
    next => exact .none

end Primary

/-- No symbol of the grammar has a quote in it. -/
structure Grammar.QuoteFree (g : Grammar) : Prop where
  orSymbols : ∀ m ∈ g.orSymbols, LineScript.QuoteFree m
  andSymbols : ∀ m ∈ g.andSymbols, LineScript.QuoteFree m
  comparisonSymbols : ∀ m ∈ g.comparisonSymbols, LineScript.QuoteFree m
  sumSymbols : ∀ m ∈ g.sumSymbols, LineScript.QuoteFree m
  productSymbols : ∀ m ∈ g.productSymbols, LineScript.QuoteFree m
  minus : LineScript.QuoteFree g.minus
  null : LineScript.QuoteFree g.null
  booleans : ∀ m ∈ g.booleans, LineScript.QuoteFree m
  globalMark : LineScript.QuoteFree g.globalMark

section Expressions

variable {k : Bool} {β : Blur} {g : Grammar} {inner : Reader Term}

theorem blind_readPrimary (hβ : ∀ x y, β.string x = β.string y) (hg : g.QuoteFree)
    (hinner : Blind (Term.Like β) inner) : Blind (Term.Like β) (readPrimary g inner) := by
  have hnull : Blind (Term.Like β) fun s =>
      (Symbols.afterMark? g.null s).map fun rest => (Term.null, rest) := by
    intro k s t h
    dsimp only
    rcases none_or_some_of_rel (h.afterMark? hg.null) with
      ⟨hs, ht⟩ | ⟨u, v, hs, ht, huv⟩ <;> rw [hs, ht]
    · exact .none
    · exact .some ⟨.null, huv⟩
  have hboolean : Blind (Term.Like β) fun s =>
      (readWord g.booleans s).map fun p => (Term.boolean p.1, p.2) :=
    (blind_readWord hg.booleans).map fun _ _ h => h ▸ .boolean
  have hreference : Blind (Term.Like β) fun s =>
      (readName g.globalMark s).map fun p => (Term.reference p.1, p.2) :=
    (blind_readName hg.globalMark).map fun _ _ h => h ▸ .reference
  exact (blind_readGroup hinner).orElse (blind_readNumber.orElse
    ((blind_readStringTerm hβ).orElse (hnull.orElse (hboolean.orElse
      ((blind_readCall hg.globalMark hinner).orElse hreference)))))

/-! ### Operators -/

theorem blind_readUnary (hβ : ∀ x y, β.string x = β.string y) (hg : g.QuoteFree)
    (hinner : Blind (Term.Like β) inner) : ∀ n : Nat, Blind (Term.Like β) (readUnary g inner n)
  | 0 => blind_readPrimary hβ hg hinner
  | n + 1 => by
    have hprimary := blind_readPrimary hβ hg hinner
    intro k s t h
    unfold readUnary
    rcases none_or_some_of_rel (h.afterMark? hg.minus) with
      ⟨hs, ht⟩ | ⟨u, v, hs, ht, huv⟩ <;> rw [hs, ht]
    · exact hprimary h
    · dsimp only
      rcases none_or_some_of_rel (blind_readUnary hβ hg hinner n huv.skipBlanks) with
        ⟨hu, hv⟩ | ⟨⟨a, u'⟩, ⟨a', v'⟩, hu, hv, ha, huv'⟩ <;> rw [hu, hv]
      · exact hprimary h
      · exact .some ⟨.negation ha, huv'⟩

variable {symbols : List (List Char)} {operand : Reader Term}

/-- The longest symbol at the front of a text is one of the symbols, and stands there. -/
theorem mem_of_longestAt {s m : List Char} (h : longestAt symbols s = some m) :
    m ∈ symbols ∧ m.isPrefixOf s = true := by
  -- the best so far is always one of the symbols that stand there
  have hfold : ∀ (l : List (List Char)) (best : Option (List Char)),
      l.foldl longer best = some m → best = some m ∨ m ∈ l := by
    intro l
    induction l with
    | nil => exact fun best h => .inl h
    | cons x l ih =>
      intro best h
      rcases ih _ h with hbest | hmem
      · cases best with
        | none => exact .inr (Option.some.inj hbest ▸ List.mem_cons_self)
        | some b =>
          unfold longer at hbest
          dsimp only at hbest
          split at hbest
          · exact .inr (Option.some.inj hbest ▸ List.mem_cons_self)
          · exact .inl hbest
      · exact .inr (List.mem_cons_of_mem x hmem)
  rcases hfold _ none h with hnone | hmem
  · cases hnone
  · exact List.mem_filter.1 hmem

theorem Twin.longestAt_eq (hsymbols : ∀ m ∈ symbols, QuoteFree m) {s t : List Char} (h : Twin k s t) :
    longestAt symbols s = longestAt symbols t := by
  unfold longestAt
  rw [List.filter_congr fun m hm => (h.fits (hsymbols m hm)).1]

theorem Twin.readChain {family : Family} (hsymbols : ∀ m ∈ symbols, QuoteFree m)
    (hoperand : Blind (Term.Like β) operand) :
    ∀ (n : Nat) {a a' : Term} {s t : List Char}, a.Like β a' → Twin k s t →
      (LineScript.readChain family symbols operand n a s).1.Like β
          (LineScript.readChain family symbols operand n a' t).1 ∧
        Twin k (LineScript.readChain family symbols operand n a s).2
          (LineScript.readChain family symbols operand n a' t).2
  | 0, _, _, _, _, ha, h => ⟨ha, h⟩
  | n + 1, a, a', s, t, ha, h => by
    have hskip := h.skipBlanks
    unfold LineScript.readChain
    rw [← hskip.longestAt_eq hsymbols]
    cases hm : longestAt symbols (LineScript.skipBlanks s) with
    | none => exact ⟨ha, h⟩
    | some m =>
      obtain ⟨hmem, hfits⟩ := mem_of_longestAt hm
      dsimp only
      rcases none_or_some_of_rel
        (hoperand ((hskip.fits (hsymbols m hmem)).2 hfits).skipBlanks) with
        ⟨hs, ht⟩ | ⟨⟨b, u⟩, ⟨b', v⟩, hs, ht, hb, huv⟩ <;> rw [hs, ht]
      · exact ⟨ha, h⟩
      · exact Twin.readChain hsymbols hoperand n (.binary ha hb) huv

theorem blind_readLevel {family : Family} (hsymbols : ∀ m ∈ symbols, QuoteFree m)
    (hoperand : Blind (Term.Like β) operand) :
    Blind (Term.Like β) (readLevel family symbols operand) := by
  intro k s t h
  unfold readLevel
  rcases none_or_some_of_rel (hoperand h) with
    ⟨hs, ht⟩ | ⟨⟨a, u⟩, ⟨a', v⟩, hs, ht, ha, huv⟩ <;> rw [hs, ht]
  · exact .none
  · dsimp only at huv
    simp only [Option.map_some]
    rw [← huv.length_eq]
    exact .some (huv.readChain hsymbols hoperand u.length ha)

/-- **The reader of expressions does not look into strings.** -/
theorem blind_readTerm (hβ : ∀ x y, β.string x = β.string y) (hg : g.QuoteFree) :
    ∀ n : Nat, Blind (Term.Like β) (readTerm g n)
  | 0 => fun _ _ _ _ => .none
  | n + 1 => by
    have hunary : Blind (Term.Like β) fun s => readUnary g (readTerm g n) s.length s := by
      intro k s t h
      dsimp only
      rw [← h.length_eq]
      exact blind_readUnary hβ hg (blind_readTerm hβ hg n) s.length h
    exact blind_readLevel hg.orSymbols (blind_readLevel hg.andSymbols
      (blind_readLevel hg.comparisonSymbols (blind_readLevel hg.sumSymbols
        (blind_readLevel hg.productSymbols hunary))))

/-! ### Whole texts -/

/-- Whole texts that are twins are the same term up to strings, or neither is a term. -/
theorem Twin.read (hβ : ∀ x y, β.string x = β.string y) (hg : g.QuoteFree) {s t : List Char}
    (h : Twin k s t) :
    Parallel (fun _ _ => True) (Term.Like β) (Term.read g s) (Term.read g t) := by
  unfold Term.read
  rw [← h.length_eq]
  rcases none_or_some_of_rel (blind_readTerm hβ hg (s.length + 1) h) with
    ⟨hs, ht⟩ | ⟨⟨a, u⟩, ⟨a', v⟩, hs, ht, ha, huv⟩ <;> rw [hs, ht]
  · exact .error trivial
  · cases huv with
    | nil => exact .ok ha
    | char | literal | unclosed => exact .error trivial

/-- A text with a literal that has no end is no term: every reader leaves the literal behind. -/
theorem Twin.read_unclosed (hg : g.QuoteFree) {s : List Char} (h : Twin false s s) :
    ∃ d, Term.read g s = .error d := by
  unfold Term.read
  have hblind := blind_readTerm (β := ⟨id, fun _ => ""⟩) (fun _ _ => rfl) hg (s.length + 1)
  rcases none_or_some_of_rel (hblind h) with
    ⟨hs, -⟩ | ⟨⟨a, u⟩, ⟨_, v⟩, hs, -, -, huv⟩ <;> rw [hs]
  · exact ⟨_, rfl⟩
  · cases huv <;> exact ⟨_, rfl⟩

end Expressions

end LineScript
