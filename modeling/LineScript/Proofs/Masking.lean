import Mathlib.Data.List.DropRight
import Mathlib.Data.List.Forall2
import Mathlib.Data.List.Induction
import Mathlib.Data.List.TakeWhile
import LineScript.Proofs.Twins

/-!
# What the masked form of a text tells

The masked form of a text keeps its quotes and blanks what stands inside literals.  So it tells at
which offsets a literal is open; and between two offsets where none is, it is the masked form of
what stands there.  Texts with the same masked form that have no open literal at their end are
therefore twins, and so is whatever is cut from them at such offsets: their statements, and what is
left of them when the blanks around them are stripped.

## Main definitions

* `Quoting.after` — where the character behind a text stands.
* `Closed` — texts in which every literal has its end.
* `Solid` — texts that begin and end with a character that is not blank.
* `Veiled` — closed texts with the same masked form.

## Main results

* `closed_congr` — the masked form tells whether a text is closed.
* `twin_of_mask_eq` — **texts of one line with the same masked form are twins.**
* `Veiled.slice`, `Veiled.strip` — parts of closed texts with the same masked form.
-/

namespace LineScript

/-! ### States along a text -/

variable {q : Quoting}

namespace Quoting

/-- Where the character behind a text stands. -/
def after (q : Quoting) (s : List Char) : Quoting := s.foldl next q

@[simp] theorem after_nil (q : Quoting) : q.after [] = q := rfl

@[simp] theorem after_cons (q : Quoting) (c : Char) (s : List Char) :
    q.after (c :: s) = (q.next c).after s := rfl

theorem after_append (q : Quoting) (s t : List Char) : q.after (s ++ t) = (q.after s).after t :=
  List.foldl_append

/-- The quote around what stands here. -/
def quote? : Quoting → Option Char
  | outside => none
  | inside quote | escaped quote => some quote

theorem quote?_eq_none : q.quote? = none ↔ q = outside := by
  cases q <;> simp [quote?]

/-- What is around a literal is a quote. -/
def Proper (q : Quoting) : Prop := ∀ quote, q.quote? = some quote → isQuote quote = true

theorem proper_outside : Proper outside := by
  rintro quote ⟨⟩

/-- A character inside a literal is blanked and the literal goes on, or it is the last quote. -/
theorem step_cases (q : Quoting) (c : Char) :
    q = outside ∨ q.maskChar c = '_' ∧ (q.next c).quote? = q.quote? ∨
      q.quote? = some c ∧ q.next c = outside ∧ q.maskChar c = c := by
  cases q with
  | outside => exact .inl rfl
  | inside quote =>
    by_cases hescape : c = '\\'
    · simp [Quoting.next, maskChar, quote?, hescape]
    · by_cases hc : quote = c
      · simp [Quoting.next, maskChar, quote?, hescape, hc]
      · simp [Quoting.next, maskChar, quote?, hescape, Ne.symm hc]
  | escaped quote => exact .inr (.inl ⟨rfl, rfl⟩)

theorem Proper.next (h : q.Proper) (c : Char) : (q.next c).Proper := by
  intro quote hquote
  rcases q.step_cases c with rfl | ⟨-, hsame⟩ | ⟨-, hout, -⟩
  · unfold Quoting.next at hquote
    dsimp only at hquote
    split at hquote
    next hc => cases hquote; exact hc
    next => cases hquote
  · exact h quote (hsame ▸ hquote)
  · rw [hout] at hquote
    cases hquote

theorem Proper.after (h : q.Proper) (s : List Char) : (q.after s).Proper := by
  induction s generalizing q with
  | nil => exact h
  | cons c s ih => exact ih (h.next c)

/-- The quote around what stands behind a character, told by the quote around it and by its masked
form. -/
def nextQuote? (quote? : Option Char) (m : Char) : Option Char :=
  match quote? with
  | none => if isQuote m then some m else none
  | some quote => if m == quote then none else some quote

theorem quote?_next (h : q.Proper) (c : Char) :
    (q.next c).quote? = nextQuote? q.quote? (q.maskChar c) := by
  rcases q.step_cases c with rfl | ⟨hmask, hsame⟩ | ⟨hquote, hout, hmask⟩
  · by_cases hc : isQuote c <;> simp [Quoting.next, maskChar, quote?, nextQuote?, hc]
  · rw [hsame, hmask]
    cases hquote : q.quote? with
    | none => rfl
    | some quote =>
      -- an underscore is no quote
      rcases eq_or_eq_of_isQuote (h quote hquote) with rfl | rfl <;> rfl
  · rw [hquote, hout, hmask, nextQuote?, beq_self_eq_true, if_pos rfl]
    rfl

/-- The quote around what stands behind a text is told by its masked form. -/
theorem quote?_after (h : q.Proper) (s : List Char) :
    (q.after s).quote? = (maskFrom q s).foldl nextQuote? q.quote? := by
  induction s generalizing q with
  | nil => rfl
  | cons c s ih => rw [after_cons, maskFrom_cons, List.foldl_cons, ih (h.next c), quote?_next h]

end Quoting

theorem maskFrom_append (q : Quoting) (s t : List Char) :
    maskFrom q (s ++ t) = maskFrom q s ++ maskFrom (q.after s) t := by
  induction s generalizing q with
  | nil => rfl
  | cons c s ih => rw [List.cons_append, maskFrom_cons, maskFrom_cons, ih, List.cons_append]; rfl

/-! ### Closed texts -/

/-- Every literal of the text has its end. -/
def Closed (s : List Char) : Prop := Quoting.outside.after s = .outside

instance (s : List Char) : Decidable (Closed s) :=
  inferInstanceAs (Decidable (Quoting.outside.after s = .outside))

theorem closed_nil : Closed [] := rfl

variable {s : List Char}

/-- A text is closed if no quote is around what stands behind its masked form. -/
theorem closed_iff_foldl :
    Closed s ↔ (mask s).foldl Quoting.nextQuote? none = none := by
  unfold Closed
  rw [← Quoting.quote?_eq_none, Quoting.quote?_after Quoting.proper_outside]
  rfl

/-- The masked form of a text tells whether it is closed. -/
theorem closed_congr {s t : List Char} (h : mask s = mask t) : Closed s ↔ Closed t := by
  rw [closed_iff_foldl, closed_iff_foldl, h]

/-- A literal on its own is closed. -/
theorem closed_of_mask_literal {q : Char} (hq : isQuote q = true) {s body : List Char}
    (hbody : q ∉ body) (h : mask s = q :: (body ++ [q])) : Closed s := by
  have hstay : body.foldl Quoting.nextQuote? (some q) = some q := by
    clear h
    induction body with
    | nil => rfl
    | cons c body ih =>
      have hc : (c == q) = false :=
        beq_eq_false_iff_ne.2 fun hc => hbody (hc ▸ List.mem_cons_self)
      rw [List.foldl_cons, Quoting.nextQuote?, hc]
      exact ih fun hmem => hbody (List.mem_cons_of_mem c hmem)
  have hopen : Quoting.nextQuote? none q = some q := if_pos hq
  rw [closed_iff_foldl, h, List.foldl_cons, hopen, List.foldl_append, hstay]
  simp [Quoting.nextQuote?]

theorem Closed.append_iff {s t : List Char} (hs : Closed s) : Closed (s ++ t) ↔ Closed t := by
  unfold Closed at hs ⊢
  rw [Quoting.after_append, hs]

theorem mask_append (hs : Closed s) (t : List Char) :
    mask (s ++ t) = mask s ++ mask t := by
  unfold mask
  rw [maskFrom_append, show Quoting.outside.after s = .outside from hs]

theorem closed_of_quoteFree (h : QuoteFree s) : Closed s := by
  induction s with
  | nil => rfl
  | cons c s ih =>
    have hc := h c List.mem_cons_self
    have hs := ih fun d hd => h d (List.mem_cons_of_mem c hd)
    show (Quoting.outside.next c).after s = .outside
    rw [show Quoting.outside.next c = .outside by simp [Quoting.next, hc]]
    exact hs

/-- A text without quotes is its masked form. -/
theorem mask_of_quoteFree (h : QuoteFree s) : mask s = s := by
  induction s with
  | nil => rfl
  | cons c s ih =>
    have hc := h c List.mem_cons_self
    have hs := ih fun d hd => h d (List.mem_cons_of_mem c hd)
    show c :: maskFrom (Quoting.outside.next c) s = c :: s
    rw [show Quoting.outside.next c = .outside by simp [Quoting.next, hc]]
    exact congrArg (c :: ·) hs

/-- What a masked form has at its front without quotes, the text has too. -/
theorem eq_append_of_mask {front : List Char} (hfront : QuoteFree front) :
    ∀ {s post : List Char}, mask s = front ++ post →
      ∃ rest, s = front ++ rest ∧ mask rest = post := by
  induction front with
  | nil => exact fun {s _} h => ⟨s, rfl, h⟩
  | cons c front ih =>
    intro s post h
    have hc := hfront c List.mem_cons_self
    cases s with
    | nil => cases h
    | cons d s =>
      obtain ⟨rfl, htail⟩ := List.cons.inj h
      change isQuote d = false at hc
      rw [show Quoting.outside.next d = .outside by simp [Quoting.next, hc]] at htail
      obtain ⟨rest, rfl, hrest⟩ := ih (fun e he => hfront e (List.mem_cons_of_mem d he)) htail
      exact ⟨rest, rfl, hrest⟩

/-- A text without quotes stands at the front of a text if it does so in the masked form. -/
theorem isPrefixOf_mask {m : List Char} (hm : QuoteFree m) (s : List Char) :
    m.isPrefixOf (mask s) = m.isPrefixOf s := by
  rw [Bool.eq_iff_iff, List.isPrefixOf_iff_prefix, List.isPrefixOf_iff_prefix]
  constructor
  · rintro ⟨post, hpost⟩
    obtain ⟨rest, rfl, -⟩ := eq_append_of_mask hm hpost.symm
    exact List.prefix_append m rest
  · rintro ⟨rest, rfl⟩
    rw [mask_append (closed_of_quoteFree hm), mask_of_quoteFree hm]
    exact List.prefix_append m _

variable {c : Char} {i : Nat} {sep : List Char}

/-- A masked form shows characters of the text and underscores. -/
theorem mem_of_mem_maskFrom (h : c ∈ maskFrom q s) (hc : c ≠ '_') :
    c ∈ s := by
  induction s generalizing q with
  | nil => cases h
  | cons d s ih =>
    rcases List.mem_cons.1 h with rfl | h
    · -- a character that is not blanked is itself
      have hchar : q.maskChar d = '_' ∨ q.maskChar d = d := by
        rcases q.step_cases d with rfl | ⟨hmask, -⟩ | ⟨-, -, hmask⟩
        · exact .inr rfl
        · exact .inl hmask
        · exact .inr hmask
      rw [hchar.resolve_left hc]
      exact List.mem_cons_self
    · exact List.mem_cons_of_mem d (ih h)

/-! ### Offsets where no literal is open -/

/-- A character that no literal shows in its masked form. -/
def isPlain (c : Char) : Bool := !isQuote c && c != '_'

/-- Where the masked form of a character is plain, no literal is open. -/
theorem outside_of_isPlain (hq : q.Proper) (h : isPlain (q.maskChar c) = true) :
    q = .outside := by
  rcases q.step_cases c with hout | ⟨hmask, -⟩ | ⟨hquote, -, hmask⟩
  · exact hout
  · rw [hmask] at h
    cases h
  · rw [hmask, isPlain, hq c hquote] at h
    cases h

theorem maskFrom_take (q : Quoting) (s : List Char) (i : Nat) :
    maskFrom q (s.take i) = (maskFrom q s).take i := by
  induction s generalizing q i with
  | nil => simp
  | cons c s ih =>
    cases i with
    | zero => rfl
    | succ i => rw [List.take_succ_cons, maskFrom_cons, maskFrom_cons, ih, List.take_succ_cons]

theorem mask_take (s : List Char) (i : Nat) : mask (s.take i) = (mask s).take i :=
  maskFrom_take .outside s i

/-- What is left of a masked form behind an offset is the masked form of what is left, in the
state there. -/
theorem maskFrom_drop (s : List Char) (hi : i ≤ s.length) :
    maskFrom (Quoting.outside.after (s.take i)) (s.drop i) = (mask s).drop i := by
  have h := maskFrom_append .outside (s.take i) (s.drop i)
  rw [List.take_append_drop] at h
  have hlength : (maskFrom .outside (s.take i)).length = i := by simp [hi]
  unfold mask
  rw [h, List.drop_left' hlength]

theorem mask_drop (hi : Closed (s.take i)) : mask (s.drop i) = (mask s).drop i := by
  by_cases hle : i ≤ s.length
  · rw [← maskFrom_drop s hle, show Quoting.outside.after (s.take i) = .outside from hi]
    rfl
  · rw [List.drop_of_length_le (by omega), List.drop_of_length_le (by rw [length_mask]; omega)]
    rfl

theorem closed_take_congr {s t : List Char} (h : mask s = mask t) :
    Closed (s.take i) ↔ Closed (t.take i) :=
  closed_congr (by rw [mask_take, mask_take, h])

/-- Between two offsets where no literal is open, the masked form of a text is that of what stands
there. -/
theorem mask_slice (hi : Closed (s.take i)) (j : Nat) :
    mask (slice s i j) = slice (mask s) i j := by
  unfold slice
  rw [mask_take, mask_drop hi]

theorem closed_slice {j : Nat} (hi : Closed (s.take i)) (hj : Closed (s.take j))
    (hij : i ≤ j) : Closed (slice s i j) := by
  have hsplit : s.take j = s.take i ++ slice s i j := by
    unfold slice
    rw [← List.take_add, Nat.add_sub_cancel' hij]
  rw [hsplit] at hj
  exact hi.append_iff.1 hj

/-! ### Literals -/

/-- What may stand between two quotes `q`: the quote itself only behind a backslash. -/
inductive LiteralBody (q : Char) : List Char → Prop where
  | nil : LiteralBody q []
  | char {c : Char} {s : List Char} : c ≠ q → c ≠ '\\' → LiteralBody q s → LiteralBody q (c :: s)
  | escape {c : Char} {s : List Char} : LiteralBody q s → LiteralBody q ('\\' :: c :: s)

/-- What may stand between two quotes `q`: characters other than the quote and the backslash, and
behind a backslash any character but a line feed. -/
inductive StringBody (q : Char) : List Char → Prop where
  | nil : StringBody q []
  | char {c : Char} {s : List Char} : c ≠ q → c ≠ '\\' → StringBody q s → StringBody q (c :: s)
  | escape {c : Char} {s : List Char} : c ≠ '\n' → StringBody q s → StringBody q ('\\' :: c :: s)

theorem ne_backslash_of_isQuote {q : Char} (hq : isQuote q = true) : q ≠ '\\' := by
  rcases eq_or_eq_of_isQuote hq with rfl | rfl <;> decide

variable {body : List Char}

theorem StringBody.literalBody {q : Char} (h : StringBody q body) :
    LiteralBody q body := by
  induction h with
  | nil => exact .nil
  | char hc hescape _ ih => exact .char hc hescape ih
  | escape _ _ ih => exact .escape ih

theorem LiteralBody.stringBody {q : Char} (h : LiteralBody q body)
    (hline : '\n' ∉ body) : StringBody q body := by
  induction h with
  | nil => exact .nil
  | char hc hescape _ ih => exact .char hc hescape (ih fun h => hline (by simp [h]))
  | escape _ ih => exact .escape (fun h => hline (by simp [h])) (ih fun h => hline (by simp [h]))

/-- What stands between quotes leaves the literal open and is blanked. -/
theorem LiteralBody.inside {q : Char} (h : LiteralBody q body) :
    (Quoting.inside q).after body = .inside q ∧
      maskFrom (.inside q) body = List.replicate body.length '_' := by
  induction h with
  | nil => exact ⟨rfl, rfl⟩
  | @char c body hc hescape _ ih =>
    have hnext : (Quoting.inside q).next c = .inside q := by simp [Quoting.next, hc, hescape]
    have hchar : (Quoting.inside q).maskChar c = '_' := by simp [Quoting.maskChar, hc, hescape]
    rw [Quoting.after_cons, maskFrom_cons, hnext, hchar, ih.2]
    exact ⟨ih.1, rfl⟩
  | escape _ ih => exact ⟨ih.1, congrArg (fun m => '_' :: '_' :: m) ih.2⟩

/-- The last quote is shown, and closes the literal. -/
theorem LiteralBody.behind {q : Char} (hq : isQuote q = true) (h : LiteralBody q body)
    (rest : List Char) :
    maskFrom (.inside q) (body ++ q :: rest) = List.replicate body.length '_' ++ q :: mask rest ∧
      (Quoting.inside q).after (body ++ q :: rest) = Quoting.outside.after rest := by
  have hescape := ne_backslash_of_isQuote hq
  have hnext : (Quoting.inside q).next q = .outside := by simp [Quoting.next, hescape]
  have hchar : (Quoting.inside q).maskChar q = q := by simp [Quoting.maskChar, hescape]
  rw [maskFrom_append, Quoting.after_append, h.inside.1, h.inside.2, maskFrom_cons,
    Quoting.after_cons, hnext, hchar]
  exact ⟨rfl, rfl⟩

/-- Behind a first quote, a text has a last quote, or all of it stands inside the literal; a backslash
may be the last thing then. -/
theorem literalBody_cases (q : Char) : ∀ s : List Char,
    (∃ body rest, s = body ++ q :: rest ∧ LiteralBody q body) ∨
      ∃ body, LiteralBody q body ∧ (s = body ∨ s = body ++ ['\\'])
  | [] => .inr ⟨[], .nil, .inl rfl⟩
  | c :: s => by
    by_cases hc : c = q
    · exact .inl ⟨[], s, by rw [hc, List.nil_append], .nil⟩
    by_cases hescape : c = '\\'
    · subst hescape
      -- the backslash takes the next character with it
      match s with
      | [] => exact .inr ⟨[], .nil, .inr rfl⟩
      | d :: s =>
        rcases literalBody_cases q s with ⟨body, rest, rfl, hbody⟩ | ⟨body, hbody, hs⟩
        · exact .inl ⟨'\\' :: d :: body, rest, rfl, hbody.escape⟩
        · exact .inr ⟨'\\' :: d :: body, hbody.escape, by simpa using hs⟩
    · rcases literalBody_cases q s with ⟨body, rest, rfl, hbody⟩ | ⟨body, hbody, hs⟩
      · exact .inl ⟨c :: body, rest, rfl, .char hc hescape hbody⟩
      · exact .inr ⟨c :: body, .char hc hescape hbody, by simpa using hs⟩

/-- A text that stands inside a literal is blanked, and the literal has no end. -/
theorem unclosed_of_literalBody {q : Char}
    (h : ∃ body, LiteralBody q body ∧ (s = body ∨ s = body ++ ['\\'])) :
    maskFrom (.inside q) s = List.replicate s.length '_' ∧
      (Quoting.inside q).after s ≠ .outside := by
  obtain ⟨body, hbody, rfl | rfl⟩ := h
  · rw [hbody.inside.1, hbody.inside.2]
    exact ⟨rfl, Quoting.noConfusion⟩
  · rw [maskFrom_append, Quoting.after_append, hbody.inside.1, hbody.inside.2, List.length_append,
      ← List.replicate_append_replicate]
    exact ⟨rfl, Quoting.noConfusion⟩

/-- **The reader of strings takes what may stand between two quotes**, up to the first quote that is
not behind a backslash. -/
theorem readString_eq_some_iff {q : Char} (hq : q ≠ '\\') {s body rest : List Char} :
    readString q s = some (body, rest) ↔ s = body ++ q :: rest ∧ StringBody q body := by
  constructor
  · intro h
    fun_induction readString q s generalizing body with
    | case1 => cases h
    | case2 => cases h
    | case3 c tail hline ih =>
      obtain ⟨⟨inner, _⟩, hp, ⟨⟩⟩ := Option.map_eq_some_iff.1 h
      obtain ⟨rfl, hbody⟩ := ih hp
      exact ⟨rfl, .escape (by simpa using hline) hbody⟩
    | case4 c tail _ hc =>
      cases h
      exact ⟨by rw [beq_iff_eq.1 hc, List.nil_append], .nil⟩
    | case5 => cases h
    | case6 c tail _ hc hslash ih =>
      obtain ⟨⟨inner, _⟩, hp, ⟨⟩⟩ := Option.map_eq_some_iff.1 h
      obtain ⟨rfl, hbody⟩ := ih hp
      exact ⟨rfl, .char (by simpa using hc) (by simpa using hslash) hbody⟩
  · rintro ⟨rfl, h⟩
    induction h with
    | nil =>
      rw [List.nil_append, readString, if_pos (beq_self_eq_true q)]
      exact fun _ _ heq => absurd heq hq
    | @char c body hc hslash _ ih =>
      rw [List.cons_append, readString, if_neg (by simpa using hc), if_neg (by simpa using hslash), ih]
      · rfl
      · exact fun _ _ heq => absurd heq hslash
    | @escape c body hline _ ih =>
      rw [List.cons_append, List.cons_append, readString, if_neg (by simpa using hline), ih]
      rfl

/-- What is printed of a text may stand between quotes. -/
theorem stringBody_print (s : List Char) : StringBody '"' (s.flatMap printChar) := by
  induction s with
  | nil => exact .nil
  | cons c s ih =>
    rw [List.flatMap_cons]
    unfold printChar
    split
    case h_5 hslash hquote _ _ => exact .char hquote hslash ih
    all_goals exact .escape (by decide) ih

theorem exists_of_readStringTerm {s rest : List Char} {t : Term}
    (h : readStringTerm s = some (t, rest)) : ∃ q body, isQuote q = true ∧
      t = .string body ∧ s = q :: (body ++ q :: rest) ∧ StringBody q body := by
  have hliteral {q : Char} {s : List Char} (hq : isQuote q = true)
      (h : ((readString q s).map fun p => (Term.string p.1, p.2)) = some (t, rest)) :
      ∃ q' body, isQuote q' = true ∧ t = .string body ∧ q :: s = q' :: (body ++ q' :: rest) ∧
        StringBody q' body := by
    obtain ⟨⟨body, _⟩, hread, ⟨⟩⟩ := Option.map_eq_some_iff.1 h
    obtain ⟨rfl, hbody⟩ := (readString_eq_some_iff (ne_backslash_of_isQuote hq)).1 hread
    exact ⟨q, body, hq, rfl, rfl, hbody⟩
  unfold readStringTerm at h
  split at h
  next => exact hliteral rfl h
  next => exact hliteral rfl h
  next => cases h

theorem replicate_ne_quote {q : Char} (hq : isQuote q = true) {m n : Nat} :
    List.replicate m '_' ++ q :: s ≠ List.replicate n '_' := by
  intro h
  have hmem : q ∈ List.replicate n '_' := h ▸ List.mem_append_right _ List.mem_cons_self
  rw [(List.mem_replicate.1 hmem).2] at hq
  cases hq

/-- **The reader of strings and the mask agree** on where a literal ends, or that it does not. -/
theorem readString_mask {q : Char} (hq : isQuote q = true) (hs : '\n' ∉ s) :
    (∃ body rest, readString q s = some (body, rest) ∧ s = body ++ q :: rest ∧
        maskFrom (.inside q) s = List.replicate body.length '_' ++ q :: mask rest ∧
        (Quoting.inside q).after s = Quoting.outside.after rest) ∨
      readString q s = none ∧ maskFrom (.inside q) s = List.replicate s.length '_' ∧
        (Quoting.inside q).after s ≠ .outside := by
  have hread {body rest : List Char} := @readString_eq_some_iff q (ne_backslash_of_isQuote hq) s body rest
  rcases literalBody_cases q s with ⟨body, rest, rfl, hbody⟩ | hopen
  · have hstring := hbody.stringBody fun h => hs (List.mem_append_left _ h)
    exact .inl ⟨body, rest, hread.2 ⟨rfl, hstring⟩, rfl, hbody.behind hq rest⟩
  · obtain ⟨hmask, hafter⟩ := unclosed_of_literalBody hopen
    refine .inr ⟨Option.eq_none_iff_forall_ne_some.2 fun ⟨body, rest⟩ h => ?_, hmask, hafter⟩
    -- a last quote would be shown
    obtain ⟨rfl, hbody⟩ := hread.1 h
    rw [(hbody.literalBody.behind hq rest).1] at hmask
    exact replicate_ne_quote hq hmask

/-- A run of underscores before a quote is told by what it is part of. -/
theorem underscores_inj {q : Char} (hq : isQuote q = true) {m n : Nat} {s t : List Char}
    (h : List.replicate m '_' ++ q :: s = List.replicate n '_' ++ q :: t) : m = n ∧ s = t := by
  have hne : '_' ≠ q := by
    rintro rfl
    cases hq
  induction m generalizing n with
  | zero =>
    cases n with
    | zero => exact ⟨rfl, (List.cons.inj h).2⟩
    | succ n => exact absurd (List.cons.inj h).1.symm hne
  | succ m ih =>
    cases n with
    | zero => exact absurd (List.cons.inj h).1 hne
    | succ n =>
      obtain ⟨rfl, hst⟩ := ih (List.cons.inj h).2
      exact ⟨rfl, hst⟩

/-- **Texts of one line with the same masked form are twins**, and the form tells of which kind. -/
theorem twin_of_mask_eq {k : Bool} {a b : List Char} (hk : k = true ↔ Closed a)
    (h : mask a = mask b) (ha : '\n' ∉ a) (hb : '\n' ∉ b) : Twin k a b := by
  induction hn : a.length using Nat.strongRecOn generalizing a b with
  | ind n ih =>
  subst hn
  cases a with
  | nil =>
    cases b with
    | nil => rw [hk.2 closed_nil]; exact .nil
    | cons d t => cases h
  | cons c s =>
    cases b with
    | nil => cases h
    | cons d t =>
      obtain ⟨hcd, htail⟩ := List.cons.inj h
      change c = d at hcd
      subst hcd
      have hs : '\n' ∉ s := fun hmem => ha (List.mem_cons_of_mem c hmem)
      have ht : '\n' ∉ t := fun hmem => hb (List.mem_cons_of_mem c hmem)
      have hlength : s.length = t.length := by
        rw [← length_maskFrom (Quoting.outside.next c) s, htail, length_maskFrom]
      change k = true ↔ (Quoting.outside.next c).after s = .outside at hk
      cases hc : isQuote c with
      | false =>
        have hnext : Quoting.outside.next c = .outside := by simp [Quoting.next, hc]
        rw [hnext] at htail hk
        exact .char hc (ih s.length (Nat.lt_succ_self _) hk htail hs ht rfl)
      | true =>
        have hnext : Quoting.outside.next c = .inside c := by simp [Quoting.next, hc]
        rw [hnext] at htail hk
        -- the mask tells whether the literal ends, and where
        rcases readString_mask hc hs with
          ⟨body, s', hread, rfl, hmask, hafter⟩ | ⟨hread, hmask, hafter⟩ <;>
        rcases readString_mask hc ht with
          ⟨body', t', hread', rfl, hmask', -⟩ | ⟨hread', hmask', -⟩
        · rw [hmask, hmask'] at htail
          obtain ⟨-, htail⟩ := underscores_inj hc htail
          have hlt : s'.length < (c :: (body ++ c :: s')).length := by
            simp only [List.length_cons, List.length_append]
            omega
          rw [hafter] at hk
          exact .literal hc hread hread' hlength (ih s'.length hlt hk htail
            (fun hmem => hs (List.mem_append_right _ (List.mem_cons_of_mem c hmem)))
            (fun hmem => ht (List.mem_append_right _ (List.mem_cons_of_mem c hmem))) rfl)
        · rw [hmask, hmask'] at htail
          exact absurd htail (replicate_ne_quote hc)
        · rw [hmask, hmask'] at htail
          exact absurd htail.symm (replicate_ne_quote hc)
        · rw [Bool.eq_false_iff.2 fun hk' => hafter (hk.1 hk')]
          exact .unclosed hc hread hread' hlength

/-! ### Blanks -/

theorem isQuote_eq_false_of_isBlank (h : isBlank c = true) : isQuote c = false := by
  cases hc : isQuote c with
  | false => rfl
  | true => rcases eq_or_eq_of_isQuote hc with rfl | rfl <;> cases h

/-- A character that is no quote closes no literal. -/
theorem outside_of_next (hq : q.Proper) (hc : isQuote c = false)
    (h : q.next c = .outside) : q = .outside := by
  rcases q.step_cases c with hout | ⟨-, hsame⟩ | ⟨hquote, -⟩
  · exact hout
  · rw [h] at hsame
    exact Quoting.quote?_eq_none.1 hsame.symm
  · rw [hq c hquote] at hc
    cases hc

theorem outside_of_after (hq : q.Proper) (hs : QuoteFree s)
    (h : q.after s = .outside) : q = .outside := by
  induction s generalizing q with
  | nil => exact h
  | cons c s ih =>
    have hnext := ih (hq.next c) (fun d hd => hs d (List.mem_cons_of_mem c hd)) h
    exact outside_of_next hq (hs c List.mem_cons_self) hnext

/-- A text without quotes changes nothing when it is added at the end. -/
theorem closed_append_quoteFree {s t : List Char} (ht : QuoteFree t) :
    Closed (s ++ t) ↔ Closed s := by
  refine ⟨fun h => ?_, fun h => h.append_iff.2 (closed_of_quoteFree ht)⟩
  unfold Closed at h
  rw [Quoting.after_append] at h
  exact outside_of_after (Quoting.proper_outside.after s) ht h

theorem mask_cons (hc : isQuote c = false) (s : List Char) : mask (c :: s) = c :: mask s := by
  show c :: maskFrom (Quoting.outside.next c) s = c :: mask s
  rw [show Quoting.outside.next c = .outside by simp [Quoting.next, hc]]
  rfl

theorem mask_stripLeft (s : List Char) : mask (stripLeft s) = stripLeft (mask s) := by
  induction s with
  | nil => rfl
  | cons c s ih =>
    by_cases hc : isBlank c = true
    · rw [mask_cons (isQuote_eq_false_of_isBlank hc), stripLeft, stripLeft,
        List.dropWhile_cons_of_pos hc, List.dropWhile_cons_of_pos hc]
      exact ih
    · rw [stripLeft, List.dropWhile_cons_of_neg hc]
      exact (List.dropWhile_cons_of_neg hc).symm

/-- A text of blanks. -/
def Blanks (s : List Char) : Prop := ∀ c ∈ s, isBlank c = true

theorem Blanks.quoteFree (h : Blanks s) : QuoteFree s := fun c hc =>
  isQuote_eq_false_of_isBlank (h c hc)

/-- What is left of a text ends before the blanks at its end. -/
theorem strip_prefix_stripLeft (s : List Char) : strip s <+: stripLeft s :=
  List.rdropWhile_prefix isBlank (stripLeft s)

theorem strip_stripLeft (s : List Char) : strip (stripLeft s) = strip s :=
  congrArg stripRight (List.dropWhile_idempotent isBlank s)

theorem strip_sublist (s : List Char) : (strip s).Sublist s :=
  (strip_prefix_stripLeft s).sublist.trans (List.dropWhile_sublist isBlank)

/-- A text is what is left of it, between blanks. -/
theorem exists_strip (s : List Char) :
    ∃ front back, Blanks front ∧ Blanks back ∧ s = front ++ (strip s ++ back) := by
  refine ⟨s.takeWhile isBlank, (stripLeft s).rtakeWhile isBlank, fun _ => List.mem_takeWhile_imp,
    fun _ => List.mem_rtakeWhile_imp, ?_⟩
  have hright : strip s ++ (stripLeft s).rtakeWhile isBlank = stripLeft s :=
    List.rdropWhile_append_rtakeWhile
  rw [hright, stripLeft, List.takeWhile_append_dropWhile]

theorem strip_eq_nil : strip s = [] ↔ Blanks s := by
  constructor
  · intro h
    obtain ⟨front, back, hfront, hback, heq⟩ := exists_strip s
    rw [heq, h]
    exact List.forall_mem_append.2 ⟨hfront, hback⟩
  · intro h
    rw [strip, stripLeft, List.dropWhile_eq_nil_iff.2 h]
    rfl

theorem closed_strip : Closed (strip s) ↔ Closed s := by
  obtain ⟨front, back, hfront, hback, heq⟩ := exists_strip s
  conv_rhs => rw [heq]
  rw [(closed_of_quoteFree hfront.quoteFree).append_iff, closed_append_quoteFree hback.quoteFree]

/-- The masked form of a text tells whether it is blank. -/
theorem isEmpty_strip_congr {s t : List Char} (h : mask s = mask t) :
    (strip s).isEmpty = (strip t).isEmpty := by
  have hnil : ∀ x, strip x = [] ↔ (stripLeft x).length = 0 := fun x => by
    rw [strip_eq_nil, List.length_eq_zero_iff]
    exact List.dropWhile_eq_nil_iff.symm
  rw [Bool.eq_iff_iff, List.isEmpty_iff, List.isEmpty_iff, hnil, hnil, ← length_mask (stripLeft s),
    mask_stripLeft, h, ← mask_stripLeft, length_mask]

/-! ### Solid texts -/

/-- The text begins and ends with a character that is not blank. -/
structure Solid (s : List Char) : Prop where
  ne_nil : s ≠ []
  first : ∀ c ∈ s.head?, isBlank c = false
  last : ∀ c ∈ s.getLast?, isBlank c = false

theorem solid_strip (h : strip s ≠ []) : Solid (strip s) where
  ne_nil := h
  first c hc := by
    obtain ⟨tail, htail⟩ := strip_prefix_stripLeft s
    have hfirst := List.head?_dropWhile_not isBlank s
    rw [show s.dropWhile isBlank = _ from htail.symm, List.head?_append_of_ne_nil _ h, hc] at hfirst
    exact hfirst
  last c hc := by
    rw [strip, stripRight, List.getLast?_reverse] at hc
    have hfirst := List.head?_dropWhile_not isBlank (stripLeft s).reverse
    rw [hc] at hfirst
    exact hfirst

/-- What is left of a text begins with no blank. -/
theorem isBlank_of_strip_eq_cons {rest : List Char} (h : strip s = c :: rest) : isBlank c = false :=
  (solid_strip (h ▸ List.cons_ne_nil c rest)).first c (by rw [h]; rfl)

/-- Blanks are taken away from the end of a text that does not begin with one. -/
theorem strip_of_solid (hc : isBlank c = false) (s : List Char) :
    ∃ s', strip (c :: s) = c :: s' ∧ s' <+: s := by
  have hprefix := strip_prefix_stripLeft (c :: s)
  rw [stripLeft, List.dropWhile_cons_of_neg (by rw [hc]; decide)] at hprefix
  cases hstrip : strip (c :: s) with
  | nil => exact Bool.noConfusion (hc.symm.trans (strip_eq_nil.1 hstrip c List.mem_cons_self))
  | cons d s' =>
    rw [hstrip] at hprefix
    obtain ⟨rfl, hfront⟩ := List.cons_prefix_cons.1 hprefix
    exact ⟨s', rfl, hfront⟩

/-- A text without blanks is solid. -/
theorem solid_of_forall (hne : s ≠ []) (h : ∀ c ∈ s, isBlank c = false) : Solid s :=
  ⟨hne, fun c hc => h c (List.mem_of_mem_head? hc), fun c hc => h c (List.mem_of_getLast? hc)⟩

theorem solid_between {c d : Char} (hc : isBlank c = false) (hd : isBlank d = false)
    (s : List Char) : Solid (c :: (s ++ [d])) :=
  ⟨List.cons_ne_nil _ _, by rintro _ ⟨rfl⟩; exact hc, by
    rw [← List.cons_append, List.getLast?_append_of_ne_nil _ (List.cons_ne_nil d [])]
    rintro _ ⟨rfl⟩
    exact hd⟩

/-- The masked form of a character that is not blank is not blank. -/
theorem isBlank_maskChar (hc : isBlank c = false) (q : Quoting) :
    isBlank (q.maskChar c) = false := by
  rcases q.step_cases c with rfl | ⟨hmask, -⟩ | ⟨-, -, hmask⟩
  · exact hc
  · rw [hmask]
    rfl
  · rwa [hmask]

namespace Solid

variable {t : List Char} (hs : Solid s)

include hs

theorem exists_cons : ∃ c r, s = c :: r ∧ isBlank c = false := by
  obtain ⟨c, r, rfl⟩ := List.exists_cons_of_ne_nil hs.ne_nil
  exact ⟨c, r, rfl, hs.first c rfl⟩

theorem exists_concat : ∃ r c, s = r ++ [c] ∧ isBlank c = false := by
  obtain ⟨r, c, rfl⟩ := List.eq_nil_or_concat' s |>.resolve_left hs.ne_nil
  exact ⟨r, c, rfl, hs.last c (by simp)⟩

/-- The end of a solid text is not blank. -/
theorem exists_mem {front back : List Char} (h : s = front ++ back) (hback : back ≠ []) :
    ∃ c ∈ back, isBlank c = false := by
  obtain ⟨c, hc⟩ := List.getLast?_isSome.2 hback |> Option.isSome_iff_exists.1
  refine ⟨c, List.mem_of_getLast? hc, hs.last c ?_⟩
  rw [h, List.getLast?_append_of_ne_nil _ hback]
  exact hc

/-- Stripping takes away the blanks around a solid text. -/
theorem strip_between {a b : List Char} (ha : Blanks a) (hb : Blanks b) :
    LineScript.strip (a ++ (s ++ b)) = s := by
  obtain ⟨c, rest, rfl, hc⟩ := hs.exists_cons
  obtain ⟨init, d, heq, hd⟩ := hs.exists_concat
  rw [LineScript.strip, stripLeft, List.dropWhile_append_of_pos ha, List.cons_append,
    List.dropWhile_cons_of_neg (by simp [hc]), ← List.cons_append, heq, stripRight,
    List.reverse_append, List.dropWhile_append_of_pos fun e he => hb e (List.mem_reverse.1 he)]
  exact List.rdropWhile_concat_neg isBlank init d (by simp [hd])

theorem strip_eq : LineScript.strip s = s := by
  simpa using hs.strip_between (List.forall_mem_nil _) (List.forall_mem_nil _)

theorem append (ht : Solid t) (between : List Char) : Solid (s ++ (between ++ t)) where
  ne_nil h := hs.ne_nil (List.append_eq_nil_iff.1 h).1
  first := by
    rw [List.head?_append_of_ne_nil _ hs.ne_nil]
    exact hs.first
  last := by
    rw [← List.append_assoc, List.getLast?_append_of_ne_nil _ ht.ne_nil]
    exact ht.last

/-- Masking does not change whether the ends of a text are blank. -/
theorem mask : Solid (LineScript.mask s) := by
  obtain ⟨c, r, hcons, hc⟩ := hs.exists_cons
  obtain ⟨init, d, hconcat, hd⟩ := hs.exists_concat
  refine ⟨fun h => ?_, ?_, ?_⟩
  · rw [← List.length_eq_zero_iff, length_mask, List.length_eq_zero_iff] at h
    exact hs.ne_nil h
  · rw [hcons]
    rintro _ ⟨rfl⟩
    exact isBlank_maskChar hc .outside
  · rw [hconcat, LineScript.mask, maskFrom_append]
    change ∀ c ∈ (_ ++ [Quoting.maskChar _ d]).getLast?, _
    rw [List.getLast?_concat]
    rintro _ ⟨rfl⟩
    exact isBlank_maskChar hd _

end Solid

theorem mask_strip (h : Closed s) : mask (strip s) = strip (mask s) := by
  obtain ⟨front, back, hfront, hback, heq⟩ := exists_strip s
  have hmask : mask s = front ++ (mask (strip s) ++ back) := by
    conv_lhs => rw [heq]
    rw [mask_append (closed_of_quoteFree hfront.quoteFree), mask_append (closed_strip.2 h),
      mask_of_quoteFree hfront.quoteFree, mask_of_quoteFree hback.quoteFree]
  rw [hmask]
  by_cases hnil : strip s = []
  · rw [hnil]
    exact (strip_eq_nil.2 (List.forall_mem_append.2 ⟨hfront, hback⟩)).symm
  · exact ((solid_strip hnil).mask.strip_between hfront hback).symm

/-! ### Closed texts with the same masked form -/

/-- Texts of one line with the same masked form in which every literal has its end. -/
structure Veiled (a b : List Char) : Prop where
  mask_eq : mask a = mask b
  closed : Closed a
  left : '\n' ∉ a
  right : '\n' ∉ b

namespace Veiled

variable {a b a' b' : List Char}

theorem closed_right (h : Veiled a b) : Closed b := (closed_congr h.mask_eq).1 h.closed

theorem length_eq (h : Veiled a b) : a.length = b.length := by
  rw [← length_mask a, h.mask_eq, length_mask]

theorem twin (h : Veiled a b) : Twin true a b :=
  twin_of_mask_eq (iff_of_true rfl h.closed) h.mask_eq h.left h.right

theorem refl (ha : QuoteFree a) (hline : '\n' ∉ a) : Veiled a a :=
  ⟨rfl, closed_of_quoteFree ha, hline, hline⟩

variable (h : Veiled a b)

include h

theorem append (h' : Veiled a' b') : Veiled (a ++ a') (b ++ b') where
  mask_eq := by rw [mask_append h.closed, mask_append h.closed_right, h.mask_eq, h'.mask_eq]
  closed := h.closed.append_iff.2 h'.closed
  left hmem := (List.mem_append.1 hmem).elim h.left h'.left
  right hmem := (List.mem_append.1 hmem).elim h.right h'.right

theorem strip : Veiled (LineScript.strip a) (LineScript.strip b) where
  mask_eq := by rw [mask_strip h.closed, mask_strip h.closed_right, h.mask_eq]
  closed := closed_strip.2 h.closed
  left hmem := h.left ((strip_sublist a).subset hmem)
  right hmem := h.right ((strip_sublist b).subset hmem)

/-- What is cut from such texts at offsets where no literal is open is such a pair again. -/
theorem slice {j : Nat} (hi : Closed (a.take i)) (hj : Closed (a.take j)) (hij : i ≤ j) :
    Veiled (LineScript.slice a i j) (LineScript.slice b i j) where
  mask_eq := by
    rw [mask_slice hi, mask_slice ((closed_take_congr h.mask_eq).1 hi), h.mask_eq]
  closed := closed_slice hi hj hij
  left hmem := h.left (List.mem_of_mem_drop (List.mem_of_mem_take hmem))
  right hmem := h.right (List.mem_of_mem_drop (List.mem_of_mem_take hmem))

/-- Such texts are the same if one of them has no quotes. -/
theorem eq_of_quoteFree (ha : QuoteFree a) : a = b := by
  have hmask : mask b = a ++ [] := by rw [← h.mask_eq, mask_of_quoteFree ha, List.append_nil]
  obtain ⟨rest, rfl, hrest⟩ := eq_append_of_mask ha hmask
  cases rest with
  | nil => rw [List.append_nil]
  | cons c rest => cases hrest

theorem symm : Veiled b a := ⟨h.mask_eq.symm, h.closed_right, h.right, h.left⟩

end Veiled

/-! ### Statements and lines -/

/-- A text of plain characters. -/
def PlainText (s : List Char) : Prop := ∀ c ∈ s, isPlain c = true

theorem plainText_singleton (h : isPlain c = true) : PlainText [c] :=
  List.forall_mem_singleton.2 h

theorem PlainText.quoteFree (h : PlainText s) : QuoteFree s := by
  intro c hc
  have hplain := h c hc
  rw [isPlain, Bool.and_eq_true, Bool.not_eq_true'] at hplain
  exact hplain.1

/-- Where a plain text stands in a masked form, no literal is open and the text stands there. -/
theorem eq_append_of_maskFrom (hq : q.Proper) {m s post : List Char}
    (hm : PlainText m) (hne : m ≠ []) (h : maskFrom q s = m ++ post) :
    q = .outside ∧ ∃ rest, s = m ++ rest ∧ mask rest = post := by
  cases m with
  | nil => exact absurd rfl hne
  | cons c m =>
    cases s with
    | nil => cases h
    | cons d s =>
      have hhead : q.maskChar d = c := (List.cons.inj h).1
      have hq : q = .outside := outside_of_isPlain hq (hhead ▸ hm c List.mem_cons_self)
      subst hq
      exact ⟨rfl, eq_append_of_mask hm.quoteFree h⟩

/-- The rest of a separator is passed over. -/
theorem splitFrom_skip (sep part : List Char) : ∀ (skip : Nat) {ms cs : List Char},
    ms.length = cs.length →
      splitFrom sep part skip ms cs = splitFrom sep part 0 (ms.drop skip) (cs.drop skip)
  | 0, _, _, _ => rfl
  | skip + 1, [], [], _ => by rw [splitFrom]; exact (splitFrom.eq_1 ..).symm
  | skip + 1, _ :: ms, _ :: cs, h => by
    rw [splitFrom, splitFrom_skip sep part skip (Nat.succ.inj h), List.drop_succ_cons,
      List.drop_succ_cons]

/-- At a separator that the masked form shows, a statement ends and the next one begins. -/
theorem splitFrom_sep (hsep : PlainText sep) (hne : sep ≠ []) (part : List Char) (hq : q.Proper)
    {cs post : List Char} (h : maskFrom q cs = sep ++ post) :
    ∃ rest, cs = sep ++ rest ∧ mask rest = post ∧
      splitFrom sep part 0 (sep ++ post) cs = part.reverse :: splitFrom sep [] 0 post rest := by
  obtain ⟨rfl, rest, rfl, hrest⟩ := eq_append_of_maskFrom hq hsep hne h
  refine ⟨rest, rfl, hrest, ?_⟩
  have hlength : post.length = rest.length := by rw [← hrest, length_mask]
  have hfits : sep.isPrefixOf (sep ++ post) = true :=
    List.isPrefixOf_iff_prefix.2 (List.prefix_append sep post)
  obtain ⟨c, tail, rfl⟩ := List.exists_cons_of_ne_nil hne
  rw [List.cons_append] at hfits
  rw [List.cons_append, List.cons_append, splitFrom, if_pos hfits,
    splitFrom_skip _ _ _ (by simp [hlength])]
  simp

theorem isPrefixOf_singleton_of_ne {d : Char} (h : c ≠ d) (s : List Char) :
    [c].isPrefixOf (d :: s) = false := by
  rw [List.isPrefixOf_cons_cons, beq_eq_false_iff_ne.2 h, Bool.false_and]

/-- A text whose masked form shows no separator is one statement. -/
theorem splitFrom_of_not_mem : ∀ {ms cs : List Char}, c ∉ ms → ms.length = cs.length →
    ∀ part : List Char, splitFrom [c] part 0 ms cs = [part.reverse ++ cs]
  | [], [], _, _, part => by rw [splitFrom, List.append_nil]
  | m :: ms, d :: cs, hms, hlength, part => by
    have hne : c ≠ m := fun heq => hms (heq ▸ List.mem_cons_self)
    have hm : ¬ [c].isPrefixOf (m :: ms) = true := by
      rw [isPrefixOf_singleton_of_ne hne]
      exact Bool.noConfusion
    rw [splitFrom, if_neg hm,
      splitFrom_of_not_mem (fun hmem => hms (List.mem_cons_of_mem m hmem)) (Nat.succ.inj hlength)]
    simp

theorem splitStatements_of_not_mem {line : List Char} (h : c ∉ mask line) :
    splitStatements [c] line = [line] :=
  splitFrom_of_not_mem h (length_mask line) []

/-! ### Lines -/

/-- A character that breaks no line goes on with the line. -/
theorem linesFrom_cons (hc : isLineBreak c = false) (line s : List Char) :
    linesFrom line (c :: s) = linesFrom (c :: line) s := by
  have hnot : ∀ rest, c = '\r' → s = '\n' :: rest → False := by
    rintro rest rfl -
    cases hc
  rw [linesFrom.eq_3 line c s hnot, if_neg (by rw [hc]; exact Bool.noConfusion)]

section

variable (hs : ∀ c ∈ s, isLineBreak c = false)

include hs

/-- So do more of them. -/
theorem linesFrom_skip (rest : List Char) :
    ∀ line : List Char, linesFrom line (s ++ rest) = linesFrom (s.reverse ++ line) rest := by
  induction s with
  | nil => exact fun _ => rfl
  | cons c s ih =>
    intro line
    rw [List.cons_append, linesFrom_cons (hs c List.mem_cons_self),
      ih fun d hd => hs d (List.mem_cons_of_mem c hd)]
    simp

theorem splitLines_of_no_break (hne : s ≠ []) : splitLines s = [s] := by
  have hskip := linesFrom_skip hs [] []
  rw [List.append_nil, List.append_nil] at hskip
  simp [splitLines, hskip, linesFrom, hne]

/-- A line feed ends the line that nothing breaks before it. -/
theorem splitLines_append (rest : List Char) :
    splitLines (s ++ '\n' :: rest) = s :: splitLines rest := by
  rw [splitLines, linesFrom_skip hs, linesFrom.eq_3 _ _ _ (by rintro _ ⟨⟩), if_pos (by decide)]
  simp [splitLines]

end

/-- The characters of a line are characters of the text, and none of them breaks a line. -/
theorem forall_mem_linesFrom {P : Char → Prop} {line s x : List Char} (hline : ∀ c ∈ line, P c)
    (hs : ∀ c ∈ s, isLineBreak c = false → P c) (hx : x ∈ linesFrom line s) : ∀ c ∈ x, P c := by
  fun_induction linesFrom line s with
  | case1 line hempty => cases hx
  | case2 line hempty =>
    rw [List.mem_singleton.1 hx]
    exact fun c hc => hline c (List.mem_reverse.1 hc)
  | case3 line rest ih | case4 line c rest hnot hbreak ih =>
    rcases List.mem_cons.1 hx with rfl | hx
    · exact fun c hc => hline c (List.mem_reverse.1 hc)
    · exact ih (by simp) (fun c hc => hs c (by simp [hc])) hx
  | case5 line c rest hnot hbreak ih =>
    refine ih ?_ (fun c hc => hs c (by simp [hc])) hx
    exact List.forall_mem_cons.2 ⟨hs c (by simp) (by simpa using hbreak), hline⟩

/-- No line of a text has a line feed in it. -/
theorem newline_notMem_of_mem_splitLines {s line : List Char} (h : line ∈ splitLines s) :
    '\n' ∉ line := by
  refine fun hmem => forall_mem_linesFrom (P := (· ≠ '\n')) (by simp) (fun c _ hc => ?_) h _ hmem rfl
  rintro rfl
  cases hc

end LineScript
