import Mathlib.Data.List.TakeDrop
import LineScript.Proofs.Rendering
import LineScript.Proofs.StandardSymbols

/-!
# Reading numbers, strings and names

The readers of numbers, strings and names take as much as they can.  In a rendering what stands
behind a text is a blank, a parenthesis, a comma or an operator, so they take what was written
and no more.

## Main definitions

* `standardGrammar` — the grammar of the default symbols.
* `Follows` — what may stand behind a text of a rank.
* `EndsName` — what may stand behind a name.

## Main results

* `readNumber_whole`, `readNumber_decimal` — numbers are read as they are written.
* `unescape_print` — a printed string stands for what it was.
* `readName_append`, `readWord_name` — names are read, and not as truth values.
-/

namespace LineScript

/-- The grammar of the default symbols. -/
def standardGrammar : Grammar where
  orSymbols := [['|']]
  andSymbols := [['&']]
  comparisonSymbols := [['='], ['!'], ['<'], ['>'], ['<', '='], ['>', '=']]
  sumSymbols := [['+'], ['-']]
  productSymbols := [['*'], ['/'], ['%']]
  minus := ['-']
  null := ['$']
  booleans := [['t', 'r', 'u', 'e'], ['f', 'a', 'l', 's', 'e']]
  globalMark := ['r', 'o', 'o', 't', '.']

theorem grammar_standard : standardSymbols.grammar ("true", "false") = standardGrammar := rfl

/-! ### Blanks -/

variable {a : List Char} {k : Nat}

theorem skipBlanks_gap (ha : Gap a) (s : List Char) : skipBlanks (a ++ s) = skipBlanks s := by
  refine List.dropWhile_append_of_pos fun c hc => ?_
  rcases ha c hc with rfl | rfl <;> rfl

theorem skipBlanks_of_solid {c : Char} (hc : isBlank c = false) (s : List Char) :
    skipBlanks (c :: s) = c :: s := by
  refine List.dropWhile_cons_of_neg ?_
  simp only [Bool.or_eq_true, beq_iff_eq]
  rintro (rfl | rfl) <;> cases hc

/-- Blanks before a text that does not begin with one are skipped, and nothing else. -/
theorem skipBlanks_text {t : List Char} (ha : Gap a) (ht : ∃ c s, t = c :: s ∧ isBlank c = false)
    (rest : List Char) : skipBlanks (a ++ (t ++ rest)) = t ++ rest := by
  obtain ⟨c, s, rfl, hc⟩ := ht
  rw [skipBlanks_gap ha, List.cons_append, skipBlanks_of_solid hc]

theorem skipBlanks_close (ha : Gap a) (rest : List Char) :
    skipBlanks (a ++ ')' :: rest) = ')' :: rest := by
  rw [skipBlanks_gap ha, skipBlanks_of_solid (by decide)]

theorem skipBlanks_symbol (ha : Gap a) (op : BinaryOp) (rest : List Char) :
    skipBlanks (a ++ (op.symbol ++ rest)) = op.symbol ++ rest := by
  refine skipBlanks_text ha ?_ rest
  obtain ⟨s, hs⟩ := op.symbol_eq
  exact ⟨op.first, s, hs, by cases op <;> decide⟩

/-! ### What follows a text -/

/-- What may stand behind a text of a rank: the end, a parenthesis, a comma, or an operator that
the text may be an operand of. -/
def Follows (k : Nat) (rest : List Char) : Prop :=
  ∀ c r, skipBlanks rest = c :: r → c = ')' ∨ c = ',' ∨ ∃ op : BinaryOp, k ≤ op.rank ∧ c = op.first

/-- The characters that may stand directly behind a text. -/
def stops : List Char :=
  [' ', '\t', ')', ',', '|', '&', '=', '!', '<', '>', '+', '-', '*', '/', '%']

namespace Follows

variable {k : Nat} {rest : List Char}

theorem nil : Follows k [] := nofun

theorem mono {j : Nat} (h : Follows k rest) (hjk : j ≤ k) : Follows j rest := by
  intro c r hr
  exact (h c r hr).imp_right (.imp_right fun ⟨op, hop, hc⟩ => ⟨op, Nat.le_trans hjk hop, hc⟩)

theorem gap (ha : Gap a) (h : Follows k rest) : Follows k (a ++ rest) := by
  intro c r hr
  rw [skipBlanks_gap ha] at hr
  exact h c r hr

theorem close (rest : List Char) : Follows k (')' :: rest) := by
  rintro c r hr
  rw [skipBlanks_of_solid (by decide)] at hr
  cases hr
  exact .inl rfl

theorem comma (rest : List Char) : Follows k (',' :: rest) := by
  rintro c r hr
  rw [skipBlanks_of_solid (by decide)] at hr
  cases hr
  exact .inr (.inl rfl)

theorem operator (op : BinaryOp) (rest : List Char) : Follows op.rank (op.symbol ++ rest) := by
  rintro c r hr
  have hsymbol := skipBlanks_symbol .nil op rest
  obtain ⟨s, hs⟩ := op.symbol_eq
  rw [List.nil_append, hr, hs] at hsymbol
  cases hsymbol
  exact .inr (.inr ⟨op, Nat.le_refl _, rfl⟩)

/-- What stands directly behind a text. -/
theorem head (h : Follows k rest) : ∀ c ∈ rest.head?, c ∈ stops := by
  intro c hc
  obtain ⟨r, rfl⟩ : ∃ r, rest = c :: r := List.head?_eq_some_iff.1 hc
  by_cases hblank : c = ' ' ∨ c = '\t'
  · rcases hblank with rfl | rfl <;> decide
  · have hskip : skipBlanks (c :: r) = c :: r := by
      refine List.dropWhile_cons_of_neg ?_
      simpa using hblank
    rcases h c r hskip with rfl | rfl | ⟨op, -, rfl⟩
    · decide
    · decide
    · cases op <;> decide

theorem not_isDigit (h : Follows k rest) : ∀ c ∈ rest.head?, isDigit c = false := by
  have hstops : stops.all (!isDigit ·) = true := by decide
  intro c hc
  simpa using List.all_eq_true.1 hstops c (h.head c hc)

theorem not_point (h : Follows k rest) (r : List Char) : rest ≠ '.' :: r := by
  rintro rfl
  exact absurd (h.head '.' rfl) (by decide)

end Follows

/-! ### Numbers -/

theorem span_append {p : Char → Bool} {rest : List Char} (ha : ∀ c ∈ a, p c = true)
    (hrest : ∀ c ∈ rest.head?, p c = false) : (a ++ rest).span p = (a, rest) := by
  rw [List.span_eq_takeWhile_dropWhile, List.takeWhile_append_of_pos ha,
    List.dropWhile_append_of_pos ha]
  cases rest with
  | nil => simp
  | cons c r => simp [hrest c rfl]

theorem readNumber_whole {digits rest : List Char} (hd : Digits digits) (hrest : Follows k rest) :
    readNumber (digits ++ rest) = some (.number digits, rest) := by
  obtain ⟨c, r, rfl⟩ := List.exists_cons_of_ne_nil hd.ne_nil
  rw [readNumber, span_append hd.digit hrest.not_isDigit]
  dsimp only
  split
  next tail => exact absurd rfl (hrest.not_point tail)
  next => rfl

theorem readNumber_decimal {whole fraction rest : List Char} (hw : Digits whole)
    (hf : Digits fraction) (hrest : Follows k rest) :
    readNumber (whole ++ '.' :: (fraction ++ rest)) =
      some (.number (whole ++ '.' :: fraction), rest) := by
  have hpoint : ∀ c ∈ ('.' :: (fraction ++ rest)).head?, isDigit c = false := by
    rintro c ⟨rfl⟩
    decide
  obtain ⟨c, r, rfl⟩ := List.exists_cons_of_ne_nil hw.ne_nil
  obtain ⟨d, s, rfl⟩ := List.exists_cons_of_ne_nil hf.ne_nil
  simp only [readNumber, span_append hw.digit hpoint, span_append hf.digit hrest.not_isDigit]

theorem ne_point_of_isDigit {c : Char} (h : isDigit c = true) : (c != '.') = true := by
  rw [bne_iff_ne]
  rintro rfl
  exact absurd h (by decide)

/-- Digits without a point are a whole number, unless there are too many of them. -/
theorem Literal.ofNumber_digits {digits : List Char} (h : ∀ c ∈ digits, isDigit c = true) :
    Literal.ofNumber digits =
      if digitLimit < digits.length then .error (tooManyDigits digits.length)
      else .ok (.ofInt (readNat digits)) := by
  have hspan : (digits ++ []).span (· != '.') = (digits, []) :=
    span_append (fun c hc => ne_point_of_isDigit (h c hc)) fun _ hc => by cases hc
  rw [List.append_nil] at hspan
  rw [Literal.ofNumber, hspan]

theorem ofNumber_whole {digits : List Char} {n : Nat} (hd : Digits digits)
    (hlimit : digits.length ≤ digitLimit) (hn : readNat digits = n) (hrange : n < 2 ^ 63) :
    Literal.ofNumber digits = .ok (.integer n) := by
  have hin : inIntegerRange n = true := by
    have hmin : integerMin ≤ (n : Int) := by
      unfold integerMin
      omega
    have hmax : (n : Int) ≤ integerMax := by
      unfold integerMax
      omega
    exact Bool.and_eq_true_iff.2 ⟨decide_eq_true hmin, decide_eq_true hmax⟩
  rw [Literal.ofNumber_digits hd.digit, if_neg (Nat.not_lt.2 hlimit), hn, Literal.ofInt, if_pos hin]

theorem ofNumber_decimal {whole fraction : List Char} (hw : Digits whole) :
    Literal.ofNumber (whole ++ '.' :: fraction) =
      .ok (.decimal (.finite false (readNat (whole ++ fraction)) (-fraction.length))) := by
  have hspan : (whole ++ '.' :: fraction).span (· != '.') = (whole, '.' :: fraction) :=
    span_append (fun c hc => ne_point_of_isDigit (hw.digit c hc)) (by rintro c ⟨rfl⟩; rfl)
  simp only [Literal.ofNumber, hspan]

/-! ### Strings -/

/-- What a character between quotes stands for. -/
theorem unescape_printChar (c : Char) (s : List Char) :
    unescape (printChar c ++ s) = c :: unescape s := by
  unfold printChar
  split
  case h_5 hslash _ _ _ =>
    rw [List.cons_append, List.nil_append, unescape]
    · rintro rfl
      exact absurd rfl hslash
    · rintro d r rfl
      exact absurd rfl hslash
  all_goals
    rw [List.cons_append, List.cons_append, unescape]
    rfl

theorem unescape_print (s : List Char) : unescape (s.flatMap printChar) = s := by
  induction s with
  | nil => rfl
  | cons c s ih => rw [List.flatMap_cons, unescape_printChar, ih]

/-! ### Names -/

theorem afterMark?_eq_some {mark s r : List Char} :
    Symbols.afterMark? mark s = some r ↔ s = mark ++ r := by
  unfold Symbols.afterMark?
  constructor
  · intro h
    split at h
    next hprefix =>
      obtain ⟨r', rfl⟩ := List.isPrefixOf_iff_prefix.1 hprefix
      rw [List.drop_left] at h
      cases h
      rfl
    next => cases h
  · rintro rfl
    rw [if_pos (List.isPrefixOf_iff_prefix.2 (List.prefix_append mark r)), List.drop_left]

theorem not_isDigit_of_isIdentStart {c : Char} (h : isIdentStart c = true) : isDigit c = false := by
  obtain ⟨hlow, hhigh⟩ := toNat_of_isIdentStart h
  have hascii : c.toNat < 0x80 := by omega
  have hletter : ¬ c.toNat ≤ 0x39 := by omega
  simp [isDigit, digitValue?, hascii, hletter]

theorem readIdentifier_append {s rest : List Char} (hs : isIdentifier s = true)
    (hrest : ∀ c ∈ rest.head?, isIdentChar c = false) :
    readIdentifier (s ++ rest) = some (s, rest) := by
  obtain ⟨c, r, rfl, hc, hall⟩ := isIdentifier_eq_true_iff.1 hs
  rw [List.cons_append, readIdentifier, if_pos hc,
    span_append (fun d hd => hall d (List.mem_cons_of_mem c hd)) hrest]

/-- What stands behind the first identifier of a name is no character of an identifier. -/
theorem head_members (members : List (List Char)) {rest : List Char}
    (hrest : ∀ c ∈ rest.head?, isIdentChar c = false) :
    ∀ c ∈ (members.flatMap ('.' :: ·) ++ rest).head?, isIdentChar c = false := by
  cases members with
  | nil => exact hrest
  | cons m ms =>
    rintro c ⟨rfl⟩
    decide

/-- What ends a name: a character that belongs to no name. -/
def EndsName (rest : List Char) : Prop := ∀ c ∈ rest.head?, isIdentChar c = false ∧ c ≠ '.'

theorem Follows.endsName {rest : List Char} (h : Follows k rest) : EndsName rest := by
  have hstops : stops.all (fun c => !isIdentChar c && c != '.') = true := by decide
  intro c hc
  simpa using List.all_eq_true.1 hstops c (h.head c hc)

theorem EndsName.paren (ha : Gap a) (s : List Char) : EndsName (a ++ '(' :: s) := by
  intro c hc
  cases a with
  | nil =>
    obtain rfl := Option.some.inj hc
    decide
  | cons d r =>
    obtain rfl := Option.some.inj hc
    rcases ha d List.mem_cons_self with rfl | rfl <;> decide

theorem EndsName.not_isIdentChar {rest : List Char} (h : EndsName rest) :
    ∀ c ∈ rest.head?, isIdentChar c = false :=
  fun c hc => (h c hc).1

theorem EndsName.not_point {rest : List Char} (h : EndsName rest) (r : List Char) :
    rest ≠ '.' :: r := by
  rintro rfl
  exact (h '.' rfl).2 rfl

theorem readMembers_append {rest : List Char} (hrest : EndsName rest) :
    ∀ {members : List (List Char)} {n : Nat}, (∀ m ∈ members, isIdentifier m = true) →
      members.length ≤ n →
        readMembers n (members.flatMap ('.' :: ·) ++ rest) = (members.flatMap ('.' :: ·), rest) := by
  intro members
  induction members with
  | nil =>
    intro n _ _
    cases n with
    | zero => rfl
    | succ n =>
      rw [List.flatMap_nil, List.nil_append, readMembers]
      exact hrest.not_point
  | cons m ms ih =>
    intro n hmembers hn
    obtain ⟨n, rfl⟩ := Nat.exists_eq_succ_of_ne_zero (Nat.ne_of_gt (Nat.lt_of_lt_of_le
      (Nat.succ_pos ms.length) hn))
    have hm := readIdentifier_append (hmembers m List.mem_cons_self)
      (head_members ms hrest.not_isIdentChar)
    have hms := ih (fun m' hm' => hmembers m' (List.mem_cons_of_mem m hm')) (Nat.le_of_succ_le_succ hn)
    rw [List.flatMap_cons, List.append_assoc, List.cons_append, readMembers]
    simp only [hm, hms, List.cons_append]

theorem length_le_flatMap {α : Type} {f : α → List Char} (hf : ∀ x, 0 < (f x).length)
    (xs : List α) : xs.length ≤ (xs.flatMap f).length := by
  induction xs with
  | nil => exact Nat.le_refl 0
  | cons x xs ih =>
    have := hf x
    rw [List.flatMap_cons, List.length_append, List.length_cons]
    omega

theorem readDotted_append {first rest : List Char} {members : List (List Char)}
    (hfirst : isIdentifier first = true) (hmembers : ∀ m ∈ members, isIdentifier m = true)
    (hrest : EndsName rest) :
    readDotted (first ++ (members.flatMap ('.' :: ·) ++ rest)) =
      some (first ++ members.flatMap ('.' :: ·), rest) := by
  have hlength : members.length ≤ (members.flatMap ('.' :: ·) ++ rest).length := by
    have := length_le_flatMap (f := ('.' :: ·)) (fun _ => Nat.succ_pos _) members
    rw [List.length_append]
    omega
  rw [readDotted, readIdentifier_append hfirst (head_members members hrest.not_isIdentChar),
    Option.map_some]
  simp only [readMembers_append hrest hmembers hlength]

/-- The first identifier of a text is told by what follows it. -/
theorem identifier_inj {s s' rest rest' : List Char} (hs : ∀ c ∈ s, isIdentChar c = true)
    (hs' : ∀ c ∈ s', isIdentChar c = true) (hrest : ∀ c ∈ rest.head?, isIdentChar c = false)
    (hrest' : ∀ c ∈ rest'.head?, isIdentChar c = false) (h : s ++ rest = s' ++ rest') :
    s = s' ∧ rest = rest' := by
  have hspan := span_append hs hrest
  rw [h, span_append hs' hrest'] at hspan
  cases hspan
  exact ⟨rfl, rfl⟩

theorem readName_append {name rest : List Char} (hname : IsName name) (hrest : EndsName rest) :
    readName standardGrammar.globalMark (name ++ rest) = some (name, rest) := by
  obtain ⟨hfirst, -, -, hmembers⟩ := hname
  rename_i first members
  obtain ⟨-, -, -, -, hall⟩ := isIdentifier_eq_true_iff.1 hfirst
  rw [List.append_assoc, readName]
  split
  next r hr =>
    -- a text that begins with the mark has the first identifier `root` and a member
    have hmark : first ++ (members.flatMap ('.' :: ·) ++ rest) =
        ['r', 'o', 'o', 't', '.'] ++ r := afterMark?_eq_some.1 hr
    obtain ⟨rfl, htail⟩ := identifier_inj hall (List.all_eq_true.1 (by decide))
      (head_members members hrest.not_isIdentChar) (by rintro c ⟨rfl⟩; decide)
      (hmark.trans (List.append_assoc ['r', 'o', 'o', 't'] ['.'] r))
    cases members with
    | nil => exact absurd htail (hrest.not_point r)
    | cons m ms =>
      rw [List.flatMap_cons, List.append_assoc, List.cons_append] at htail
      obtain ⟨-, rfl⟩ := List.cons.inj htail
      rw [readDotted_append (hmembers m List.mem_cons_self)
        (fun m' hm' => hmembers m' (List.mem_cons_of_mem m hm')) hrest]
      rfl
  next => exact readDotted_append hfirst hmembers hrest

theorem mem_booleans {word : List Char} (h : word ∈ standardGrammar.booleans) :
    word = ['t', 'r', 'u', 'e'] ∨ word = ['f', 'a', 'l', 's', 'e'] := by
  simpa [standardGrammar] using h

theorem readWord_append {word rest : List Char} (hword : word ∈ standardGrammar.booleans)
    (hrest : EndsName rest) :
    readWord standardGrammar.booleans (word ++ rest) = some (word, rest) := by
  have hmark : Symbols.afterMark? word (word ++ rest) = some rest := afterMark?_eq_some.2 rfl
  rcases mem_booleans hword with rfl | rfl
  · simp only [readWord, standardGrammar, List.findSome?_cons, hmark]
    cases rest with
    | nil => rfl
    | cons c r => simp [(hrest c rfl).1]
  · have hother : Symbols.afterMark? ['t', 'r', 'u', 'e'] (['f', 'a', 'l', 's', 'e'] ++ rest) = none :=
      rfl
    simp only [readWord, standardGrammar, List.findSome?_cons, hmark, hother]
    cases rest with
    | nil => rfl
    | cons c r => simp [(hrest c rfl).1]

/-- A name is no truth value. -/
theorem readWord_name {name rest : List Char} (hname : IsName name) (hrest : EndsName rest) :
    readWord standardGrammar.booleans (name ++ rest) = none := by
  obtain ⟨hfirst, hyes, hno, -⟩ := hname
  rename_i first members
  obtain ⟨-, -, -, -, hall⟩ := isIdentifier_eq_true_iff.1 hfirst
  rw [readWord, List.findSome?_eq_none_iff]
  intro word hword
  obtain ⟨hne, hwall⟩ : first ≠ word ∧ ∀ c ∈ word, isIdentChar c = true := by
    rcases mem_booleans hword with rfl | rfl
    · exact ⟨hyes, List.all_eq_true.1 (by decide)⟩
    · exact ⟨hno, List.all_eq_true.1 (by decide)⟩
  -- a word that ended in front of the text would be the first identifier of the name
  have hlonger : ∀ r, Symbols.afterMark? word (first ++ members.flatMap ('.' :: ·) ++ rest) =
      some r → ¬∀ c ∈ r.head?, isIdentChar c = false := by
    intro r hr hend
    have heq := afterMark?_eq_some.1 hr
    rw [List.append_assoc] at heq
    exact hne (identifier_inj hall hwall (head_members members hrest.not_isIdentChar) hend heq).1
  split
  next h => exact absurd (fun _ hc => by cases hc) (hlonger [] h)
  next c r h =>
    split
    next => rfl
    next hc =>
      refine absurd ?_ (hlonger (c :: r) h)
      rintro c' ⟨rfl⟩
      simpa using hc
  next => rfl

end LineScript
