import LineScript.Proofs.LeafReading

/-!
# Texts that are read

The reader of expressions takes the first alternative that fits and repeats as long as it can,
without ever going back.  That never goes wrong on texts of a rank: whatever follows such a text
belongs to something looser, so no repetition inside the text takes it, and the first character of a
text tells its alternative.

## Main definitions

* `readAt` — the reader of a rank.
* `Reads` — a text of a rank is read as a term, whatever follows it.

## Main results

* `Reads.loosen`, `Reads.operation` — one step from a rank to the next, and one operator.
* `readExpression_of_reads` — a text that is read to its end is the expression of its term.
-/

namespace LineScript

/-! ### The readers by rank -/

/-- The symbols between operands in texts of a rank. -/
def Grammar.symbolsAt (g : Grammar) : Nat → List (List Char)
  | 2 => g.productSymbols
  | 3 => g.sumSymbols
  | 4 => g.comparisonSymbols
  | 5 => g.andSymbols
  | 6 => g.orSymbols
  | _ => []

/-- The family of the operations in texts of a rank. -/
def familyAt : Nat → Family
  | 4 => .comparison
  | 5 | 6 => .logical
  | _ => .arithmetic

/-- The reader of a rank, for terms nested at most `n` deep inside it. -/
def readAt (g : Grammar) (n : Nat) : Nat → Reader Term
  | 0 => readPrimary g (readTerm g n)
  | 1 => fun s => readUnary g (readTerm g n) s.length s
  | k + 2 => readLevel (familyAt (k + 2)) (g.symbolsAt (k + 2)) (readAt g n (k + 1))

theorem readTerm_succ (g : Grammar) (n : Nat) : readTerm g (n + 1) = readAt g n 6 := rfl

theorem BinaryOp.familyAt_rank (op : BinaryOp) : familyAt (op.rank + 1) = op.family := by
  cases op <;> rfl

theorem BinaryOp.familyOperator (op : BinaryOp) :
    standardSymbols.familyOperator? (String.ofList op.symbol) op.family = some (.text op.key) := by
  cases op <;> decide

/-! ### Operators -/

theorem BinaryOp.rank_of_first {op op' : BinaryOp} (h : op.first = op'.first) :
    op.rank = op'.rank := by
  cases op <;> cases op' <;> first | rfl | exact absurd h (by decide)

theorem exists_op_of_mem_symbolsAt {k : Nat} {symbol : List Char}
    (h : symbol ∈ standardGrammar.symbolsAt k) :
    ∃ op : BinaryOp, op.rank + 1 = k ∧ symbol = op.symbol := by
  rcases k with _ | _ | _ | _ | _ | _ | _ | k
  all_goals simp only [Grammar.symbolsAt, standardGrammar, List.mem_cons, List.not_mem_nil, or_false] at h
  · rcases h with rfl | rfl | rfl
    exacts [⟨.multiply, rfl, rfl⟩, ⟨.divide, rfl, rfl⟩, ⟨.module, rfl, rfl⟩]
  · rcases h with rfl | rfl
    exacts [⟨.plus, rfl, rfl⟩, ⟨.subtract, rfl, rfl⟩]
  · rcases h with rfl | rfl | rfl | rfl | rfl | rfl
    exacts [⟨.equal, rfl, rfl⟩, ⟨.notEqual, rfl, rfl⟩, ⟨.less, rfl, rfl⟩, ⟨.greater, rfl, rfl⟩,
      ⟨.lessEqual, rfl, rfl⟩, ⟨.greaterEqual, rfl, rfl⟩]
  · exact ⟨.and, rfl, h⟩
  · exact ⟨.or, rfl, h⟩

/-- No operator of a rank stands where a text of that rank ends. -/
theorem longestAt_of_follows {k : Nat} {rest : List Char} (h : Follows k rest) :
    longestAt (standardGrammar.symbolsAt k) (skipBlanks rest) = none := by
  have hnone : (standardGrammar.symbolsAt k).filter
      (fun symbol => symbol.isPrefixOf (skipBlanks rest)) = [] := by
    rw [List.filter_eq_nil_iff]
    intro symbol hmem hprefix
    obtain ⟨op, hrank, rfl⟩ := exists_op_of_mem_symbolsAt hmem
    obtain ⟨s, hs⟩ := op.symbol_eq
    obtain ⟨r, hr⟩ := List.isPrefixOf_iff_prefix.1 hprefix
    rw [hs, List.cons_append] at hr
    rcases h _ _ hr.symm with hc | hc | ⟨op', hop', hc⟩
    · cases op <;> cases hc
    · cases op <;> cases hc
    · have := BinaryOp.rank_of_first hc
      omega
  rw [longestAt, hnone]
  rfl

/-- The longest symbol at an operator is the operator, as no operand begins like the end of a
longer one. -/
theorem longestAt_symbol (op : BinaryOp) {s : List Char} (hs : ∀ c ∈ s.head?, c ≠ '=') :
    longestAt (standardGrammar.symbolsAt (op.rank + 1)) (op.symbol ++ s) = some op.symbol := by
  cases s with
  | nil => cases op <;> rfl
  | cons c r =>
    have hc : '=' ≠ c := (hs c rfl).symm
    cases op <;> simp [longestAt, longer, BinaryOp.symbol, BinaryOp.rank, Grammar.symbolsAt,
      standardGrammar, hc]

theorem longestAt_operand (op : BinaryOp) {b u : List Char} (hb : Gap b) (hu : u ≠ [])
    (hequal : u.head? ≠ some '=') (rest : List Char) :
    longestAt (standardGrammar.symbolsAt (op.rank + 1)) (op.symbol ++ (b ++ (u ++ rest))) =
      some op.symbol := by
  obtain ⟨d, s, rfl⟩ := List.exists_cons_of_ne_nil hu
  refine longestAt_symbol op fun c hc => ?_
  cases b with
  | nil =>
    obtain rfl := Option.some.inj hc
    exact fun h => hequal (congrArg some h)
  | cons d r =>
    obtain rfl := Option.some.inj hc
    rcases hb d List.mem_cons_self with rfl | rfl <;> decide

/-! ### Texts that are read -/

/-- A number does not begin with another character. -/
theorem ne_of_isDigit {c d : Char} (hd : isDigit d = false) (hc : isDigit c = true) :
    some c ≠ some d := by
  rintro ⟨rfl⟩
  rw [hc] at hd
  cases hd

/-- A text of a rank is read as a term, whatever may follow it: with enough fuel for what is
nested in it, and from the rank of products on up to the operators that follow. -/
def Reads (term : Term) (t : List Char) : Nat → Prop
  | 0 => ∀ n rest, t.length ≤ n → Follows 0 rest →
      readPrimary standardGrammar (readTerm standardGrammar n) (t ++ rest) = some (term, rest)
  | 1 => ∀ n fuel rest, t.length ≤ n → t.length ≤ fuel → Follows 1 rest →
      readUnary standardGrammar (readTerm standardGrammar n) fuel (t ++ rest) = some (term, rest)
  | k + 2 => ∀ n rest, t.length ≤ n → Follows (k + 1) rest →
      ∃ fuel, rest.length ≤ fuel ∧ readAt standardGrammar n (k + 2) (t ++ rest) =
        some (readChain (familyAt (k + 2)) (standardGrammar.symbolsAt (k + 2))
          (readAt standardGrammar n (k + 1)) fuel term rest)

namespace Reads

variable {term : Term} {t : List Char}

/-- The reader of the rank takes the text. -/
theorem readAt : ∀ {k : Nat}, Reads term t k → ∀ {n : Nat} {rest : List Char}, t.length ≤ n →
    Follows k rest → readAt standardGrammar n k (t ++ rest) = some (term, rest) := by
  intro k h n rest hn hrest
  match k, h with
  | 0, h => exact h n rest hn hrest
  | 1, h =>
    refine h n (t ++ rest).length rest hn ?_ hrest
    rw [List.length_append]
    omega
  | k + 2, h =>
    obtain ⟨fuel, -, hread⟩ := h n rest hn (hrest.mono (Nat.le_succ _))
    rw [hread]
    -- no operator of the rank follows, so the chain stops at once
    cases fuel with
    | zero => rfl
    | succ fuel => rw [readChain, longestAt_of_follows hrest]

/-- A text is read at a looser rank too. -/
theorem loosen {k : Nat} (h : Reads term t k) (hne : t ≠ [])
    (hsign : k = 0 → t.head? ≠ some '-') : Reads term t (k + 1) := by
  match k, h with
  | 0, h =>
    obtain ⟨c, r, rfl⟩ := List.exists_cons_of_ne_nil hne
    intro n fuel rest hn _ hrest
    -- no primary text begins with the sign, so the reader of signs hands it on
    cases fuel with
    | zero => exact h n rest hn (hrest.mono (Nat.zero_le 1))
    | succ fuel =>
      have hminus : Symbols.afterMark? standardGrammar.minus (c :: r ++ rest) = none := by
        rw [Option.eq_none_iff_forall_ne_some]
        intro s hs
        cases afterMark?_eq_some.1 hs
        exact hsign rfl rfl
      rw [readUnary, hminus]
      exact h n rest hn (hrest.mono (Nat.zero_le 1))
  | k + 1, h =>
    intro n rest hn hrest
    refine ⟨rest.length, Nat.le_refl _, ?_⟩
    rw [LineScript.readAt, readLevel, h.readAt hn hrest]
    rfl

theorem loosen_le {j k : Nat} (h : Reads term t j) (hjk : j ≤ k) (hne : t ≠ [])
    (hsign : j = 0 → t.head? ≠ some '-') : Reads term t k := by
  induction hjk with
  | refl => exact h
  | step hle ih => exact ih.loosen hne fun hzero => hsign (Nat.le_zero.1 (hzero ▸ hle))

/-- One more operator, which no operator inside its left operand and nothing behind its right one
takes away. -/
theorem operation {l r : Term} {a b u : List Char} (op : BinaryOp) (ha : Gap a) (hb : Gap b)
    (hl : Reads l t (op.rank + 1)) (hr : Reads r u op.rank)
    (hhead : ∃ c s, u = c :: s ∧ isBlank c = false) (hequal : u.head? ≠ some '=') :
    Reads (.binary op.family op.symbol l r) (t ++ (a ++ (op.symbol ++ (b ++ u)))) (op.rank + 1) := by
  obtain ⟨k, hk⟩ : ∃ k, op.rank = k + 1 := by
    cases op <;> exact ⟨_, rfl⟩
  have hfamily := op.familyAt_rank
  have hne : u ≠ [] := by
    obtain ⟨c, s, rfl, -⟩ := hhead
    exact List.cons_ne_nil c s
  have hsymbol := longestAt_operand op hb hne hequal
  have hfollows : ∀ rest : List Char, Follows op.rank (a ++ (op.symbol ++ (b ++ (u ++ rest)))) :=
    fun rest => (Follows.operator op _).gap ha
  have hlength : 0 < op.symbol.length := by
    cases op <;> decide
  rw [hk] at hl hr hfamily hsymbol hfollows ⊢
  intro n rest hn hrest
  simp only [List.length_append] at hn
  -- the chain of the left operand stands before this operator, and goes on with it
  obtain ⟨fuel, hfuel, hread⟩ := hl n _ (by omega) (hfollows rest)
  simp only [List.length_append] at hfuel
  obtain ⟨fuel, rfl⟩ : ∃ f, fuel = f + 1 := ⟨fuel - 1, by omega⟩
  have hright := hr.readAt (n := n) (by omega) hrest
  refine ⟨fuel, by omega, ?_⟩
  simp only [List.append_assoc, hread]
  rw [readChain, skipBlanks_symbol ha, hsymbol]
  simp only [List.drop_left, skipBlanks_text hb hhead, hright, hfamily]

/-- A change of sign. -/
theorem negation {a : List Char} (ha : Gap a) (h : Reads term t 1)
    (hhead : ∃ c s, t = c :: s ∧ isBlank c = false) :
    Reads (.negation term) ('-' :: (a ++ t)) 1 := by
  intro n fuel rest hn hfuel hrest
  simp only [List.length_cons, List.length_append] at hn hfuel
  obtain ⟨fuel, rfl⟩ : ∃ f, fuel = f + 1 := ⟨fuel - 1, by omega⟩
  have hminus : Symbols.afterMark? standardGrammar.minus ('-' :: (a ++ t) ++ rest) =
      some (a ++ (t ++ rest)) := by
    rw [afterMark?_eq_some, List.cons_append, List.append_assoc]
    rfl
  rw [readUnary, hminus]
  simp only [skipBlanks_text ha hhead, h n fuel rest (by omega) (by omega) hrest]

/-- Parentheses around a text. -/
theorem group {a b : List Char} (ha : Gap a) (hb : Gap b) (h : Reads term t 6)
    (hhead : ∃ c s, t = c :: s ∧ isBlank c = false) :
    Reads term ('(' :: (a ++ (t ++ (b ++ [')'])))) 0 := by
  intro n rest hn hrest
  simp only [List.length_cons, List.length_append] at hn
  obtain ⟨n, rfl⟩ : ∃ m, n = m + 1 := ⟨n - 1, by omega⟩
  have hinner : readTerm standardGrammar (n + 1) (t ++ (b ++ ')' :: rest)) =
      some (term, b ++ ')' :: rest) := by
    rw [readTerm_succ]
    exact h.readAt (by omega) ((Follows.close rest).gap hb)
  have hgroup : readGroup (readTerm standardGrammar (n + 1))
      ('(' :: (a ++ (t ++ (b ++ ')' :: rest)))) = some (term, rest) := by
    simp only [readGroup, skipBlanks_text ha hhead, hinner, skipBlanks_close hb]
  simp only [readPrimary, List.cons_append, List.append_assoc, List.nil_append, hgroup, Option.orElse]

/-! ### Primary texts -/

/-- What begins with a digit is read as a number. -/
theorem number (hhead : ∃ c s, t = c :: s ∧ isDigit c = true)
    (h : ∀ rest, Follows 0 rest → readNumber (t ++ rest) = some (term, rest)) : Reads term t 0 := by
  intro n rest _ hrest
  have hgroup : readGroup (readTerm standardGrammar n) (t ++ rest) = none := by
    obtain ⟨c, s, rfl, hc⟩ := hhead
    rw [List.cons_append, readGroup]
    rintro r ⟨rfl⟩
    exact absurd hc (by decide)
  simp only [readPrimary, hgroup, h rest hrest, Option.orElse]

/-- A string in quotes of either kind. -/
theorem string {q : Char} (hq : q = '"' ∨ q = '\'') (body : List Char)
    (h : ∀ rest, readString q (body ++ q :: rest) = some (body, rest)) :
    Reads (.string body) (q :: (body ++ [q])) 0 := by
  intro n rest _ _
  have hstring : readStringTerm (q :: (body ++ q :: rest)) = some (.string body, rest) := by
    rcases hq with rfl | rfl <;> simp only [readStringTerm, h rest, Option.map_some]
  rw [List.cons_append, List.append_assoc, List.singleton_append]
  rcases hq with rfl | rfl
  · show ((readStringTerm ('"' :: (body ++ '"' :: rest))).orElse _) = _
    rw [hstring]
    rfl
  · show ((readStringTerm ('\'' :: (body ++ '\'' :: rest))).orElse _) = _
    rw [hstring]
    rfl

theorem null : Reads .null ['$'] 0 := by
  intro n rest _ _
  rfl

end Reads

/-- What begins like an identifier is a truth value, a call or a name. -/
theorem readPrimary_ident (inner : Reader Term) {c : Char} (hc : isIdentStart c = true)
    (s : List Char) : readPrimary standardGrammar inner (c :: s) =
      (((readWord standardGrammar.booleans (c :: s)).map fun (w, rest) =>
        (Term.boolean w, rest)).orElse fun _ =>
      (readCall standardGrammar.globalMark inner (c :: s)).orElse fun _ =>
      (readName standardGrammar.globalMark (c :: s)).map fun (name, rest) =>
        (.reference name, rest)) := by
  have hne : ∀ d, isIdentStart d = false → c ≠ d := by
    rintro d hd rfl
    rw [hc] at hd
    cases hd
  have hgroup : readGroup inner (c :: s) = none := by
    rw [readGroup]
    rintro r ⟨rfl⟩
    exact hne _ (by decide) rfl
  have hnumber : readNumber (c :: s) = none := by
    have hspan : ([] ++ c :: s).span isDigit = ([], c :: s) :=
      span_append nofun (by rintro d ⟨rfl⟩; exact not_isDigit_of_isIdentStart hc)
    rw [List.nil_append] at hspan
    simp only [readNumber, hspan]
  have hstring : readStringTerm (c :: s) = none := by
    rw [readStringTerm]
    all_goals
      rintro r ⟨rfl⟩
      exact hne _ (by decide) rfl
  have hnull : Symbols.afterMark? standardGrammar.null (c :: s) = none := by
    rw [Option.eq_none_iff_forall_ne_some]
    intro r hr
    cases afterMark?_eq_some.1 hr
    exact hne _ (by decide) rfl
  simp only [readPrimary, hgroup, hnumber, hstring, hnull, Option.orElse, Option.map_none]

namespace Reads

variable {term : Term} {t : List Char}

theorem boolean {word : List Char} (hword : word ∈ standardGrammar.booleans) :
    Reads (.boolean word) word 0 := by
  intro n rest _ hrest
  have hread := readWord_append hword hrest.endsName
  obtain ⟨c, s, rfl, hc⟩ : ∃ c s, word = c :: s ∧ isIdentStart c = true := by
    rcases mem_booleans hword with rfl | rfl <;> exact ⟨_, _, rfl, by decide⟩
  rw [List.cons_append] at *
  rw [readPrimary_ident _ hc, hread]
  rfl

theorem reference {name : List Char} (hname : IsName name) : Reads (.reference name) name 0 := by
  intro n rest _ hrest
  have hword := readWord_name hname hrest.endsName
  have hread := readName_append hname hrest.endsName
  have hcall : readCall standardGrammar.globalMark (readTerm standardGrammar n) (name ++ rest) =
      none := by
    simp only [readCall, hread]
    split
    next r hr =>
      rcases hrest _ _ hr with hc | hc | ⟨op, -, hc⟩
      · cases hc
      · cases hc
      · cases op <;> cases hc
    next => rfl
  obtain ⟨c, s, rfl, hc⟩ := hname.head
  rw [List.cons_append] at *
  rw [readPrimary_ident _ hc, hword, hcall, hread]
  rfl

/-- A call whose arguments are read in parentheses. -/
theorem call {name a s : List Char} {args : List Term} (hname : IsName name) (ha : Gap a)
    (h : ∀ n rest, s.length ≤ n → ∃ c, Gap c ∧
      readArgs (readTerm standardGrammar (n + 1)) (skipBlanks (s ++ ')' :: rest)) =
        (args, c ++ ')' :: rest)) :
    Reads (.call name args) (name ++ (a ++ '(' :: (s ++ [')']))) 0 := by
  intro n rest hn _
  simp only [List.length_append, List.length_cons] at hn
  obtain ⟨n, rfl⟩ : ∃ m, n = m + 1 := ⟨n - 1, by omega⟩
  obtain ⟨c, hc, hargs⟩ := h n rest (by omega)
  have hends : EndsName (a ++ '(' :: (s ++ ')' :: rest)) := .paren ha _
  have hword := readWord_name hname hends
  have hread := readName_append hname hends
  have hopen : skipBlanks (a ++ '(' :: (s ++ ')' :: rest)) = '(' :: (s ++ ')' :: rest) := by
    rw [skipBlanks_gap ha, skipBlanks_of_solid (by decide)]
  have hcall : readCall standardGrammar.globalMark (readTerm standardGrammar (n + 1))
      (name ++ (a ++ '(' :: (s ++ ')' :: rest))) = some (.call name args, rest) := by
    simp only [readCall, hread, hopen, hargs, skipBlanks_close hc]
  have htext : name ++ (a ++ '(' :: (s ++ [')'])) ++ rest =
      name ++ (a ++ '(' :: (s ++ ')' :: rest)) := by
    simp only [List.append_assoc, List.cons_append, List.nil_append]
  rw [htext]
  obtain ⟨d, r, rfl, hd⟩ := hname.head
  rw [List.cons_append] at *
  rw [readPrimary_ident _ hd, hword, hcall]
  rfl

end Reads

/-- No term begins with a closing parenthesis. -/
theorem readTerm_close (n : Nat) (rest : List Char) :
    readTerm standardGrammar (n + 1) (')' :: rest) = none := rfl

/-! ### Whole texts -/

/-- A text that is read as a term to its end is the expression of the term. -/
theorem readExpression_of_reads {term : Term} {t : List Char} (h : Reads term t 6)
    (hstrip : strip t = t) (hne : t ≠ []) (line : SourceLine) :
    readExpression standardSymbols line t =
      (term.lower standardSymbols "true" line).mapError .fault := by
  have hwhole : readTerm standardGrammar (t.length + 1) t = some (term, []) := by
    have hread := h.readAt (Nat.le_refl _) .nil
    rwa [List.append_nil] at hread
  have hterm : Term.read (standardSymbols.grammar ("true", "false")) t = .ok term := by
    rw [grammar_standard, Term.read, hwhole]
  have hempty : t.isEmpty = false := by rwa [List.isEmpty_eq_false_iff]
  have hbooleans : standardSymbols.booleans = .ok ("true", "false") := rfl
  simp only [readExpression, hstrip, hempty, hbooleans, hterm]
  rfl

end LineScript
