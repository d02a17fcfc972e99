import LineScript.Proofs.StatementCuts

/-!
# The first operator of a text

Operators are looked for in the masked form of a text, from left to right, and at each offset the
longest symbol that stands there is taken.  A symbol that has neither a quote nor an underscore shows
in the masked form exactly where it stands outside literals.  So what is found is the leftmost
operator outside literals, and the longest one there.

## Main definitions

* `LongestAt` — the longest of some symbols at the front of a text.
* `Symbols.firstClaim?` — the operator of a symbol in the first family that has it.
* `FirstOperator` — the first operator of a text, told without the mask.

## Main results

* `scanFor_cases` — **the scan stops at the first offset where a symbol stands.**
* `findOperator?_eq_some_iff` — **what is found is the leftmost longest operator outside literals.**
-/

namespace LineScript

/-! ### The scan -/

/-- The longest of some symbols that stand at the front of a text. -/
structure LongestAt (symbols : List (List Char)) (s m : List Char) : Prop where
  mem : m ∈ symbols
  fits : m <+: s
  longest : ∀ u ∈ symbols, u <+: s → u.length ≤ m.length

/-- The longer ones win: the best of a list is none only if there is nothing to choose from, and none
of the list is longer than it. -/
theorem foldl_longer (l : List (List Char)) : ∀ best : Option (List Char),
    (l.foldl longer best = none ↔ best = none ∧ l = []) ∧
      ∀ m, l.foldl longer best = some m →
        (∀ b, best = some b → b.length ≤ m.length) ∧ ∀ u ∈ l, u.length ≤ m.length := by
  induction l with
  | nil =>
    intro best
    refine ⟨by simp, fun m h => ⟨fun b hb => ?_, fun u hu => absurd hu List.not_mem_nil⟩⟩
    cases h.symm.trans hb
    exact Nat.le_refl _
  | cons u l ih =>
    intro best
    -- what is kept is as long as the new symbol and as the best so far
    obtain ⟨kept, hkept, hu, hbest⟩ : ∃ kept, longer best u = some kept ∧ u.length ≤ kept.length ∧
        ∀ b, best = some b → b.length ≤ kept.length := by
      cases best with
      | none => exact ⟨u, rfl, Nat.le_refl _, fun b hb => by cases hb⟩
      | some b =>
        by_cases hlt : b.length < u.length
        · exact ⟨u, if_pos hlt, Nat.le_refl _, fun _ hb => by cases hb; omega⟩
        · exact ⟨b, if_neg hlt, by omega, fun _ hb => by cases hb; omega⟩
    rw [List.foldl_cons, hkept]
    refine ⟨by simp [(ih (some kept)).1], fun m h => ?_⟩
    obtain ⟨hlength, hrest⟩ := (ih (some kept)).2 m h
    have hle : kept.length ≤ m.length := hlength kept rfl
    refine ⟨fun b hb => Nat.le_trans (hbest b hb) hle, fun v hv => ?_⟩
    rcases List.mem_cons.1 hv with rfl | hv
    · exact Nat.le_trans hu hle
    · exact hrest v hv

variable {symbols : List (List Char)}

theorem longestAt_eq_none_iff {s : List Char} :
    longestAt symbols s = none ↔ ∀ u ∈ symbols, ¬ u <+: s := by
  rw [longestAt, (foldl_longer _ none).1]
  simp [List.filter_eq_nil_iff, List.isPrefixOf_iff_prefix]

theorem longestAt_of_eq_some {s m : List Char}
    (h : longestAt symbols s = some m) : LongestAt symbols s m := by
  obtain ⟨hmem, hfits⟩ := mem_of_longestAt h
  refine ⟨hmem, List.isPrefixOf_iff_prefix.1 hfits, fun u hu hstands => ?_⟩
  exact ((foldl_longer _ none).2 m h).2 u
    (List.mem_filter.2 ⟨hu, List.isPrefixOf_iff_prefix.2 hstands⟩)

/-- **The scan stops at the first offset where a symbol stands**, with the longest one there, or no
symbol stands anywhere. -/
theorem scanFor_cases (hne : ∀ u ∈ symbols, u ≠ []) (s : List Char) :
    ∀ pos, (scanFor symbols pos s = none ∧ ∀ i, ∀ u ∈ symbols, ¬ u <+: s.drop i) ∨
      ∃ i m, scanFor symbols pos s = some (pos + i, m) ∧ LongestAt symbols (s.drop i) m ∧
        ∀ j < i, ∀ u ∈ symbols, ¬ u <+: s.drop j := by
  induction s with
  | nil =>
    intro pos
    refine .inl ⟨rfl, fun i u hu hfits => hne u hu ?_⟩
    simpa using hfits
  | cons c rest ih =>
    intro pos
    rw [scanFor]
    cases hfront : longestAt symbols (c :: rest) with
    | some m =>
      exact .inr ⟨0, m, rfl, longestAt_of_eq_some hfront, fun j hj => absurd hj (Nat.not_lt_zero j)⟩
    | none =>
      have hnone : ∀ u ∈ symbols, ¬ u <+: c :: rest := longestAt_eq_none_iff.1 hfront
      rcases ih (pos + 1) with ⟨hscan, hlater⟩ | ⟨i, m, hscan, hlongest, hbefore⟩
      · refine .inl ⟨hscan, fun i => ?_⟩
        cases i with
        | zero => exact hnone
        | succ i => exact hlater i
      · refine .inr ⟨i + 1, m, by rw [hscan, Nat.add_right_comm]; rfl, hlongest, fun j hj => ?_⟩
        cases j with
        | zero => exact hnone
        | succ j => exact hbefore j (Nat.lt_of_succ_lt_succ hj)

/-! ### Operators -/

namespace Symbols

/-- The operator that a symbol is in the first family that has it, in the order comparison, logical,
arithmetic. -/
def firstClaim? (s : Symbols) (symbol : String) : Option Operator :=
  [Family.comparison, .logical, .arithmetic].findSome? fun f =>
    (s.operatorsOf f).find? fun o => o.symbol == symbol

theorem find?_operators (s : Symbols) (symbol : String) :
    (s.operators.find? fun o => o.symbol == symbol) = s.firstClaim? symbol := by
  simp only [operators, List.find?_append, firstClaim?, List.findSome?_cons, List.findSome?_nil]
  cases (s.operatorsOf .comparison).find? fun o => o.symbol == symbol <;>
    cases (s.operatorsOf .logical).find? fun o => o.symbol == symbol <;>
    cases (s.operatorsOf .arithmetic).find? fun o => o.symbol == symbol <;> rfl

theorem mem_of_firstClaim? {s : Symbols} {symbol : String} {o : Operator}
    (h : s.firstClaim? symbol = some o) : o ∈ s.operators ∧ o.symbol = symbol := by
  rw [← find?_operators] at h
  exact ⟨List.mem_of_find?_eq_some h, by simpa using List.find?_some h⟩

/-- No operator of an accepted table is empty. -/
theorem symbol_ne_nil {t : Table} {s : Symbols} (hs : ofTable t = .ok s) :
    ∀ o ∈ s.operators, o.symbol.toList ≠ [] := by
  have hchecked := (checked_of_ofTable hs).operators
  unfold checkOperators at hchecked
  split at hchecked
  · cases hchecked
  split at hchecked
  · cases hchecked
  next hnone =>
    intro o ho hempty
    refine hnone (List.any_eq_true.2 ?_)
    -- the operators are the entries of the three tables, in the same order
    have hentry : ∃ entry ∈ s.comparison.toList ++ s.logical.toList ++ s.arithmetic.toList,
        entry.2.shown = o.symbol := by
      simp only [operators, operatorsOf, family, List.mem_append, List.mem_map] at ho ⊢
      rcases ho with (⟨entry, hentry, rfl⟩ | ⟨entry, hentry, rfl⟩) | ⟨entry, hentry, rfl⟩
      · exact ⟨entry, .inl (.inl hentry), rfl⟩
      · exact ⟨entry, .inl (.inr hentry), rfl⟩
      · exact ⟨entry, .inr hentry, rfl⟩
    obtain ⟨entry, hmem, hshown⟩ := hentry
    refine ⟨entry, hmem, ?_⟩
    rw [hshown, String.toList_eq_nil_iff.1 hempty]
    rfl

end Symbols

/-- The first operator of a text, told without the mask: no operator stands outside literals before
it, none that stands where it does is longer, and it is what the first family that has its symbol
makes of it. -/
structure FirstOperator (s : Symbols) (text : List Char) (m : OperatorMatch) : Prop where
  stands : StandsAt m.operator.symbol.toList text m.start
  leftmost : ∀ o ∈ s.operators, ∀ i < m.start, ¬ StandsAt o.symbol.toList text i
  longest : ∀ o ∈ s.operators, StandsAt o.symbol.toList text m.start →
    o.symbol.toList.length ≤ m.operator.symbol.toList.length
  stop : m.stop = m.start + m.operator.symbol.toList.length
  claimed : s.firstClaim? m.operator.symbol = some m.operator

/-- A text has at most one first operator. -/
theorem FirstOperator.unique {s : Symbols} {text : List Char} {m m' : OperatorMatch}
    (h : FirstOperator s text m) (h' : FirstOperator s text m') : m = m' := by
  have hmem := (Symbols.mem_of_firstClaim? h.claimed).1
  have hmem' := (Symbols.mem_of_firstClaim? h'.claimed).1
  have hstart : m.start = m'.start := by
    rcases Nat.lt_trichotomy m.start m'.start with hlt | heq | hlt
    · exact absurd h.stands (h'.leftmost _ hmem _ hlt)
    · exact heq
    · exact absurd h'.stands (h.leftmost _ hmem' _ hlt)
  have hfits' := hstart ▸ h'.stands
  have hlength : m.operator.symbol.toList.length = m'.operator.symbol.toList.length :=
    Nat.le_antisymm (h'.longest _ hmem (hstart ▸ h.stands)) (h.longest _ hmem' hfits')
  have hsymbol : m.operator.symbol = m'.operator.symbol := by
    have hfront := List.prefix_of_prefix_length_le h.stands.2 hfits'.2 (Nat.le_of_eq hlength)
    exact String.toList_inj.1 (hfront.eq_of_length hlength)
  have hoperator : m.operator = m'.operator := by
    have := h.claimed
    rw [hsymbol, h'.claimed] at this
    exact (Option.some.inj this).symm
  have hstop : m.stop = m'.stop := by rw [h.stop, h'.stop, hstart, hlength]
  rcases m with ⟨start, stop, operator⟩
  cases hstart
  cases hstop
  cases hoperator
  rfl

/-- **What is found is the leftmost longest operator outside literals.**  For every table that is
accepted and whose operators have neither quotes nor underscores, and for every text, whatever literals
it has: nothing is found exactly when no operator stands outside literals.  Otherwise what is found
begins at the first offset outside literals at which an operator stands, it is the longest of those
that stand there, it ends where that one does, and its family and name are those of the first family
that has the symbol. -/
theorem findOperator?_eq_some_iff {t : Table} {s : Symbols} (hs : Symbols.ofTable t = .ok s)
    (hplain : ∀ o ∈ s.operators, ∀ c ∈ o.symbol.toList, isQuote c = false ∧ c ≠ '_')
    (text : List Char) :
    (findOperator? s text = none ↔ ∀ o ∈ s.operators, ∀ i, ¬ StandsAt o.symbol.toList text i) ∧
      ∀ m, findOperator? s text = some m ↔ FirstOperator s text m := by
  have hne := Symbols.symbol_ne_nil hs
  have hshown : ∀ o ∈ s.operators, ∀ i,
      o.symbol.toList <+: (mask text).drop i ↔ StandsAt o.symbol.toList text i := fun o ho i =>
    prefix_mask_drop_iff (fun c hc => by simp [isPlain, hplain o ho c hc]) (hne o ho)
  have hsymbols : ∀ u ∈ s.operators.map fun o => o.symbol.toList, u ≠ [] := by
    intro u hu
    obtain ⟨o, ho, rfl⟩ := List.mem_map.1 hu
    exact hne o ho
  rcases scanFor_cases hsymbols (mask text) 0 with ⟨hscan, hnone⟩ | ⟨i, u, hscan, hlongest, hbefore⟩
  · -- no symbol shows anywhere
    have hfind : findOperator? s text = none := by rw [findOperator?, hscan]
    have hstands : ∀ o ∈ s.operators, ∀ i, ¬ StandsAt o.symbol.toList text i := fun o ho i h =>
      hnone i _ (List.mem_map_of_mem ho) ((hshown o ho i).2 h)
    refine ⟨iff_of_true hfind hstands, fun m => iff_of_false (by simp [hfind]) fun h => ?_⟩
    exact hstands _ (Symbols.mem_of_firstClaim? h.claimed).1 _ h.stands
  · -- the symbol that is found is that of an operator, and the first such operator is taken
    obtain ⟨o, ho, rfl⟩ := List.mem_map.1 hlongest.mem
    obtain ⟨op, hop⟩ : ∃ op, s.firstClaim? o.symbol = some op := by
      rw [← Symbols.find?_operators, ← Option.isSome_iff_exists, List.find?_isSome]
      exact ⟨o, ho, beq_self_eq_true _⟩
    obtain ⟨hmem, hsymbol⟩ := Symbols.mem_of_firstClaim? hop
    have hfind : findOperator? s text = some ⟨i, i + o.symbol.toList.length, op⟩ := by
      have hclaim : (s.operators.find? fun p => p.symbol.toList == o.symbol.toList) = some op := by
        rw [← hop, ← Symbols.find?_operators]
        refine congrArg (s.operators.find? ·) (funext fun p => ?_)
        rw [Bool.eq_iff_iff, beq_iff_eq, beq_iff_eq, String.toList_inj]
      rw [findOperator?, hscan]
      simp only [Nat.zero_add, hclaim, Option.map_some]
    have hfirst : FirstOperator s text ⟨i, i + o.symbol.toList.length, op⟩ := by
      refine ⟨?_, fun p hp j hj h => ?_, fun p hp h => ?_, ?_, ?_⟩
      · exact (hshown op hmem i).1 (hsymbol ▸ hlongest.fits)
      · exact hbefore j hj _ (List.mem_map_of_mem hp) ((hshown p hp j).2 h)
      · rw [hsymbol]
        exact hlongest.longest _ (List.mem_map_of_mem hp) ((hshown p hp i).2 h)
      · rw [hsymbol]
      · rw [hsymbol, hop]
    refine ⟨iff_of_false (by simp [hfind]) fun h => h op hmem i hfirst.stands, fun m => ?_⟩
    rw [hfind]
    exact ⟨fun h => Option.some.inj h ▸ hfirst, fun h => congrArg some (hfirst.unique h)⟩

/-- A table in which symbols of three families begin alike, and two families share one. -/
def arrowTable : Table :=
  Table.standard.put "logical" (.table (Table.ofTexts [("and", "<-"), ("or", "-")]))

/-- A text with operators inside two literals, one of them behind an escaped quote. -/
def arrowText : String := "\"a < b\" 'it\\'s - ' x<-y-z"

/-- The first operator outside the literals is the longer one of the two that stand there. -/
theorem findOperator?_arrow : ∃ s, Symbols.ofTable arrowTable = .ok s ∧
    (∀ o ∈ s.operators, ∀ c ∈ o.symbol.toList, isQuote c = false ∧ c ≠ '_') ∧
    findOperator? s arrowText.toList = some ⟨20, 22, ⟨"<-", .logical, .text "and"⟩⟩ ∧
    FirstOperator s arrowText.toList ⟨20, 22, ⟨"<-", .logical, .text "and"⟩⟩ := by
  obtain ⟨s, hs, hchars, hfind⟩ : ∃ s, Symbols.ofTable arrowTable = .ok s ∧
      (s.operators.all fun o => o.symbol.toList.all fun c => !isQuote c && c != '_') = true ∧
      findOperator? s arrowText.toList = some ⟨20, 22, ⟨"<-", .logical, .text "and"⟩⟩ :=
    ⟨_, rfl, by decide, by decide⟩
  have hplain : ∀ o ∈ s.operators, ∀ c ∈ o.symbol.toList, isQuote c = false ∧ c ≠ '_' := by
    intro o ho c hc
    simpa using List.all_eq_true.1 (List.all_eq_true.1 hchars o ho) c hc
  exact ⟨s, hs, hplain, hfind, ((findOperator?_eq_some_iff hs hplain _).2 _).1 hfind⟩

end LineScript
