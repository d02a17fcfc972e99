import LineScript.Proofs.Captures
import LineScript.Proofs.StatementCuts
import LineScript.Proofs.SymbolTables

/-!
# Changing the symbol of one operator

Operators play a part in two of the rules only.  An assignment may name an arithmetic operator in
front of its mark, and the arguments of a call without parentheses must not begin with the first
character of any operator.  So a statement in which neither the old nor the new symbol of an operator
is shown is recognised as before, unless it is such a call and its arguments begin with the first
character of one of the two symbols.

## Main definitions

* `Shows` — a symbol is shown in a text outside string literals.
* `Swapped` — lists of operators in which one has another symbol.
* `RuleMatch.CallsWith` — calls without parentheses whose arguments begin as a symbol does.

## Main results

* `shows_iff_standsAt` — a symbol without quotes is shown where it stands in the text.
* `matchRule?_assignment` — **assignments do not depend on symbols that are not shown.**
* `exists_bareCalls` — calls without parentheses are the first of a list that depends on no operator
  and that the operators allow.
* `findRule?_change_symbol` — **what changes when an operator gets another symbol.**
-/

namespace LineScript

/-! ### Searches -/

/-- The first of the values that a function gives and a predicate allows. -/
theorem findSome?_filter {α β : Type} (f : α → Option β) (p : β → Bool) : ∀ l : List α,
    (l.findSome? fun a => (f a).filter p) = (l.filterMap f).find? p
  | [] => rfl
  | a :: l => by
    rw [List.findSome?_cons, List.filterMap_cons, findSome?_filter f p l]
    cases f a with
    | none => rfl
    | some b => cases hb : p b <;> simp [Option.filter, hb]

/-- Two predicates choose the same of a list exactly when each allows what the other chooses. -/
theorem find?_eq_find?_iff {α : Type} {p q : α → Bool} {l : List α} : l.find? p = l.find? q ↔
    (∀ a, l.find? p = some a → q a = true) ∧ ∀ a, l.find? q = some a → p a = true := by
  constructor
  · intro h
    exact ⟨fun a ha => List.find?_some (h ▸ ha), fun a ha => List.find?_some (h ▸ ha)⟩
  · rintro ⟨hp, hq⟩
    induction l with
    | nil => rfl
    | cons b l ih =>
      rw [List.find?_cons, List.find?_cons] at *
      cases hpb : p b <;> cases hqb : q b <;> simp only [hpb, hqb] at hp hq ⊢
      · exact ih hp hq
      · have := hq b rfl
        rw [hpb] at this
        cases this
      · have := hp b rfl
        rw [hqb] at this
        cases this

/-! ### Symbols that are not shown -/

namespace Rule

/-- Texts with none behind a shorter one. -/
def LongestFirst (l : List (List Char)) : Prop := l.Pairwise fun u v => v.length ≤ u.length

theorem LongestFirst.insert {l : List (List Char)} (h : LongestFirst l) (u : List Char) :
    LongestFirst (insertByLength u l) := by
  induction l with
  | nil => exact List.pairwise_singleton ..
  | cons v l ih =>
    obtain ⟨hv, hl⟩ := List.pairwise_cons.1 h
    rw [insertByLength]
    split
    next hle =>
      refine List.pairwise_cons.2 ⟨fun w hw => ?_, h⟩
      rcases List.mem_cons.1 hw with rfl | hw
      · exact hle
      · exact Nat.le_trans (hv w hw) hle
    next hlt =>
      refine List.pairwise_cons.2 ⟨fun w hw => ?_, ih hl⟩
      rcases mem_insertByLength.1 hw with rfl | hw
      · omega
      · exact hv w hw

theorem longestFirst_foldr (l : List (List Char)) : LongestFirst (l.foldr insertByLength []) := by
  induction l with
  | nil => exact List.Pairwise.nil
  | cons u l ih => exact ih.insert u

/-- A text that none of the others is longer than comes first. -/
theorem insertByLength_of_le {u : List Char} {l : List (List Char)}
    (h : ∀ v ∈ l, v.length ≤ u.length) : insertByLength u l = u :: l := by
  cases l with
  | nil => rfl
  | cons v l => rw [insertByLength, if_pos (h v List.mem_cons_self)]

theorem filter_insertByLength (p : List Char → Bool) (u : List Char) {l : List (List Char)}
    (h : LongestFirst l) : (insertByLength u l).filter p =
      if p u then insertByLength u (l.filter p) else l.filter p := by
  induction l with
  | nil => cases hu : p u <;> simp [insertByLength, hu]
  | cons v l ih =>
    obtain ⟨hv, hl⟩ := List.pairwise_cons.1 h
    by_cases hle : v.length ≤ u.length
    · have hall : ∀ w ∈ (v :: l).filter p, w.length ≤ u.length := by
        intro w hw
        rcases List.mem_cons.1 (List.mem_filter.1 hw).1 with rfl | hw
        · exact hle
        · exact Nat.le_trans (hv w hw) hle
      rw [insertByLength_of_le hall, insertByLength, if_pos hle, List.filter_cons]
    · rw [insertByLength, if_neg hle, List.filter_cons, List.filter_cons, ih hl]
      cases p v <;> cases p u <;> simp [insertByLength, hle]

/-- Sorting and choosing can be done in either order. -/
theorem filter_foldr_insertByLength (p : List Char → Bool) (l : List (List Char)) :
    (l.foldr insertByLength []).filter p = (l.filter p).foldr insertByLength [] := by
  induction l with
  | nil => rfl
  | cons u l ih =>
    rw [List.foldr_cons, filter_insertByLength p u (longestFirst_foldr l), ih, List.filter_cons]
    split <;> rfl

end Rule

/-- One of several texts is matched by the first of them that stands at the cursor. -/
theorem Pattern.run_anyOf_text (c : Cursor) (next : Continuation) : ∀ l : List (List Char),
    (anyOf (l.map .text)).run c next =
      (l.filter (·.isPrefixOf c.rest)).findSome? fun u => next (c.advance u.length)
  | [] => by
    rw [List.map_nil, anyOf, run]
    split <;> rfl
  | [u] => by
    rw [List.map_cons, List.map_nil, anyOf, run, List.filter_cons]
    split <;> simp
  | u :: v :: l => by
    rw [List.map_cons, List.map_cons, anyOf, run, ← List.map_cons, run_anyOf_text c next (v :: l),
      run, List.filter_cons (x := u)]
    · split
      · rw [List.findSome?_cons]
        cases next (c.advance u.length) <;> rfl
      · rfl
    · rintro ⟨⟩

/-- The symbol is shown in a text outside string literals: the masked form has it behind whole
literals and characters around them. -/
def Shows (text symbol : List Char) : Prop :=
  ∃ i, WholeLiterals (text.take i) ∧ symbol <+: (mask text).drop i

theorem Shows.isInfix {text symbol : List Char} (h : Shows text symbol) : symbol <:+: mask text := by
  obtain ⟨i, -, hfits⟩ := h
  exact hfits.isInfix.trans (List.drop_suffix i (mask text)).isInfix

/-- A symbol without quotes is shown where it stands in the text outside literals. -/
theorem shows_iff_standsAt {text symbol : List Char} (h : QuoteFree symbol) :
    Shows text symbol ↔ ∃ i, StandsAt symbol text i := by
  refine exists_congr fun i => and_congr_right fun hi => ?_
  rw [← mask_drop hi.closed, ← List.isPrefixOf_iff_prefix, isPrefixOf_mask h,
    List.isPrefixOf_iff_prefix]

/-- A symbol that is not shown stands at no cursor outside literals. -/
theorem Cursor.In.not_isPrefixOf {text symbol : List Char} {c : Cursor} (h : c.In text)
    (hout : c.Outside text) (hhidden : ¬ Shows text symbol) : symbol.isPrefixOf c.rest = false := by
  rw [← Bool.not_eq_true, List.isPrefixOf_iff_prefix, h.rest_eq]
  exact fun hfits => hhidden ⟨c.position, wholeLiterals_of_closed hout, hfits⟩

/-! ### One operator with another symbol -/

/-- Lists of operators, in one of which an operator has the symbol `old` and in the other one has
the symbol `new`. -/
def Swapped (old new : String) (l l' : List Symbols.Operator) : Prop :=
  ∃ before o after, o.symbol = old ∧ l = before ++ o :: after ∧
    l' = before ++ { o with symbol := new } :: after

variable {o : Symbols.Operator}

namespace Swapped

variable {old new : String} {l l' : List Symbols.Operator}

variable (h : Swapped old new l l')

include h

theorem append (before after : List Symbols.Operator) :
    Swapped old new (before ++ l ++ after) (before ++ l' ++ after) := by
  obtain ⟨front, o, back, ho, rfl, rfl⟩ := h
  exact ⟨before ++ front, o, back ++ after, ho, by simp, by simp⟩

theorem symm : Swapped new old l' l := by
  obtain ⟨before, o, after, rfl, rfl, rfl⟩ := h
  exact ⟨before, _, after, rfl, rfl, rfl⟩

/-- What is left of the symbols when neither of the two is chosen. -/
theorem filter_eq {p : List Char → Bool} (hold : p old.toList = false)
    (hnew : p new.toList = false) :
    (l.map fun o => o.symbol.toList).filter p = (l'.map fun o => o.symbol.toList).filter p := by
  obtain ⟨before, o, after, rfl, rfl, rfl⟩ := h
  simp [hold, hnew]

/-- An operator of one list is in the other one, or it is the one with the symbol `old`. -/
theorem mem_or (ho : o ∈ l) : o ∈ l' ∨ o.symbol = old := by
  obtain ⟨before, o', after, rfl, rfl, rfl⟩ := h
  rcases List.mem_append.1 ho with ho | ho
  · exact .inl (List.mem_append_left _ ho)
  · rcases List.mem_cons.1 ho with rfl | ho
    · exact .inr rfl
    · exact .inl (List.mem_append_right _ (List.mem_cons_of_mem _ ho))

theorem exists_mem : ∃ o ∈ l, o.symbol = old := by
  obtain ⟨before, o, after, ho, rfl, -⟩ := h
  exact ⟨o, List.mem_append_right _ List.mem_cons_self, ho⟩

end Swapped

namespace Symbols

/-- Symbols with the same marks, of which one operator has the symbol `old` in the ones and the
symbol `new` in the others. -/
structure Changed (old new : String) (s s' : Symbols) : Prop where
  marks : s'.marks = s.marks
  arithmetic : s'.operatorsOf .arithmetic = s.operatorsOf .arithmetic ∨
    Swapped old new (s.operatorsOf .arithmetic) (s'.operatorsOf .arithmetic)
  operators : Swapped old new s.operators s'.operators

theorem Changed.symm {old new : String} {s s' : Symbols} (h : Changed old new s s') :
    Changed new old s' s :=
  ⟨h.marks.symm, h.arithmetic.imp Eq.symm Swapped.symm, h.operators.symm⟩

section Put

variable {t ops : Table} {f : Family} {name : Key} {old new : Setting} {s s' : Symbols}
  (hs : ofTable t = .ok s) (hs' : ofTable (t.put f.label (.table (ops.put name new))) = .ok s')

include hs hs'

/-- The operators of a family are no mark. -/
theorem marks_put : s'.marks = s.marks := by
  have h := checked_of_ofTable hs
  have h' := checked_of_ofTable hs'
  have hmark {key m m' : String} (hm : mark t key = .ok m)
      (hm' : mark (t.put f.label (.table (ops.put name new))) key = .ok m')
      (hkey : (f.label == key) = false := by cases f <;> decide) : m' = m := by
    unfold mark at hm hm'
    rw [Table.get?_put_of_not_same (by rw [Key.same_text, hkey])] at hm'
    exact Except.ok.inj (hm'.symm.trans hm)
  unfold marks
  rw [hmark h.comment h'.comment, hmark h.separator h'.separator,
    hmark h.globalMark h'.globalMark, hmark h.null h'.null, hmark h.importMark h'.importMark,
    hmark h.returnMark h'.returnMark, hmark h.loop h'.loop, hmark h.function h'.function,
    hmark h.conditional h'.conditional, hmark h.otherwise h'.otherwise, hmark h.assign h'.assign]

theorem operatorsOf_put_of_ne {g : Family} (hg : g ≠ f) : s'.operatorsOf g = s.operatorsOf g := by
  have hlabel : (f.label == g.label) = false := by cases f <;> cases g <;> simp_all [Family.label]
  have h := get?_of_familyTable ((checked_of_ofTable hs).family g)
  have h' := get?_of_familyTable ((checked_of_ofTable hs').family g)
  rw [Table.get?_put_of_not_same (by rw [Key.same_text, hlabel]), h] at h'
  rw [operatorsOf, operatorsOf, Setting.table.inj (Option.some.inj h')]

theorem swapped_put (hops : t.get? f.label = some (.table ops)) (hold : ops.get? name = some old) :
    Swapped old.shown new.shown (s.operatorsOf f) (s'.operatorsOf f) := by
  have h := get?_of_familyTable ((checked_of_ofTable hs).family f)
  have h' := get?_of_familyTable ((checked_of_ofTable hs').family f)
  rw [hops] at h
  rw [Table.get?_put_self] at h'
  obtain ⟨before, k, after, hbefore, hafter⟩ := Table.toList_put new hold
  unfold operatorsOf
  rw [← Setting.table.inj (Option.some.inj h), ← Setting.table.inj (Option.some.inj h'), hbefore,
    hafter, List.map_append, List.map_append, List.map_cons, List.map_cons]
  exact ⟨_, _, _, rfl, rfl, rfl⟩

/-- **A table in which one operator gets another symbol.** -/
theorem changed_put (hops : t.get? f.label = some (.table ops)) (hold : ops.get? name = some old) :
    Changed old.shown new.shown s s' := by
  have hswapped := swapped_put hs hs' hops hold
  have hkept {g : Family} (hg : g ≠ f) := operatorsOf_put_of_ne hs hs' hg
  refine ⟨marks_put hs hs', ?_, ?_⟩
  · by_cases hf : Family.arithmetic = f
    · subst hf
      exact .inr hswapped
    · exact .inl (hkept hf)
  · unfold operators
    cases f with
    | comparison =>
      rw [hkept (g := .logical) (by decide), hkept (g := .arithmetic) (by decide),
        List.append_assoc, List.append_assoc]
      exact hswapped.append [] _
    | logical =>
      rw [hkept (g := .comparison) (by decide), hkept (g := .arithmetic) (by decide)]
      exact hswapped.append _ _
    | arithmetic =>
      rw [hkept (g := .comparison) (by decide), hkept (g := .logical) (by decide)]
      have happend := hswapped.append (s.operatorsOf .comparison ++ s.operatorsOf .logical) []
      rwa [List.append_nil, List.append_nil] at happend

end Put

end Symbols

/-! ### Rules -/

section Rules

open Pattern Rule

variable {s s' : Symbols} {text : List Char}

/-- The parts that are cut from a text do not depend on the symbols. -/
theorem matchAt_eq (s s' : Symbols) (text : List Char) (r : Rule) :
    r.matchAt s' text = r.matchAt s text := by
  funext c
  rw [matchAt, matchAt, groupNames_pattern, groupNames_pattern]

/-- Most rules depend on the marks only. -/
theorem matchRule?_of_marks (hmarks : s'.marks = s.marks) (masked : List Char) {r : Rule}
    (hassignment : r ≠ .assignment) (hcall : r ≠ .bareCall) :
    matchRule? s' text masked r = matchRule? s text masked r := by
  simp only [Symbols.marks, List.cons.injEq, and_true] at hmarks
  obtain ⟨hcomment, -, hglobal, -, himport, hreturn, hloop, hfunction, hif, helse, -⟩ := hmarks
  have hpattern : r.pattern s' = r.pattern s := by
    cases r with
    | assignment => exact absurd rfl hassignment
    | bareCall => exact absurd rfl hcall
    | _ => simp only [pattern, functionPattern, name, *]
  have hlast : r.lastMark? s' = r.lastMark? s := by
    cases r <;> simp only [lastMark?, *]
  rw [matchRule?, matchRule?, mayMatch, mayMatch, hpattern, hlast]

theorem name_of_marks (hmarks : s'.marks = s.marks) : name s' = name s := by
  simp only [Symbols.marks, List.cons.injEq, and_true] at hmarks
  rw [name, name, hmarks.2.2.1]

theorem assign_of_marks (hmarks : s'.marks = s.marks) : s'.assign = s.assign := by
  simp only [Symbols.marks, List.cons.injEq, and_true] at hmarks
  exact hmarks.2.2.2.2.2.2.2.2.2.2

theorem only_name_of_quoteFree (hglobal : QuoteFree s.globalMark.toList) :
    (name s).Only fun c => isQuote c = false :=
  ⟨⟨hglobal, trivial⟩, only_identifier⟩

/-- A pattern without quotes leads to places outside literals only. -/
theorem Cursor.In.outside_of_only {c c' : Cursor} (h : c.In text) (hout : c.Outside text)
    {p : Pattern} (hp : p.Only fun ch => isQuote ch = false) (hway : p.Way c c') :
    c'.In text ∧ c'.Outside text :=
  ⟨h.way hway, (h.quiet hout hp hway "").stop⟩

variable {old new : String}

/-- The arithmetic symbols that stand at a cursor, when neither the old nor the new one does. -/
theorem filter_arithmeticSymbols (h : s.Changed old new s') {p : List Char → Bool}
    (hold : p old.toList = false) (hnew : p new.toList = false) :
    (arithmeticSymbols s').filter p = (arithmeticSymbols s).filter p := by
  rw [arithmeticSymbols, arithmeticSymbols, filter_foldr_insertByLength, filter_foldr_insertByLength]
  rcases h.arithmetic with heq | hswapped
  · rw [heq]
  · rw [hswapped.filter_eq hold hnew]

/-- **Assignments do not depend on symbols that are not shown.** -/
theorem matchRule?_assignment (h : s.Changed old new s') (hglobal : QuoteFree s.globalMark.toList)
    (hold : ¬ Shows text old.toList) (hnew : ¬ Shows text new.toList) :
    matchRule? s' text (mask text) .assignment = matchRule? s text (mask text) .assignment := by
  rw [matchRule?_eq, matchRule?_eq, matchAt_eq s s']
  refine congrArg (Option.map _) ?_
  change (assignmentPattern s').run _ some = (assignmentPattern s).run _ some
  simp only [assignmentPattern, Pattern.all, name_of_marks h.marks, assign_of_marks h.marks, run_seq]
  refine run_congr fun c₁ hname => run_congr fun c₂ hblanks => ?_
  -- no quote is passed on the way to the operator
  obtain ⟨hin₁, hout₁⟩ := (Cursor.in_start text).outside_of_only (Cursor.outside_start text)
    (p := .group "name" (name s)) (only_name_of_quoteFree hglobal) hname
  have hin₂ := hin₁.way hblanks
  have hout₂ := (hin₁.outside_iff_of_blanks hblanks).1 hout₁
  rw [run_optional, run_optional, run_group, run_group, run_anyOf_text, run_anyOf_text,
    filter_arithmeticSymbols h (hin₂.not_isPrefixOf hout₂ hold) (hin₂.not_isPrefixOf hout₂ hnew)]

/-- Whether the arguments of a match begin with a character that begins no operator. -/
def Symbols.allows (s : Symbols) (m : RuleMatch) : Bool :=
  (m.part "arguments").head?.any fun c => !(operatorChars s).contains c

/-- The arguments begin where their group does. -/
theorem head?_arguments {c c' : Cursor} (h : c.In text) (hout : c.Outside text) {ch : Char}
    {rest : List Char} (hrest : c.rest = ch :: rest) (hlt : c.position < c'.position) :
    ((Rule.bareCall.matchAt s text (c'.capture "arguments" c.position)).part "arguments").head? =
      some ch := by
  obtain ⟨tail, htail⟩ := h.exists_drop_eq_cons hout hrest
  obtain ⟨n, hn⟩ := Nat.exists_eq_add_of_lt hlt
  have hpart : (Rule.bareCall.matchAt s text (c'.capture "arguments" c.position)).part? "arguments" =
      some (ch :: tail.take n) := by
    rw [part?_eq_slice (by decide), Cursor.groups_capture, List.find?_cons_of_pos rfl]
    simp only [Option.map_some, slice, htail]
    rw [show c'.position - c.position = n + 1 by omega, List.take_succ_cons]
  rw [RuleMatch.part, ← RuleMatch.part?, hpart]
  rfl

/-- The arguments of a call without parentheses: a character of a class and the rest of the text. -/
def argumentsAt (accepts : Char → Bool) (c : Cursor) : Option Cursor :=
  (Pattern.group "arguments" (.seq (.one accepts) (dots true))).run c fun c' => finish.run c' some

theorem exists_of_argumentsAt {accepts : Char → Bool} {c r : Cursor}
    (h : argumentsAt accepts c = some r) :
    ∃ c' : Cursor, c.position < c'.position ∧ r = c'.capture "arguments" c.position := by
  obtain ⟨c₁, ⟨c₂, ⟨c₃, ⟨-, rfl⟩, hdots⟩, rfl⟩, hfinish⟩ := way_of_run h
  obtain ⟨c₄, ⟨-, rfl⟩, hend⟩ := way_of_run hfinish
  refine ⟨c₂, ?_, (Option.some.inj hend).symm⟩
  have hforward := hdots.forward.1
  rw [Cursor.position_advance] at hforward
  omega

/-- Arguments that must not begin with certain characters are found among all arguments. -/
theorem map_argumentsAt (s' : Symbols) {c : Cursor} (h : c.In text) (hout : c.Outside text) :
    (argumentsAt (fun ch => !(isBlank ch || (operatorChars s').contains ch)) c).map
        (Rule.bareCall.matchAt s text) =
      ((argumentsAt (fun ch => !isBlank ch) c).map (Rule.bareCall.matchAt s text)).filter
        s'.allows := by
  cases hrest : c.rest with
  | nil => simp [argumentsAt, run, hrest]
  | cons ch rest =>
    have hopen (accepts : Char → Bool) : argumentsAt accepts c =
        if accepts ch then argumentsAt (fun _ => true) c else none := by
      simp [argumentsAt, run, hrest]
    rw [hopen, hopen fun ch => !isBlank ch]
    cases hblank : isBlank ch with
    | true => rfl
    | false =>
      cases hfound : argumentsAt (fun _ => true) c with
      | none => simp
      | some r =>
        obtain ⟨c', hlt, rfl⟩ := exists_of_argumentsAt hfound
        have hallows : s'.allows (Rule.bareCall.matchAt s text (c'.capture "arguments" c.position)) =
            !(operatorChars s').contains ch := by
          rw [Symbols.allows, head?_arguments h hout hrest hlt, Option.any_some]
        rw [Bool.false_or, Bool.not_false, if_pos rfl, Option.map_some, Option.filter_some, hallows]
        split <;> rfl

/-- **Which calls without parentheses there are depends on no operator:** the one that is recognised
is the first that the operators allow. -/
theorem exists_bareCalls (hglobal : QuoteFree s.globalMark.toList) (text : List Char) :
    ∃ calls : List RuleMatch, ∀ s' : Symbols, s'.marks = s.marks →
      matchRule? s' text (mask text) .bareCall = calls.find? s'.allows := by
  obtain ⟨l, hl⟩ := (Pattern.seq (.group "name" (dotted s)) (oneOrMore true isBlank)).exists_tries
    ⟨0, mask text, []⟩
  refine ⟨l.filterMap fun c =>
    (argumentsAt (fun ch => !isBlank ch) c).map (Rule.bareCall.matchAt s text), fun s' hmarks => ?_⟩
  have hrun : (bareCallPattern s').match? (mask text) =
      l.findSome? (argumentsAt fun ch => !(isBlank ch || (operatorChars s').contains ch)) := by
    rw [← hl.run, bareCallPattern, dotted, name_of_marks hmarks]
    rfl
  have hmatch : matchRule? s' text (mask text) .bareCall =
      ((bareCallPattern s').match? (mask text)).map (Rule.bareCall.matchAt s text) := by
    rw [matchRule?_eq, matchAt_eq s s']
    rfl
  rw [hmatch, hrun, List.map_findSome?, ← findSome?_filter]
  refine findSome?_congr fun c hc => map_argumentsAt s' ?_ ?_
  all_goals
    obtain ⟨c₁, hname, hgap⟩ := hl.way c hc
    obtain ⟨hin₁, hout₁⟩ := (Cursor.in_start text).outside_of_only (Cursor.outside_start text)
      (p := .group "name" (dotted s)) ⟨only_name_of_quoteFree hglobal, only_members⟩ hname
    obtain ⟨hin, hout⟩ := hin₁.outside_of_only hout₁ only_gap hgap
    assumption

/-! ### What changes -/

theorem mem_operatorChars_iff {c : Char} : c ∈ operatorChars s ↔
    c ∈ ['(', ')', ','] ++ s.assign.toList.take 1 ∨
      ∃ o ∈ s.operators, o.symbol.toList.head? = some c := by
  rw [operatorChars, List.mem_append, List.mem_flatMap]
  refine or_congr_right (exists_congr fun o => and_congr_right fun _ => ?_)
  cases o.symbol.toList <;> simp [eq_comm]

/-- The character begins an operator that one of two tables has and the other has not. -/
theorem mem_operatorChars (h : s.Changed old new s') {c : Char} (hc : c ∈ operatorChars s)
    (hc' : c ∉ operatorChars s') : old.toList.head? = some c := by
  rw [mem_operatorChars_iff, assign_of_marks h.marks, not_or] at hc'
  rcases mem_operatorChars_iff.1 hc with hc | ⟨o, ho, hfirst⟩
  · exact absurd hc hc'.1
  · rcases h.operators.mem_or ho with ho | ho
    · exact absurd ⟨o, ho, hfirst⟩ hc'.2
    · rw [← ho, hfirst]

/-- What one table allows, the other one allows unless it begins as the new symbol does. -/
theorem allows_iff (h : s.Changed old new s') {m : RuleMatch} (hm : s.allows m = true) :
    s'.allows m = true ↔ (m.part "arguments").head? ≠ new.toList.head? := by
  unfold Symbols.allows at *
  obtain ⟨c, hhead, hc⟩ := (Option.any_eq_true ..).1 hm
  have hc : c ∉ operatorChars s := by simpa using hc
  rw [hhead, Option.any_some, Bool.not_eq_true', ← Bool.not_eq_true, List.contains_iff_mem]
  constructor
  · intro hc' hnew
    obtain ⟨o, ho, hsymbol⟩ := h.symm.operators.exists_mem
    exact hc' (mem_operatorChars_iff.2 (.inr ⟨o, ho, by rw [hsymbol, ← hnew]⟩))
  · intro hnew hc'
    exact hnew (mem_operatorChars h.symm hc' hc).symm

end Rules

/-- A call without parentheses whose arguments begin as a symbol does. -/
def RuleMatch.CallsWith (m : RuleMatch) (symbol : String) : Prop :=
  m.rule = .bareCall ∧ (m.part "arguments").head? = symbol.toList.head?

/-- The rules that are tried before that for calls without parentheses. -/
def firstRules : List Rule := Rule.all.dropLast

theorem findRule?_eq_or (s : Symbols) (text : List Char) :
    findRule? s text = (firstRules.findSome? (matchRule? s text (mask text))).or
      (matchRule? s text (mask text) .bareCall) := by
  have hsingle : matchRule? s text (mask text) .bareCall =
      [Rule.bareCall].findSome? (matchRule? s text (mask text)) := by rw [List.findSome?_singleton]
  rw [hsingle, ← List.findSome?_append]
  rfl

theorem rule_of_matchRule? {s : Symbols} {text masked : List Char} {r : Rule} {m : RuleMatch}
    (h : matchRule? s text masked r = some m) : m.rule = r := by
  rw [matchRule?_eq] at h
  obtain ⟨c, -, rfl⟩ := Option.map_eq_some_iff.1 h
  rfl

section Change

variable {old new : String} {s s' : Symbols} {text : List Char} (h : s.Changed old new s')
  (hglobal : QuoteFree s.globalMark.toList)

include h hglobal

/-- All rules but the last one recognise what they did before. -/
theorem firstRules_changed (hold : ¬ Shows text old.toList) (hnew : ¬ Shows text new.toList) :
    firstRules.findSome? (matchRule? s' text (mask text)) =
      firstRules.findSome? (matchRule? s text (mask text)) := by
  refine findSome?_congr fun r hr => ?_
  by_cases hassignment : r = .assignment
  · rw [hassignment]
    exact matchRule?_assignment h hglobal hold hnew
  · have hcall : r ≠ .bareCall := by
      rintro rfl
      exact absurd hr (by decide)
    exact matchRule?_of_marks h.marks _ hassignment hcall

/-- The last rule recognises what it did before, except for calls that begin as one of the symbols
does. -/
theorem bareCall_changed :
    matchRule? s text (mask text) .bareCall = matchRule? s' text (mask text) .bareCall ↔
      (∀ m, matchRule? s text (mask text) .bareCall = some m → ¬ m.CallsWith new) ∧
        ∀ m, matchRule? s' text (mask text) .bareCall = some m → ¬ m.CallsWith old := by
  obtain ⟨calls, hcalls⟩ := exists_bareCalls hglobal text
  have hrule {s : Symbols} {m : RuleMatch} (hm : matchRule? s text (mask text) .bareCall = some m)
      (symbol : String) : ¬ m.CallsWith symbol ↔
        (m.part "arguments").head? ≠ symbol.toList.head? := by
    rw [RuleMatch.CallsWith, rule_of_matchRule? hm]
    simp
  have hs := hcalls s rfl
  have hs' := hcalls s' h.marks
  rw [hs, hs', find?_eq_find?_iff]
  refine and_congr (forall_congr' fun m => ?_) (forall_congr' fun m => ?_)
  · refine imp_congr_right fun hm => ?_
    rw [hrule (hs.trans hm), allows_iff h (List.find?_some hm)]
  · refine imp_congr_right fun hm => ?_
    rw [hrule (hs'.trans hm), allows_iff h.symm (List.find?_some hm)]

end Change

/-- **What changes when an operator gets another symbol.**  Take two accepted tables that differ in
the symbol of one operator, and a statement that shows neither of the two symbols outside string
literals.  Both tables recognise it by the same rule with the same parts, or by none, unless the one
makes it a call without parentheses whose arguments begin with the first character of the symbol
that only the other one has. -/
theorem findRule?_change_symbol {t ops : Table} {f : Family} {name : Key} {old new : Setting}
    {s s' : Symbols} {text : List Char} (hs : Symbols.ofTable t = .ok s)
    (hops : t.get? f.label = some (.table ops)) (hname : ops.get? name = some old)
    (hs' : Symbols.ofTable (t.put f.label (.table (ops.put name new))) = .ok s')
    (hglobal : QuoteFree s.globalMark.toList) (hold : ¬ Shows text old.shown.toList)
    (hnew : ¬ Shows text new.shown.toList) :
    findRule? s text = findRule? s' text ↔
      (∀ m, findRule? s text = some m → ¬ m.CallsWith new.shown) ∧
        ∀ m, findRule? s' text = some m → ¬ m.CallsWith old.shown := by
  have h : s.Changed old.shown new.shown s' := Symbols.changed_put hs hs' hops hname
  rw [findRule?_eq_or, findRule?_eq_or, firstRules_changed h hglobal hold hnew]
  cases hfirst : firstRules.findSome? (matchRule? s text (mask text)) with
  | none => exact bareCall_changed h hglobal
  | some m =>
    obtain ⟨r, hr, hm⟩ := List.exists_of_findSome?_eq_some hfirst
    have hcall (symbol : String) : ¬ m.CallsWith symbol := by
      rintro ⟨hrule, -⟩
      rw [rule_of_matchRule? hm] at hrule
      subst hrule
      exact absurd hr (by decide)
    simp [hcall]

/-- The default table with the word `mod` for the remainder. -/
def wordedTable : Table :=
  Table.standard.put Family.arithmetic.label
    (.table (standardSymbols.arithmetic.put "module" (.text "mod")))

/-- The symbols of that table. -/
def wordedSymbols : Symbols :=
  { standardSymbols with
    table := wordedTable, arithmetic := standardSymbols.arithmetic.put "module" (.text "mod") }

/-- A call that has `mod` in a string. -/
def wordedCall : List Char := "print total, \"x mod y\"".toList

/-- A call with `mod` in a string is recognised by both tables, as the same call. -/
theorem findRule?_change_symbol_string :
    Symbols.ofTable Table.standard = .ok standardSymbols ∧
      Symbols.ofTable wordedTable = .ok wordedSymbols ∧ ¬ Shows wordedCall "%".toList ∧
      ¬ Shows wordedCall "mod".toList ∧
      findRule? standardSymbols wordedCall = findRule? wordedSymbols wordedCall ∧
      (findRule? standardSymbols wordedCall).map RuleMatch.rule = some .bareCall := by
  have hold : ¬ Shows wordedCall "%".toList := fun h => absurd h.isInfix (by decide +kernel)
  have hnew : ¬ Shows wordedCall "mod".toList := fun h => absurd h.isInfix (by decide +kernel)
  have hglobal : QuoteFree standardSymbols.globalMark.toList :=
    (plain_standard.plain standardSymbols.globalMark (by simp [Symbols.marks])).quoteFree
  have hfind : findRule? standardSymbols wordedCall = some ⟨.bareCall, 22,
      [("name", some "print".toList), ("arguments", some "total, \"x mod y\"".toList)]⟩ := by
    decide +kernel
  have hfind' : findRule? wordedSymbols wordedCall = some ⟨.bareCall, 22,
      [("name", some "print".toList), ("arguments", some "total, \"x mod y\"".toList)]⟩ := by
    decide +kernel
  refine ⟨rfl, rfl, hold, hnew, ?_, by rw [hfind]; rfl⟩
  refine (@findRule?_change_symbol Table.standard standardSymbols.arithmetic .arithmetic "module"
    (.text "%") (.text "mod") standardSymbols wordedSymbols wordedCall rfl rfl rfl rfl hglobal hold
    hnew).2 ⟨fun m hm hcall => ?_, fun m hm hcall => ?_⟩
  · obtain rfl := Option.some.inj (hfind.symm.trans hm)
    exact absurd hcall.2 (by decide +kernel)
  · obtain rfl := Option.some.inj (hfind'.symm.trans hm)
    exact absurd hcall.2 (by decide +kernel)

/-- A call whose argument begins with the first letter of `mod` is lost, although the statement shows
neither symbol. -/
theorem call_lost_by_first_letter :
    Symbols.ofTable Table.standard = .ok standardSymbols ∧
      Symbols.ofTable wordedTable = .ok wordedSymbols ∧ ¬ Shows "print message".toList "%".toList ∧
      ¬ Shows "print message".toList "mod".toList ∧
      findRule? standardSymbols "print message".toList = some ⟨.bareCall, 13,
        [("name", some "print".toList), ("arguments", some "message".toList)]⟩ ∧
      findRule? wordedSymbols "print message".toList = none := by
  refine ⟨rfl, rfl, fun h => ?_, fun h => ?_, by decide +kernel, by decide +kernel⟩
  · exact absurd h.isInfix (by decide +kernel)
  · exact absurd h.isInfix (by decide +kernel)

end LineScript
