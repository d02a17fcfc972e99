import LineScript.Proofs.OneExpression
import LineScript.Proofs.OneLineBlocks
import LineScript.Proofs.OperatorChange
import LineScript.Proofs.ReadAnywhere

/-!
# Compound assignments

An assignment may name an arithmetic operator in front of its mark.  It stands for the assignment of
that operation on the name and the expression, whatever operators the expression has: the expression
is an operand as if it stood in parentheses.

## Main definitions

* `IsVariable` — names that can be assigned to.
* `textless` — scripts up to the texts of their lines.
* `compound`, `expanded` — a compound assignment and the assignment that it stands for.

## Main results

* `classify_assignment` — **which texts are assignments, and what their parts are.**
* `assignment_expanded` — a name, an operator and an expression in parentheses.
* `compound_means_expanded` — **a compound assignment is its expansion.**
-/

namespace LineScript

/-- A name that can be assigned to and read: an identifier, which may have the global mark, and which
is no word for a truth value. -/
def IsVariable (name : List Char) : Prop :=
  ∃ identifier, isIdentifier identifier = true ∧ identifier ≠ "true".toList ∧
    identifier ≠ "false".toList ∧
    (name = identifier ∨ name = standardSymbols.globalMark.toList ++ identifier)

namespace IsVariable

variable {name : List Char} (h : IsVariable name)

include h

theorem isFunctionName : IsFunctionName name := by
  obtain ⟨identifier, hid, -, -, hname⟩ := h
  exact ⟨identifier, hid, hname⟩

theorem isName : IsName name := by
  obtain ⟨identifier, hid, hyes, hno, hname⟩ := h
  have hplain : IsName (identifier ++ ([] : List (List Char)).flatMap ('.' :: ·)) :=
    .dotted hid hyes hno nofun
  rw [List.flatMap_nil, List.append_nil] at hplain
  rcases hname with rfl | rfl
  · exact hplain
  · exact hplain.marked

theorem isHead : IsHead name := by
  refine ⟨solid_name h.isName, undivided_name h.isName, fun hmem => ?_⟩
  exact Bool.noConfusion (h.isName.not_isBlank '\n' hmem)

end IsVariable

/-! ### Recognising assignments -/

variable {name : List Char} {y : Expr}

section Runs

open Pattern

variable {groups : List (String × Nat × Nat)} {next : Continuation} {r : Cursor} {position : Nat}
  {rest : List Char}

/-- An identifier is taken up to the first character that is not in it. -/
theorem run_identifier {id : List Char} (hid : isIdentifier id = true)
    (hrest : ∀ c ∈ rest.head?, isIdentChar c = false)
    (hnext : next ⟨position + id.length, rest, groups⟩ = some r) :
    identifier.run ⟨position, id ++ rest, groups⟩ next = some r := by
  obtain ⟨c, tail, rfl, hc, hall⟩ := isIdentifier_eq_true_iff.1 hid
  change (if isIdentStart c then longestFirst (fun d _ => isIdentChar d) groups next (position + 1)
    (tail ++ rest) else none) = some r
  rw [if_pos hc]
  refine longestFirst_append (fun d hd _ => hall d (List.mem_cons_of_mem c hd)) ?_ ?_
  · intro d back heq
    exact hrest d (by rw [heq]; rfl)
  · rwa [List.length_cons, ← Nat.add_assoc, Nat.add_right_comm] at hnext

/-- The rest of a line is taken to its end. -/
theorem run_dots {s : List Char} (hs : '\n' ∉ s)
    (hnext : next ⟨position + s.length, [], groups⟩ = some r) :
    (dots true).run ⟨position, s, groups⟩ next = some r := by
  have htaken : longestFirst (fun c _ => inLine c) groups next position (s ++ []) = some r := by
    refine longestFirst_append (fun c hc _ => ?_) nofun hnext
    rw [inLine, bne_iff_ne]
    rintro rfl
    exact hs hc
  rwa [List.append_nil] at htaken

/-- A name is taken with its global mark. -/
theorem run_name (hname : IsFunctionName name) (hrest : EndsName rest)
    (hnext : next ⟨position + name.length, rest, groups⟩ = some r) :
    (Pattern.name standardSymbols).run ⟨position, name ++ rest, groups⟩ next = some r := by
  obtain ⟨id, hid, rfl | rfl⟩ := hname
  · rw [Pattern.name, run_seq, run_optional]
    have hmark : standardSymbols.globalMark.toList.isPrefixOf (name ++ rest) = false := by
      rw [← Bool.not_eq_true, List.isPrefixOf_iff_prefix]
      rintro ⟨tail, htail⟩
      -- an identifier and what ends a name do not begin with `root` and a point
      obtain ⟨-, -, -, -, hall⟩ := isIdentifier_eq_true_iff.1 hid
      obtain ⟨-, hpoint⟩ := identifier_inj hall
        (List.all_eq_true.1 (by decide : (['r', 'o', 'o', 't'].all isIdentChar) = true))
        hrest.not_isIdentChar (by rintro c ⟨rfl⟩; decide)
        (htail.symm.trans (List.append_assoc ['r', 'o', 'o', 't'] ['.'] tail))
      exact hrest.not_point tail hpoint
    rw [run, hmark]
    exact run_identifier hid hrest.not_isIdentChar hnext
  · rw [Pattern.name, run_seq]
    refine run_optional_of_some ?_
    rw [List.append_assoc, run_text]
    refine run_identifier hid hrest.not_isIdentChar ?_
    rwa [List.length_append, ← Nat.add_assoc] at hnext

end Runs

theorem arithmeticSymbols_standard :
    Rule.arithmeticSymbols standardSymbols = [['+'], ['-'], ['*'], ['/'], ['%']] := by decide

/-- The operator in front of the mark of an assignment: an arithmetic one, or none. -/
def IsPrefixed (operator : List Char) : Prop :=
  operator = [] ∨ operator ∈ Rule.arithmeticSymbols standardSymbols

/-- The text of an assignment. -/
def assigning (name operator after expr : List Char) : List Char :=
  name ++ ([' '] ++ (operator ++ (['='] ++ (after ++ expr))))

/-- What an assignment captures of an operator. -/
def captured (operator : List Char) : Option (List Char) :=
  if operator = [] then none else some operator

namespace IsPrefixed

open Pattern

variable {operator : List Char} (h : IsPrefixed operator)

include h

theorem cases_eq : operator = [] ∨ operator = ['+'] ∨ operator = ['-'] ∨ operator = ['*'] ∨
    operator = ['/'] ∨ operator = ['%'] := by
  simpa [IsPrefixed, arithmeticSymbols_standard] using h

theorem bare : Bare operator := by
  rcases h.cases_eq with rfl | rfl | rfl | rfl | rfl | rfl <;> simp [Bare] <;> decide

/-- The operator is taken where there is one, and nothing where there is none. -/
theorem run {next : Continuation} {r : Cursor} {position : Nat} {rest : List Char}
    {groups : List (String × Nat × Nat)}
    (hnext : next ⟨position + operator.length, '=' :: rest, (if operator = [] then [] else
      [("operator", position, position + operator.length)]) ++ groups⟩ = some r) :
    (Pattern.optional (.group "operator"
      (anyOf ((Rule.arithmeticSymbols standardSymbols).map .text)))).run
        ⟨position, operator ++ '=' :: rest, groups⟩ next = some r := by
  rw [run_optional, run_group, run_anyOf_text, arithmeticSymbols_standard]
  rcases h.cases_eq with rfl | rfl | rfl | rfl | rfl | rfl <;>
    simp_all [List.isPrefixOf, Cursor.advance, Cursor.capture]

end IsPrefixed

/-- The parts of an assignment, as it is matched. -/
def assigned (name operator after expr : List Char) : Cursor :=
  let start := name.length + 1 + operator.length + 1 + after.length
  ⟨start + expr.length, [], ("expression", start, start + expr.length) ::
    ((if operator = [] then [] else
      [("operator", name.length + 1, name.length + 1 + operator.length)]) ++
      [("name", 0, name.length)])⟩

section Assignment

open Pattern

variable {name operator after expr : List Char}

theorem match_assignment (hname : IsFunctionName name) (hop : IsPrefixed operator)
    (hafter : Blanks after) (hne : after ≠ []) (hexpr : Solid expr) (hline : '\n' ∉ expr) :
    (Rule.assignmentPattern standardSymbols).match? (assigning name operator after expr) =
      some (assigned name operator after expr) := by
  have hsign : ∀ c ∈ (operator ++ (['='] ++ (after ++ expr))).head?, isBlank c = false := by
    rcases hop.cases_eq with rfl | rfl | rfl | rfl | rfl | rfl <;> rintro c ⟨rfl⟩ <;> decide
  -- what stands behind the mark begins with a blank, so the mark is not written twice
  have htwice : ∀ c ∈ (after ++ expr).head?, c ≠ '=' := by
    obtain ⟨d, tail, rfl⟩ := List.exists_cons_of_ne_nil hne
    rintro c ⟨rfl⟩ rfl
    exact Bool.noConfusion (hafter '=' List.mem_cons_self)
  change Pattern.run _ ⟨0, name ++ ([' '] ++ (operator ++ (['='] ++ (after ++ expr)))), []⟩ some = _
  simp only [Rule.assignmentPattern, Pattern.all, run_seq]
  rw [run_group]
  refine run_name hname (by rintro c ⟨rfl⟩; decide) ?_
  refine run_blanks (List.forall_mem_singleton.2 rfl) hsign (hop.run ?_)
  refine (run_text ['='] (after ++ expr)).trans ((run_unless htwice).trans ?_)
  refine run_blanks hafter hexpr.first ?_
  rw [run_group]
  refine run_dots hline ?_
  simp [assigned, Pattern.run, Cursor.capture]

theorem mask_assigning (hname : IsFunctionName name) (hop : IsPrefixed operator)
    (hafter : Blanks after) :
    mask (assigning name operator after expr) = assigning name operator after (mask expr) := by
  have hfront : QuoteFree (name ++ ([' '] ++ (operator ++ (['='] ++ after)))) := by
    simp only [QuoteFree, List.forall_mem_append]
    exact ⟨hname.bare.quoteFree, quoteFree_singleton rfl, hop.bare.quoteFree,
      quoteFree_singleton rfl, hafter.bare.quoteFree⟩
  have hmask := mask_append (closed_of_quoteFree hfront) expr
  rw [mask_of_quoteFree hfront] at hmask
  simpa only [assigning, List.append_assoc] using hmask

theorem undivided_assigning (hname : IsFunctionName name) (hop : IsPrefixed operator)
    (hafter : Blanks after) (hexpr : Undivided expr) :
    Undivided (assigning name operator after expr) :=
  hname.bare.undivided.append ((bare_singleton rfl rfl).undivided.append (hop.bare.undivided.append
    ((bare_singleton rfl rfl).undivided.append (hafter.bare.undivided.append hexpr))))

/-- A rule for the end of a block or a block on one line needs a border at the end of a text. -/
theorem matchRule?_of_free {text : List Char} {r : Rule} {m : Char} (hm : isBorder m = true)
    (hr : (r.lastMark? standardSymbols).any fun mark => mark.toList.contains m)
    (hfree : ∀ c ∈ mask text, isBorder c = false) :
    matchRule? standardSymbols text (mask text) r = none := by
  refine matchRule?_of_not_mayMatch ?_
  cases hmark : r.lastMark? standardSymbols with
  | none => rw [hmark] at hr; cases hr
  | some mark =>
    rw [hmark] at hr
    have hmem : m ∈ mark.toList := List.contains_iff_mem.1 hr
    have hnot : m ∉ mask text := fun h => Bool.noConfusion (hm.symm.trans (hfree m h))
    simp only [Rule.mayMatch, hmark, Option.all_some, Rule.endsWith, ← Bool.not_eq_true,
      Bool.or_eq_true, List.isSuffixOf_iff_suffix]
    rintro (h | h)
    · exact hnot (h.subset hmem)
    · exact hnot (h.subset (List.mem_append_left _ hmem))

/-- A mark that a text does not begin with. -/
theorem matchRule?_of_front {text masked mark : List Char} {r : Rule} {p : Pattern}
    (hr : r.pattern standardSymbols = .seq (.text mark) p) (h : ¬ mark <+: masked) :
    matchRule? standardSymbols text masked r = none := by
  refine matchRule?_of_not_way fun c hway => ?_
  rw [hr] at hway
  obtain ⟨_, ⟨hfits, -⟩, -⟩ := hway
  exact h hfits

/-- None of the rules before the one for assignments matches an assignment. -/
theorem matchRule?_assigning (hname : IsVariable name) (hop : IsPrefixed operator)
    (hafter : Blanks after) (hexpr : Undivided expr) :
    ∀ r ∈ Rule.all.take 14, matchRule? standardSymbols (assigning name operator after expr)
      (mask (assigning name operator after expr)) r = none := by
  have hfree := (undivided_assigning hname.isFunctionName hop hafter hexpr).free
  have hfront {c : Char} (hc : isIdentStart c = false) :
      ¬ [c] <+: mask (assigning name operator after expr) := by
    rw [mask_assigning hname.isFunctionName hop hafter]
    obtain ⟨d, tail, rfl, hd⟩ := hname.isName.head
    intro h
    obtain ⟨rfl, -⟩ := List.cons_prefix_cons.1 h
    exact Bool.noConfusion (hc.symm.trans hd)
  intro r hr
  cases r with
  | comment => exact hname.isHead.matchRule?_comment _ _
  | inlineLoop | loopClose | loopOpen => exact matchRule?_of_free (m := '@') rfl rfl hfree
  | inlineFunction | functionClose | functionOpen =>
    exact matchRule?_of_free (m := '#') rfl rfl hfree
  | inlineIf | otherwise | ifClose | elseIf | ifOpen =>
    exact matchRule?_of_free (m := '?') rfl rfl hfree
  | returning | importing => exact matchRule?_of_front rfl (hfront (by decide))
  | assignment | bareCall => exact absurd hr (by decide)

/-- **Which texts are assignments, and what their parts are.** -/
theorem classify_assignment (hname : IsVariable name) (hop : IsPrefixed operator)
    (hafter : Blanks after) (hne : after ≠ []) (hsolid : Solid expr) (hexpr : Undivided expr)
    (hline : '\n' ∉ expr) : classify standardSymbols (assigning name operator after expr) =
      .item (.assignment name (captured operator) expr) := by
  have hlineMask : '\n' ∉ mask expr := fun h => hline (mem_of_mem_maskFrom h (by decide))
  have hmatch := match_assignment hname.isFunctionName hop hafter hne hsolid.mask hlineMask
  rw [← mask_assigning hname.isFunctionName hop hafter] at hmatch
  refine (classify_of_match (r := .assignment) _ rfl (matchRule?_assigning hname hop hafter hexpr) rfl
    hmatch).trans ?_
  have hoperator : assigning name operator after expr =
      (name ++ [' ']) ++ (operator ++ (['='] ++ (after ++ expr))) := by simp [assigning]
  have hexpression : assigning name operator after expr =
      (name ++ [' '] ++ operator ++ ['='] ++ after) ++ (expr ++ []) := by simp [assigning]
  have hn : slice (assigning name operator after expr) 0 name.length = name := slice_front ..
  have ho : slice (assigning name operator after expr) (name.length + 1)
      (name.length + 1 + operator.length) = operator := by
    rw [hoperator]
    exact slice_append _ _ _ (by simp) rfl
  have he : slice (assigning name operator after expr)
      (name.length + 1 + operator.length + 1 + after.length)
      (name.length + 1 + operator.length + 1 + after.length + expr.length) = expr := by
    rw [hexpression]
    exact slice_append _ _ _ (by simp; omega) rfl
  change Form.item (.assignment (Option.getD (RuleMatch.part? _ "name") []) _
    (Option.getD (RuleMatch.part? _ "expression") [])) = _
  rw [part?_eq_slice (by decide), part?_eq_slice (by decide), part?_eq_slice (by decide)]
  by_cases hnone : operator = [] <;>
    simp_all [assigned, captured, length_mask]

end Assignment

/-! ### Scripts of one assignment -/

/-- **A line that is an assignment is the script of it.** -/
theorem parse_assigning {τ : Type} (load : Loader τ) (base origin : Option String) (state : τ)
    {text : String} {operator after expr back : List Char} {t : Term} {st : Statement}
    (htext : text.toList = assigning name operator after expr ++ back)
    (hline : Unbroken text.toList) (hname : IsVariable name) (hop : IsPrefixed operator)
    (hafter : Blanks after) (hne : after ≠ []) (hexpr : Passage 6 t expr) (hback : Blanks back)
    (hst : Builder.assignment standardSymbols ⟨1, text, origin⟩ name (captured operator) expr =
      .ok st) :
    (parse standardSymbols load base origin text state).1 = .ok ⟨⟨1, text, origin⟩, [st]⟩ := by
  have hundivided := undivided_assigning hname.isFunctionName hop hafter hexpr.undivided
  have hwhole : Solid (assigning name operator after expr) := by
    have happend := hname.isHead.solid.append hexpr.solid ([' '] ++ (operator ++ (['='] ++ after)))
    simpa only [assigning, List.append_assoc] using happend
  have hstrip := hwhole.strip_between (List.forall_mem_nil _) hback
  rw [← htext, List.nil_append] at hstrip
  have hlines : IsLine text.toList := by
    obtain ⟨c, r, hcons, hc⟩ := hwhole.exists_cons
    rw [htext] at hline ⊢
    exact ⟨(hundivided.append hback.bare.undivided).fits hline, c, by rw [hcons]; simp, hc⟩
  have hfeed : '\n' ∉ expr := by
    intro hmem
    have hbreak := hline '\n' (by simp [htext, assigning, hmem])
    cases hbreak
  have hitem := classify_assignment hname hop hafter hne hexpr.solid hexpr.undivided hfeed
  rw [← hstrip] at hitem
  have hcomment : isComment standardSymbols.comment.toList text.toList = false := by
    rw [← Bool.not_eq_true]
    intro hmark
    have hcode := codeIn_of_item hitem Item.noConfusion
    rw [codeIn_of_isComment hmark] at hcode
    cases hcode
  have hparse := parse_of_item load base origin state hlines.unbroken hlines.strip_ne_nil hcomment
    hlines.whole hitem fun _ => Item.noConfusion
  rw [String.ofList_toList] at hparse
  rw [hparse]
  simp only [streamScript, feedStream, Builder.apply, hst]
  rfl

/-! ### Compound assignments and what they stand for -/

/-- What is left of a script without the texts of its lines. -/
def textless : Blur where
  line l := { l with text := "" }
  string text := text

/-- No blanks stand around a text but spaces and tabs. -/
def Spaced (s : List Char) : Prop := ∃ a b, Gap a ∧ Gap b ∧ s = a ++ (strip s ++ b)

/-- A compound assignment. -/
def compound (name operator expr : String) : String := name ++ " " ++ operator ++ "= " ++ expr

/-- The assignment that a compound assignment stands for. -/
def expanded (name operator expr : String) : String :=
  name ++ " = " ++ name ++ " " ++ operator ++ " (" ++ expr ++ ")"

theorem isBlank_of_isLineBreak {c : Char} (h : isLineBreak c = true) : isBlank c = true := by
  simp only [isLineBreak, Bool.or_eq_true, Bool.and_eq_true, beq_iff_eq, decide_eq_true_eq] at h
  simp only [isBlank, Bool.or_eq_true, Bool.and_eq_true, beq_iff_eq, decide_eq_true_eq]
  omega

theorem Unbroken.append {s t : List Char} (hs : Unbroken s) (ht : Unbroken t) : Unbroken (s ++ t) :=
  List.forall_mem_append.2 ⟨hs, ht⟩

theorem IsName.unbroken (h : IsName name) : Unbroken name := by
  intro c hc
  cases hbreak : isLineBreak c with
  | false => rfl
  | true => exact Bool.noConfusion ((h.not_isBlank c hc).symm.trans (isBlank_of_isLineBreak hbreak))

/-- The arithmetic operators of the default table. -/
theorem exists_binaryOp {o : Symbols.Operator} (h : o ∈ standardSymbols.operatorsOf .arithmetic) :
    ∃ op : BinaryOp, op.family = .arithmetic ∧ o.symbol = String.ofList op.symbol ∧
      o.name = .text op.key ∧ op.symbol ∈ Rule.arithmeticSymbols standardSymbols := by
  have hall : standardSymbols.operatorsOf .arithmetic =
      [BinaryOp.plus, .subtract, .multiply, .divide, .module].map fun op =>
        ⟨String.ofList op.symbol, .arithmetic, .text op.key⟩ := by decide
  rw [hall] at h
  obtain ⟨op, hop, rfl⟩ := List.mem_map.1 h
  refine ⟨op, ?_, rfl, rfl, ?_⟩ <;> revert hop <;> cases op <;> decide

/-- A term that is an expression on one line is the same expression on every other line. -/
theorem Term.exists_lower {β : Blur} {s : Symbols} {yes : String} {t : Term} {l l' : SourceLine}
    (hline : β.line l = β.line l') (h : t.lower s yes l = .ok y) :
    ∃ y', t.lower s yes l' = .ok y' ∧ y.blur β = y'.blur β := by
  have hlike := @Term.lower_like β s yes l l' hline t t (.refl t)
  rw [h] at hlike
  generalize t.lower s yes l' = z at hlike
  cases hlike with
  | ok hblur => exact ⟨_, rfl, hblur⟩

section Operand

variable {name a b u : List Char} {op : BinaryOp} {t : Term}

/-- The text of an operation on a name and an expression in parentheses. -/
def operating (name operator a u b : List Char) : List Char :=
  name ++ ([' '] ++ (operator ++ ([' '] ++ '(' :: (a ++ (u ++ (b ++ [')']))))))

theorem passage_operating (hname : IsName name) (ha : Gap a) (hb : Gap b) (h : Passage 6 t u) :
    Passage 6 (.binary op.family op.symbol (.reference name) t)
      (operating name op.symbol a u b) := by
  have hspace : Gap [' '] := List.forall_mem_singleton.2 (.inl rfl)
  refine ((passage_reference hname).loosen_le (Nat.zero_le _)).operation op hspace hspace
    ((h.group ha hb).loosen_le (Nat.zero_le _)) |>.loosen_le ?_
  cases op <;> decide

variable {line : SourceLine}

/-- A passage is the expression of its term. -/
theorem readExpression_of_passage (h : Passage 6 t u)
    (hlower : t.lower standardSymbols "true" line = .ok y) :
    readExpression standardSymbols line u = .ok y := by
  rw [readExpression_of_reads h.reads h.solid.strip_eq h.solid.ne_nil, hlower]
  rfl

/-- **A name, an operator and an expression in parentheses are read as the operation on them**,
whatever operators the expression has. -/
theorem assignment_expanded (hfamily : op.family = .arithmetic) (hname : IsName name) (ha : Gap a)
    (hb : Gap b) (h : Passage 6 t u) (hlower : t.lower standardSymbols "true" line = .ok y) :
    Builder.assignment standardSymbols line name (captured []) (operating name op.symbol a u b) =
      .ok (.assignment line (String.ofList name) (.operation line .arithmetic (some (.text op.key))
        (.reference line (String.ofList name)) y)) := by
  have hwhole : Term.lower standardSymbols "true" line
      (.binary op.family op.symbol (.reference name) t) = .ok (.operation line op.family
        (some (.text op.key)) (.reference line (String.ofList name)) y) := by
    rw [Term.lower, Term.lower, hlower, op.familyOperator]
    rfl
  rw [Builder.assignment, readExpression_of_passage (passage_operating hname ha hb h) hwhole, hfamily]
  rfl

/-- The statement of a compound assignment. -/
theorem assignment_compound (hfamily : op.family = .arithmetic) (h : Passage 6 t u)
    (hlower : t.lower standardSymbols "true" line = .ok y) :
    Builder.assignment standardSymbols line name (captured op.symbol) u =
      .ok (.assignment line (String.ofList name) (.operation line .arithmetic (some (.text op.key))
        (.reference line (String.ofList name)) y)) := by
  have hkey := op.familyOperator
  rw [hfamily] at hkey
  rw [Builder.assignment, readExpression_of_passage h hlower, ← hkey]
  cases op <;> rfl

end Operand

/-- **A compound assignment is its expansion.**  Take a variable, an arithmetic operator and an
expression on one line that has no blanks but spaces and tabs around it.  The compound assignment
and the assignment of the operation on the variable and the expression in parentheses are both
scripts, which are the same up to the texts of their lines: the variable is assigned the operation on
its value and the expression. -/
theorem compound_means_expanded {τ : Type} (load : Loader τ) (base origin : Option String) (t : τ)
    {n e : String} {o : Symbols.Operator} {line : SourceLine} {x : Expr} (hn : IsVariable n.toList)
    (ho : o ∈ standardSymbols.operatorsOf .arithmetic)
    (he : readExpression standardSymbols line e.toList = .ok x) (hline : Unbroken e.toList)
    (hspaced : Spaced e.toList) :
    ∃ script script' : Script,
      (parse standardSymbols load base origin (compound n o.symbol e) t).1 = .ok script ∧
      (parse standardSymbols load base origin (expanded n o.symbol e) t).1 = .ok script' ∧
      script.blur textless = script'.blur textless ∧
      ∃ y, readExpression standardSymbols script.line e.toList = .ok y ∧
        script.body = [.assignment script.line n (.operation script.line .arithmetic (some o.name)
          (.reference script.line n) y)] := by
  obtain ⟨op, hfamily, hsymbol, hkey, hop⟩ := exists_binaryOp ho
  obtain ⟨a, b, ha, hb, heq⟩ := hspaced
  obtain ⟨term, hread, hlower⟩ := read_of_readExpression he
  have hpassage := passage_of_read hread
  have hlinen := hn.isName.unbroken
  have hlineo : Unbroken o.symbol.toList := by
    rw [hsymbol, String.toList_ofList]
    cases op <;> decide
  have hline₁ : Unbroken (compound n o.symbol e).toList := by
    simp only [compound, String.toList_append]
    exact (((hlinen.append (by decide)).append hlineo).append (by decide)).append hline
  have hline₂ : Unbroken (expanded n o.symbol e).toList := by
    simp only [expanded, String.toList_append]
    exact ((((((hlinen.append (by decide)).append hlinen).append (by decide)).append hlineo).append
      (by decide)).append hline).append (by decide)
  generalize hstrip : strip e.toList = u at heq hpassage
  have htext₁ : (compound n o.symbol e).toList =
      assigning n.toList op.symbol (' ' :: a) u ++ b := by
    simp [compound, assigning, hsymbol, heq]
  have htext₂ : (expanded n o.symbol e).toList =
      assigning n.toList [] [' '] (operating n.toList op.symbol a u b) ++ [] := by
    simp [expanded, assigning, operating, hsymbol, heq]
  -- the expression is the same on the lines of both texts
  have hlineless : lineless.line line = lineless.line ⟨1, compound n o.symbol e, origin⟩ := rfl
  have htextless : textless.line ⟨1, compound n o.symbol e, origin⟩ =
      textless.line ⟨1, expanded n o.symbol e, origin⟩ := rfl
  obtain ⟨y, hy, -⟩ := Term.exists_lower hlineless hlower
  obtain ⟨y', hy', hblur⟩ := Term.exists_lower htextless hy
  have hparse₁ := parse_assigning load base origin t htext₁ hline₁ hn (.inr hop)
    (List.forall_mem_cons.2 ⟨rfl, ha.blanks⟩) (List.cons_ne_nil _ _) hpassage hb.blanks
    (assignment_compound hfamily hpassage hy)
  have hparse₂ := parse_assigning load base origin t htext₂ hline₂ hn (.inl rfl)
    (List.forall_mem_singleton.2 rfl) (List.cons_ne_nil _ _)
    (passage_operating hn.isName ha hb hpassage) (fun _ h => absurd h List.not_mem_nil)
    (assignment_expanded hfamily hn.isName ha hb hpassage hy')
  refine ⟨_, _, hparse₁, hparse₂, ?_, y, ?_, ?_⟩
  · simp [Script.blur, blurBody, Statement.blur, Expr.blur, htextless, hblur]
  · have hwhole := readExpression_of_passage hpassage hy
    simpa only [readExpression, hstrip, hpassage.solid.strip_eq] using hwhole
  · simp [hkey]

/-- An operand with a sign, operators that bind less than the one in front of it, and borders in its
strings. -/
theorem compound_means_expanded_mixed :
    ∃ script script' : Script,
      (parse standardSymbols shelf none none "root.x -= -y = \"a;b@\" | f(1, 'c')" ()).1 =
        .ok script ∧
      (parse standardSymbols shelf none none
        "root.x = root.x - (-y = \"a;b@\" | f(1, 'c'))" ()).1 = .ok script' ∧
      script.blur textless = script'.blur textless := by
  have hname : IsVariable "root.x".toList :=
    ⟨['x'], by decide, by decide, by decide, .inr rfl⟩
  have hspaced : Spaced "-y = \"a;b@\" | f(1, 'c')".toList := ⟨[], [], .nil, .nil, by decide⟩
  have hoperator :
      ⟨"-", .arithmetic, .text "subtract"⟩ ∈ standardSymbols.operatorsOf .arithmetic := by
    decide
  have hread : ∃ x, readExpression standardSymbols ⟨1, "", none⟩
      "-y = \"a;b@\" | f(1, 'c')".toList = .ok x := ⟨_, rfl⟩
  obtain ⟨x, hread⟩ := hread
  obtain ⟨script, script', h, h', hblur, -⟩ := compound_means_expanded shelf none none () hname
    hoperator hread (by decide) hspaced
  exact ⟨script, script', h, h', hblur⟩

/-- A wide blank is taken from around an expression, but is none inside of parentheses. -/
theorem expanded_rejects_wide_blank :
    Unbroken "\u00a0y".toList ∧
      readExpression standardSymbols ⟨1, "", none⟩ "\u00a0y".toList =
        .ok (.reference ⟨1, "", none⟩ "y") ∧
      ((parse standardSymbols shelf none none (compound "x" "+" "\u00a0y") ()).1.isOk = true) ∧
      ((parse standardSymbols shelf none none (expanded "x" "+" "\u00a0y") ()).1.isOk = false) := by
  refine ⟨by decide, rfl, by decide +kernel, by decide +kernel⟩

end LineScript
