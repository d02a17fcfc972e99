import LineScript.Proofs.Captures
import LineScript.Proofs.Reading
import LineScript.Proofs.TextReading

/-!
# What is read once is read anywhere

A reader takes the first alternative that fits and as much as it can, so what it takes from a text
depends on what follows.  But whatever it takes is a text in its own right: it is read as the same term
wherever an operator, a comma or a closing parenthesis follows it, and with as much fuel as it has
characters.  So an expression may be put into parentheses and into longer expressions.  Nor does it
have borders outside literals: a text that is an expression is undivided.

## Main definitions

* `Passage` — texts of a rank that are read as a term wherever they stand.
* `Finds` — readers that take passages.
* `FurtherArgs` — the texts of further arguments of a call.

## Main results

* `finds_readAt`, `finds_readTerm` — **the readers take passages.**
* `passage_of_read` — a text that is an expression is a passage.
* `undivided_of_readExpression` — so it is undivided.
-/

namespace LineScript

/-! ### Passages -/

/-- A text of a rank that is read as a term wherever it stands.  It has no blanks around it and no
borders in it, and does not begin as another operator might go on. -/
structure Passage (k : Nat) (t : Term) (u : List Char) : Prop where
  reads : Reads t u k
  solid : Solid u
  undivided : Undivided u
  ne_equal : u.head? ≠ some '='
  ne_minus : k = 0 → u.head? ≠ some '-'

/-- The reader takes passages of a rank. -/
def Finds (k : Nat) (r : Reader Term) : Prop :=
  ∀ ⦃s : List Char⦄ ⦃t : Term⦄ ⦃rest : List Char⦄, r s = some (t, rest) →
    ∃ u, s = u ++ rest ∧ Passage k t u

variable {s a v name text : List Char} {t : Term}

theorem Gap.undivided (ha : Gap a) : Undivided a := by
  refine Bare.undivided fun c hc => ?_
  rcases ha c hc with rfl | rfl <;> exact ⟨rfl, rfl⟩

/-- A single character that is neither a quote nor a border. -/
theorem Undivided.cons {c : Char} (h : Undivided s) (hquote : isQuote c = false)
    (hborder : isBorder c = false) : Undivided (c :: s) :=
  (bare_singleton hquote hborder).undivided.append h

/-- Parentheses around a text. -/
theorem Undivided.enclosed (h : Undivided s) : Undivided ('(' :: (s ++ [')'])) :=
  (h.append (bare_singleton rfl rfl).undivided).cons rfl rfl

namespace Passage

variable {k : Nat} {t : Term} {u : List Char}

/-- A passage is one of the next rank. -/
theorem loosen (h : Passage k t u) : Passage (k + 1) t u :=
  ⟨h.reads.loosen h.solid.ne_nil h.ne_minus, h.solid, h.undivided, h.ne_equal,
    fun hk => absurd hk (Nat.succ_ne_zero k)⟩

theorem loosen_le {j : Nat} (h : Passage j t u) (hjk : j ≤ k) : Passage k t u := by
  induction hjk with
  | refl => exact h
  | step _ ih => exact ih.loosen

/-- Parentheses around a passage. -/
theorem group {b : List Char} (h : Passage 6 t u) (ha : Gap a) (hb : Gap b) :
    Passage 0 t ('(' :: (a ++ (u ++ (b ++ [')'])))) := by
  refine ⟨h.reads.group ha hb h.solid.exists_cons, ?_, ?_, by simp, by simp⟩
  · have hsolid := solid_between (c := '(') (d := ')') rfl rfl (a ++ (u ++ b))
    simpa only [List.append_assoc] using hsolid
  · have hundivided := (ha.undivided.append (h.undivided.append hb.undivided)).enclosed
    simpa only [List.append_assoc] using hundivided

/-- One more operator. -/
theorem operation {l r : Term} {b : List Char} (op : BinaryOp) (ha : Gap a) (hb : Gap b)
    (hl : Passage (op.rank + 1) l u) (hr : Passage op.rank r v) :
    Passage (op.rank + 1) (.binary op.family op.symbol l r)
    (u ++ (a ++ (op.symbol ++ (b ++ v)))) := by
  refine ⟨.operation op ha hb hl.reads hr.reads hr.solid.exists_cons hr.ne_equal, ?_, ?_, ?_, ?_⟩
  · have hsolid := hl.solid.append hr.solid (a ++ (op.symbol ++ b))
    simpa only [List.append_assoc] using hsolid
  · have hsymbol : Bare op.symbol := bare_standardGrammar _ (by cases op <;> decide)
    exact hl.undivided.append (ha.undivided.append (hsymbol.undivided.append
      (hb.undivided.append hr.undivided)))
  · rw [List.head?_append_of_ne_nil _ hl.solid.ne_nil]
    exact hl.ne_equal
  · exact fun hk => absurd hk (Nat.succ_ne_zero _)

/-- A change of sign. -/
theorem negation (h : Passage 1 t u) (ha : Gap a) : Passage 1 (.negation t) ('-' :: (a ++ u)) := by
  refine ⟨h.reads.negation ha h.solid.exists_cons, ?_, ?_, by simp, fun hk => absurd hk (by decide)⟩
  · exact (solid_of_forall (List.cons_ne_nil '-' []) (by simp [isBlank])).append h.solid a
  · exact (ha.undivided.append h.undivided).cons rfl rfl

end Passage

/-- An alternative gives what it gives itself, or what the next one gives if it gives nothing. -/
theorem cases_of_orElse {α : Type} {x : Option α} {f : Unit → Option α} {a : α}
    (h : x.orElse f = some a) : x = some a ∨ x = none ∧ f () = some a := by
  cases x with
  | none => exact .inr ⟨rfl, h⟩
  | some b => exact .inl h

/-! ### Leaves -/

theorem exists_gap (s : List Char) : ∃ a, Gap a ∧ s = a ++ skipBlanks s := by
  refine ⟨s.takeWhile fun c => c == ' ' || c == '\t', fun c hc => ?_, ?_⟩
  · simpa using List.mem_takeWhile_imp hc
  · rw [skipBlanks, List.takeWhile_append_dropWhile]

variable {rest : List Char}

theorem span_spec {p : Char → Bool} (h : s.span p = (a, rest)) :
    s = a ++ rest ∧ (∀ c ∈ a, p c = true) ∧ ∀ c ∈ rest.head?, p c = false := by
  rw [List.span_eq_takeWhile_dropWhile] at h
  cases h
  refine ⟨List.takeWhile_append_dropWhile.symm, fun c hc => List.mem_takeWhile_imp hc, fun c hc => ?_⟩
  have hfirst := List.head?_dropWhile_not p s
  rw [hc] at hfirst
  simpa using hfirst

theorem passage_number {u : List Char} (hblank : ∀ c ∈ u, isBlank c = false) (hbare : Bare u)
    (hhead : ∃ c s, u = c :: s ∧ isDigit c = true)
    (h : ∀ rest, Follows 0 rest → readNumber (u ++ rest) = some (t, rest)) : Passage 0 t u := by
  refine ⟨.number hhead h, ?_, hbare.undivided, ?_, fun _ => ?_⟩ <;> obtain ⟨c, s, rfl, hc⟩ := hhead
  · exact solid_of_forall (List.cons_ne_nil c s) hblank
  · exact ne_of_isDigit (by decide) hc
  · exact ne_of_isDigit (by decide) hc

theorem finds_readNumber : Finds 0 readNumber := by
  have hsolid {u : List Char} (hu : Digits u) : ∀ c ∈ u, isBlank c = false := fun c hc =>
    not_isBlank_of_isDigit (hu.digit c hc)
  have hbare {u : List Char} (hu : Digits u) : Bare u := fun c hc => bare_of_isDigit (hu.digit c hc)
  have hhead {u v : List Char} (hu : Digits u) : ∃ c s, u ++ v = c :: s ∧ isDigit c = true := by
    obtain ⟨c, s, rfl⟩ := List.exists_cons_of_ne_nil hu.ne_nil
    exact ⟨c, s ++ v, rfl, hu.digit c List.mem_cons_self⟩
  have hwhole {u : List Char} (hu : Digits u) : Passage 0 (.number u) u := by
    refine passage_number (hsolid hu) (hbare hu) ?_ fun rest hrest => readNumber_whole hu hrest
    simpa using hhead (v := []) hu
  intro s t rest h
  unfold readNumber at h
  split at h
  next => cases h
  next whole rest₁ hne hspan =>
    obtain ⟨rfl, hdigits, -⟩ := span_spec hspan
    have hu : Digits whole := ⟨hne, hdigits⟩
    split at h
    next tail =>
      split at h
      next => cases h; exact ⟨whole, rfl, hwhole hu⟩
      next fraction rest₂ hne₂ hspan₂ =>
        cases h
        obtain ⟨rfl, hdigits₂, -⟩ := span_spec hspan₂
        have hf : Digits fraction := ⟨hne₂, hdigits₂⟩
        have hpoint : Bare ('.' :: fraction) := List.forall_mem_cons.2 ⟨⟨rfl, rfl⟩, hbare hf⟩
        refine ⟨whole ++ '.' :: fraction, by simp, passage_number ?_
          (List.forall_mem_append.2 ⟨hbare hu, hpoint⟩) (hhead hu) ?_⟩
        · intro c hc
          rcases List.mem_append.1 hc with hc | hc
          · exact hsolid hu c hc
          · rcases List.mem_cons.1 hc with rfl | hc
            · rfl
            · exact hsolid hf c hc
        · intro rest hrest
          rw [List.append_assoc, List.cons_append]
          exact readNumber_decimal hu hf hrest
    next => cases h; exact ⟨whole, rfl, hwhole hu⟩

/-- A string in quotes of either kind. -/
theorem passage_string {q : Char} (hq : isQuote q = true) {body : List Char}
    (h : ∀ rest, readString q (body ++ q :: rest) = some (body, rest))
    (hundivided : Undivided (q :: (body ++ [q]))) :
    Passage 0 (.string body) (q :: (body ++ [q])) := by
  have hblank : isBlank q = false := by
    rcases eq_or_eq_of_isQuote hq with rfl | rfl <;> rfl
  refine ⟨.string (eq_or_eq_of_isQuote hq) body h, solid_between hblank hblank body, hundivided, ?_,
    fun _ => ?_⟩
  all_goals rcases eq_or_eq_of_isQuote hq with rfl | rfl <;> simp

theorem finds_readStringTerm : Finds 0 readStringTerm := by
  intro s t rest h
  obtain ⟨q, body, hq, rfl, rfl, hbody⟩ := exists_of_readStringTerm h
  have hslash := ne_backslash_of_isQuote hq
  refine ⟨q :: (body ++ [q]), by simp, passage_string hq (fun _ => ?_) ?_⟩
  · exact (readString_eq_some_iff hslash).2 ⟨rfl, hbody⟩
  · exact undivided_literal hq hbody.literalBody

theorem passage_null : Passage 0 .null ['$'] :=
  ⟨.null, solid_of_forall (List.cons_ne_nil _ _) (by simp [isBlank]),
    (bare_standardGrammar _ (by decide)).undivided, by simp, by simp⟩

theorem passage_boolean {word : List Char} (hword : word ∈ standardGrammar.booleans) :
    Passage 0 (.boolean word) word := by
  have hbare : Bare word := bare_standardGrammar word (by simp [Grammar.symbols, hword])
  have hsolid : ∀ c ∈ word, isBlank c = false := by
    have hall : (standardGrammar.booleans.all fun w => w.all fun c => !isBlank c) = true := by decide
    intro c hc
    simpa using List.all_eq_true.1 (List.all_eq_true.1 hall word hword) c hc
  have hne : word ≠ [] := by
    rcases mem_booleans hword with rfl | rfl <;> exact List.cons_ne_nil _ _
  refine ⟨.boolean hword, solid_of_forall hne hsolid, hbare.undivided, ?_, fun _ => ?_⟩ <;>
    rcases mem_booleans hword with rfl | rfl <;> decide

/-- A word is one of the words, and stands at the front of the text. -/
theorem readWord_spec {words : List (List Char)} {w rest : List Char}
    (h : readWord words s = some (w, rest)) : w ∈ words ∧ s = w ++ rest := by
  obtain ⟨w', hw', h⟩ := List.exists_of_findSome?_eq_some h
  split at h
  next hmark => cases h; exact ⟨hw', afterMark?_eq_some.1 hmark⟩
  next hmark =>
    split at h
    · cases h
    · cases h
      exact ⟨hw', afterMark?_eq_some.1 hmark⟩
  next => cases h

/-! ### Names -/

theorem readIdentifier_spec (h : readIdentifier s = some (name, rest)) :
    s = name ++ rest ∧ isIdentifier name = true ∧ ∀ c ∈ rest.head?, isIdentChar c = false := by
  cases s with
  | nil => cases h
  | cons c s =>
    rw [readIdentifier] at h
    split at h
    next hc =>
      cases hspan : s.span isIdentChar with
      | mk tail rest' =>
        rw [hspan] at h
        cases h
        obtain ⟨rfl, hall, hrest⟩ := span_spec hspan
        refine ⟨rfl, ?_, hrest⟩
        rw [isIdentifier, hc, List.all_eq_true.2 hall]
        rfl
    next => cases h

theorem readMembers_spec : ∀ (n : Nat) (s : List Char), ∃ members : List (List Char),
    (∀ m ∈ members, isIdentifier m = true) ∧ (readMembers n s).1 = members.flatMap ('.' :: ·) ∧
      s = (readMembers n s).1 ++ (readMembers n s).2
  | 0, s => ⟨[], by simp, rfl, rfl⟩
  | n + 1, s => by
    unfold readMembers
    split
    next rest =>
      split
      next name rest' hread =>
        obtain ⟨rfl, hname, -⟩ := readIdentifier_spec hread
        obtain ⟨members, hall, hmore, hrest⟩ := readMembers_spec n rest'
        refine ⟨name :: members, List.forall_mem_cons.2 ⟨hname, hall⟩, ?_, ?_⟩
        · simp [hmore]
        · simpa using hrest
      next => exact ⟨[], by simp, rfl, rfl⟩
    next => exact ⟨[], by simp, rfl, rfl⟩

/-- A dotted identifier is one and its members. -/
theorem readDotted_spec (h : readDotted s = some (name, rest)) :
    ∃ (first : List Char) (members : List (List Char)) (rest₁ : List Char),
      isIdentifier first = true ∧ (∀ m ∈ members, isIdentifier m = true) ∧
      name = first ++ members.flatMap ('.' :: ·) ∧ s = name ++ rest ∧
      readIdentifier s = some (first, rest₁) := by
  obtain ⟨⟨first, rest₁⟩, hread, hmap⟩ := Option.map_eq_some_iff.1 h
  obtain ⟨rfl, hfirst, -⟩ := readIdentifier_spec hread
  obtain ⟨members, hall, hmore, hrest⟩ := readMembers_spec rest₁.length rest₁
  cases hmap
  refine ⟨first, members, rest₁, hfirst, hall, by rw [hmore], ?_, hread⟩
  rw [List.append_assoc, ← hrest]

/-- An identifier that is a word for a truth value is read as the word. -/
theorem readWord_of_identifier {word rest : List Char} (hword : word ∈ standardGrammar.booleans)
    (h : readIdentifier s = some (word, rest)) : readWord standardGrammar.booleans s ≠ none := by
  obtain ⟨rfl, -, hrest⟩ := readIdentifier_spec h
  have hmark : Symbols.afterMark? word (word ++ rest) = some rest := afterMark?_eq_some.2 rfl
  intro hnone
  have hword := List.findSome?_eq_none_iff.1 hnone word hword
  rw [hmark] at hword
  cases rest with
  | nil => cases hword
  | cons c r => simp [hrest c rfl] at hword

/-- What is read as a name is one, unless a truth value is read. -/
theorem readName_spec (h : readName standardGrammar.globalMark s = some (name, rest))
    (hword : readWord standardGrammar.booleans s = none) : s = name ++ rest ∧ IsName name := by
  have hdotted (h : readDotted s = some (name, rest)) : s = name ++ rest ∧ IsName name := by
    obtain ⟨first, members, rest₁, hfirst, hmembers, rfl, hs, hread⟩ := readDotted_spec h
    refine ⟨hs, .dotted hfirst ?_ ?_ hmembers⟩
    all_goals
      rintro rfl
      exact readWord_of_identifier (by decide) hread hword
  unfold readName at h
  split at h
  next tail hmark =>
    split at h
    next name' rest' hread =>
      cases h
      obtain ⟨first, members, rest₁, hfirst, hmembers, rfl, rfl, -⟩ := readDotted_spec hread
      refine ⟨(afterMark?_eq_some.1 hmark).trans (List.append_assoc ..).symm, ?_⟩
      -- the mark is the identifier `root` with a point behind it
      have hroot : IsName (['r', 'o', 'o', 't'] ++ (first :: members).flatMap ('.' :: ·)) :=
        .dotted (by decide) (by decide) (by decide) (List.forall_mem_cons.2 ⟨hfirst, hmembers⟩)
      exact hroot
    next => exact hdotted h
  next => exact hdotted h

theorem solid_name (h : IsName name) : Solid name := by
  obtain ⟨c, r, rfl, -⟩ := h.head
  exact solid_of_forall (List.cons_ne_nil c r) h.not_isBlank

theorem head_name (h : IsName name) {d : Char} (hd : isIdentStart d = false) :
    name.head? ≠ some d := by
  obtain ⟨c, r, rfl, hc⟩ := h.head
  rintro ⟨rfl⟩
  rw [hc] at hd
  cases hd

theorem undivided_name (h : IsName name) : Undivided name := by
  refine Bare.undivided fun c hc => ?_
  rcases h.isIdentChar_or_point hc with hc | rfl
  · exact bare_of_isIdentChar hc
  · exact ⟨rfl, rfl⟩

theorem passage_reference (h : IsName name) : Passage 0 (.reference name) name :=
  ⟨.reference h, solid_name h, undivided_name h, head_name h (by decide),
    fun _ => head_name h (by decide)⟩

/-! ### Arguments -/

/-- The text of further arguments, each behind a comma. -/
inductive FurtherArgs : List Term → List Char → Prop where
  | nil : FurtherArgs [] []
  | cons {t : Term} {ts : List Term} {a b u v : List Char} : Gap a → Gap b → Passage 6 t u →
      FurtherArgs ts v → FurtherArgs (t :: ts) (a ++ ',' :: (b ++ (u ++ v)))

/-- A reader of further arguments takes the text of them. -/
theorem furtherArgs_of_readMoreArgs {inner : Reader Term} (hinner : Finds 6 inner) :
    ∀ (n : Nat) (s : List Char), ∃ v, s = v ++ (readMoreArgs inner n s).2 ∧
      FurtherArgs (readMoreArgs inner n s).1 v
  | 0, s => ⟨[], rfl, .nil⟩
  | n + 1, s => by
    unfold readMoreArgs
    split
    next rest hcomma =>
      split
      next t rest' hread =>
        obtain ⟨a, ha, hs⟩ := exists_gap s
        obtain ⟨b, hb, hrest⟩ := exists_gap rest
        obtain ⟨u, hu, hpassage⟩ := hinner hread
        obtain ⟨v, hv, hmore⟩ := furtherArgs_of_readMoreArgs hinner n rest'
        refine ⟨a ++ ',' :: (b ++ (u ++ v)), ?_, .cons ha hb hpassage hmore⟩
        rw [hs, hcomma, hrest, hu]
        simpa using hv
      next => exact ⟨[], rfl, .nil⟩
    next => exact ⟨[], rfl, .nil⟩

namespace FurtherArgs

variable {ts : List Term}

theorem follows (h : FurtherArgs ts v) {c : List Char} (hc : Gap c) (rest : List Char) :
    Follows 6 (v ++ (c ++ ')' :: rest)) := by
  cases h with
  | nil =>
    rw [List.nil_append]
    exact (Follows.close rest).gap hc
  | cons ha _ _ _ =>
    simp only [List.append_assoc, List.cons_append]
    exact (Follows.comma _).gap ha

theorem undivided (h : FurtherArgs ts v) : Undivided v := by
  induction h with
  | nil => exact Gap.nil.undivided
  | cons ha hb hpassage _ ih =>
    exact ha.undivided.append ((hb.undivided.append (hpassage.undivided.append ih)).cons rfl rfl)

/-- Further arguments are read before every closing parenthesis. -/
theorem readMoreArgs_eq (h : FurtherArgs ts v) {c : List Char} (hc : Gap c) (rest : List Char) :
    ∀ {n fuel : Nat}, v.length ≤ n → v.length ≤ fuel →
      readMoreArgs (readTerm standardGrammar (n + 1)) fuel (v ++ (c ++ ')' :: rest)) =
        (ts, c ++ ')' :: rest) := by
  induction h with
  | nil =>
    intro n fuel _ _
    cases fuel with
    | zero => rfl
    | succ fuel =>
      rw [List.nil_append, readMoreArgs, skipBlanks_close hc]
      rfl
  | @cons t ts a b u v ha hb hpassage hmore ih =>
    intro n fuel hn hfuel
    simp only [List.length_append, List.length_cons] at hn hfuel
    obtain ⟨fuel, rfl⟩ : ∃ f, fuel = f + 1 := ⟨fuel - 1, by omega⟩
    have hcomma : skipBlanks (a ++ ',' :: (b ++ (u ++ (v ++ (c ++ ')' :: rest))))) =
        ',' :: (b ++ (u ++ (v ++ (c ++ ')' :: rest)))) := by
      rw [skipBlanks_gap ha, skipBlanks_of_solid (by decide)]
    have hfirst : readTerm standardGrammar (n + 1) (u ++ (v ++ (c ++ ')' :: rest))) =
        some (t, v ++ (c ++ ')' :: rest)) := by
      rw [readTerm_succ]
      exact hpassage.reads.readAt (by omega) (hmore.follows hc rest)
    simp only [List.append_assoc, List.cons_append, readMoreArgs, hcomma,
      skipBlanks_text hb hpassage.solid.exists_cons, hfirst, @ih n fuel (by omega) (by omega)]

/-- Arguments are read before every closing parenthesis. -/
theorem readArgs_eq {b u c : List Char} (hb : Gap b) (ht : Passage 6 t u) (h : FurtherArgs ts v)
    (hc : Gap c) {n : Nat} (hn : (b ++ (u ++ (v ++ c))).length ≤ n) (rest : List Char) :
    readArgs (readTerm standardGrammar (n + 1)) (skipBlanks (b ++ (u ++ (v ++ c)) ++ ')' :: rest)) =
      (t :: ts, c ++ ')' :: rest) := by
  simp only [List.length_append] at hn
  have hfirst : readTerm standardGrammar (n + 1) (u ++ (v ++ (c ++ ')' :: rest))) =
      some (t, v ++ (c ++ ')' :: rest)) := by
    rw [readTerm_succ]
    exact ht.reads.readAt (by omega) (h.follows hc rest)
  have hfuel : v.length ≤ (v ++ (c ++ ')' :: rest)).length := by
    rw [List.length_append]
    omega
  simp only [List.append_assoc, skipBlanks_text hb ht.solid.exists_cons, readArgs, hfirst,
    h.readMoreArgs_eq hc rest (n := n) (by omega) hfuel]

end FurtherArgs

section Primary

variable {n : Nat} (hinner : Finds 6 (readTerm standardGrammar n))

include hinner

theorem finds_readGroup : Finds 0 (readGroup (readTerm standardGrammar n)) := by
  intro s t rest h
  unfold readGroup at h
  split at h
  next tail =>
    split at h
    next t' rest₁ hread =>
      split at h
      next rest₂ hclose =>
        cases h
        obtain ⟨a, ha, hs⟩ := exists_gap tail
        obtain ⟨b, hb, hrest⟩ := exists_gap rest₁
        obtain ⟨u, hu, hpassage⟩ := hinner hread
        refine ⟨_, ?_, hpassage.group ha hb⟩
        rw [hs, hu, hrest, hclose]
        simp
      next => cases h
    next => cases h
  next => cases h

/-- The arguments of a call are read wherever the call stands. -/
theorem readArgs_spec {tail : List Char} {args : List Term}
    (hargs : (readArgs (readTerm standardGrammar n) (skipBlanks s)).1 = args)
    (hclose : skipBlanks (readArgs (readTerm standardGrammar n) (skipBlanks s)).2 = ')' :: tail) :
    ∃ inside, s = inside ++ ')' :: tail ∧ Undivided inside ∧
      ∀ m rest, inside.length ≤ m → ∃ c, Gap c ∧
      readArgs (readTerm standardGrammar (m + 1)) (skipBlanks (inside ++ ')' :: rest)) =
        (args, c ++ ')' :: rest) := by
  obtain ⟨b, hb, hs⟩ := exists_gap s
  unfold readArgs at hargs hclose
  split at hargs
  next t rest₁ hread =>
    rw [hread] at hclose
    dsimp only at hargs hclose
    obtain ⟨u, hu, hpassage⟩ := hinner hread
    obtain ⟨v, hv, hmore⟩ := furtherArgs_of_readMoreArgs hinner rest₁.length rest₁
    obtain ⟨c, hc, hrest⟩ :=
      exists_gap (readMoreArgs (readTerm standardGrammar n) rest₁.length rest₁).2
    refine ⟨b ++ (u ++ (v ++ c)), ?_, hb.undivided.append (hpassage.undivided.append
      (hmore.undivided.append hc.undivided)), fun m rest hm => ⟨c, hc, ?_⟩⟩
    · rw [hs, hu, hv, hrest, hclose]
      simp
    · rw [hmore.readArgs_eq hb hpassage hc hm rest, ← hargs]
  next hnone =>
    -- there is no argument, so only blanks stand between the parentheses
    rw [hnone] at hclose
    subst hargs
    have hparen : skipBlanks s = ')' :: tail := by
      have hskip := skipBlanks_gap hb (skipBlanks s)
      rw [← hs] at hskip
      exact hskip.trans hclose
    refine ⟨b, by rw [hs, hparen], hb.undivided, fun m rest _ => ⟨[], .nil, ?_⟩⟩
    rw [skipBlanks_close hb, readArgs, readTerm_close]
    rfl

/-- A call is read as a passage, unless a truth value is read. -/
theorem readCall_spec
    (h : readCall standardGrammar.globalMark (readTerm standardGrammar n) s = some (t, rest))
    (hword : readWord standardGrammar.booleans s = none) : ∃ u, s = u ++ rest ∧ Passage 0 t u := by
  unfold readCall at h
  split at h
  next name rest₁ hread =>
    obtain ⟨rfl, hname⟩ := readName_spec hread hword
    split at h
    next rest₂ hopen =>
      dsimp only at h
      split at h
      next tail hclose =>
        cases h
        obtain ⟨a, ha, hrest₁⟩ := exists_gap rest₁
        obtain ⟨inside, hinside, hundivided, hargs⟩ := readArgs_spec hinner rfl hclose
        refine ⟨name ++ (a ++ '(' :: (inside ++ [')'])), ?_, .call hname ha hargs, ?_,
          (undivided_name hname).append (ha.undivided.append hundivided.enclosed), ?_, fun _ => ?_⟩
        · rw [hrest₁, hopen, hinside]
          simp
        · have hsolid := (solid_name hname).append (solid_of_forall (List.cons_ne_nil ')' [])
            (by simp [isBlank])) (a ++ '(' :: inside)
          simpa only [List.append_assoc, List.cons_append] using hsolid
        all_goals
          rw [List.head?_append_of_ne_nil _ (solid_name hname).ne_nil]
          exact head_name hname (by decide)
      next => cases h
    next => cases h
  next => cases h

theorem finds_readPrimary : Finds 0 (readPrimary standardGrammar (readTerm standardGrammar n)) := by
  intro s t rest h
  unfold readPrimary at h
  rcases cases_of_orElse h with h | ⟨-, h⟩
  · exact finds_readGroup hinner h
  rcases cases_of_orElse h with h | ⟨-, h⟩
  · exact finds_readNumber h
  rcases cases_of_orElse h with h | ⟨-, h⟩
  · exact finds_readStringTerm h
  rcases cases_of_orElse h with h | ⟨-, h⟩
  · obtain ⟨rest', hmark, hmap⟩ := Option.map_eq_some_iff.1 h
    cases hmap
    exact ⟨['$'], afterMark?_eq_some.1 hmark, passage_null⟩
  rcases cases_of_orElse h with h | ⟨hword, h⟩
  · obtain ⟨⟨word, rest'⟩, hread, hmap⟩ := Option.map_eq_some_iff.1 h
    cases hmap
    obtain ⟨hmem, rfl⟩ := readWord_spec hread
    exact ⟨word, rfl, passage_boolean hmem⟩
  -- no truth value stands here, so a name that is read is none of their words
  have hword := Option.map_eq_none_iff.1 hword
  rcases cases_of_orElse h with h | ⟨-, h⟩
  · exact readCall_spec hinner h hword
  · obtain ⟨⟨name, rest'⟩, hread, hmap⟩ := Option.map_eq_some_iff.1 h
    cases hmap
    obtain ⟨rfl, hname⟩ := readName_spec hread hword
    exact ⟨name, rfl, passage_reference hname⟩

/-! ### Operators -/

theorem finds_readUnary : ∀ fuel : Nat,
    Finds 1 (readUnary standardGrammar (readTerm standardGrammar n) fuel)
  | 0 => fun s t rest h => by
    obtain ⟨u, hs, hpassage⟩ := finds_readPrimary hinner h
    exact ⟨u, hs, hpassage.loosen⟩
  | fuel + 1 => fun s t rest h => by
    have hprimary (h : readPrimary standardGrammar (readTerm standardGrammar n) s = some (t, rest)) :
        ∃ u, s = u ++ rest ∧ Passage 1 t u := by
      obtain ⟨u, hs, hpassage⟩ := finds_readPrimary hinner h
      exact ⟨u, hs, hpassage.loosen⟩
    rw [readUnary] at h
    split at h
    next tail hmark =>
      split at h
      next t' rest' hread =>
        cases h
        obtain ⟨a, ha, htail⟩ := exists_gap tail
        obtain ⟨u, hu, hpassage⟩ := finds_readUnary fuel hread
        refine ⟨'-' :: (a ++ u), ?_, hpassage.negation ha⟩
        rw [afterMark?_eq_some.1 hmark, htail, hu]
        simp [standardGrammar]
      next => exact hprimary h
    next => exact hprimary h

omit hinner

/-- A chain goes on with the passage before it. -/
theorem passage_readChain {k : Nat} {operand : Reader Term} (hoperand : Finds k operand) :
    ∀ (fuel : Nat) {t : Term} {u : List Char} (s : List Char), Passage (k + 1) t u →
      ∃ v, s = v ++
          (readChain (familyAt (k + 1)) (standardGrammar.symbolsAt (k + 1)) operand fuel t s).2 ∧
        Passage (k + 1)
          (readChain (familyAt (k + 1)) (standardGrammar.symbolsAt (k + 1)) operand fuel t s).1
          (u ++ v)
  | 0, t, u, s, h => ⟨[], rfl, by rwa [List.append_nil]⟩
  | fuel + 1, t, u, s, h => by
    have hstop : ∃ v, s = v ++ s ∧ Passage (k + 1) t (u ++ v) := ⟨[], rfl, by rwa [List.append_nil]⟩
    unfold readChain
    split
    next symbol hsymbol =>
      obtain ⟨hmem, hfits⟩ := mem_of_longestAt hsymbol
      obtain ⟨op, hrank, rfl⟩ := exists_op_of_mem_symbolsAt hmem
      obtain rfl : op.rank = k := Nat.succ.inj hrank
      obtain ⟨tail, htail⟩ := List.isPrefixOf_iff_prefix.1 hfits
      split
      next right rest hright =>
        rw [← htail, List.drop_left] at hright
        obtain ⟨a, ha, hs⟩ := exists_gap s
        obtain ⟨b, hb, hrest⟩ := exists_gap tail
        obtain ⟨v, hv, hpassage⟩ := hoperand hright
        have hnext := h.operation op ha hb hpassage
        rw [← op.familyAt_rank] at hnext
        obtain ⟨w, hw, hchain⟩ := passage_readChain hoperand fuel rest hnext
        refine ⟨a ++ (op.symbol ++ (b ++ (v ++ w))), ?_, ?_⟩
        · nth_rewrite 1 [hs, ← htail, hrest, hv, hw]
          simp
        · simpa only [List.append_assoc] using hchain
      next => exact hstop
    next => exact hstop

theorem finds_readLevel {k : Nat} {operand : Reader Term} (hoperand : Finds k operand) :
    Finds (k + 1) (readLevel (familyAt (k + 1)) (standardGrammar.symbolsAt (k + 1)) operand) := by
  intro s t rest h
  obtain ⟨⟨t₁, rest₁⟩, hterm, hmap⟩ := Option.map_eq_some_iff.1 h
  obtain ⟨u, rfl, hpassage⟩ := hoperand hterm
  obtain ⟨v, hv, hchain⟩ := passage_readChain hoperand rest₁.length rest₁ hpassage.loosen
  dsimp only at hmap
  rw [hmap] at hv hchain
  exact ⟨u ++ v, by rw [List.append_assoc, ← hv], hchain⟩

include hinner

/-- The readers of all ranks take passages. -/
theorem finds_readAt : ∀ k : Nat, Finds k (readAt standardGrammar n k)
  | 0 => finds_readPrimary hinner
  | 1 => fun s _ _ h => finds_readUnary hinner s.length h
  | k + 2 => finds_readLevel (finds_readAt (k + 1))

end Primary

/-- **The reader of expressions takes passages**, whatever is nested in them. -/
theorem finds_readTerm : ∀ n : Nat, Finds 6 (readTerm standardGrammar n)
  | 0 => fun _ _ _ h => by cases h
  | n + 1 => by
    rw [readTerm_succ]
    exact finds_readAt (finds_readTerm n) 6

/-- A text that is read as a term wherever it stands is a passage. -/
theorem Reads.passage {k : Nat} {u : List Char} (h : Reads t u k) : Passage k t u := by
  have hread := h.readAt (Nat.le_refl u.length) .nil
  obtain ⟨v, hv, hpassage⟩ := finds_readAt (finds_readTerm u.length) k hread
  rw [List.append_nil, List.append_nil] at hv
  rwa [hv]

/-- **A text that is an expression is a passage:** it may stand in parentheses and in longer
expressions. -/
theorem passage_of_read (h : Term.read standardGrammar text = .ok t) : Passage 6 t text := by
  unfold Term.read at h
  split at h
  next => cases h
  next t' hread =>
    cases h
    obtain ⟨u, hu, hpassage⟩ := finds_readTerm _ hread
    rwa [hu, List.append_nil]
  next => cases h

/-- An expression is read as a term, which is the expression on any line. -/
theorem read_of_readExpression {line : SourceLine} {e : Expr}
    (h : readExpression standardSymbols line text = .ok e) :
    ∃ t, Term.read standardGrammar (strip text) = .ok t ∧
      t.lower standardSymbols "true" line = .ok e := by
  obtain ⟨words, t, hwords, hread, hlower⟩ := term_of_readExpression h
  cases hwords
  rw [grammar_standard] at hread
  exact ⟨t, hread, hlower⟩

/-- **A text that is an expression is undivided**, and not blank. -/
theorem undivided_of_readExpression {line : SourceLine} {e : Expr}
    (h : readExpression standardSymbols line text = .ok e) : Undivided text ∧ strip text ≠ [] := by
  obtain ⟨t, hread, -⟩ := read_of_readExpression h
  have hpassage := passage_of_read hread
  exact ⟨.of_strip hpassage.undivided, hpassage.solid.ne_nil⟩

end LineScript
