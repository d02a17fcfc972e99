import Mathlib.Data.List.Basic
import LineScript.Form
import LineScript.Proofs.Matching

/-!
# Expanding blocks on one line

A block on one line is expanded into parts, which are statements again.  Every part is
shorter than the block, also the head with the blank that is put before its mark, so the
expansion ends, and what it ends with are statements that are no blocks on one line.

## Main definitions

* `Symbols.Checked` — the symbols are those that a table names.
* `Expands` — the expansion without a bound on its depth ends, with these statements.

## Main results

* `Symbols.checked_of_ofTable` — what is accepted is what the table names.
* `Symbols.ne_empty_of_mem_marks` — the marks of a checked table are not empty.
* `length_lt_of_mem_parts` — the parts of a block on one line are shorter than the block.
* `classify_of_mem_expand` — the expansion leaves no block on one line.
* `expand_of_inline` — a block on one line stands for what its parts stand for.
* `expansion_ends` — **the expansion of blocks on one line ends**, whatever the marks are.
-/

namespace LineScript

/-! ### Marks of a checked table -/

/-- A result that comes of two steps comes of a result of the first one. -/
theorem exists_of_bind_eq_ok {ε α β : Type} {x : Except ε α} {f : α → Except ε β} {b : β}
    (h : x >>= f = .ok b) : ∃ a, x = .ok a ∧ f a = .ok b := by
  cases x with
  | error e => cases h
  | ok a => exact ⟨a, rfl, h⟩

/-- A result that was changed comes of a result. -/
theorem exists_of_map_eq_ok {ε α β : Type} {x : Except ε α} {f : α → β} {b : β}
    (h : x.map f = .ok b) : ∃ a, x = .ok a ∧ f a = b := by
  cases x with
  | error e => cases h
  | ok a => exact ⟨a, rfl, Except.ok.inj h⟩

variable {s : Symbols} {text : List Char} {c : Cursor}

namespace Symbols

/-- The marks that a table has to name. -/
def marks (s : Symbols) : List String :=
  [s.comment, s.separator, s.globalMark, s.null, s.importMark, s.returnMark, s.loop, s.function,
    s.conditional, s.otherwise, s.assign]

variable {t : Table}

theorem ne_empty_of_mark {key m : String} (h : mark t key = .ok m) : m ≠ "" := by
  unfold mark at h
  split at h
  · split at h
    · cases h
    · next hs =>
      cases h
      simpa using hs
  · cases h

/-- The symbols are those that a table names: its marks, its families of operators and its words for
true and false. -/
structure Checked (t : Table) (s : Symbols) : Prop where
  table : s.table = t
  comment : mark t "comment" = .ok s.comment
  separator : mark t "statement_separator" = .ok s.separator
  globalMark : mark t "global_marker" = .ok s.globalMark
  null : mark t "null" = .ok s.null
  importMark : mark t "import" = .ok s.importMark
  returnMark : mark t "return" = .ok s.returnMark
  loop : mark t "loop" = .ok s.loop
  function : mark t "function" = .ok s.function
  conditional : mark t "if" = .ok s.conditional
  otherwise : mark t "else" = .ok s.otherwise
  assign : mark t "assign" = .ok s.assign
  family : ∀ f, familyTable t f = .ok (s.family f)
  operators : checkOperators s.comparison s.logical s.arithmetic = .ok ()
  booleans : s.booleans = booleanWords t

theorem checked_of_ofTable (h : ofTable t = .ok s) : Checked t s := by
  unfold ofTable at h
  obtain ⟨comment, hcomment, h⟩ := exists_of_bind_eq_ok h
  obtain ⟨separator, hseparator, h⟩ := exists_of_bind_eq_ok h
  obtain ⟨globalMark, hglobalMark, h⟩ := exists_of_bind_eq_ok h
  obtain ⟨null, hnull, h⟩ := exists_of_bind_eq_ok h
  obtain ⟨importMark, himportMark, h⟩ := exists_of_bind_eq_ok h
  obtain ⟨returnMark, hreturnMark, h⟩ := exists_of_bind_eq_ok h
  obtain ⟨loop, hloop, h⟩ := exists_of_bind_eq_ok h
  obtain ⟨function, hfunction, h⟩ := exists_of_bind_eq_ok h
  obtain ⟨conditional, hconditional, h⟩ := exists_of_bind_eq_ok h
  obtain ⟨otherwise, hotherwise, h⟩ := exists_of_bind_eq_ok h
  obtain ⟨assign, hassign, h⟩ := exists_of_bind_eq_ok h
  obtain ⟨comparison, hcomparison, h⟩ := exists_of_bind_eq_ok h
  obtain ⟨logical, hlogical, h⟩ := exists_of_bind_eq_ok h
  obtain ⟨arithmetic, harithmetic, h⟩ := exists_of_bind_eq_ok h
  split at h
  · cases h
  obtain ⟨⟨⟩, hoperators, h⟩ := exists_of_bind_eq_ok h
  cases h
  refine ⟨rfl, hcomment, hseparator, hglobalMark, hnull, himportMark, hreturnMark, hloop, hfunction,
    hconditional, hotherwise, hassign, fun f => ?_, hoperators, rfl⟩
  cases f with
  | comparison => exact hcomparison
  | logical => exact hlogical
  | arithmetic => exact harithmetic

/-- The marks of a checked table are not empty. -/
theorem ne_empty_of_mem_marks (h : ofTable t = .ok s) : ∀ m ∈ s.marks, m ≠ "" := by
  have hchecked := checked_of_ofTable h
  intro m hm
  simp only [marks, List.mem_cons, List.not_mem_nil, or_false] at hm
  rcases hm with rfl | rfl | rfl | rfl | rfl | rfl | rfl | rfl | rfl | rfl | rfl
  · exact ne_empty_of_mark hchecked.comment
  · exact ne_empty_of_mark hchecked.separator
  · exact ne_empty_of_mark hchecked.globalMark
  · exact ne_empty_of_mark hchecked.null
  · exact ne_empty_of_mark hchecked.importMark
  · exact ne_empty_of_mark hchecked.returnMark
  · exact ne_empty_of_mark hchecked.loop
  · exact ne_empty_of_mark hchecked.function
  · exact ne_empty_of_mark hchecked.conditional
  · exact ne_empty_of_mark hchecked.otherwise
  · exact ne_empty_of_mark hchecked.assign

end Symbols

/-! ### Parts of a block on one line -/

theorem length_slice_le (s : List Char) (start stop : Nat) :
    (slice s start stop).length ≤ stop - start := by
  unfold slice
  exact List.length_take_le _ _

/-- Where the parts of a block between two marks stand in its text. -/
theorem inlinePattern_spans {head : String} {mark : List Char} (hmark : 0 < mark.length)
    (h : (Rule.inlinePattern head mark).Way ⟨0, text, []⟩ c) :
    ∃ a b d, c.groups = [("body", b, d), (head, 0, a)] ∧ a + mark.length ≤ b ∧ b < d ∧
      d + mark.length ≤ text.length := by
  obtain ⟨_, ⟨_, ⟨_, ⟨-, rfl⟩, _, ⟨-, rfl⟩, n₁, -, rfl⟩, rfl⟩, _, ⟨n₂, -, rfl⟩, _, ⟨-, rfl⟩, _,
    ⟨n₃, -, rfl⟩, _, ⟨_, ⟨_, ⟨-, rfl⟩, n₄, -, rfl⟩, rfl⟩, _, ⟨n₅, -, rfl⟩, _, ⟨hlast, rfl⟩, -,
    rfl⟩ := h
  have hfit := hlast.length_le
  simp only [Cursor.rest_advance, Cursor.rest_capture, List.length_drop] at hfit
  refine ⟨_, _, _, rfl, ?_, ?_, ?_⟩
  all_goals simp only [Cursor.position_advance, Cursor.position_capture]; omega

/-- Where the parts of a conditional on one line stand in its text: the last branch is there
or is not. -/
theorem inlineIfPattern_spans {cond other : List Char} (hcond : 0 < cond.length)
    (h : (Rule.inlineIfPattern cond other).Way ⟨0, text, []⟩ c) :
    ∃ a b d, a + cond.length ≤ b ∧ b < d ∧ d + cond.length ≤ text.length ∧
      (c.groups = [("then", b, d), ("condition", 0, a)] ∨
        ∃ e f, c.groups = [("otherwise", e, f), ("then", b, d), ("condition", 0, a)] ∧
          d + other.length ≤ e ∧ e < f ∧ f + cond.length ≤ text.length) := by
  obtain ⟨_, ⟨_, ⟨_, ⟨-, rfl⟩, _, ⟨-, rfl⟩, n₁, -, rfl⟩, rfl⟩, _, ⟨n₂, -, rfl⟩, _, ⟨-, rfl⟩, _,
    ⟨n₃, -, rfl⟩, _, ⟨_, ⟨_, ⟨-, rfl⟩, _, ⟨-, rfl⟩, n₄, -, rfl⟩, rfl⟩, _, ⟨n₅, -, rfl⟩, _, hother,
    _, ⟨hlast, rfl⟩, -, rfl⟩ := h
  have hfit := hlast.length_le
  rcases hother with ⟨_, ⟨-, rfl⟩, _, ⟨n₆, -, rfl⟩, _, ⟨_, ⟨_, ⟨-, rfl⟩, n₇, -, rfl⟩, rfl⟩, n₈, -,
    rfl⟩ | rfl
  · simp only [Cursor.rest_advance, Cursor.rest_capture, List.length_drop] at hfit
    refine ⟨_, _, _, ?_, ?_, ?_, Or.inr ⟨_, _, rfl, ?_, ?_, ?_⟩⟩
    all_goals simp only [Cursor.position_advance, Cursor.position_capture]; omega
  · simp only [Cursor.rest_advance, Cursor.rest_capture, List.length_drop] at hfit
    refine ⟨_, _, _, ?_, ?_, ?_, Or.inl rfl⟩
    all_goals simp only [Cursor.position_advance, Cursor.position_capture]; omega

/-- The match of a rule that ends at a cursor. -/
def Rule.matchAt (s : Symbols) (text : List Char) (r : Rule) (c : Cursor) : RuleMatch :=
  ⟨r, c.position, (r.pattern s).groupNames.map fun g =>
    (g, (c.groups.find? fun e => e.1 == g).map fun (_, start, stop) => slice text start stop)⟩

/-- The match behind a form that some rule gives. -/
theorem exists_matchAt_of_classify {form : Form} (hform : form ≠ .item .expression)
    (h : classify s text = form) :
    ∃ (r : Rule) (c : Cursor), (r.pattern s).Way ⟨0, mask text, []⟩ c ∧
      (r.matchAt s text c).form = form := by
  unfold classify at h
  split at h
  · next m hm =>
    obtain ⟨r, -, hr⟩ := List.exists_of_findSome?_eq_some hm
    unfold matchRule? at hr
    split at hr
    · obtain ⟨c, hc, rfl⟩ := Option.map_eq_some_iff.mp hr
      exact ⟨r, c, Pattern.way_of_match hc, h⟩
    · cases hr
  · exact absurd h.symm hform

/-- A part of a match is cut from the text where its group stands. -/
theorem part?_matchAt {r : Rule} {g : String} (hg : g ∈ (r.pattern s).groupNames) :
    (r.matchAt s text c).part? g =
      (c.groups.find? fun e => e.1 == g).map fun e => slice text e.2.1 e.2.2 := by
  unfold RuleMatch.part? Rule.matchAt
  simp only
  generalize (r.pattern s).groupNames = names at hg
  induction names with
  | nil => cases hg
  | cons n names ih =>
    rw [List.map_cons, List.lookup_cons]
    by_cases hn : g = n
    · subst hn
      simp
    · rw [beq_eq_false_iff_ne.mpr hn]
      exact ih ((List.mem_cons.mp hg).resolve_left hn)

theorem length_withMark (head : List Char) (mark : String) :
    (withMark head mark).length = head.length + 1 + mark.toList.length := by
  simp only [withMark, List.length_append, List.length_cons]
  omega

/-- The parts of a block between two marks are short: its head and its body leave room for
both marks. -/
theorem length_inline_parts {r : Rule} {head : String} {mark : List Char} (hmark : 0 < mark.length)
    (hhead : head ≠ "body") (hr : r.pattern s = Rule.inlinePattern head mark)
    (h : (r.pattern s).Way ⟨0, mask text, []⟩ c) :
    ((r.matchAt s text c).part head).length + 1 + mark.length < text.length ∧
      ((r.matchAt s text c).part "body").length < text.length ∧ mark.length < text.length := by
  have hbody : "body" ∈ (r.pattern s).groupNames := by
    rw [hr]
    show "body" ∈ [head, "body"]
    simp
  have hhead' : head ∈ (r.pattern s).groupNames := by
    rw [hr]
    show head ∈ [head, "body"]
    simp
  rw [hr] at h
  obtain ⟨a, b, d, hgroups, hab, hbd, hd⟩ := inlinePattern_spans hmark h
  rw [length_mask] at hd
  have h₁ : (r.matchAt s text c).part head = slice text 0 a := by
    change ((r.matchAt s text c).part? head).getD [] = _
    rw [part?_matchAt hhead', hgroups]
    simp [hhead.symm]
  have h₂ : (r.matchAt s text c).part "body" = slice text b d := by
    change ((r.matchAt s text c).part? "body").getD [] = _
    rw [part?_matchAt hbody, hgroups]
    simp
  have hl₁ := length_slice_le text 0 a
  have hl₂ := length_slice_le text b d
  rw [h₁, h₂]
  omega

/-- The parts of a conditional on one line are short, those of its last branch too. -/
theorem length_inlineIf_parts (hcond : 0 < s.conditional.toList.length)
    (h : (Rule.pattern s .inlineIf).Way ⟨0, mask text, []⟩ c) :
    ((Rule.inlineIf.matchAt s text c).part "condition").length + 1 + s.conditional.toList.length
        < text.length ∧
      ((Rule.inlineIf.matchAt s text c).part "then").length < text.length ∧
      s.conditional.toList.length < text.length ∧
      ∀ other, (Rule.inlineIf.matchAt s text c).part? "otherwise" = some other →
        other.length < text.length ∧ s.otherwise.toList.length < text.length := by
  have hnames : (Rule.pattern s .inlineIf).groupNames = ["condition", "then", "otherwise"] := rfl
  obtain ⟨a, b, d, hab, hbd, hd, hgroups⟩ := inlineIfPattern_spans hcond h
  simp only [length_mask] at hd hgroups
  have hl₁ := length_slice_le text 0 a
  have hl₂ := length_slice_le text b d
  have h₁ : (Rule.inlineIf.matchAt s text c).part "condition" = slice text 0 a := by
    change ((Rule.inlineIf.matchAt s text c).part? "condition").getD [] = _
    rw [part?_matchAt (by simp [hnames])]
    rcases hgroups with hgroups | ⟨e, f, hgroups, -⟩ <;> simp [hgroups]
  have h₂ : (Rule.inlineIf.matchAt s text c).part "then" = slice text b d := by
    change ((Rule.inlineIf.matchAt s text c).part? "then").getD [] = _
    rw [part?_matchAt (by simp [hnames])]
    rcases hgroups with hgroups | ⟨e, f, hgroups, -⟩ <;> simp [hgroups]
  rw [h₁, h₂]
  refine ⟨by omega, by omega, by omega, ?_⟩
  intro other hother
  rw [part?_matchAt (by simp [hnames])] at hother
  rcases hgroups with hgroups | ⟨e, f, hgroups, hde, hef, hf⟩
  · simp [hgroups] at hother
  · have hl₃ := length_slice_le text e f
    simp only [hgroups, beq_self_eq_true, List.find?_cons_of_pos, Option.map_some,
      Option.some.injEq] at hother
    rw [← hother]
    omega

section

variable {t : Table} {s : Symbols} (hs : Symbols.ofTable t = .ok s)

include hs

variable {block : OneLiner}

/-- **The parts of a block on one line are shorter than the block.**  The head grows by a
blank, but the block has a second mark and a body besides. -/
theorem length_lt_of_mem_parts (h : classify s text = .inline block) :
    ∀ part ∈ block.parts s, part.length < text.length := by
  have hpos : ∀ m ∈ s.marks, 0 < m.toList.length := by
    intro m hm
    have hne := Symbols.ne_empty_of_mem_marks hs m hm
    exact List.length_pos_iff.mpr (by simpa using hne)
  have hcond := hpos s.conditional (by simp [Symbols.marks])
  obtain ⟨r, c, hway, hform⟩ := exists_matchAt_of_classify (fun heq => by cases heq) h
  cases r with
  | inlineLoop | inlineFunction =>
    obtain ⟨h₁, h₂, h₃⟩ :=
      length_inline_parts (hpos _ (by simp [Symbols.marks])) (by decide) rfl hway
    cases hform
    simpa [OneLiner.parts, length_withMark] using ⟨h₁, h₂, h₃⟩
  | inlineIf =>
    obtain ⟨h₁, h₂, h₃, h₄⟩ := length_inlineIf_parts hcond hway
    cases hform
    cases hother : (Rule.inlineIf.matchAt s text c).part? "otherwise" with
    | none => simpa [OneLiner.parts, length_withMark] using ⟨h₁, h₂, h₃⟩
    | some other =>
      obtain ⟨h₄, h₅⟩ := h₄ other hother
      simpa [OneLiner.parts, length_withMark] using ⟨h₁, h₂, h₅, h₄, h₃⟩
  | _ => cases hform

/-- A block on one line has a part, which would be shorter than nothing. -/
theorem length_pos_of_inline (h : classify s text = .inline block) : 0 < text.length := by
  have hmem : ∃ part, part ∈ block.parts s := by
    rcases block with _ | _ | ⟨_, _, _ | _⟩ <;> exact ⟨_, List.mem_cons_self⟩
  obtain ⟨part, hpart⟩ := hmem
  have hlt := length_lt_of_mem_parts hs h part hpart
  omega

/-! ### The expansion -/

/-- Depths that are enough for the length of a text give the same expansion. -/
theorem expandUpTo_congr : ∀ (n m : Nat) (text : List Char), text.length ≤ n → text.length ≤ m →
      expandUpTo s n text = expandUpTo s m text := by
  intro n
  induction n with
  | zero =>
    intro m text hn hm
    cases hform : classify s text with
    | item i => cases m <;> simp only [expandUpTo, hform]
    | inline block =>
      have hpos := length_pos_of_inline hs hform
      omega
  | succ n ih =>
    intro m text hn hm
    cases hform : classify s text with
    | item i => cases m <;> simp only [expandUpTo, hform]
    | inline block =>
      have hpos := length_pos_of_inline hs hform
      obtain ⟨m, rfl⟩ : ∃ k, m = k + 1 := ⟨m - 1, by omega⟩
      simp only [expandUpTo, hform]
      refine List.flatMap_congr fun part hpart => ?_
      have hlt := length_lt_of_mem_parts hs hform part hpart
      have hle := length_strip_le part
      exact ih m (strip part) (by omega) (by omega)

/-- **A block on one line stands for what its parts stand for**, one after the other. -/
theorem expand_of_inline (h : classify s text = .inline block) :
    expand s text = (block.parts s).flatMap fun part => expand s (strip part) := by
  have hpos := length_pos_of_inline hs h
  obtain ⟨n, hn⟩ : ∃ k, text.length = k + 1 := ⟨text.length - 1, by omega⟩
  unfold expand
  rw [hn]
  simp only [expandUpTo, h]
  refine List.flatMap_congr fun part hpart => ?_
  have hlt := length_lt_of_mem_parts hs h part hpart
  have hle := length_strip_le part
  exact expandUpTo_congr hs n _ (strip part) (by omega) (Nat.le_refl _)

omit hs in
theorem expand_of_item {item : Item} (h : classify s text = .item item) :
    expand s text = [(text, item)] := by
  unfold expand
  cases text.length <;> rw [expandUpTo, h]

/-! ### The expansion without a bound -/

/-- `Expands s text statements`: with no bound on its depth, the expansion of a text ends, with
these statements.  A block on one line is replaced by its parts, each of which is a text of its own,
without the blanks around it. -/
inductive Expands (s : Symbols) : List Char → List (List Char × Item) → Prop where
  | item {text : List Char} {item : Item} :
      classify s text = .item item → Expands s text [(text, item)]
  | inline {text : List Char} {block : OneLiner} (statements : List Char → List (List Char × Item)) :
      classify s text = .inline block →
      (∀ part ∈ block.parts s, Expands s (strip part) (statements part)) →
      Expands s text ((block.parts s).flatMap statements)

omit hs in
theorem Expands.classify_of_mem {statements : List (List Char × Item)}
    (h : Expands s text statements) : ∀ p ∈ statements, classify s p.1 = .item p.2 := by
  induction h with
  | item hform => exact List.forall_mem_singleton.2 hform
  | inline statements _ _ ih =>
    intro p hp
    obtain ⟨part, hpart, hp⟩ := List.mem_flatMap.1 hp
    exact ih part hpart p hp

/-- The expansion of every text ends, and what it ends with is `expand`. -/
theorem expands_expand (text : List Char) : Expands s text (expand s text) := by
  -- the parts of a block are shorter than the block, also without the blanks around them
  induction hn : text.length using Nat.strongRecOn generalizing text with
  | ind n ih =>
  subst hn
  cases hform : classify s text with
  | item i =>
    rw [expand_of_item hform]
    exact .item hform
  | inline block =>
    rw [expand_of_inline hs hform]
    refine .inline (fun part => expand s (strip part)) hform fun part hpart => ?_
    have hlt := length_lt_of_mem_parts hs hform part hpart
    exact ih _ (Nat.lt_of_le_of_lt (length_strip_le part) hlt) (strip part) rfl

/-- **The expansion of a text leaves no block on one line:** each statement it gives is what
its own text is. -/
theorem classify_of_mem_expand {p : List Char × Item} (hp : p ∈ expand s text) :
    classify s p.1 = .item p.2 :=
  (expands_expand hs text).classify_of_mem p hp

/-- **The expansion of blocks on one line ends**, whatever the marks of the table are.  Every part
of a block is shorter than the block, also the head with the blank that is put before its mark.  So
the expansion of any text ends without a bound on its depth, with the statements that `expand`
gives, and none of these is a block on one line. -/
theorem expansion_ends (text : List Char) :
    (∀ text block, classify s text = .inline block → ∀ part ∈ block.parts s,
      part.length < text.length ∧ (strip part).length < text.length) ∧
    Expands s text (expand s text) ∧
    ∀ p ∈ expand s text, classify s p.1 = .item p.2 := by
  refine ⟨fun text block hform part hpart => ?_, expands_expand hs text,
    fun p => classify_of_mem_expand hs⟩
  have hlt := length_lt_of_mem_parts hs hform part hpart
  exact ⟨hlt, Nat.lt_of_le_of_lt (length_strip_le part) hlt⟩

end

/-- Marks of which one is a part of the other. -/
def overlappingTable : Table := (Table.standard.put "function" (.text "a")).put "loop" (.text "aa")

/-- The head of a loop on one line that is rebuilt is a function on one line. -/
theorem expansion_ends_overlapping : ∃ s, Symbols.ofTable overlappingTable = .ok s ∧
    Expands s "x a y aa 2 aa".toList (expand s "x a y aa 2 aa".toList) ∧
    (expand s "x a y aa 2 aa".toList).map (fun p => String.ofList p.1) =
      ["x a", "y a", "a", "2", "aa"] := by
  obtain ⟨s, hs, hexpand⟩ : ∃ s, Symbols.ofTable overlappingTable = .ok s ∧
      (expand s "x a y aa 2 aa".toList).map (fun p => String.ofList p.1) =
        ["x a", "y a", "a", "2", "aa"] := ⟨_, rfl, by decide +kernel⟩
  exact ⟨s, hs, (expansion_ends hs _).2.1, hexpand⟩

end LineScript
