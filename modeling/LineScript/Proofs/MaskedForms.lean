import LineScript.Proofs.Masking
import LineScript.Proofs.Expansion

/-!
# Forms in masked text

A statement is recognised in its masked form, and its parts are cut from its own text.  Where a
pattern takes a mark of the language no literal is open, since marks are made of characters that no
literal shows in masked form; blanks and names do not open one.  So the parts of a statement begin
where no literal is open, and end where none is or at the end of the text.

## Main definitions

* `Symbols.Plain` — tables whose marks no literal shows in masked form.
* `Cursor.In` — a cursor in the masked form of a text.
* `Tidy`, `Quiet` — groups between offsets where no literal is open, and such without quotes.
* `Cursor.Groomed` — cursors all of whose groups are tidy.
* `Cursor.EndsIn` — cursors with a last group that goes on to the end of the text.

## Main results

* `plain_standard` — the default table is such a table.
* `Cursor.In.outside_of_text`, `Cursor.In.outside_iff_of_blanks`, `Cursor.In.quiet` — what marks,
  blanks and names tell about literals.
* `Cursor.Groomed.marked`, `Cursor.Groomed.spacedGroup`, `Cursor.Groomed.closing` — what a mark, a
  group and the last mark of a text leave tidy.
* `closed_and_groomed_of_way` — **the parts of a closed statement are tidy**, whichever rule
  recognises it.
-/

namespace LineScript

/-! ### Plain tables -/

/-- The marks of the table are plain texts within a line, its operators have no quotes in them, and
it has words for the truth values. -/
structure Symbols.Plain (s : Symbols) : Prop where
  ne_nil : ∀ m ∈ s.marks, m.toList ≠ []
  plain : ∀ m ∈ s.marks, PlainText m.toList
  inLine : ∀ m ∈ s.marks, '\n' ∉ m.toList
  operators : ∀ o ∈ s.operatorsOf .arithmetic, QuoteFree o.symbol.toList
  grammar : ∃ words, s.booleans = .ok words ∧ (s.grammar words).QuoteFree

/-- A mark of a plain table. -/
theorem Symbols.Plain.mark {s : Symbols} (hs : s.Plain) (m : String)
    (hm : m ∈ s.marks := by simp [Symbols.marks]) : PlainText m.toList ∧ m.toList ≠ [] :=
  ⟨hs.plain m hm, hs.ne_nil m hm⟩

theorem quoteFree_standardGrammar : standardGrammar.QuoteFree := by
  constructor <;> simp [standardGrammar, QuoteFree, isQuote]

/-- The default table is plain. -/
theorem plain_standard : standardSymbols.Plain where
  ne_nil := by
    intro m hm
    have h : (standardSymbols.marks.all fun m => !m.toList.isEmpty) = true := by decide
    simpa using List.all_eq_true.1 h m hm
  plain := by
    intro m hm c hc
    have h : (standardSymbols.marks.all fun m => m.toList.all isPlain) = true := by decide
    exact List.all_eq_true.1 (List.all_eq_true.1 h m hm) c hc
  inLine := by
    intro m hm
    have h : (standardSymbols.marks.all fun m => !m.toList.contains '\n') = true := by decide
    simpa using List.all_eq_true.1 h m hm
  operators := by
    intro o ho c hc
    have h : ((standardSymbols.operatorsOf .arithmetic).all fun o =>
      o.symbol.toList.all fun c => !isQuote c) = true := by decide
    simpa using List.all_eq_true.1 (List.all_eq_true.1 h o ho) c hc
  grammar := ⟨("true", "false"), rfl, quoteFree_standardGrammar⟩

/-! ### What a pattern takes -/

variable {inner : Pattern} {m : List Char}

namespace Pattern

theorem only_anyOf : ∀ {P : Char → Prop} {ps : List Pattern},
    (∀ p ∈ ps, p.Only P) → (anyOf ps).Only P
  | _, [], _ => fun _ h => Bool.noConfusion h
  | _, [p], h => h p List.mem_cons_self
  | _, p :: _ :: _, h => ⟨h p List.mem_cons_self,
      only_anyOf fun r hr => h r (List.mem_cons_of_mem p hr)⟩

/-- A pattern without groups finds none. -/
theorem Way.groups_eq : ∀ {p : Pattern}, p.groupNames = [] → ∀ {c c' : Cursor}, p.Way c c' →
    c'.groups = c.groups := by
  intro p
  induction p with
  | nothing => rintro - c _ rfl; rfl
  | one | text | «unless» | finish => rintro - c _ ⟨-, rfl⟩; rfl
  | seq first second ih₁ ih₂ =>
    rintro hp c c' ⟨mid, hmid, hc'⟩
    obtain ⟨h₁, h₂⟩ := List.append_eq_nil_iff.1 hp
    rw [ih₂ h₂ hc', ih₁ h₁ hmid]
  | either first second ih₁ ih₂ =>
    intro hp c c' hway
    obtain ⟨h₁, h₂⟩ := List.append_eq_nil_iff.1 hp
    exact hway.elim (ih₁ h₁) (ih₂ h₂)
  | chars greedy accepts => rintro - c _ ⟨n, -, rfl⟩; rfl
  | many item ih =>
    intro hp c c' hway
    induction hway with
    | refl => rfl
    | tail _ hstep ihchain => rw [ih hp hstep, ihchain]
  | group name inner ih => intro hp; cases hp

/-- A group is found where its pattern is. -/
theorem Way.groups_group {name : String} (hinner : inner.groupNames = []) {c c' : Cursor}
    (h : (Pattern.group name inner).Way c c') :
    c'.groups = (name, c.position, c'.position) :: c.groups := by
  obtain ⟨mid, hmid, rfl⟩ := h
  rw [Cursor.groups_capture, hmid.groups_eq hinner, Cursor.position_capture]

end Pattern

/-! ### Cursors in masked text -/

namespace Cursor

/-- The cursor stands in the masked form of the text. -/
structure In (text : List Char) (c : Cursor) : Prop where
  le_length : c.position ≤ text.length
  rest_eq : c.rest = (mask text).drop c.position

/-- No literal of the text is open where the cursor stands. -/
def Outside (text : List Char) (c : Cursor) : Prop := Closed (text.take c.position)

theorem in_start (text : List Char) : In text ⟨0, mask text, []⟩ := ⟨Nat.zero_le _, rfl⟩

theorem outside_start (text : List Char) : Outside text ⟨0, mask text, []⟩ := closed_nil

namespace In

variable {text : List Char} {c c' : Cursor}

section

variable (h : c.In text)

include h

theorem way {p : Pattern} (hway : p.Way c c') : c'.In text := by
  obtain ⟨front, hrest, hposition, -⟩ := hway.front p.only_any
  have hdrop : (mask text).drop c.position = front ++ c'.rest := h.rest_eq ▸ hrest
  have hlength := congrArg List.length hdrop
  rw [List.length_drop, length_mask, List.length_append] at hlength
  have hle := h.le_length
  refine ⟨by omega, ?_⟩
  rw [hposition, ← List.drop_drop, hdrop, List.drop_left]

/-- The masked form of what is left of the text. -/
theorem maskFrom_eq :
    maskFrom (Quoting.outside.after (text.take c.position)) (text.drop c.position) = c.rest := by
  rw [maskFrom_drop text h.le_length, h.rest_eq]

/-- Behind a run without quotes no literal is open if none is before it, and the run stands in the
text. -/
theorem outside_add (hout : c.Outside text) {front rest : List Char} (hfront : QuoteFree front)
    (hrest : c.rest = front ++ rest) :
    Closed (text.take (c.position + front.length)) ∧
      slice text c.position (c.position + front.length) = front := by
  have hmask := h.maskFrom_eq
  rw [show Quoting.outside.after (text.take c.position) = .outside from hout, hrest] at hmask
  obtain ⟨tail, htail, -⟩ := eq_append_of_mask hfront hmask
  have hslice : slice text c.position (c.position + front.length) = front := by
    rw [slice, Nat.add_sub_cancel_left, htail, List.take_left]
  refine ⟨?_, hslice⟩
  rw [List.take_add, htail, List.take_left, closed_append_quoteFree hfront]
  exact hout

/-- Where a plain run begins no literal is open. -/
theorem outside_of_plain {front rest : List Char} (hfront : PlainText front) (hne : front ≠ [])
    (hrest : c.rest = front ++ rest) : c.Outside text :=
  (eq_append_of_maskFrom (Quoting.proper_outside.after _) hfront hne
    (h.maskFrom_eq.trans hrest)).1

/-- Outside literals a text has the character that its masked form has. -/
theorem exists_drop_eq_cons (hout : c.Outside text) {ch : Char} {rest : List Char}
    (hrest : c.rest = ch :: rest) : ∃ tail, text.drop c.position = ch :: tail := by
  rw [h.rest_eq, ← mask_drop hout] at hrest
  cases hdrop : text.drop c.position with
  | nil =>
    rw [hdrop] at hrest
    cases hrest
  | cons d tail =>
    rw [hdrop] at hrest
    obtain ⟨rfl, -⟩ := List.cons.inj hrest
    exact ⟨tail, rfl⟩

/-- **Where a pattern takes a mark no literal is open**, neither before it nor behind it. -/
theorem outside_of_text (hm : PlainText m ∧ m ≠ []) (hway : (Pattern.text m).Way c c') :
    c.Outside text ∧ c'.Outside text := by
  obtain ⟨⟨rest, hrest⟩, rfl⟩ := hway
  have hout := h.outside_of_plain hm.1 hm.2 hrest.symm
  exact ⟨hout, (h.outside_add hout hm.1.quoteFree hrest.symm).1⟩

end

theorem only_blanks : Pattern.blanks.Only fun c => isPlain c = true := by
  intro c _ hc
  have hquote := isQuote_eq_false_of_isBlank hc
  have hline : c ≠ '_' := by
    rintro rfl
    cases hc
  simp [isPlain, hquote, hline]

/-- Blanks leave a literal as it is. -/
theorem outside_iff_of_blanks (h : c.In text) (hway : Pattern.blanks.Way c c') :
    c.Outside text ↔ c'.Outside text := by
  obtain ⟨front, hrest, hposition, hfront⟩ := hway.front only_blanks
  have hplain : PlainText front := hfront
  have hadd : c.Outside text → c'.Outside text := by
    intro hout
    unfold Outside
    rw [hposition]
    exact (h.outside_add hout hplain.quoteFree hrest).1
  refine ⟨hadd, fun hout => ?_⟩
  cases front with
  | nil =>
    unfold Outside at hout ⊢
    rwa [hposition] at hout
  | cons d front => exact h.outside_of_plain hplain (List.cons_ne_nil d front) hrest

/-- Where a whole text ends, the cursor has passed it. -/
theorem position_of_finish (h : c.In text) (hline : '\n' ∉ text)
    (hway : Pattern.finish.Way c c') : c' = c ∧ c.position = text.length := by
  obtain ⟨hrest | hrest, rfl⟩ := hway
  · have hlength := congrArg List.length (h.rest_eq.symm.trans hrest)
    rw [List.length_drop, length_mask, List.length_nil] at hlength
    have hle := h.le_length
    exact ⟨rfl, by omega⟩
  · refine absurd (mem_of_mem_maskFrom (q := .outside) (c := '\n') ?_ (by decide)) hline
    refine List.mem_of_mem_drop (i := c'.position) ?_
    change '\n' ∈ (mask text).drop c'.position
    rw [← h.rest_eq, hrest]
    exact List.mem_cons_self

/-- A mark that ends the text stands where no literal is open, and neither is one behind it. -/
theorem outside_of_last (h : c.In text) (hm : PlainText m ∧ m ≠ []) (hline : '\n' ∉ text)
    (hway : (Pattern.seq (.text m) .finish).Way c c') : c.Outside text ∧ Closed text := by
  obtain ⟨mid, hmark, hfinish⟩ := hway
  obtain ⟨hout, hout'⟩ := h.outside_of_text hm hmark
  obtain ⟨rfl, hposition⟩ := (h.way hmark).position_of_finish hline hfinish
  refine ⟨hout, ?_⟩
  unfold Outside at hout'
  rwa [hposition, List.take_length] at hout'

end In

end Cursor

/-! ### Groups -/

/-- A group that begins and ends where no literal of the text is open. -/
structure Tidy (text : List Char) (e : String × Nat × Nat) : Prop where
  le : e.2.1 ≤ e.2.2
  start : Closed (text.take e.2.1)
  stop : Closed (text.take e.2.2)

/-- A tidy group without quotes. -/
structure Quiet (text : List Char) (e : String × Nat × Nat) : Prop extends Tidy text e where
  quoteFree : QuoteFree (slice text e.2.1 e.2.2)

/-- A pattern that takes no quotes leaves literals as they are, and what it takes is quiet. -/
theorem Cursor.In.quiet {text : List Char} {c c' : Cursor} (h : c.In text) (hout : c.Outside text)
    {p : Pattern} (hp : p.Only fun ch => isQuote ch = false) (hway : p.Way c c') (name : String) :
    Quiet text (name, c.position, c'.position) := by
  obtain ⟨front, hrest, hposition, hfront⟩ := hway.front hp
  obtain ⟨hstop, hslice⟩ := h.outside_add hout hfront hrest
  refine ⟨⟨?_, hout, ?_⟩, ?_⟩ <;> dsimp only <;> rw [hposition]
  · exact Nat.le_add_right _ _
  · exact hstop
  · rw [hslice]
    exact hfront

/-- The groups that hold names and operators. -/
def isNameGroup (g : String) : Bool := g == "name" || g == "operator"

/-- A cursor in the masked form of a text whose groups are tidy; those that hold names and operators
are quiet. -/
structure Cursor.Groomed (text : List Char) (c : Cursor) : Prop extends c.In text where
  tidy : ∀ e ∈ c.groups, Tidy text e
  quiet : ∀ e ∈ c.groups, isNameGroup e.1 = true → Quiet text e

namespace Cursor.Groomed

variable {text : List Char} {c c' : Cursor}

theorem start (text : List Char) : Groomed text ⟨0, mask text, []⟩ where
  toIn := in_start text
  tidy _ he := by cases he
  quiet _ he := by cases he

variable (h : c.Groomed text)

include h

/-- A pattern without groups adds none. -/
theorem way {p : Pattern} (hp : p.groupNames = []) (hway : p.Way c c') :
    c'.Groomed text where
  toIn := h.toIn.way hway
  tidy := by rw [hway.groups_eq hp]; exact h.tidy
  quiet := by rw [hway.groups_eq hp]; exact h.quiet

/-- One group more. -/
theorem add {e : String × Nat × Nat} (hin : c'.In text) (hgroups : c'.groups = e :: c.groups)
    (htidy : Tidy text e) (hquiet : isNameGroup e.1 = true → Quiet text e) : c'.Groomed text where
  toIn := hin
  tidy := by rw [hgroups]; exact List.forall_mem_cons.2 ⟨htidy, h.tidy⟩
  quiet := by rw [hgroups]; exact List.forall_mem_cons.2 ⟨hquiet, h.quiet⟩

/-- A group between cursors at which no literal is open. -/
theorem group {name : String} (hinner : inner.groupNames = []) (hname : isNameGroup name = false)
    (hway : (Pattern.group name inner).Way c c') (hout : c.Outside text) (hout' : c'.Outside text) :
    c'.Groomed text :=
  h.add (h.toIn.way hway) (hway.groups_group hinner) ⟨hway.forward.1, hout, hout'⟩
    fun hquiet => Bool.noConfusion (hname.symm.trans hquiet)

/-- A group without quotes. -/
theorem quietGroup {name : String} (hinner : inner.groupNames = [])
    (honly : inner.Only fun ch => isQuote ch = false) (hway : (Pattern.group name inner).Way c c')
    (hout : c.Outside text) : c'.Groomed text ∧ c'.Outside text := by
  have hquiet : Quiet text (name, c.position, c'.position) :=
    h.toIn.quiet (p := .group name inner) hout honly hway name
  exact ⟨h.add (h.toIn.way hway) (hway.groups_group hinner) hquiet.toTidy fun _ => hquiet,
    hquiet.stop⟩

/-- A mark and the blanks behind it. -/
theorem marked (hm : PlainText m ∧ m ≠ []) {mid : Cursor} (hmark : (Pattern.text m).Way c mid)
    (hblanks : Pattern.blanks.Way mid c') : c'.Groomed text ∧ c'.Outside text := by
  have hgroomed := h.way rfl hmark
  obtain ⟨-, hout⟩ := h.toIn.outside_of_text hm hmark
  exact ⟨hgroomed.way rfl hblanks, (hgroomed.toIn.outside_iff_of_blanks hblanks).1 hout⟩

/-- A group and the blanks behind it, between cursors at which no literal is open. -/
theorem spacedGroup (hout : c.Outside text) {name : String} (hinner : inner.groupNames = [])
    (hname : isNameGroup name = false) {mid : Cursor} (hway : (Pattern.group name inner).Way c mid)
    (hblanks : Pattern.blanks.Way mid c') (hout' : c'.Outside text) : c'.Groomed text := by
  have hmid := ((h.toIn.way hway).outside_iff_of_blanks hblanks).2 hout'
  exact (h.group hinner hname hway hout hmid).way rfl hblanks

/-- A group and a mark that ends the text. -/
theorem closing (hout : c.Outside text) (hm : PlainText m ∧ m ≠ []) (hline : '\n' ∉ text)
    {name : String} (hinner : inner.groupNames = []) (hname : isNameGroup name = false)
    (hway : (Pattern.seq (.group name inner) (.seq .blanks (.seq (.text m) .finish))).Way c c') :
    Closed text ∧ c'.Groomed text := by
  obtain ⟨c₁, hgroup, c₂, hblanks, hlast⟩ := hway
  obtain ⟨hout₂, hclosed⟩ := ((h.toIn.way hgroup).way hblanks).outside_of_last hm hline hlast
  exact ⟨hclosed, (h.spacedGroup hout hinner hname hgroup hblanks hout₂).way rfl hlast⟩

end Cursor.Groomed

/-! ### Patterns that end with a mark -/

section Marked

open Pattern Cursor

variable {text mark : List Char} {c : Cursor} (hm : PlainText mark ∧ mark ≠ [])

include hm

theorem closePattern_groomed (hline : '\n' ∉ text)
    (h : (Rule.closePattern mark).Way ⟨0, mask text, []⟩ c) : Closed text ∧ c.Groomed text :=
  ⟨((in_start text).outside_of_last hm hline h).2, (Groomed.start text).way rfl h⟩

theorem openPattern_groomed (hline : '\n' ∉ text)
    (h : (Rule.openPattern mark).Way ⟨0, mask text, []⟩ c) : Closed text ∧ c.Groomed text :=
  (Groomed.start text).closing (outside_start text) hm hline rfl rfl h

theorem elseIfPattern_groomed (hline : '\n' ∉ text)
    (h : (Pattern.all [.text mark, blanks, .group "condition" (oneOrMore false inLine), blanks,
      .text mark, .finish]).Way ⟨0, mask text, []⟩ c) : Closed text ∧ c.Groomed text := by
  obtain ⟨c₁, hmark, c₂, hblanks, hlast⟩ := h
  obtain ⟨hgroomed, hout⟩ := (Groomed.start text).marked hm hmark hblanks
  exact hgroomed.closing hout hm hline rfl rfl hlast

/-- The head of a block on one line, up to the beginning of its body. -/
theorem head_groomed {head : String} (hinner : inner.groupNames = [])
    (hhead : isNameGroup head = false) {c₁ c₂ c₃ : Cursor}
    (hway : (Pattern.group head inner).Way ⟨0, mask text, []⟩ c₁) (hblanks : blanks.Way c₁ c₂)
    (hmark : (Pattern.text mark).Way c₂ c₃) (hblanks' : blanks.Way c₃ c) :
    c.Groomed text ∧ c.Outside text := by
  obtain ⟨hout, -⟩ := (((in_start text).way hway).way hblanks).outside_of_text hm hmark
  have hgroomed :=
    (Groomed.start text).spacedGroup (outside_start text) hinner hhead hway hblanks hout
  exact hgroomed.marked hm hmark hblanks'

theorem inlinePattern_groomed {head : String}
    (hline : '\n' ∉ text) (hhead : isNameGroup head = false)
    (h : (Rule.inlinePattern head mark).Way ⟨0, mask text, []⟩ c) :
    Closed text ∧ c.Groomed text := by
  obtain ⟨c₁, hway, c₂, hblanks, c₃, hmark, c₄, hblanks', hlast⟩ := h
  obtain ⟨hgroomed, hout⟩ := head_groomed hm rfl hhead hway hblanks hmark hblanks'
  exact hgroomed.closing hout hm hline rfl rfl hlast

theorem inlineIfPattern_groomed {other : List Char} (hother : PlainText other ∧ other ≠ []) (hline : '\n' ∉ text)
    (h : (Rule.inlineIfPattern mark other).Way ⟨0, mask text, []⟩ c) :
    Closed text ∧ c.Groomed text := by
  obtain ⟨c₁, hway, c₂, hblanks, c₃, hmark, c₄, hblanks', c₅, hbody, c₆, hblanks₆, c₇, hlast,
    hend⟩ := h
  obtain ⟨hgroomed, hout⟩ := head_groomed hm rfl rfl hway hblanks hmark hblanks'
  rcases hlast with ⟨d₁, hmark₁, d₂, hblanks₂, d₃, hbody₃, hblanks₇⟩ | rfl
  · -- with a last branch, the first one ends before its mark
    have hin₆ := (hgroomed.toIn.way hbody).way hblanks₆
    obtain ⟨hout₆, -⟩ := hin₆.outside_of_text hother hmark₁
    have hgroomed₆ := hgroomed.spacedGroup hout rfl rfl hbody hblanks₆ hout₆
    obtain ⟨hgroomed₂, hout₂⟩ := hgroomed₆.marked hother hmark₁ hblanks₂
    exact hgroomed₂.closing hout₂ hm hline rfl rfl ⟨d₃, hbody₃, c₇, hblanks₇, hend⟩
  · exact hgroomed.closing hout hm hline rfl rfl ⟨c₅, hbody, c₇, hblanks₆, hend⟩

end Marked

/-! ### Names -/

theorem PassesQuotes.isQuote_eq_false {p : Char → Bool} (h : PassesQuotes p) {c : Char}
    (hc : p c = true) : isQuote c = false := by
  cases hq : isQuote c with
  | false => rfl
  | true => rw [h.eq_false hq] at hc; cases hc

section Names

open Pattern Cursor

variable {s : Symbols} {text : List Char} {c c' : Cursor}

theorem only_identifier : identifier.Only fun c => isQuote c = false :=
  ⟨fun _ hc => passesQuotes_isIdentStart.isQuote_eq_false hc,
    fun _ _ hc => passesQuotes_isIdentChar.isQuote_eq_false hc⟩

theorem only_members : members.Only fun c => isQuote c = false :=
  ⟨quoteFree_singleton rfl, only_identifier⟩

theorem only_name (hs : s.Plain) : (name s).Only fun c => isQuote c = false :=
  ⟨⟨(hs.mark s.globalMark).1.quoteFree, trivial⟩, only_identifier⟩

theorem only_dotted (hs : s.Plain) : (dotted s).Only fun c => isQuote c = false :=
  ⟨only_name hs, only_members⟩

theorem only_gap : (oneOrMore true isBlank).Only fun c => isQuote c = false :=
  ⟨fun _ hc => isQuote_eq_false_of_isBlank hc, fun _ _ hc => isQuote_eq_false_of_isBlank hc⟩

/-- A name in front of a statement and the blanks behind it. -/
theorem name_groomed (hs : s.Plain) {c₁ : Cursor}
    (hname : (group "name" (name s)).Way ⟨0, mask text, []⟩ c₁) (hblanks : blanks.Way c₁ c) :
    c.Groomed text ∧ c.Outside text := by
  obtain ⟨hgroup, hout⟩ :=
    (Groomed.start text).quietGroup rfl (only_name hs) hname (outside_start text)
  exact ⟨hgroup.way rfl hblanks, (hgroup.toIn.outside_iff_of_blanks hblanks).1 hout⟩

theorem functionPattern_groomed (hs : s.Plain) (hline : '\n' ∉ text)
    (h : (Rule.functionPattern s).Way ⟨0, mask text, []⟩ c) : Closed text ∧ c.Groomed text := by
  obtain ⟨c₁, hname, c₂, hblanks₂, c₃, hparams, c₄, hblanks₄, hlast⟩ := h
  obtain ⟨hgroup₂, hout₂⟩ := name_groomed hs hname hblanks₂
  have hin₃ := hgroup₂.toIn.way hparams
  obtain ⟨hout₄, hclosed⟩ := (hin₃.way hblanks₄).outside_of_last (hs.mark s.function)
    hline hlast
  have hout₃ := (hin₃.outside_iff_of_blanks hblanks₄).2 hout₄
  suffices hgroup₃ : c₃.Groomed text from ⟨hclosed, (hgroup₃.way rfl hblanks₄).way rfl hlast⟩
  rcases hparams with ⟨d₁, hopen, d₂, hlist, hclose⟩ | hbare
  · -- the parentheses stand where no literal is open
    have hgroup₁' := hgroup₂.way rfl hopen
    obtain ⟨-, hout₁'⟩ := hgroup₂.toIn.outside_of_text
      ⟨plainText_singleton rfl, List.cons_ne_nil _ _⟩ hopen
    obtain ⟨hout₂', -⟩ := (hgroup₁'.toIn.way hlist).outside_of_text
      ⟨plainText_singleton rfl, List.cons_ne_nil _ _⟩ hclose
    exact (hgroup₁'.group rfl rfl hlist hout₁' hout₂').way rfl hclose
  · exact hgroup₂.group rfl rfl hbare hout₂ hout₃

/-! ### Patterns with a last part -/

/-- The match ends with a group up to the end of the text, which begins where no literal is open;
the groups before it are tidy. -/
def Cursor.EndsIn (text : List Char) (g : String) (c : Cursor) : Prop :=
  c.In text ∧ ∃ c₀ : Cursor, c₀.Groomed text ∧ c₀.Outside text ∧
    c.groups = (g, c₀.position, text.length) :: c₀.groups

theorem Cursor.EndsIn.groomed {g : String} (h : c.EndsIn text g) (hg : isNameGroup g = false)
    (hclosed : Closed text) : c.Groomed text := by
  obtain ⟨hin, c₀, hgroomed, hout, hgroups⟩ := h
  exact hgroomed.add hin hgroups ⟨hgroomed.le_length, hout, by rwa [List.take_length]⟩
    fun hname => Bool.noConfusion (hg.symm.trans hname)

theorem Cursor.Groomed.endsIn (h : c.Groomed text) (hout : c.Outside text) (hline : '\n' ∉ text)
    {g : String} (hinner : inner.groupNames = [])
    (hway : (Pattern.seq (.group g inner) .finish).Way c c') : c'.EndsIn text g := by
  obtain ⟨mid, hgroup, hfinish⟩ := hway
  obtain ⟨rfl, hposition⟩ := (h.toIn.way hgroup).position_of_finish hline hfinish
  exact ⟨h.toIn.way hgroup, c, h, hout, by rw [hgroup.groups_group hinner, hposition]⟩

theorem returning_endsIn (hs : s.Plain) (hline : '\n' ∉ text)
    (h : (Rule.pattern s .returning).Way ⟨0, mask text, []⟩ c) : c.EndsIn text "expression" := by
  obtain ⟨c₁, hmark, c₂, hblanks, hlast⟩ := h
  obtain ⟨hgroomed, hout⟩ := (Groomed.start text).marked (hs.mark s.returnMark) hmark hblanks
  exact hgroomed.endsIn hout hline rfl hlast

theorem groupNames_anyOf_texts : ∀ ms : List (List Char),
    (anyOf (ms.map Pattern.text)).groupNames = []
  | [] => rfl
  | [_] => rfl
  | _ :: n :: ms => groupNames_anyOf_texts (n :: ms)

theorem assignment_endsIn (hs : s.Plain) (hline : '\n' ∉ text)
    (h : (Rule.pattern s .assignment).Way ⟨0, mask text, []⟩ c) : c.EndsIn text "expression" := by
  obtain ⟨c₁, hname, c₂, hblanks₂, c₃, hoperator, c₄, hassign, c₅, hunless, c₆, hblanks₆,
    hlast⟩ := h
  obtain ⟨hgroup₂, hout₂⟩ := name_groomed hs hname hblanks₂
  have hgroup₃ : c₃.Groomed text := by
    rcases hoperator with hoperator | rfl
    · refine (hgroup₂.quietGroup (groupNames_anyOf_texts _) (only_anyOf ?_) hoperator hout₂).1
      intro p hp
      obtain ⟨m, hm, rfl⟩ := List.mem_map.1 hp
      obtain ⟨o, ho, rfl⟩ := Rule.exists_operator_of_mem hm
      exact hs.operators o ho
    · exact hgroup₂
  obtain ⟨-, rfl⟩ := hunless
  obtain ⟨hgroup₆, hout₆⟩ := hgroup₃.marked (hs.mark s.assign) hassign hblanks₆
  exact hgroup₆.endsIn hout₆ hline rfl hlast

theorem bareCall_endsIn (hs : s.Plain) (hline : '\n' ∉ text)
    (h : (Rule.pattern s .bareCall).Way ⟨0, mask text, []⟩ c) : c.EndsIn text "arguments" := by
  obtain ⟨c₁, hname, c₂, hgap, hlast⟩ := h
  obtain ⟨hgroup₁, hout₁⟩ :=
    (Groomed.start text).quietGroup rfl (only_dotted hs) hname (outside_start text)
  have hquiet := hgroup₁.toIn.quiet hout₁ only_gap hgap ""
  exact (hgroup₁.way rfl hgap).endsIn hquiet.stop hline rfl hlast

theorem slice_length (text : List Char) (i : Nat) : slice text i text.length = text.drop i := by
  rw [slice, List.take_of_length_le (by rw [List.length_drop])]

/-- A literal that ends a statement is closed, and so is the statement. -/
theorem closed_of_quoted {q : Char} (hq : isQuote q = true) (hin : c.In text)
    (hout : c.Outside text) (h : (quoted q).Way c c') (hrest : c'.rest = []) :
    Closed text ∧ ∃ rest, text.drop c.position = q :: rest := by
  have hmask : mask (text.drop c.position) = c.rest := by rw [mask_drop hout, hin.rest_eq]
  obtain ⟨_, ⟨⟨r₁, hr₁⟩, rfl⟩, c₂, hbody, ⟨⟨r₂, hr₂⟩, rfl⟩⟩ := h
  have honly : (charsOf true (· != q)).Only (· ≠ q) := fun ch _ hch => by simpa using hch
  obtain ⟨body, hr₁', -, hne⟩ := hbody.front honly
  have hliteral : mask (text.drop c.position) = q :: (body ++ [q]) := by
    rw [Cursor.rest_advance, ← hr₁] at hr₁'
    rw [Cursor.rest_advance, ← hr₂] at hrest
    simp only [List.singleton_append, List.length_singleton, List.drop_succ_cons,
      List.drop_zero] at hr₁' hrest
    rw [hmask, ← hr₁, List.singleton_append, hr₁', ← hr₂, hrest]
    rfl
  have hclosed := closed_of_mask_literal hq (fun hmem => hne q hmem rfl) hliteral
  refine ⟨?_, hin.exists_drop_eq_cons hout hr₁.symm⟩
  rw [← List.take_append_drop c.position text]
  exact (show Closed _ from hout).append_iff.2 hclosed

/-- The target of an import is a literal or a name: in both cases the statement is closed. -/
theorem importing_endsIn (hs : s.Plain) (hline : '\n' ∉ text)
    (h : (Rule.pattern s .importing).Way ⟨0, mask text, []⟩ c) :
    c.EndsIn text "target" ∧ Closed text ∧ ∃ i, c.groups = [("target", i, text.length)] ∧
      ((∃ q rest, isQuote q = true ∧ text.drop i = q :: rest) ∨ QuoteFree (text.drop i)) := by
  obtain ⟨c₁, hmark, c₂, hblanks, hlast⟩ := h
  obtain ⟨hgroup₂, hout₂⟩ := (Groomed.start text).marked (hs.mark s.importMark) hmark hblanks
  have hgroups₂ : c₂.groups = [] := by rw [hblanks.groups_eq rfl, hmark.groups_eq rfl]
  have hends := hgroup₂.endsIn hout₂ hline rfl hlast
  obtain ⟨c₃, htarget, hfinish⟩ := hlast
  obtain ⟨rfl, hposition⟩ := (hgroup₂.toIn.way htarget).position_of_finish hline hfinish
  have hgroups : c.groups = [("target", c₂.position, text.length)] := by
    rw [htarget.groups_group rfl, hposition, hgroups₂]
  have hrest : c.rest = [] := by
    rw [(hgroup₂.toIn.way htarget).rest_eq, hposition, List.drop_of_length_le]
    rw [length_mask]
  obtain ⟨mid, hway, rfl⟩ := htarget
  rcases hway with hway | hway | hway
  iterate 2
    · obtain ⟨hclosed, rest, htext⟩ := closed_of_quoted rfl hgroup₂.toIn hout₂ hway hrest
      exact ⟨hends, hclosed, _, hgroups, .inl ⟨_, rest, rfl, htext⟩⟩
  · have honly : (Pattern.seq identifier members).Only fun c => isQuote c = false :=
      ⟨only_identifier, only_members⟩
    have hquiet := hgroup₂.toIn.quiet hout₂ honly hway "target"
    have hclosed := hquiet.stop
    have hquoteFree := hquiet.quoteFree
    rw [show mid.position = text.length from hposition] at hclosed hquoteFree
    rw [List.take_length] at hclosed
    rw [slice_length] at hquoteFree
    exact ⟨hends, hclosed, _, hgroups, .inr hquoteFree⟩

/-! ### All rules -/

/-- The rules that recognise statements which are not closed. -/
def Rule.isOpenEnded : Rule → Bool
  | .comment | .returning | .assignment | .bareCall => true
  | _ => false

/-- **The parts of a closed statement are tidy**, whichever rule recognises it, and only a few rules
recognise statements that are not closed. -/
theorem closed_and_groomed_of_way (hs : s.Plain) (hline : '\n' ∉ text) {r : Rule}
    (h : (r.pattern s).Way ⟨0, mask text, []⟩ c) :
    (r.isOpenEnded = false → Closed text) ∧ (Closed text → c.Groomed text) := by
  have hloop := hs.mark s.loop
  have hfunction := hs.mark s.function
  have hcond := hs.mark s.conditional
  have hother := hs.mark s.otherwise
  suffices hcases : Closed text ∧ c.Groomed text ∨
      r.isOpenEnded = true ∧ (Closed text → c.Groomed text) by
    rcases hcases with ⟨hclosed, hgroomed⟩ | ⟨hr, hgroomed⟩
    · exact ⟨fun _ => hclosed, fun _ => hgroomed⟩
    · exact ⟨fun hr' => absurd (hr.symm.trans hr') Bool.noConfusion, hgroomed⟩
  cases r with
  | comment => exact .inr ⟨rfl, fun _ => (Groomed.start text).way rfl h⟩
  | inlineLoop => exact .inl (inlinePattern_groomed hloop hline rfl h)
  | inlineFunction => exact .inl (inlinePattern_groomed hfunction hline rfl h)
  | inlineIf => exact .inl (inlineIfPattern_groomed hcond hother hline h)
  | loopClose => exact .inl (closePattern_groomed hloop hline h)
  | loopOpen => exact .inl (openPattern_groomed hloop hline h)
  | functionClose => exact .inl (closePattern_groomed hfunction hline h)
  | functionOpen => exact .inl (functionPattern_groomed hs hline h)
  | otherwise => exact .inl (closePattern_groomed hother hline h)
  | ifClose => exact .inl (closePattern_groomed hcond hline h)
  | elseIf => exact .inl (elseIfPattern_groomed hcond hline h)
  | ifOpen => exact .inl (openPattern_groomed hcond hline h)
  | returning => exact .inr ⟨rfl, (returning_endsIn hs hline h).groomed rfl⟩
  | importing =>
    obtain ⟨hends, hclosed, -⟩ := importing_endsIn hs hline h
    exact .inl ⟨hclosed, hends.groomed rfl hclosed⟩
  | assignment => exact .inr ⟨rfl, (assignment_endsIn hs hline h).groomed rfl⟩
  | bareCall => exact .inr ⟨rfl, (bareCall_endsIn hs hline h).groomed rfl⟩

end Names

end LineScript
