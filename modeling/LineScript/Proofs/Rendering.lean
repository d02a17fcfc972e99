import LineScript.Printer
import LineScript.Term.Lowering

/-!
# Renderings of expressions

An expression can be written in many ways: with more parentheses than it needs, and with blanks
around operators, parentheses and commas.  A rendering has a rank, which says how loosely its
outermost operator binds; a text of one rank may stand wherever a looser one may, and parentheses
make any text a primary one.

Ranks are `0` for primary texts, `1` for changes of sign, then products, sums, comparisons, and,
and `6` for or.  Operators group to the left, so the left operand may have the rank of the whole
and the right one has to be tighter.

## Main definitions

* `BinaryOp` — the thirteen operations between two operands.
* `Renders` — the texts of an expression, by rank.
* `Rendering` — the texts of an expression with blanks around them.
* `Printable` — the expressions that can be written.

## Main results

* `Printable.exists_renders` — every printable expression has a rendering.
-/

namespace LineScript

/-! ### Operations -/

/-- The operations between two operands. -/
inductive BinaryOp where
  | or | and
  | equal | notEqual | less | greater | lessEqual | greaterEqual
  | plus | subtract
  | multiply | divide | module
  deriving DecidableEq, Repr

namespace BinaryOp

/-- The symbol of an operation. -/
def symbol : BinaryOp → List Char
  | .or => ['|']
  | .and => ['&']
  | .equal => ['=']
  | .notEqual => ['!']
  | .less => ['<']
  | .greater => ['>']
  | .lessEqual => ['<', '=']
  | .greaterEqual => ['>', '=']
  | .plus => ['+']
  | .subtract => ['-']
  | .multiply => ['*']
  | .divide => ['/']
  | .module => ['%']

/-- The family of an operation. -/
def family : BinaryOp → Family
  | .or | .and => .logical
  | .equal | .notEqual | .less | .greater | .lessEqual | .greaterEqual => .comparison
  | _ => .arithmetic

/-- The name of an operation in its family. -/
def key : BinaryOp → String
  | .or => "or"
  | .and => "and"
  | .equal => "equal"
  | .notEqual => "not_equal"
  | .less => "less"
  | .greater => "greater"
  | .lessEqual => "less_equal"
  | .greaterEqual => "greater_equal"
  | .plus => "plus"
  | .subtract => "subtract"
  | .multiply => "multiply"
  | .divide => "divide"
  | .module => "module"

/-- The rank of the right operand; the left one and the whole may be looser by one. -/
def rank : BinaryOp → Nat
  | .multiply | .divide | .module => 1
  | .plus | .subtract => 2
  | .equal | .notEqual | .less | .greater | .lessEqual | .greaterEqual => 3
  | .and => 4
  | .or => 5

/-- The first character of the symbol. -/
def first : BinaryOp → Char
  | .or => '|'
  | .and => '&'
  | .equal => '='
  | .notEqual => '!'
  | .less | .lessEqual => '<'
  | .greater | .greaterEqual => '>'
  | .plus => '+'
  | .subtract => '-'
  | .multiply => '*'
  | .divide => '/'
  | .module => '%'

theorem symbol_eq (op : BinaryOp) : ∃ rest, op.symbol = op.first :: rest := by
  cases op <;> exact ⟨_, rfl⟩

end BinaryOp

/-! ### Texts -/

/-- Spaces and tabs. -/
def Gap (s : List Char) : Prop := ∀ c ∈ s, c = ' ' ∨ c = '\t'

/-- Digits, at least one. -/
structure Digits (s : List Char) : Prop where
  ne_nil : s ≠ []
  digit : ∀ c ∈ s, isDigit c = true

theorem Digits.of_all {s : List Char} (hs : s ≠ []) (h : s.all isDigit = true) : Digits s :=
  ⟨hs, List.all_eq_true.1 h⟩

/-- A name: identifiers with points between them, the first of which is no truth value.  When
the name carries the global mark, the first one is `root`. -/
inductive IsName : List Char → Prop where
  | dotted {first : List Char} {members : List (List Char)} : isIdentifier first = true →
      first ≠ ['t', 'r', 'u', 'e'] → first ≠ ['f', 'a', 'l', 's', 'e'] →
      (∀ m ∈ members, isIdentifier m = true) → IsName (first ++ members.flatMap ('.' :: ·))

/-- A name with the global mark is a name. -/
theorem IsName.marked {name : List Char} (h : IsName name) :
    IsName (['r', 'o', 'o', 't', '.'] ++ name) := by
  obtain ⟨hfirst, -, -, hmembers⟩ := h
  rename_i first members
  have hroot : IsName (['r', 'o', 'o', 't'] ++ (first :: members).flatMap ('.' :: ·)) := by
    refine .dotted (by decide) (by decide) (by decide) ?_
    intro m hm
    rcases List.mem_cons.1 hm with rfl | hm
    · exact hfirst
    · exact hmembers m hm
  exact hroot

/-- A further argument of a call, with the blanks around the comma before it. -/
structure Argument where
  /-- The blanks before the comma. -/
  before : List Char
  /-- The blanks behind the comma. -/
  after : List Char
  /-- The argument. -/
  expr : Expr
  /-- The text of the argument. -/
  text : List Char

/-- A further argument as it is written. -/
def Argument.written (a : Argument) : List Char := a.before ++ ',' :: a.after ++ a.text

/-- **The texts of an expression, by rank.**  Every node of the expression carries the line. -/
inductive Renders (line : SourceLine) : Nat → Expr → List Char → Prop where
  | null : Renders line 0 (.literal line .null) ['$']
  | yes : Renders line 0 (.literal line (.boolean true)) ['t', 'r', 'u', 'e']
  | no : Renders line 0 (.literal line (.boolean false)) ['f', 'a', 'l', 's', 'e']
  /-- A whole number of 64 bits, by its digits. -/
  | integer {digits : List Char} {n : Nat} : Digits digits → digits.length ≤ digitLimit →
      readNat digits = n → n < 2 ^ 63 → Renders line 0 (.literal line (.integer n)) digits
  /-- A decimal number keeps the digits behind its point, zeros included. -/
  | decimal {whole fraction : List Char} {n k : Nat} : Digits whole → Digits fraction →
      readNat (whole ++ fraction) = n → fraction.length = k →
      Renders line 0 (.literal line (.decimal (.finite false n (-k)))) (whole ++ '.' :: fraction)
  | string (s : String) : Renders line 0 (.literal line (.string s)) (printText s).toList
  | reference {name : List Char} : IsName name →
      Renders line 0 (.reference line (String.ofList name)) name
  /-- A call without arguments. -/
  | invoke {name a b : List Char} : IsName name → Gap a → Gap b →
      Renders line 0 (.call line (String.ofList name) []) (name ++ (a ++ '(' :: (b ++ [')'])))
  /-- A call with arguments. -/
  | call {name a b c t : List Char} {e : Expr} {more : List Argument} : IsName name → Gap a →
      Gap b → Gap c → Renders line 6 e t → (∀ x ∈ more, Gap x.before ∧ Gap x.after) →
      (∀ x ∈ more, Renders line 6 x.expr x.text) →
      Renders line 0 (.call line (String.ofList name) (e :: more.map Argument.expr))
        (name ++ (a ++ '(' :: (b ++ (t ++ (more.flatMap Argument.written ++ (c ++ [')']))))))
  /-- Parentheses, needed or not. -/
  | group {a b t : List Char} {e : Expr} : Gap a → Gap b → Renders line 6 e t →
      Renders line 0 e ('(' :: (a ++ (t ++ (b ++ [')']))))
  | negation {a t : List Char} {e : Expr} : Gap a → Renders line 1 e t →
      Renders line 1 (.negation line e) ('-' :: (a ++ t))
  | operation {a b t u : List Char} {l r : Expr} (op : BinaryOp) : Gap a → Gap b →
      Renders line (op.rank + 1) l t → Renders line op.rank r u →
      Renders line (op.rank + 1) (.operation line op.family (some (.text op.key)) l r)
        (t ++ (a ++ (op.symbol ++ (b ++ u))))
  /-- What binds more tightly may stand in place of what binds less. -/
  | loosen {k : Nat} {t : List Char} {e : Expr} : Renders line k e t → Renders line (k + 1) e t

/-- The texts of an expression, with blanks around them. -/
def Rendering (line : SourceLine) (e : Expr) (text : List Char) : Prop :=
  ∃ a t b, Gap a ∧ Gap b ∧ Renders line 6 e t ∧ text = a ++ (t ++ b)

/-! ### Digits -/

variable {c : Char}

/-- The digits of ASCII are digits. -/
theorem isDigit_of_isAsciiDigit (h : c.isDigit = true) : isDigit c = true := by
  simp only [Char.isDigit, Bool.and_eq_true, decide_eq_true_eq] at h
  have hlow : 48 ≤ c.toNat := h.1
  have hhigh : c.toNat ≤ 57 := h.2
  have hascii : c.toNat < 0x80 := by omega
  simp [isDigit, digitValue?, hascii, hlow, hhigh]

theorem digits_natDigits (n : Nat) : Digits (natDigits n) where
  ne_nil := Nat.toDigits_ne_nil
  digit _ hc := isDigit_of_isAsciiDigit (Nat.isDigit_of_mem_toDigits (by decide) (by decide) hc)

theorem digitValue?_digitChar : ∀ d, d < 10 → digitValue? (Nat.digitChar d) = some d := by decide

/-- A number is read back from its digits. -/
theorem readNat_natDigits (n : Nat) : readNat (natDigits n) = n := by
  induction n using Nat.strongRecOn with
  | ind n ih =>
    by_cases hn : n < 10
    · rw [natDigits, Nat.toDigits_of_lt_base hn]
      simp [readNat, digitValue?_digitChar n hn]
    · have hdiv : readNat (Nat.toDigits 10 (n / 10)) = n / 10 := ih (n / 10) (by omega)
      rw [natDigits, Nat.toDigits_of_base_le (by decide) (Nat.not_lt.1 hn), readNat_append_one, hdiv,
        digitValue?_digitChar (n % 10) (Nat.mod_lt n (by decide)), Option.getD_some]
      omega

/-- Zeros in front of a number do not count. -/
theorem readNat_zeros (k : Nat) (s : List Char) : readNat (List.replicate k '0' ++ s) = readNat s := by
  induction k with
  | zero => rfl
  | succ k ih =>
    rw [← ih, List.replicate_succ]
    rfl

/-! ### Printable expressions -/

/-- The expressions that can be written, all of them on one line. -/
inductive Printable (line : SourceLine) : Expr → Prop where
  | null : Printable line (.literal line .null)
  | boolean (b : Bool) : Printable line (.literal line (.boolean b))
  | integer {n : Nat} : n < 2 ^ 63 → Printable line (.literal line (.integer n))
  | decimal {n k : Nat} : 0 < k → Printable line (.literal line (.decimal (.finite false n (-k))))
  | string (s : String) : Printable line (.literal line (.string s))
  | reference {name : String} : IsName name.toList → Printable line (.reference line name)
  | call {name : String} {args : List Expr} : IsName name.toList → (∀ e ∈ args, Printable line e) →
      Printable line (.call line name args)
  | negation {e : Expr} : Printable line e → Printable line (.negation line e)
  | operation {l r : Expr} (op : BinaryOp) : Printable line l → Printable line r →
      Printable line (.operation line op.family (some (.text op.key)) l r)

theorem Gap.nil : Gap [] := nofun

namespace Renders

variable {line : SourceLine} {e : Expr} {t : List Char}

/-- A rendering is one of every looser rank. -/
theorem loosen_le {j k : Nat} (h : Renders line j e t) (hjk : j ≤ k) : Renders line k e t := by
  induction hjk with
  | refl => exact h
  | step _ ih => exact .loosen ih

/-- Parentheses make a rendering a primary one. -/
theorem grouped {k : Nat} (h : Renders line k e t) (hk : k ≤ 6) :
    Renders line 0 e ('(' :: (t ++ [')'])) :=
  .group .nil .nil (h.loosen_le hk)

end Renders

theorem BinaryOp.rank_lt (op : BinaryOp) : op.rank < 6 := by
  cases op <;> decide

namespace Printable

variable {line : SourceLine} {e : Expr}

theorem exists_arguments {es : List Expr} (h : ∀ e ∈ es, ∃ t, Renders line 0 e t) :
    ∃ more : List Argument, more.map Argument.expr = es ∧
      (∀ x ∈ more, Gap x.before ∧ Gap x.after) ∧ ∀ x ∈ more, Renders line 6 x.expr x.text := by
  induction es with
  | nil => exact ⟨[], rfl, nofun, nofun⟩
  | cons e es ih =>
    obtain ⟨more, hmap, hgaps, hmore⟩ := ih fun e' he' => h e' (List.mem_cons_of_mem e he')
    obtain ⟨t, ht⟩ := h e List.mem_cons_self
    refine ⟨⟨[], [], e, t⟩ :: more, by rw [List.map_cons, hmap], ?_, ?_⟩
    · exact List.forall_mem_cons.2 ⟨⟨.nil, .nil⟩, hgaps⟩
    · exact List.forall_mem_cons.2 ⟨ht.loosen_le (Nat.zero_le 6), hmore⟩

/-- **Every printable expression has a rendering**, the one with all parentheses. -/
theorem exists_renders (h : Printable line e) : ∃ t, Renders line 0 e t := by
  induction h with
  | null => exact ⟨_, .null⟩
  | boolean b =>
    cases b with
    | true => exact ⟨_, .yes⟩
    | false => exact ⟨_, .no⟩
  | @integer n hn =>
    refine ⟨natDigits n, .integer (digits_natDigits n) ?_ (readNat_natDigits n) hn⟩
    have hlength : (Nat.toDigits 10 n).length ≤ 19 :=
      (Nat.length_toDigits_le_iff (by decide) (by decide)).2 (by omega)
    exact Nat.le_trans hlength (by decide)
  | @decimal n k hk =>
    -- enough zeros in front for the point to have a digit on either side
    have hdigits : ∀ c ∈ List.replicate (k + 1) '0' ++ natDigits n, isDigit c = true := by
      intro c hc
      rcases List.mem_append.1 hc with hc | hc
      · rw [(List.mem_replicate.1 hc).2]
        decide
      · exact (digits_natDigits n).digit c hc
    have hread := readNat_zeros (k + 1) (natDigits n)
    rw [readNat_natDigits] at hread
    have hlength : k < (List.replicate (k + 1) '0' ++ natDigits n).length := by
      rw [List.length_append, List.length_replicate]
      omega
    generalize List.replicate (k + 1) '0' ++ natDigits n = ds at hdigits hread hlength
    have hdrop : (ds.drop (ds.length - k)).length = k := by
      rw [List.length_drop]
      omega
    have hwhole : Digits (ds.take (ds.length - k)) := by
      refine ⟨List.ne_nil_of_length_pos ?_, fun c hc => hdigits c (List.mem_of_mem_take hc)⟩
      rw [List.length_take]
      omega
    have hfraction : Digits (ds.drop (ds.length - k)) := by
      refine ⟨List.ne_nil_of_length_pos ?_, fun c hc => hdigits c (List.mem_of_mem_drop hc)⟩
      rw [hdrop]
      exact hk
    exact ⟨_, .decimal hwhole hfraction (by rwa [List.take_append_drop]) hdrop⟩
  | string s => exact ⟨_, .string s⟩
  | @reference name hname =>
    have hrenders : Renders line 0 (.reference line (String.ofList name.toList)) name.toList :=
      .reference hname
    rw [String.ofList_toList] at hrenders
    exact ⟨_, hrenders⟩
  | @call name args hname _ ih =>
    rw [← String.ofList_toList (s := name)]
    cases args with
    | nil => exact ⟨_, .invoke hname .nil .nil⟩
    | cons e es =>
      obtain ⟨t, ht⟩ := ih e List.mem_cons_self
      obtain ⟨more, rfl, hgaps, hmore⟩ :=
        exists_arguments fun e' he' => ih e' (List.mem_cons_of_mem e he')
      exact ⟨_, .call hname .nil .nil .nil (ht.loosen_le (Nat.zero_le 6)) hgaps hmore⟩
  | negation _ ih =>
    obtain ⟨t, ht⟩ := ih
    have hneg : Renders line 1 _ ('-' :: ([] ++ t)) := .negation .nil (.loosen ht)
    exact ⟨_, hneg.grouped (by decide)⟩
  | operation op _ _ ihl ihr =>
    obtain ⟨t, ht⟩ := ihl
    obtain ⟨u, hu⟩ := ihr
    have hop : Renders line (op.rank + 1) _ (t ++ ([] ++ (op.symbol ++ ([] ++ u)))) :=
      .operation op .nil .nil (ht.loosen_le (Nat.zero_le _)) (hu.loosen_le (Nat.zero_le _))
    exact ⟨_, hop.grouped op.rank_lt⟩

end Printable

/-! ### How renderings begin and end -/

theorem toNat_of_isIdentStart (h : isIdentStart c = true) : 65 ≤ c.toNat ∧ c.toNat ≤ 122 := by
  have hranges : (decide (c.val ≥ 65 ∧ c.val ≤ 90) || c.val ≥ 97 && c.val ≤ 122 || c == '_') = true :=
    h
  simp only [Bool.or_eq_true, Bool.and_eq_true, decide_eq_true_eq, beq_iff_eq] at hranges
  rcases hranges with (⟨h, h'⟩ | ⟨h, h'⟩) | rfl
  · exact ⟨h, Nat.le_trans (show c.toNat ≤ 90 from h') (by decide)⟩
  · exact ⟨Nat.le_trans (by decide) (show 97 ≤ c.toNat from h), h'⟩
  · decide

theorem toNat_of_isIdentChar (h : isIdentChar c = true) : 48 ≤ c.toNat ∧ c.toNat ≤ 122 := by
  have hcases : isIdentStart c = true ∨ c.isDigit = true := by
    simp only [isIdentChar, Char.isAlphanum, Bool.or_eq_true] at h
    rwa [isIdentStart, Bool.or_eq_true, or_right_comm]
  rcases hcases with h | h
  · have := toNat_of_isIdentStart h
    omega
  · simp only [Char.isDigit, Bool.and_eq_true, decide_eq_true_eq] at h
    exact ⟨h.1, Nat.le_trans (show c.toNat ≤ 57 from h.2) (by decide)⟩

theorem isIdentChar_of_isIdentStart (h : isIdentStart c = true) : isIdentChar c = true := by
  simp only [isIdentStart, Bool.or_eq_true] at h
  simp only [isIdentChar, Char.isAlphanum, Bool.or_eq_true]
  exact h.imp_left .inl

theorem not_isBlank_of_isIdentChar (h : isIdentChar c = true) : isBlank c = false := by
  obtain ⟨hlow, hhigh⟩ := toNat_of_isIdentChar h
  simp only [isBlank, Bool.or_eq_false_iff, Bool.and_eq_false_iff, decide_eq_false_iff_not,
    beq_eq_false_iff_ne]
  omega

/-- The digits of the scripts stand apart from the blanks. -/
theorem digitZeros_apart : ∀ z ∈ digitZeros, z = 0x30 ∨ 0xA0 < z ∧ z + 9 < 0x1680 ∨
    0x1680 < z ∧ z + 9 < 0x2000 ∨ 0x3000 < z := by
  decide

theorem not_isBlank_of_isDigit (h : isDigit c = true) : isBlank c = false := by
  have hrange : (0x30 ≤ c.toNat ∧ c.toNat ≤ 0x39) ∨
      ∃ z ∈ digitZeros, 0x80 ≤ c.toNat ∧ z ≤ c.toNat ∧ c.toNat ≤ z + 9 := by
    simp only [isDigit, digitValue?] at h
    split at h
    next =>
      split at h
      next hascii => exact .inl (by simpa using hascii)
      next => cases h
    next hascii =>
      obtain ⟨z, hz, hsome⟩ := List.findSome?_isSome_iff.1 h
      split at hsome
      next hin =>
        simp only [Bool.and_eq_true, decide_eq_true_eq] at hin
        exact .inr ⟨z, hz, Nat.not_lt.1 hascii, hin⟩
      next => cases hsome
  simp only [isBlank, Bool.or_eq_false_iff, Bool.and_eq_false_iff, decide_eq_false_iff_not,
    beq_eq_false_iff_ne]
  rcases hrange with hascii | ⟨z, hz, hrange⟩
  · omega
  · rcases digitZeros_apart z hz with rfl | hz | hz | hz <;> omega

theorem toList_printText (s : String) :
    (printText s).toList = '"' :: (s.toList.flatMap printChar ++ ['"']) := by
  rw [printText, String.toList_ofList]
  rfl

/-- An identifier begins with a character that may begin one, and has no others than those of
identifiers. -/
theorem isIdentifier_eq_true_iff {s : List Char} : isIdentifier s = true ↔
    ∃ c r, s = c :: r ∧ isIdentStart c = true ∧ ∀ d ∈ s, isIdentChar d = true := by
  cases s with
  | nil => simp [isIdentifier]
  | cons c r =>
    simp only [isIdentifier, Bool.and_eq_true, List.all_eq_true]
    constructor
    · rintro ⟨hc, hr⟩
      exact ⟨c, r, rfl, hc, List.forall_mem_cons.2 ⟨isIdentChar_of_isIdentStart hc, hr⟩⟩
    · rintro ⟨_, _, h, hc, hr⟩
      cases h
      exact ⟨hc, (List.forall_mem_cons.1 hr).2⟩

namespace IsName

variable {name : List Char}

theorem head (h : IsName name) : ∃ c r, name = c :: r ∧ isIdentStart c = true := by
  obtain ⟨hfirst, -, -, -⟩ := h
  obtain ⟨c, r, rfl, hc, -⟩ := isIdentifier_eq_true_iff.1 hfirst
  exact ⟨c, _, rfl, hc⟩

/-- The characters of a name are those of identifiers, and points. -/
theorem isIdentChar_or_point (h : IsName name) (hc : c ∈ name) :
    isIdentChar c = true ∨ c = '.' := by
  obtain ⟨hfirst, -, -, hmembers⟩ := h
  rcases List.mem_append.1 hc with hc | hc
  · obtain ⟨-, -, -, -, hall⟩ := isIdentifier_eq_true_iff.1 hfirst
    exact .inl (hall c hc)
  · obtain ⟨m, hm, hc⟩ := List.mem_flatMap.1 hc
    obtain ⟨-, -, -, -, hall⟩ := isIdentifier_eq_true_iff.1 (hmembers m hm)
    exact (List.mem_cons.1 hc).symm.imp_left (hall c)

theorem not_isBlank (h : IsName name) : ∀ c ∈ name, isBlank c = false := by
  intro c hc
  rcases h.isIdentChar_or_point hc with hc | rfl
  · exact not_isBlank_of_isIdentChar hc
  · decide

end IsName

end LineScript
