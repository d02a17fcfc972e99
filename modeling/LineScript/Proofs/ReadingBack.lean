import LineScript.Proofs.ExpressionReading
import LineScript.Proofs.LongIntegers
import LineScript.Proofs.SignChange

/-!
# Printed values that are read back

A value is printed the way it is written in a script.  Run as a text, the printed form gives an
equal value, with two kinds of exceptions.  A string is cut where it has a line break that the
printer does not escape, and a decimal may be too long: it has too many digits to be read, or the
change of sign in front of it rounds.

## Main definitions

* `Decimal.Legible` — the numbers that are read back.
* `Payload.ReadsBack` — the values whose printed form is read back.

## Main results

* `number_readsBack_iff` — a number is read back exactly when it is legible.
* `print_reads_back_iff` — **these are the values whose printed form gives an equal value.**
-/

namespace LineScript

open Run Decimal.Precision

variable {σ : Type}

/-! ### Numbers -/

/-- The characters of numbers. -/
def numeralChars : List Char := '-' :: '.' :: asciiDigits

theorem undemanded_numeralChars : Undemanded numeralChars := by
  intro r
  cases r <;> rfl

variable {c : Char}

theorem mem_asciiDigits (h : c.isDigit = true) : c ∈ asciiDigits := by
  have hall : ∀ k, k < 10 → Char.ofNat (48 + k) ∈ asciiDigits := by decide
  simp only [Char.isDigit, Bool.and_eq_true, decide_eq_true_eq] at h
  have hlow : 48 ≤ c.toNat := h.1
  have hhigh : c.toNat ≤ 57 := h.2
  have hdigit := hall (c.toNat - 48) (by omega)
  rwa [Nat.add_sub_cancel' hlow, Char.ofNat_toNat] at hdigit

theorem mem_natDigits {n : Nat} (h : c ∈ natDigits n) : c ∈ asciiDigits :=
  mem_asciiDigits (Nat.isDigit_of_mem_toDigits (by decide) (by decide) h)

/-- The digits of `c · 10 ^ e`, all written out. -/
def Decimal.magnitude (c : Nat) (e : Int) : List Char :=
  let digits := natDigits c
  if 0 ≤ e then if c == 0 then digits else digits ++ List.replicate e.toNat '0'
  else Decimal.pointAt digits (e + digits.length)

theorem Decimal.toList_plain (negative : Bool) (c : Nat) (e : Int) :
    (Decimal.finite negative c e).plain.toList = signText negative ++ magnitude c e := by
  unfold Decimal.plain magnitude
  dsimp only
  split <;> rw [String.toList_ofList]

theorem readNat_append_zeros (s : List Char) (k : Nat) :
    readNat (s ++ List.replicate k '0') = readNat s * 10 ^ k := by
  induction k with
  | zero => simp
  | succ k ih =>
    have hzero : (digitValue? '0').getD 0 = 0 := rfl
    rw [List.replicate_succ', ← List.append_assoc, readNat_append_one, ih, hzero, Nat.add_zero,
      Nat.mul_comm 10, Nat.mul_assoc, Nat.pow_succ]

variable {e : Int}

/-- Without a point, the number is written by its digits and zeros. -/
theorem Decimal.magnitude_whole {c : Nat} (he : 0 ≤ e) :
    (∀ d ∈ magnitude c e, d ∈ asciiDigits) ∧ magnitude c e ≠ [] ∧
      readNat (magnitude c e) = c * 10 ^ e.toNat ∧
      (magnitude c e).length = if c = 0 then 1 else digitCount c + e.toNat := by
  unfold magnitude
  dsimp only
  rw [if_pos he]
  by_cases hc : c = 0
  · subst hc
    rw [Nat.zero_mul, if_pos (beq_self_eq_true 0), if_pos rfl]
    exact ⟨fun d hd => mem_natDigits hd, Nat.toDigits_ne_nil, rfl, rfl⟩
  · rw [if_neg (by simpa using hc), if_neg hc]
    refine ⟨fun d hd => ?_, by simp [natDigits, Nat.toDigits_ne_nil], ?_, ?_⟩
    · rcases List.mem_append.1 hd with hd | hd
      · exact mem_natDigits hd
      · rw [(List.mem_replicate.1 hd).2]
        decide
    · rw [readNat_append_zeros, readNat_natDigits]
    · rw [List.length_append, List.length_replicate, digitCount_eq_length]

/-- With a point, digits stand on either side of it, enough of them behind it. -/
theorem Decimal.magnitude_point {c : Nat} (he : e < 0) :
    ∃ whole fraction, magnitude c e = whole ++ '.' :: fraction ∧
      (∀ d ∈ whole ++ fraction, d ∈ asciiDigits) ∧ whole ≠ [] ∧ fraction ≠ [] ∧
      readNat (whole ++ fraction) = c ∧ (fraction.length : Int) = -e := by
  have hne : natDigits c ≠ [] := Nat.toDigits_ne_nil
  have hpos := List.length_pos_iff.2 hne
  unfold magnitude pointAt
  dsimp only
  rw [if_neg (by omega)]
  -- the point stands before all digits, with zeros in between, or among them
  split
  next hplace =>
    refine ⟨['0'], List.replicate (-(e + (natDigits c).length)).toNat '0' ++ natDigits c, rfl,
      fun d hd => ?_, by simp, by simp [hne], ?_, ?_⟩
    · rw [← List.append_assoc] at hd
      rcases List.mem_append.1 hd with hd | hd
      · rcases List.mem_append.1 hd with hd | hd
        · rw [List.mem_singleton.1 hd]
          decide
        · rw [(List.mem_replicate.1 hd).2]
          decide
      · exact mem_natDigits hd
    · exact (readNat_zeros (_ + 1) (natDigits c)).trans (readNat_natDigits c)
    · rw [List.length_append, List.length_replicate]
      omega
  next hplace =>
    rw [if_neg (by omega)]
    refine ⟨_, _, rfl, fun d hd => ?_, ?_, ?_, ?_, ?_⟩
    · rw [List.take_append_drop] at hd
      exact mem_natDigits hd
    · refine List.ne_nil_of_length_pos ?_
      rw [List.length_take]
      omega
    · refine List.ne_nil_of_length_pos ?_
      rw [List.length_drop]
      omega
    · rw [List.take_append_drop, readNat_natDigits]
    · rw [List.length_drop]
      omega

variable {s : List Char}

theorem digits_of_ascii (h : ∀ d ∈ s, d ∈ asciiDigits) (hne : s ≠ []) : Digits s :=
  ⟨hne, fun d hd => by
    have hall : asciiDigits.all isDigit = true := by decide
    exact List.all_eq_true.1 hall d (h d hd)⟩

/-- A written number is a number for the reader. -/
theorem reads_magnitude (c : Nat) (e : Int) :
    Reads (.number (Decimal.magnitude c e)) (Decimal.magnitude c e) 0 ∧
      (∃ d s, Decimal.magnitude c e = d :: s ∧ isDigit d = true) := by
  by_cases he : 0 ≤ e
  · obtain ⟨hascii, hne, -, -⟩ := Decimal.magnitude_whole (c := c) he
    have hdigits := digits_of_ascii hascii hne
    obtain ⟨d, s, hd⟩ := List.exists_cons_of_ne_nil hne
    have hhead : ∃ d s, Decimal.magnitude c e = d :: s ∧ isDigit d = true :=
      ⟨d, s, hd, hdigits.digit d (hd ▸ List.mem_cons_self)⟩
    exact ⟨.number hhead fun rest hrest => readNumber_whole hdigits hrest, hhead⟩
  · obtain ⟨whole, fraction, heq, hascii, hwhole, hfraction, -, -⟩ :=
      Decimal.magnitude_point (c := c) (Int.not_le.1 he)
    have hw := digits_of_ascii (fun d hd => hascii d (List.mem_append_left _ hd)) hwhole
    have hf := digits_of_ascii (fun d hd => hascii d (List.mem_append_right _ hd)) hfraction
    obtain ⟨d, s, hd⟩ := List.exists_cons_of_ne_nil hwhole
    have hhead : ∃ d s, Decimal.magnitude c e = d :: s ∧ isDigit d = true :=
      ⟨d, s ++ '.' :: fraction, by rw [heq, hd]; rfl, hw.digit d (hd ▸ List.mem_cons_self)⟩
    refine ⟨.number hhead fun rest hrest => ?_, hhead⟩
    rw [heq, List.append_assoc]
    exact readNumber_decimal hw hf hrest

theorem mem_numeralChars {negative : Bool} {c : Nat} :
    ∀ d ∈ Decimal.signText negative ++ Decimal.magnitude c e, d ∈ numeralChars := by
  have hdigit : ∀ {d}, d ∈ asciiDigits → d ∈ numeralChars := fun h =>
    List.mem_cons_of_mem _ (List.mem_cons_of_mem _ h)
  intro d hd
  rcases List.mem_append.1 hd with hd | hd
  · cases negative with
    | true => rw [List.mem_singleton.1 hd]; decide
    | false => cases hd
  · by_cases he : 0 ≤ e
    · exact hdigit ((Decimal.magnitude_whole he).1 d hd)
    · obtain ⟨whole, fraction, heq, hascii, -⟩ := Decimal.magnitude_point (c := c) (Int.not_le.1 he)
      rw [heq] at hd
      rcases List.mem_append.1 hd with hd | hd
      · exact hdigit (hascii d (List.mem_append_left _ hd))
      · rcases List.mem_cons.1 hd with rfl | hd
        · decide
        · exact hdigit (hascii d (List.mem_append_right _ hd))

/-- The expression of a written number. -/
def signedLiteral (line : SourceLine) (negative : Bool) (l : Literal) : Expr :=
  if negative then .negation line (.literal line l) else .literal line l

/-- A written number is the literal of its digits, behind a change of sign when it is negative. -/
theorem readExpression_signed (negative : Bool) (c : Nat) (e : Int) (line : SourceLine) :
    readExpression standardSymbols line (Decimal.signText negative ++ Decimal.magnitude c e) =
      ((Literal.ofNumber (Decimal.magnitude c e)).map (signedLiteral line negative)).mapError
        .fault := by
  obtain ⟨hreads, hhead⟩ := reads_magnitude c e
  have hstrip : strip (Decimal.signText negative ++ Decimal.magnitude c e) =
      Decimal.signText negative ++ Decimal.magnitude c e := by
    refine strip_of_no_blank fun d hd => ?_
    have hall : (numeralChars.all fun d => !isBlank d) = true := by decide
    simpa using List.all_eq_true.1 hall d (mem_numeralChars d hd)
  obtain ⟨d, s, heq, hd⟩ := hhead
  have hne : Decimal.magnitude c e ≠ [] := by
    rw [heq]
    exact List.cons_ne_nil d s
  have hsign : (Decimal.magnitude c e).head? ≠ some '-' := by
    rw [heq]
    exact ne_of_isDigit (by decide) hd
  cases negative with
  | false =>
    have hreads := hreads.loosen_le (Nat.zero_le 6) hne fun _ => hsign
    rw [show Decimal.signText false ++ Decimal.magnitude c e = Decimal.magnitude c e from rfl]
      at hstrip ⊢
    rw [readExpression_of_reads hreads hstrip hne, Term.lower]
    rfl
  | true =>
    -- the sign is read one level above the literal, and the whole on the levels above that
    have hone := hreads.loosen_le (Nat.zero_le 1) hne fun _ => hsign
    have hminus : Reads (.negation (.number (Decimal.magnitude c e)))
        ('-' :: ([] ++ Decimal.magnitude c e)) 1 :=
      .negation .nil hone ⟨d, s, heq, not_isBlank_of_isDigit hd⟩
    have hall := hminus.loosen_le (by decide : 1 ≤ 6) (List.cons_ne_nil _ _)
      fun h => absurd h (by decide)
    rw [show Decimal.signText true ++ Decimal.magnitude c e =
      '-' :: ([] ++ Decimal.magnitude c e) from rfl] at hstrip ⊢
    rw [readExpression_of_reads hall hstrip (List.cons_ne_nil _ _), Term.lower, Term.lower]
    cases Literal.ofNumber (Decimal.magnitude c e) <;> rfl

/-! ### The values of numbers -/

/-- The literal is the number `n · 10 ^ e`. -/
inductive Literal.IsNumber : Literal → Nat → Int → Prop where
  | integer {n : Nat} : n < 2 ^ 63 → IsNumber (.integer n) n 0
  | decimal {n : Nat} {e : Int} : IsNumber (.decimal (.finite false n e)) n e

theorem Decimal.ofInt_natCast (n : Nat) : Decimal.ofInt n = .finite false n 0 := by
  simp [Decimal.ofInt]

/-- A whole number that is not negative is itself, within 64 bits and beyond. -/
theorem Literal.isNumber_ofInt (n : Nat) : (Literal.ofInt n).IsNumber n 0 := by
  unfold Literal.ofInt
  split
  next h =>
    rw [Value.inIntegerRange_iff] at h
    exact .integer (by omega)
  next =>
    rw [Decimal.ofInt_natCast]
    exact .decimal

theorem Literal.IsNumber.asDecimal? {l : Literal} {n : Nat} (h : l.IsNumber n e) :
    (Value.ofLiteral l).asDecimal? = some (.finite false n e) := by
  cases h with
  | integer h => exact congrArg some (Decimal.ofInt_natCast n)
  | decimal => rfl

theorem Literal.IsNumber.value {l : Literal} {n : Nat} (h : l.IsNumber n e) :
    (Value.ofLiteral l).IsNumber (Decimal.number false n e) := by
  cases h with
  | integer h =>
    have hrange : inIntegerRange n = true := Value.inIntegerRange_iff.2 (by omega)
    simpa [Decimal.number, Decimal.signed, Value.ofLiteral] using
      Value.IsNumber.integer (f := .none) hrange
  | decimal => exact .decimal

/-- A number that is not too long is read as the number that it is. -/
theorem ofNumber_magnitude {c : Nat} (h : 0 ≤ e → c ≠ 0 → digitCount c + e.toNat ≤ digitLimit) :
    ∃ (l : Literal) (k : Nat) (e' : Int), Literal.ofNumber (Decimal.magnitude c e) = .ok l ∧
      l.IsNumber (c * 10 ^ k) e' ∧ e = e' + k := by
  by_cases he : 0 ≤ e
  · obtain ⟨hascii, hne, hread, hlength⟩ := Decimal.magnitude_whole (c := c) he
    have hshort : ¬ digitLimit < (Decimal.magnitude c e).length := by
      rw [hlength]
      split
      · decide
      next hc => exact Nat.not_lt.2 (h he hc)
    refine ⟨.ofInt (c * 10 ^ e.toNat : Nat), e.toNat, 0, ?_, Literal.isNumber_ofInt _, by omega⟩
    rw [Literal.ofNumber_digits (digits_of_ascii hascii hne).digit, if_neg hshort, hread]
  · obtain ⟨whole, fraction, heq, hascii, hwhole, -, hread, hlength⟩ :=
      Decimal.magnitude_point (c := c) (Int.not_le.1 he)
    have hw := digits_of_ascii (fun d hd => hascii d (List.mem_append_left _ hd)) hwhole
    refine ⟨.decimal (.finite false c e), 0, e, ?_, ?_, by omega⟩
    · rw [heq, ofNumber_decimal hw, hread, hlength, Int.neg_neg]
    · rw [Nat.pow_zero, Nat.mul_one]
      exact .decimal

theorem ofNumber_too_long {c : Nat} (he : 0 ≤ e) (hc : c ≠ 0)
    (h : digitLimit < digitCount c + e.toNat) :
    ∃ f, Literal.ofNumber (Decimal.magnitude c e) = .error f := by
  obtain ⟨hascii, hne, -, hlength⟩ := Decimal.magnitude_whole (c := c) he
  rw [if_neg hc] at hlength
  rw [Literal.ofNumber_digits (digits_of_ascii hascii hne).digit, if_pos (hlength ▸ h)]
  exact ⟨_, rfl⟩

theorem Value.asDecimal?_ofInt (n : Int) : (Value.ofInt n).asDecimal? = some (.ofInt n) := by
  unfold Value.ofInt
  by_cases hrange : inIntegerRange n = true
  · rw [if_pos hrange]
    rfl
  · rw [if_neg hrange]
    rfl

/-- A number goes to the host and comes back as the same number. -/
theorem Value.asDecimal?_ofHost {v : Value} {d : Decimal} (h : v.asDecimal? = some d) :
    (Value.ofHost v.toHost).asDecimal? = some d := by
  unfold Value.asDecimal? at h
  unfold Value.toHost Value.toHostBare
  split at h
  next n hv =>
    cases h
    rw [hv]
    exact Value.asDecimal?_ofInt n
  next d' hv =>
    cases h
    rw [hv]
    rfl
  next => cases h

/-! ### Numbers that are read back -/

/-- The run of a text gives a value that is equal to this one. -/
def ReadsBack (r : Runner σ) (text : String) (v : Value) : Prop :=
  ∃ h r', r.eval text = (.ok h, r') ∧ Value.equal r.view (.ofHost h) v = .ok true

section Numbers

variable {r : Runner σ} {text : String} {v w : Value}

theorem Gives.readsBack_iff (h : Gives r text w) :
    ReadsBack r text v ↔ Value.equal r.view (.ofHost w.toHost) v = .ok true := by
  obtain ⟨r', hr'⟩ := h
  constructor
  · rintro ⟨h, r'', hr'', hequal⟩
    rw [hr'] at hr''
    cases hr''
    exact hequal
  · exact fun hequal => ⟨_, r', hr', hequal⟩

theorem Fails.not_readsBack (h : Fails r text) : ¬ ReadsBack r text v := by
  rintro ⟨h', r'', hr'', -⟩
  obtain ⟨stop, r', hr'⟩ := h
  rw [hr'] at hr''
  cases hr''

/-- The number has not too many digits to be read, and its sign can be changed if it has one. -/
def Decimal.Legible (negative : Bool) (c : Nat) (e : Int) : Prop :=
  (0 ≤ e → c ≠ 0 → digitCount c + e.toNat ≤ digitLimit) ∧ (negative = true → SignChanges c e)

/-- The script of a written number. -/
theorem parse_number {τ : Type} (negative : Bool) (c : Nat) (e : Int) (load : Loader τ)
    (base : Option String) (t : τ) :
    let line := onlyLine (Decimal.signText negative ++ Decimal.magnitude c e)
    (parse standardSymbols load base none
        (String.ofList (Decimal.signText negative ++ Decimal.magnitude c e)) t).1 =
      ((Literal.ofNumber (Decimal.magnitude c e)).map fun l =>
        ⟨line, [.expression line (signedLiteral line negative l)]⟩).mapError .fault := by
  intro line
  have hchars := @mem_numeralChars e negative c
  obtain ⟨d, s, hd⟩ : ∃ d s, Decimal.signText negative ++ Decimal.magnitude c e = d :: s := by
    obtain ⟨d, s, hd, -⟩ := (reads_magnitude c e).2
    cases negative with
    | false => exact ⟨d, s, hd⟩
    | true => exact ⟨'-', _, rfl⟩
  have hplain : (numeralChars.all fun d =>
      !isLineBreak d && !isBlank d && d != '\\' && !isQuote d) = true := by decide
  have hall : ∀ d ∈ Decimal.signText negative ++ Decimal.magnitude c e, isLineBreak d = false ∧
      isBlank d = false ∧ d ≠ '\\' ∧ isQuote d = false := by
    intro d hd
    simpa [and_assoc] using List.all_eq_true.1 hplain d (hchars d hd)
  have hread := readExpression_signed negative c e line
  rw [show line = onlyLine (d :: s) from congrArg onlyLine hd] at hread ⊢
  rw [hd] at hchars hall hread ⊢
  rw [parse_expression undemanded_numeralChars (by decide) (fun d hd => (hall d hd).1) ?_
    (hall d List.mem_cons_self).2.1 (hall d List.mem_cons_self).2.2.1
    (strip_of_no_blank fun d hd => (hall d hd).2.1), hread]
  · cases Literal.ofNumber (Decimal.magnitude c e) <;> rfl
  · rw [mask_of_quoteFree fun d hd => (hall d hd).2.2.2]
    exact hchars

/-- **A number is read back exactly when it is legible.** -/
theorem number_readsBack_iff (hsymbols : r.env.symbols = standardSymbols) {negative : Bool}
    {c : Nat} (hv : v.asDecimal? = some (.finite negative c e)) :
    ReadsBack r (String.ofList (Decimal.signText negative ++ Decimal.magnitude c e)) v ↔
      Decimal.Legible negative c e := by
  have hparse := fun t => parse_number negative c e r.env.host.load r.env.base t
  rw [← hsymbols] at hparse
  by_cases hlong : 0 ≤ e → c ≠ 0 → digitCount c + e.toNat ≤ digitLimit
  · -- the zeros of a whole number are read as digits, so the literal has a factor `10 ^ k` more
    obtain ⟨l, k, e', hl, hnumber, rfl⟩ := ofNumber_magnitude hlong
    simp only [hl] at hparse
    have hsame : ∀ {w : Value} {s' c' e''}, w.asDecimal? = some (.finite s' c' e'') →
        (Value.equal r.view (.ofHost w.toHost) v = .ok true ↔
          Decimal.number s' c' e'' = Decimal.number negative c (e' + k)) := fun hd => by
      rw [Value.equal_of_finite r.view (Value.asDecimal?_ofHost hd) hv, Except.ok.injEq,
        decide_eq_true_iff]
    cases negative with
    | false =>
      have hgives := gives_of_returns (Value.flags_ofLiteral l) hparse
        fun inner => returns_literal l
      rw [hgives.readsBack_iff, hsame hnumber.asDecimal?]
      exact iff_of_true (Decimal.number_mul_pow ..) ⟨hlong, Bool.noConfusion⟩
    | true =>
      -- the literal is read without its sign, which is then changed at the precision of signs
      have hvalue := hnumber.value
      rw [Decimal.number_mul_pow] at hvalue
      rw [Decimal.Legible, and_iff_right hlong, forall_prop_of_true rfl, ← holds_number_iff]
      rcases Value.negate_eq hvalue with ⟨hsmall, w, hw, hrounded⟩ | ⟨hlarge, hw⟩
      · have hgives := gives_of_returns (Value.flags_of_negate hw) hparse
          fun inner => returns_negation hw
        obtain ⟨s', c', e'', hd, heq⟩ := hrounded.asDecimal
        rw [hgives.readsBack_iff, hsame hd, heq, holds_iff (by decide), and_iff_right hsmall,
          ← Bool.not_false, Decimal.number_not, neg_inj]
      · have hfails := fails_of_breaks hparse fun inner => breaks_negation hw
        exact iff_of_false hfails.not_readsBack fun hholds => hholds.not_overflows hlarge
  · obtain ⟨he, hc, hdigits⟩ : 0 ≤ e ∧ c ≠ 0 ∧ digitLimit < digitCount c + e.toNat := by
      simpa [Classical.not_imp] using hlong
    obtain ⟨f, hf⟩ := ofNumber_too_long he hc hdigits
    simp only [hf] at hparse
    exact iff_of_false (fails_of_parse hparse).not_readsBack fun hlegible => hlong hlegible.1

end Numbers

/-! ### Strings -/

/-- The characters of masked strings. -/
def quotedChars : List Char := ['"', '_']

theorem undemanded_quotedChars : Undemanded quotedChars := by
  intro r
  cases r <;> rfl

/-- Whether the printer leaves a line break in place of this character. -/
def cutsLine (c : Char) : Bool := isLineBreak c && c != '\n'

theorem isLineBreak_of_all (h : s.all (!isLineBreak ·) = true) :
    ∀ d ∈ s, isLineBreak d = false :=
  fun d hd => by simpa using List.all_eq_true.1 h d hd

theorem isLineBreak_printChar (hc : cutsLine c = false) :
    ∀ d ∈ printChar c, isLineBreak d = false := by
  unfold printChar
  split
  case h_5 _ _ hfeed _ =>
    intro d hd
    rw [List.mem_singleton.1 hd]
    have hne : (c != '\n') = true := by simpa using hfeed
    rwa [cutsLine, hne, Bool.and_true] at hc
  all_goals exact isLineBreak_of_all (by decide)

theorem isLineBreak_print (hs : ∀ c ∈ s, cutsLine c = false) :
    ∀ d ∈ s.flatMap printChar, isLineBreak d = false := by
  intro d hd
  obtain ⟨c, hc, hd⟩ := List.mem_flatMap.1 hd
  exact isLineBreak_printChar (hs c hc) d hd

theorem printChar_of_cutsLine (hc : cutsLine c = true) : printChar c = [c] := by
  unfold printChar
  split
  case h_5 => rfl
  all_goals exact absurd hc (by decide)

/-- A text up to its first line break is its first line. -/
theorem splitLines_break (hs : ∀ d ∈ s, isLineBreak d = false) (hc : isLineBreak c = true)
    (rest : List Char) : ∃ more, splitLines (s ++ c :: rest) = s :: more := by
  rw [splitLines, linesFrom_skip hs, List.append_nil]
  by_cases hpair : c = '\r' ∧ ∃ rest', rest = '\n' :: rest'
  · obtain ⟨rfl, rest', rfl⟩ := hpair
    exact ⟨_, by rw [linesFrom, List.reverse_reverse]⟩
  · rw [linesFrom.eq_3 _ _ _ fun rest' hc' hrest => hpair ⟨hc', rest', hrest⟩, if_pos hc,
      List.reverse_reverse]
    exact ⟨_, rfl⟩

section Literals

variable {r : Runner σ} (hsymbols : r.env.symbols = standardSymbols)

include hsymbols

/-- A literal on one line is its value. -/
theorem gives_of_renders {chars s : List Char} {l : Literal} (hchars : Undemanded chars)
    (hsep : ';' ∉ chars)
    (hlines : ∀ d ∈ c :: s, isLineBreak d = false) (hmask : mask (c :: s) ⊆ chars)
    (hc : isBlank c = false) (hcomment : c ≠ '\\') (hstrip : strip (c :: s) = c :: s)
    (h : ∀ line, Renders line 0 (.literal line l) (c :: s)) :
    Gives r (String.ofList (c :: s)) (.ofLiteral l) := by
  have hread : ∀ line, readExpression standardSymbols line (c :: s) = .ok (.literal line l) := by
    intro line
    obtain ⟨term, hterm, hreads⟩ := ((h line).loosen_le (Nat.zero_le 6)).reads
    rw [readExpression_of_reads hreads hstrip (List.cons_ne_nil c s), hterm]
    rfl
  have hparse : ∀ t,
      (parse r.env.symbols r.env.host.load r.env.base none (String.ofList (c :: s)) t).1 =
        .ok ⟨onlyLine (c :: s),
          [.expression (onlyLine (c :: s)) (.literal (onlyLine (c :: s)) l)]⟩ := by
    intro t
    rw [hsymbols, parse_expression hchars hsep hlines hmask hc hcomment hstrip, hread]
    rfl
  exact gives_of_returns (Value.flags_ofLiteral l) hparse fun inner => returns_literal l

/-- A string that the printer keeps on its line is read back. -/
theorem gives_printText {s : String} (hs : ∀ c ∈ s.toList, cutsLine c = false) :
    Gives r (printText s) (.string s) := by
  rw [← String.ofList_toList (s := printText s), toList_printText]
  refine gives_of_renders hsymbols (l := .string s) undemanded_quotedChars (by decide) ?_ ?_
    (by decide) (by decide) ?_ fun line => ?_
  · intro d hd
    rcases List.mem_cons.1 hd with rfl | hd
    · decide
    · rcases List.mem_append.1 hd with hd | hd
      · exact isLineBreak_print hs d hd
      · rw [List.mem_singleton.1 hd]
        decide
  · intro d hd
    rcases List.mem_cons.1 hd with rfl | hd
    · decide
    · have hmask := ((stringBody_print s.toList).literalBody.behind rfl []).1
      rcases List.mem_append.1 (hmask ▸ hd :) with hd | hd
      · rw [(List.mem_replicate.1 hd).2]
        decide
      · rw [List.mem_singleton.1 hd]
        decide
  · exact (solid_between (by decide) (by decide) _).strip_eq
  · exact toList_printText s ▸ Renders.string s

/-- A line break that the printer leaves in a string cuts its text, and what stands before it cannot
be read. -/
theorem fails_printText {s : String} (hc : s.toList.find? cutsLine = some c) :
    Fails r (printText s) := by
  obtain ⟨hcut, before, behind, hs, hbefore⟩ := List.find?_eq_some_iff_append.1 hc
  have hbreak : isLineBreak c = true := (Bool.and_eq_true_iff.1 hcut).1
  have hlines : ∀ d ∈ '"' :: before.flatMap printChar, isLineBreak d = false := by
    intro d hd
    rcases List.mem_cons.1 hd with rfl | hd
    · decide
    · exact isLineBreak_print (fun c hc => by simpa using hbefore c hc) d hd
  -- the first line ends at the break, and the literal on it has no end
  obtain ⟨more, hmore⟩ : ∃ more, splitLines (printText s).toList =
      ('"' :: before.flatMap printChar) :: more := by
    obtain ⟨more, hmore⟩ := splitLines_break hlines hbreak (behind.flatMap printChar ++ ['"'])
    refine ⟨more, ?_⟩
    rw [toList_printText, hs, List.flatMap_append, List.flatMap_cons,
      printChar_of_cutsLine hcut]
    simpa using hmore
  obtain ⟨hafter, hmask⟩ := (stringBody_print before).literalBody.inside
  have hquoted : ∀ d ∈ mask ('"' :: before.flatMap printChar), d ∈ quotedChars := by
    intro d hd
    rcases List.mem_cons.1 hd with rfl | hd
    · decide
    · rw [(List.mem_replicate.1 (hmask ▸ hd :)).2]
      decide
  have hopen : ¬ Closed (strip ('"' :: before.flatMap printChar)) := by
    rw [closed_strip]
    exact fun h => Quoting.noConfusion (hafter.symm.trans h)
  have hline : '\n' ∉ strip ('"' :: before.flatMap printChar) := fun h =>
    Bool.noConfusion (hlines '\n' ((strip_sublist _).subset h))
  obtain ⟨cause, -, hf⟩ := readExpression_unclosed plain_standard hopen hline
    (onlyLine ('"' :: before.flatMap printChar))
  refine fails_of_parse (f := .atLine cause (onlyLine ('"' :: before.flatMap printChar))) fun t => ?_
  rw [hsymbols, ← String.ofList_toList (s := printText s)]
  exact parse_of_unread undemanded_quotedChars (by decide) hmore hquoted (by decide) (by decide)
    hf _ _ t

end Literals

/-! ### Values that are read back -/

/-- The values that are written in one word of a script: null, truth values, whole numbers of 64
bits, finite decimals and strings. -/
inductive Payload.Written : Payload → Prop where
  | null : Written .null
  | boolean (b : Bool) : Written (.boolean b)
  | integer {n : Int} : inIntegerRange n = true → Written (.integer n)
  | decimal (negative : Bool) (c : Nat) (e : Int) : Written (.decimal (.finite negative c e))
  | string (s : String) : Written (.string s)

/-- The values whose printed form is read back. -/
def Payload.ReadsBack : Payload → Prop
  | .decimal (.finite negative c e) => Decimal.Legible negative c e
  | .string s => ∀ c ∈ s.toList, isLineBreak c = true → c = '\n'
  | _ => True

theorem digitCount_of_inIntegerRange {n : Int} (h : inIntegerRange n = true) :
    digitCount n.natAbs ≤ 19 := by
  rw [Value.inIntegerRange_iff] at h
  exact (digitCount_le_iff (by decide)).2 (by omega)

theorem legible_of_inIntegerRange {n : Int} (h : inIntegerRange n = true) :
    Decimal.Legible (decide (n < 0)) n.natAbs 0 := by
  have hcount := digitCount_of_inIntegerRange h
  refine ⟨fun _ _ => Nat.le_trans hcount (by decide), fun _ => ?_⟩
  exact Decimal.signChanges_of_digits (Nat.le_trans hcount (by decide))

theorem Decimal.magnitude_zero (c : Nat) : magnitude c 0 = natDigits c := by
  unfold magnitude
  dsimp only
  rw [if_pos (Int.le_refl 0), Int.toNat_zero, List.replicate_zero, List.append_nil, ite_self]

theorem intText_eq (n : Int) : intText n =
    String.ofList (Decimal.signText (decide (n < 0)) ++ Decimal.magnitude n.natAbs 0) := by
  rw [Decimal.magnitude_zero]
  cases n with
  | ofNat m =>
    have hsign : decide (Int.ofNat m < 0) = false := decide_eq_false (by simp)
    rw [hsign]
    rfl
  | negSucc m =>
    have hsign : decide (Int.negSucc m < 0) = true := decide_eq_true (Int.negSucc_lt_zero m)
    rw [hsign]
    rfl

section Words

variable {r : Runner σ}

theorem undemanded_null : Undemanded ['$'] := by
  intro r
  cases r <;> rfl

theorem undemanded_booleans : Undemanded "truefals".toList := by
  intro r
  cases r <;> rfl

theorem gives_null (hsymbols : r.env.symbols = standardSymbols) : Gives r "$" .null :=
  gives_of_renders hsymbols (l := .null) undemanded_null (by decide)
    (isLineBreak_of_all (by decide)) (by decide) (by decide) (by decide) (by decide) fun _ => .null

theorem gives_boolean (hsymbols : r.env.symbols = standardSymbols) (b : Bool) :
    Gives r (if b then "true" else "false") (.boolean b) := by
  cases b with
  | false =>
    exact gives_of_renders hsymbols (l := .boolean false) undemanded_booleans (by decide)
      (isLineBreak_of_all (by decide)) (by decide) (by decide) (by decide) (by decide) fun _ => .no
  | true =>
    exact gives_of_renders hsymbols (l := .boolean true) undemanded_booleans (by decide)
      (isLineBreak_of_all (by decide)) (by decide) (by decide) (by decide) (by decide) fun _ => .yes

end Words

/-- **The printed form of a value gives an equal value, exactly when it can be read back.**  This
is all but the strings with a line break other than a line feed, and the decimals that are too long
to be read or to change their sign. -/
theorem print_reads_back_iff (r : Runner σ) (hsymbols : r.env.symbols = standardSymbols) (v : Value)
    (hv : v.payload.Written) :
    ∃ text, v.print standardSymbols r.view = .ok text ∧
      (ReadsBack r text v ↔ v.payload.ReadsBack) := by
  obtain ⟨payload, flags⟩ := v
  cases hv with
  | null => exact ⟨_, rfl, (gives_null hsymbols).readsBack_iff.trans (iff_of_true rfl trivial)⟩
  | boolean b =>
    refine ⟨_, rfl, (gives_boolean hsymbols b).readsBack_iff.trans (iff_of_true ?_ trivial)⟩
    cases b <;> rfl
  | @integer n hn =>
    refine ⟨intText n, writeWhole_of_le ?_, ?_⟩
    · exact Nat.le_trans (digitCount_of_inIntegerRange hn) (by decide)
    · rw [intText_eq, number_readsBack_iff hsymbols rfl]
      exact iff_of_true (legible_of_inIntegerRange hn) trivial
  | decimal negative c e =>
    refine ⟨(Decimal.finite negative c e).plain, rfl, ?_⟩
    rw [← String.ofList_toList (s := Decimal.plain _), Decimal.toList_plain,
      number_readsBack_iff hsymbols rfl]
    rfl
  | string s =>
    refine ⟨printText s, rfl, ?_⟩
    have hcut : ∀ c, cutsLine c = true ↔ isLineBreak c = true ∧ c ≠ '\n' := by
      intro c
      simp [cutsLine]
    cases hfind : s.toList.find? cutsLine with
    | none =>
      have hkept := List.find?_eq_none.1 hfind
      have hgives := gives_printText hsymbols fun c hc => Bool.eq_false_iff.2 (hkept c hc)
      refine hgives.readsBack_iff.trans (iff_of_true ?_ fun c hc hbreak => ?_)
      · exact congrArg Except.ok (beq_self_eq_true s)
      · by_contra hne
        exact hkept c hc ((hcut c).2 ⟨hbreak, hne⟩)
    | some c =>
      obtain ⟨hbreak, hne⟩ := (hcut c).1 (List.find?_some hfind)
      refine iff_of_false (fails_printText hsymbols hfind).not_readsBack fun hall => ?_
      exact hne (hall c (List.mem_of_find?_eq_some hfind) hbreak)

/-- A string with all that the printer escapes, and with marks of statements. -/
def awkwardText : String := "say \"x = 1; y\" -> '$'\n\tC:\\new // \\"

/-- The string is read back from its printed form. -/
theorem print_reads_back_awkward :
    (Runner.create quietEnv ()).env.symbols = standardSymbols ∧
      (Value.string awkwardText).payload.Written ∧
      ReadsBack (Runner.create quietEnv ()) (printText awkwardText) (.string awkwardText) := by
  obtain ⟨text, hprint, hiff⟩ :=
    print_reads_back_iff (Runner.create quietEnv ()) rfl (.string awkwardText) (.string awkwardText)
  cases hprint
  have hbreaks : (awkwardText.toList.all fun c => !isLineBreak c || c == '\n') = true := by
    decide +kernel
  refine ⟨rfl, .string awkwardText, hiff.2 fun c hc hbreak => ?_⟩
  simpa [hbreak] using List.all_eq_true.1 hbreaks c hc

/-- **A string with a carriage return is printed as a text that cannot be run.** -/
theorem carriage_return_not_read_back :
    (Value.string "a\rb").payload.Written ∧
      (Value.string "a\rb").print standardSymbols (Runner.create quietEnv ()).view =
        .ok "\"a\rb\"" ∧
      Fails (Runner.create quietEnv ()) "\"a\rb\"" := by
  have hcut : ("a\rb".toList.find? cutsLine) = some '\r' := by decide +kernel
  have hprint : printText "a\rb" = "\"a\rb\"" := by decide +kernel
  refine ⟨.string _, congrArg Except.ok hprint, ?_⟩
  rw [← hprint]
  exact fails_printText rfl hcut

end LineScript
