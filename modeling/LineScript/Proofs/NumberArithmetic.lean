import LineScript.Proofs.DecimalArithmetic
import LineScript.Value.Arithmetic

/-!
# Arithmetic on values is rational arithmetic, rounded

A value that is a finite number stands for a rational number, and so does the result of an operation
on two of them: the exact result, rounded to the precision of the operation.  It does not matter how
the numbers are given.  Whole numbers of 64 bits are combined without rounding, by other code than
decimals are, and their results are so small that rounding would not change them.

## Main definitions

* `Value.IsNumber` — a value stands for a number.
* `Value.Becomes` — a value is what a number becomes in a precision.
* `Arithmetic.exact` — the exact result of an operation, or its failure.

## Main results

* `Value.combine_exact` — **an operation gives what the exact result becomes**, or fails as the exact
  operation does.
-/

namespace LineScript

open Decimal (Precision number)

/-! ### Values as numbers -/

/-- A value stands for a number: as a whole number of 64 bits or as a finite decimal. -/
inductive Value.IsNumber : Value → ℚ → Prop
  /-- A whole number. -/
  | integer {n : ℤ} {f : Flags} (range : inIntegerRange n = true) : IsNumber ⟨.integer n, f⟩ n
  /-- A finite decimal. -/
  | decimal {s : Bool} {c : ℕ} {e : ℤ} {f : Flags} :
    IsNumber ⟨.decimal (.finite s c e), f⟩ (number s c e)

/-- A value is what the number `z` becomes in a precision: the rounded number, or an infinity. -/
def Value.Becomes (p : Precision) (z : ℚ) (v : Value) : Prop :=
  ¬ p.Overflows z ∧ v.IsNumber (p.rounded z) ∨
    p.Overflows z ∧ v = .decimal (.infinite (z < 0))

namespace Value

variable {a b v : Value} {x y z : ℚ} {p : Precision}

theorem number_ofInt (n : ℤ) : number (n < 0) n.natAbs 0 = n := by
  rw [Decimal.number_natAbs, zpow_zero, mul_one]

theorem isNumber_ofInt (n : ℤ) : (ofInt n).IsNumber n := by
  unfold ofInt
  by_cases h : inIntegerRange n = true
  · rw [if_pos h]
    exact .integer h
  · rw [if_neg h]
    have hdecimal : IsNumber ⟨.decimal (.ofInt n), .none⟩ (number (n < 0) n.natAbs 0) := .decimal
    rwa [number_ofInt] at hdecimal

theorem IsNumber.isNumeric (h : v.IsNumber x) : v.isNumeric = true := by cases h <;> rfl

theorem IsNumber.asDecimal (h : v.IsNumber x) :
    ∃ s c e, v.asDecimal? = some (.finite s c e) ∧ number s c e = x := by
  cases h with
  | integer => exact ⟨_, _, _, rfl, number_ofInt _⟩
  | decimal => exact ⟨_, _, _, rfl, rfl⟩

/-- Two numbers are both whole, or they are taken as decimals. -/
theorem IsNumber.pair (ha : a.IsNumber x) (hb : b.IsNumber y) :
    (∃ m n f g, a = ⟨.integer m, f⟩ ∧ b = ⟨.integer n, g⟩ ∧ x = m ∧ y = n ∧
      inIntegerRange m = true ∧ inIntegerRange n = true) ∨
    (a.kind ≠ .integer ∨ b.kind ≠ .integer) ∧ ∃ s₁ c₁ e₁ s₂ c₂ e₂,
      a.asDecimal? = some (.finite s₁ c₁ e₁) ∧ b.asDecimal? = some (.finite s₂ c₂ e₂) ∧
        x = number s₁ c₁ e₁ ∧ y = number s₂ c₂ e₂ := by
  by_cases hkind : a.kind = .integer ∧ b.kind = .integer
  · cases ha with
    | decimal => cases hkind.1
    | integer hm =>
      cases hb with
      | decimal => cases hkind.2
      | integer hn => exact .inl ⟨_, _, _, _, rfl, rfl, rfl, rfl, hm, hn⟩
  · obtain ⟨s₁, c₁, e₁, ha', hx⟩ := ha.asDecimal
    obtain ⟨s₂, c₂, e₂, hb', hy⟩ := hb.asDecimal
    exact .inr ⟨not_and_or.1 hkind, s₁, c₁, e₁, s₂, c₂, e₂, ha', hb', hx.symm, hy.symm⟩

/-- The test for a divisor that is zero is a test of its number. -/
theorem IsNumber.isZero (h : v.IsNumber x) : v.isZero = .ok (decide (x = 0)) := by
  cases h with
  | @integer n =>
    have hzero : (n == 0) = decide ((n : ℚ) = 0) := by
      rw [Bool.eq_iff_iff, beq_iff_eq, decide_eq_true_iff, Int.cast_eq_zero]
    exact congrArg Except.ok hzero
  | @decimal s c e =>
    have hequal : Decimal.equal (.finite s c e) (.ofInt 0) = .ok (decide (number s c e = 0)) := by
      by_cases hc : c = 0
      · subst hc
        simp [Decimal.equal, Decimal.order?, Decimal.ofInt, Decimal.finiteOrder]
      · cases s <;> simp [Decimal.equal, Decimal.order?, Decimal.ofInt, Decimal.finiteOrder, hc,
          Decimal.number_eq_zero]
    simp only [Value.isZero, hequal]
    rfl

/-- What a decimal operation gives is a value, where an overflow is no fault. -/
theorem becomes_of_gives (hp : p.overflowFails = false) {r : Except Decimal.Fault Decimal}
    (h : p.Gives z r) : ∃ d, r = .ok d ∧ (Value.decimal d).Becomes p z := by
  cases h with
  | finite small rounds digits =>
    refine ⟨_, rfl, .inl ⟨small, ?_⟩⟩
    rw [← rounds]
    exact .decimal
  | overflowed large =>
    refine ⟨.infinite (z < 0), ?_, .inr ⟨large, rfl⟩⟩
    rw [Precision.overflowed, if_neg (by simp [hp])]

/-- A whole number with few digits is not changed by rounding. -/
theorem ofInt_becomes {n : ℤ} (hp : (p.digits : ℤ) ≤ Decimal.exponentLimit + 1)
    (h : n.natAbs < 10 ^ p.digits) : (ofInt n).Becomes p n := by
  have hlimit : Decimal.exponentLimit = 999999 := rfl
  have hrounded : p.rounded (n : ℚ) = n := by
    rw [← number_ofInt]
    refine Precision.rounded_of_fits h ?_
    rw [Precision.tiny]
    omega
  refine .inl ⟨Precision.not_overflows_of_lt hp ?_, hrounded.symm ▸ isNumber_ofInt n⟩
  rw [hrounded, ← number_ofInt, Decimal.abs_number, zpow_zero, mul_one, ← ten_pow_cast]
  exact_mod_cast h

end Value

/-! ### Operations -/

namespace Arithmetic

/-- The precision that the results of an operation are rounded to. -/
def precision : Arithmetic → Precision
  | .divide => .quotient
  | .plus | .subtract | .multiply | .module => .wide

/-- The exact result of an operation on two numbers, or its failure. -/
def exact (x y : ℚ) : Arithmetic → Except Failure ℚ
  | .plus => .ok (x + y)
  | .subtract => .ok (x - y)
  | .multiply => .ok (x * y)
  | .divide => if y = 0 then .error (.ofCause .divisionByZero) else .ok (x / y)
  | .module =>
    if y = 0 then .error (.ofCause .moduloByZero)
    else if ⌊|x / y|⌋ < 10 ^ Precision.wide.digits then .ok (remainder x y)
    else .error (.fault Decimal.Fault.quotientTooLong.toFault)

end Arithmetic

namespace Value

variable {a b v : Value} {x y z : ℚ} {op : Arithmetic}

/-- What has to hold of the result of an operation with the exact result `r`. -/
def Answers (op : Arithmetic) (r : Except Failure ℚ) (answer : Except Failure Value) : Prop :=
  (∃ f, r = .error f ∧ answer = .error f) ∨
    ∃ z v, r = .ok z ∧ answer = .ok v ∧ v.Becomes op.precision z

theorem answers_of_gives {a b : Decimal} (h : op.precision.Gives z (decimalOperation op a b)) :
    Answers op (.ok z) (combineDecimals op a b) := by
  have hp : op.precision.overflowFails = false := by cases op <;> rfl
  obtain ⟨d, hd, hbecomes⟩ := becomes_of_gives hp h
  refine .inr ⟨z, _, rfl, ?_, hbecomes⟩
  rw [combineDecimals, hd]

/-- **Decimals are combined as numbers**, when the divisor is not zero. -/
theorem combineDecimals_answers {s₁ s₂ : Bool} {c₁ c₂ : ℕ} {e₁ e₂ : ℤ}
    (h : zeroDivisor op = none ∨ number s₂ c₂ e₂ ≠ 0) :
    Answers op (op.exact (number s₁ c₁ e₁) (number s₂ c₂ e₂))
      (combineDecimals op (.finite s₁ c₁ e₁) (.finite s₂ c₂ e₂)) := by
  have hwide : 0 < Precision.wide.digits := by decide
  have hquotient : 0 < Precision.quotient.digits := by decide
  cases op with
  | plus => exact answers_of_gives (Decimal.add_gives hwide _ _ _ _ _ _)
  | subtract => exact answers_of_gives (Decimal.sub_gives hwide _ _ _ _ _ _)
  | multiply => exact answers_of_gives (Decimal.mul_gives hwide _ _ _ _ _ _)
  | divide =>
    have hy := h.resolve_left (by simp [zeroDivisor])
    have hc := mt Decimal.number_eq_zero.2 hy
    rw [Arithmetic.exact, if_neg hy]
    exact answers_of_gives (Decimal.div_gives hquotient hc _ _ _ _ _)
  | module =>
    have hy := h.resolve_left (by simp [zeroDivisor])
    have hc := mt Decimal.number_eq_zero.2 hy
    obtain ⟨hlong, hfits⟩ := Decimal.rem_gives hwide hc s₁ c₁ e₁ s₂ e₂
    rw [Arithmetic.exact, if_neg hy]
    by_cases hdigits : ⌊|number s₁ c₁ e₁ / number s₂ c₂ e₂|⌋ < 10 ^ Precision.wide.digits
    · rw [if_pos hdigits]
      exact answers_of_gives (hfits hdigits)
    · rw [if_neg hdigits]
      refine .inl ⟨_, rfl, ?_⟩
      have hrem : decimalOperation .module (.finite s₁ c₁ e₁) (.finite s₂ c₂ e₂) =
        .error .quotientTooLong := hlong (not_lt.1 hdigits)
      rw [combineDecimals, hrem]

theorem inIntegerRange_iff {n : ℤ} :
    inIntegerRange n = true ↔ -(2 ^ 63) ≤ n ∧ n ≤ 2 ^ 63 - 1 := by
  rw [inIntegerRange, Bool.and_eq_true, decide_eq_true_iff, decide_eq_true_iff]
  exact Iff.rfl

theorem natAbs_le_of_inIntegerRange {n : ℤ} (h : inIntegerRange n = true) : n.natAbs ≤ 2 ^ 63 := by
  rw [inIntegerRange_iff] at h
  omega

/-- Sums and products of whole numbers of 64 bits have at most 38 digits. -/
theorem lt_of_le_product {n : ℕ} (h : n ≤ 2 ^ 63 * 2 ^ 63) : n < 10 ^ 38 := h.trans_lt (by decide)

theorem answers_ofInt {n : ℤ} {k : ℕ} (h : n.natAbs < 10 ^ k) (hk : k ≤ op.precision.digits) :
    Answers op (.ok n) (.ok (ofInt n)) := by
  have hp : (op.precision.digits : ℤ) ≤ Decimal.exponentLimit + 1 := by cases op <;> decide
  exact .inr ⟨n, _, rfl, rfl, ofInt_becomes hp (h.trans_le (Nat.pow_le_pow_right (by decide) hk))⟩

/-- A quotient of whole numbers is whole, or it is left to decimals. -/
theorem divideIntegers_answers {m n : ℤ} (hm : m.natAbs ≤ 2 ^ 63) (hy : (n : ℚ) ≠ 0) :
    Answers .divide (Arithmetic.divide.exact m n) (combineIntegers .divide m n) := by
  rw [combineIntegers]
  by_cases hrest : m.tmod n = 0
  · have hsplit : (m : ℚ) / n = (m.tdiv n : ℤ) := by
      rw [div_eq_iff hy]
      exact_mod_cast (Int.tdiv_mul_cancel_of_tmod_eq_zero hrest).symm
    have hle := Int.natAbs_tdiv_le_natAbs m n
    rw [if_pos (by simpa using hrest), Arithmetic.exact, if_neg hy, hsplit]
    exact answers_ofInt (k := 19) ((hle.trans hm).trans_lt (by decide)) (by decide)
  · rw [← number_ofInt n] at hy
    rw [if_neg (by simpa using hrest), ← number_ofInt m, ← number_ofInt n]
    exact combineDecimals_answers (.inr hy)

/-- A remainder of whole numbers is whole, and the quotient is never too long. -/
theorem moduleIntegers_answers {m n : ℤ} (hm : m.natAbs ≤ 2 ^ 63) (hy : (n : ℚ) ≠ 0) :
    Answers .module (Arithmetic.module.exact m n) (combineIntegers .module m n) := by
  have hremainder : remainder (m : ℚ) n = (m.tmod n : ℤ) := by
    simpa using remainder_scaled m n 0
  have hdigits : ⌊|(m : ℚ) / n|⌋ < 10 ^ Precision.wide.digits := by
    have hlt : m.natAbs / n.natAbs < 10 ^ Precision.wide.digits :=
      calc m.natAbs / n.natAbs ≤ m.natAbs := Nat.div_le_self _ _
        _ < 10 ^ 19 := hm.trans_lt (by decide)
        _ ≤ 10 ^ Precision.wide.digits := Nat.pow_le_pow_right (by decide) (by decide)
    rw [← number_ofInt m, ← number_ofInt n, Decimal.floor_abs_div_number]
    exact_mod_cast hlt
  rw [combineIntegers, Arithmetic.exact, if_neg hy, if_pos hdigits, hremainder]
  refine answers_ofInt (lt_of_le_product ?_) (by decide)
  rw [Int.natAbs_tmod]
  exact (Nat.mod_le _ _).trans (hm.trans (by decide))

/-- **Whole numbers are combined as numbers**, when the divisor is not zero. -/
theorem combineIntegers_answers {m n : ℤ} (hm : inIntegerRange m = true) (hn : inIntegerRange n = true)
    (h : zeroDivisor op = none ∨ (n : ℚ) ≠ 0) :
    Answers op (op.exact m n) (combineIntegers op m n) := by
  have hm := natAbs_le_of_inIntegerRange hm
  have hn := natAbs_le_of_inIntegerRange hn
  cases op with
  | plus =>
    rw [Arithmetic.exact, ← Int.cast_add]
    exact answers_ofInt (lt_of_le_product (by omega)) (by decide)
  | subtract =>
    rw [Arithmetic.exact, ← Int.cast_sub]
    exact answers_ofInt (lt_of_le_product (by omega)) (by decide)
  | multiply =>
    rw [Arithmetic.exact, ← Int.cast_mul]
    refine answers_ofInt (lt_of_le_product ?_) (by decide)
    rw [Int.natAbs_mul]
    exact Nat.mul_le_mul hm hn
  | divide => exact divideIntegers_answers hm (h.resolve_left (by simp [zeroDivisor]))
  | module => exact moduleIntegers_answers hm (h.resolve_left (by simp [zeroDivisor]))

/-! ### The test for a zero divisor -/

/-- A divisor that is zero is an error, whatever is divided. -/
theorem combineNumbers_of_zero {cause : Cause} (hop : zeroDivisor op = some cause)
    (hb : b.IsNumber 0) : combineNumbers op a b = .error (.ofCause cause) := by
  have hzero := hb.isZero
  simp only [combineNumbers, hop, hzero]
  rfl

theorem combineNumbers_integers {m n : ℤ} {f g : Flags}
    (h : zeroDivisor op = none ∨ isZero ⟨.integer n, g⟩ = .ok false) :
    combineNumbers op ⟨.integer m, f⟩ ⟨.integer n, g⟩ = combineIntegers op m n := by
  unfold combineNumbers
  cases hop : zeroDivisor op with
  | none => rfl
  | some cause =>
    simp only [h.resolve_left (by simp [hop])]
    rfl

theorem combineNumbers_decimals {d₁ d₂ : Decimal}
    (h : zeroDivisor op = none ∨ b.isZero = .ok false) (hkind : a.kind ≠ .integer ∨ b.kind ≠ .integer)
    (ha : a.asDecimal? = some d₁) (hb : b.asDecimal? = some d₂) :
    combineNumbers op a b = combineDecimals op d₁ d₂ := by
  -- the case of two whole numbers is the one that the hypothesis on the kinds excludes
  have hmixed : ∀ {m n}, a.payload = .integer m → b.payload = .integer n → False := fun hm hn =>
    hkind.elim (· (congrArg Payload.kind hm)) (· (congrArg Payload.kind hn))
  unfold combineNumbers
  cases hop : zeroDivisor op with
  | none => simp only [ha, hb]
  | some cause =>
    simp only [h.resolve_left (by simp [hop]), ha, hb]
    rfl

/-! ### Operations on numbers -/

/-- A divisor that is zero is the first thing to be looked at. -/
theorem exact_of_zero {cause : Cause} (hop : zeroDivisor op = some cause) (x : ℚ) :
    op.exact x 0 = .error (.ofCause cause) := by
  cases op with
  | plus | subtract | multiply => cases hop
  | divide | module =>
    cases hop
    rw [Arithmetic.exact, if_pos rfl]

theorem combineNumbers_answers (op : Arithmetic) (ha : a.IsNumber x) (hb : b.IsNumber y) :
    Answers op (op.exact x y) (combineNumbers op a b) := by
  -- a zero divisor fails before the kinds of the operands matter
  by_cases hzero : (zeroDivisor op).isSome ∧ y = 0
  · obtain ⟨hop, rfl⟩ := hzero
    obtain ⟨cause, hcause⟩ := Option.isSome_iff_exists.1 hop
    exact .inl ⟨_, exact_of_zero hcause x, combineNumbers_of_zero hcause hb⟩
  have h : zeroDivisor op = none ∨ y ≠ 0 := by
    rw [← Option.not_isSome_iff_eq_none, or_iff_not_imp_left, not_not]
    exact fun hop hy => hzero ⟨hop, hy⟩
  have htest : zeroDivisor op = none ∨ b.isZero = .ok false := by
    refine h.imp_right fun hy => ?_
    rw [hb.isZero, decide_eq_false hy]
  rcases ha.pair hb with ⟨m, n, f, g, rfl, rfl, rfl, rfl, hm, hn⟩ |
    ⟨hmixed, s₁, c₁, e₁, s₂, c₂, e₂, ha', hb', rfl, rfl⟩
  · rw [combineNumbers_integers htest]
    exact combineIntegers_answers hm hn h
  · rw [combineNumbers_decimals htest hmixed ha' hb']
    exact combineDecimals_answers h

theorem combine_of_isNumeric (view : HostView) (op : Arithmetic) (ha : a.isNumeric = true)
    (hb : b.isNumeric = true) : a.combine view op b = (combineNumbers op a b).map .value := by
  rw [combine, ha, hb]
  rfl

/-- **An operation on two numbers gives what the exact result becomes** in its precision, or fails as
the exact operation does. -/
theorem combine_exact (view : HostView) (op : Arithmetic) (ha : a.IsNumber x) (hb : b.IsNumber y) :
    (∃ f, op.exact x y = .error f ∧ a.combine view op b = .error f) ∨
      ∃ z v, op.exact x y = .ok z ∧ a.combine view op b = .ok (.value v) ∧
        v.Becomes op.precision z := by
  rw [combine_of_isNumeric view op ha.isNumeric hb.isNumeric]
  rcases combineNumbers_answers op ha hb with ⟨f, hexact, hanswer⟩ | ⟨z, v, hexact, hanswer, hbecomes⟩
  · refine .inl ⟨f, hexact, ?_⟩
    rw [hanswer]
    rfl
  · refine .inr ⟨z, v, hexact, ?_, hbecomes⟩
    rw [hanswer]
    rfl

end Value
end LineScript
