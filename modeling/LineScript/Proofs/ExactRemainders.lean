import LineScript.Proofs.CorrectRounding

/-!
# Remainders are exact

The remainder of two numbers is what is left of the first after a whole multiple of the second, toward
zero.  It is never rounded: a remainder has no more digits than one of the operands and no lower
exponent, so the precision that holds the operands holds the remainder as well.

## Main definitions

* `Decimal.Precision.Holds` — the numbers that a precision can write.
* `Value.WithinLimits` — the limits on the digits and exponents of operands.

## Main results

* `Decimal.Precision.Holds.remainder` — **a remainder is held where the operands are.**
* `remainders_exact` — **remainders are the exact truncated remainders**, unless the whole quotient has
  more than 1000 digits.
-/

namespace LineScript

/-! ### Remainders of numbers -/

/-- What truncation takes away is less than one, toward zero. -/
theorem truncate_spec (q : ℚ) : |q - truncate q| < 1 ∧ 0 ≤ q * (q - truncate q) := by
  unfold truncate
  have hfloor := Int.floor_le q
  have hfloor' := Int.lt_floor_add_one q
  have hceil := Int.le_ceil q
  have hceil' := Int.ceil_lt_add_one q
  split
  case isTrue h => exact ⟨abs_lt.2 ⟨by linarith, by linarith⟩, mul_nonneg h (by linarith)⟩
  case isFalse h =>
    exact ⟨abs_lt.2 ⟨by linarith, by linarith⟩,
      mul_nonneg_of_nonpos_of_nonpos (not_le.1 h).le (by linarith)⟩

theorem remainder_eq_mul {y : ℚ} (hy : y ≠ 0) (x : ℚ) :
    remainder x y = y * (x / y - truncate (x / y)) := by
  rw [remainder, mul_sub, mul_div_cancel₀ x hy]

theorem abs_remainder_lt {y : ℚ} (hy : y ≠ 0) (x : ℚ) : |remainder x y| < |y| := by
  rw [remainder_eq_mul hy, abs_mul]
  exact mul_lt_of_lt_one_right (abs_pos.2 hy) (truncate_spec (x / y)).1

/-- A remainder has the sign of the dividend. -/
theorem remainder_sign {y : ℚ} (hy : y ≠ 0) (x : ℚ) :
    remainder x y = 0 ∨ 0 < remainder x y ∧ 0 < x ∨ remainder x y < 0 ∧ x < 0 := by
  by_cases hzero : remainder x y = 0
  · exact .inl hzero
  have hx : x ≠ 0 := by
    rintro rfl
    exact hzero (by simp [remainder, truncate])
  -- the remainder times the dividend is a square times what truncation takes from the quotient
  have hproduct : remainder x y * x = y * y * (x / y * (x / y - truncate (x / y))) := by
    rw [remainder_eq_mul hy]
    field_simp
  have hnonneg : 0 ≤ remainder x y * x :=
    hproduct ▸ mul_nonneg (mul_self_nonneg y) (truncate_spec (x / y)).2
  exact .inr (mul_pos_iff.1 (hnonneg.lt_of_ne (mul_ne_zero hzero hx).symm))

namespace Decimal.Precision

variable {p : Precision} {x y : ℚ}

/-! ### Numbers that a precision holds -/

/-- The number `x` can be written in the precision as it is. -/
def Holds (p : Precision) (x : ℚ) : Prop :=
  (∃ s c e, number s c e = x ∧ c < 10 ^ p.digits ∧ p.tiny ≤ e) ∧ |x| < 10 ^ (exponentLimit + 1)

theorem Holds.rounded_eq (h : p.Holds x) : p.rounded x = x := by
  obtain ⟨⟨s, c, e, rfl, hdigits, he⟩, -⟩ := h
  exact rounded_of_fits hdigits he

theorem Holds.not_overflows (h : p.Holds x) : ¬ p.Overflows x :=
  not_overflows_of_lt le_rfl (by rw [h.rounded_eq]; exact h.2)

/-- **A remainder is held where the operands are**: at the lower one of their exponents, it has no more
digits than the operand that has this exponent. -/
theorem Holds.remainder (hx : p.Holds x) (hy : p.Holds y) (hne : y ≠ 0) :
    p.Holds (remainder x y) := by
  refine ⟨?_, (abs_remainder_lt hne x).trans hy.2⟩
  obtain ⟨⟨s₁, c₁, e₁, rfl, hdigits₁, he₁⟩, -⟩ := hx
  obtain ⟨⟨s₂, c₂, e₂, rfl, hdigits₂, he₂⟩, -⟩ := hy
  have hc₂ : c₂ ≠ 0 := mt number_eq_zero.2 hne
  -- the operand with the lower exponent keeps its coefficient, which bounds that of the remainder
  rcases le_total e₁ e₂ with h | h
  · refine ⟨s₁, c₁ % (c₂ * 10 ^ (e₂ - e₁).toNat), e₁, ?_, (Nat.mod_le _ _).trans_lt hdigits₁, he₁⟩
    rw [← remainder_number s₁ s₂, number_lowered h]
  · refine ⟨s₁, c₁ * 10 ^ (e₁ - e₂).toNat % c₂, e₂, ?_,
      (Nat.mod_lt _ (Nat.pos_of_ne_zero hc₂)).trans hdigits₂, he₂⟩
    rw [← remainder_number s₁ s₂, number_lowered h]

end Decimal.Precision

open Decimal (Precision number)

namespace Value

variable {a b v : Value} {x y z : ℚ}

/-! ### Operands within the limits -/

/-- The decimal of a value has at most 1000 digits, and its exponents are within the limits. -/
def WithinLimits (v : Value) : Prop :=
  ∀ s c e, v.payload = .decimal (.finite s c e) →
    digitCount c ≤ 1000 ∧ -1000998 ≤ e ∧ Decimal.adjusted c e ≤ 999999

theorem holds_ofInt {p : Precision} (hdigits : 19 ≤ p.digits) (htiny : p.tiny ≤ 0) {n : ℤ}
    (h : inIntegerRange n = true) : p.Holds n := by
  have hnat : n.natAbs < 10 ^ 19 := (natAbs_le_of_inIntegerRange h).trans_lt (by decide)
  refine ⟨⟨_, n.natAbs, 0, number_ofInt n, ?_, htiny⟩, ?_⟩
  · exact hnat.trans_le (Nat.pow_le_pow_right (by decide) hdigits)
  · have hcast : (n.natAbs : ℚ) < 10 ^ ((19 : ℕ) : ℤ) := by
      rw [← ten_pow_cast]
      exact_mod_cast hnat
    rw [← number_ofInt, Decimal.abs_number, zpow_zero, mul_one]
    exact hcast.trans_le (ten_zpow_le.2 (by decide))

theorem WithinLimits.holds (h : v.WithinLimits) (hv : v.IsNumber x) : Precision.wide.Holds x := by
  cases hv with
  | integer range => exact holds_ofInt (by decide) (by decide) range
  | @decimal s c e =>
    obtain ⟨hdigits, he, hadjusted⟩ := h s c e rfl
    refine ⟨⟨s, c, e, rfl, (digitCount_le_iff (by decide)).1 hdigits, he⟩, ?_⟩
    by_cases hc : c = 0
    · rw [hc, Decimal.number_zero, abs_zero]
      exact ten_zpow_pos _
    · rw [abs_lt_ten_zpow (mt Decimal.number_eq_zero.1 hc), Decimal.leading_number hc]
      exact Int.lt_add_one_iff.2 hadjusted

theorem Becomes.isNumber_of_holds {p : Precision} (h : v.Becomes p z) (hz : p.Holds z) :
    v.IsNumber z := by
  rcases h with ⟨-, hv⟩ | ⟨hlarge, -⟩
  · rwa [hz.rounded_eq] at hv
  · exact absurd hlarge hz.not_overflows

theorem inIntegerRange_tmod {m n : ℤ} (hn : inIntegerRange n = true) (hne : n ≠ 0) :
    inIntegerRange (m.tmod n) = true := by
  have hbound := natAbs_le_of_inIntegerRange hn
  have hlt : (m.tmod n).natAbs < n.natAbs := by
    rw [Int.natAbs_tmod]
    exact Nat.mod_lt _ (Int.natAbs_pos.2 hne)
  rw [inIntegerRange_iff]
  omega

/-- Remainders of whole numbers are whole numbers. -/
theorem kind_module (ha : a.IsNumber x) (hb : b.IsNumber y) (hy : y ≠ 0) (hka : a.kind = .integer)
    (hkb : b.kind = .integer) (hv : combineNumbers .module a b = .ok v) : v.kind = .integer := by
  rcases ha.pair hb with ⟨m, n, f, g, rfl, rfl, rfl, rfl, -, hn⟩ | ⟨hmixed, -⟩
  · have hne := Int.cast_ne_zero.1 hy
    rw [combineNumbers_integers (.inr (isZero_integer hne)), combineIntegers] at hv
    cases hv
    rw [kind_ofInt, if_pos (inIntegerRange_tmod hn hne)]
  · exact absurd hmixed (not_or.2 ⟨not_not.2 hka, not_not.2 hkb⟩)

end Value

/-- **Remainders are exact.**  The operands are within the limits, and the divisor is not zero.  The
remainder fails exactly when the whole quotient has more than 1000 digits.  Otherwise it is what is left
of the dividend after a whole multiple of the divisor, toward zero: it is smaller than the divisor and
has the sign of the dividend.  The remainder of whole numbers is a whole number. -/
theorem remainders_exact (view : HostView) {a b : Value} {x y : ℚ} (ha : a.IsNumber x)
    (hb : b.IsNumber y) (hy : y ≠ 0) (hla : a.WithinLimits) (hlb : b.WithinLimits) :
    (a.combine view .module b = .error (.fault Decimal.Fault.quotientTooLong.toFault) ↔
      10 ^ 1000 ≤ ⌊|x / y|⌋) ∧
    (⌊|x / y|⌋ < 10 ^ 1000 → ∃ v r, a.combine view .module b = .ok (.value v) ∧ v.IsNumber r ∧
      x = y * truncate (x / y) + r ∧ |r| < |y| ∧ (r = 0 ∨ 0 < r ∧ 0 < x ∨ r < 0 ∧ x < 0) ∧
      (a.kind = .integer → b.kind = .integer → v.kind = .integer)) := by
  have hexact : Arithmetic.module.exact x y = if ⌊|x / y|⌋ < 10 ^ 1000 then .ok (remainder x y)
      else .error (.fault Decimal.Fault.quotientTooLong.toFault) := if_neg hy
  rw [Value.combine_of_isNumeric view .module ha.isNumeric hb.isNumeric, ← not_lt]
  by_cases hdigits : ⌊|x / y|⌋ < 10 ^ 1000
  · rw [if_pos hdigits] at hexact
    rcases Value.combineNumbers_answers .module ha hb with ⟨f, herror, -⟩ | ⟨z, v, hz, hanswer, hv⟩
    · cases hexact.symm.trans herror
    cases hexact.symm.trans hz
    have hnumber := hv.isNumber_of_holds ((hla.holds ha).remainder (hlb.holds hb) hy)
    rw [hanswer]
    refine ⟨⟨fun h => (by cases h), fun h => absurd hdigits h⟩, fun _ => ?_⟩
    exact ⟨v, remainder x y, rfl, hnumber, by rw [remainder]; ring, abs_remainder_lt hy x,
      remainder_sign hy x, fun hka hkb => Value.kind_module ha hb hy hka hkb hanswer⟩
  · rw [if_neg hdigits] at hexact
    rcases Value.combineNumbers_answers .module ha hb with ⟨f, herror, hanswer⟩ | ⟨z, v, hz, -⟩
    · cases hexact.symm.trans herror
      rw [hanswer]
      exact ⟨⟨fun _ => hdigits, fun _ => rfl⟩, fun h => absurd h hdigits⟩
    · cases hexact.symm.trans hz

/-- The remainder of -7.5 by 2 is -1.5: the quotient is truncated to -3, and the sign is kept. -/
theorem remainders_exact_negative :
    let a : Value := .decimal (.finite true 75 (-1))
    let b : Value := ⟨.integer 2, .none⟩
    a.IsNumber (-15 / 2) ∧ b.IsNumber 2 ∧
      ∃ v, a.combine default .module b = .ok (.value v) ∧ v.IsNumber (-3 / 2) := by
  intro a b
  have ha : a.IsNumber (number true 75 (-1)) := .decimal
  have hx : number true 75 (-1) = -15 / 2 := by norm_num [number, Decimal.signed]
  have hb : b.IsNumber ((2 : ℤ) : ℚ) := .integer (by decide)
  rw [hx] at ha
  norm_cast at hb
  have hla : a.WithinLimits := by
    rintro _ _ _ ⟨⟩
    decide
  have hlb : b.WithinLimits := by rintro _ _ _ ⟨⟩
  have hfloor : ⌊|(-15 / 2 / 2 : ℚ)|⌋ < 10 ^ 1000 :=
    calc ⌊|(-15 / 2 / 2 : ℚ)|⌋ = 3 := by rw [Int.floor_eq_iff]; norm_num [abs_of_neg]
      _ < 10 ^ 1 := by decide
      _ ≤ 10 ^ 1000 := pow_le_pow_right₀ (by decide) (by decide)
  have htruncate : truncate (-15 / 2 / 2) = -3 := by
    rw [truncate, if_neg (by norm_num), Int.ceil_eq_iff]
    norm_num
  obtain ⟨v, r, hcombine, hv, hsplit, -⟩ :=
    (remainders_exact default ha hb (by norm_num) hla hlb).2 hfloor
  have hr : r = -3 / 2 := by
    rw [htruncate] at hsplit
    push_cast at hsplit
    linarith
  exact ⟨ha, hb, v, hcombine, hr ▸ hv⟩

end LineScript
