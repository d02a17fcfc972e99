import LineScript.Proofs.DecimalValue
import LineScript.Proofs.Rounding

/-!
# Fitting is rounding

A precision keeps the digits of a number down to some exponent, its quantum, and rounds there.  The
quantum is where the digits of the precision end, but never below the smallest exponent.  This is
said of the numbers that decimals stand for, by `Precision.rounded`, and `Precision.fit` is proved
to do it, whatever coefficient and exponent the number is given by.

## Main definitions

* `Decimal.number` — the number that a sign, a coefficient and an exponent stand for.
* `Decimal.Precision.rounded` — a number rounded to a precision.
* `Decimal.Precision.Gives` — what a number becomes in a precision.
* `Decimal.Precision.Close` — a number that may be rounded in the place of another.

## Main results

* `Decimal.Precision.fit_gives` — **fitting rounds to the nearest**, or overflows.
* `Decimal.Precision.rounded_eq_roundDigits` — **in the range of exponents only the digits count.**
* `Decimal.Precision.Gives.of_close` — **what is rounded in the place of a number gives what the
  number gives.**
-/

namespace LineScript
namespace Decimal

/-! ### Dropping digits -/

/-- Division by a power of ten, rounded, gives the nearest whole number. -/
theorem roundHalfEven_eq (n drop : ℕ) :
    (roundHalfEven n drop : ℤ) = nearestEven (n / ((10 ^ drop : ℕ) : ℚ)) := by
  have hpos : 0 < 10 ^ drop := Nat.pow_pos (by decide)
  have hunit : (0 : ℚ) < ((10 ^ drop : ℕ) : ℚ) := by exact_mod_cast hpos
  have hbelow : ((n % 10 ^ drop : ℕ) : ℚ) / ((10 ^ drop : ℕ) : ℚ) < 1 / 2 ↔
      2 * (n % 10 ^ drop) < 10 ^ drop := by
    rw [div_lt_div_iff₀ hunit two_pos, one_mul, mul_comm]
    exact_mod_cast Iff.rfl
  have hhalf : ((n % 10 ^ drop : ℕ) : ℚ) / ((10 ^ drop : ℕ) : ℚ) = 1 / 2 ↔
      2 * (n % 10 ^ drop) = 10 ^ drop := by
    rw [div_eq_div_iff hunit.ne' two_ne_zero, one_mul, mul_comm]
    exact_mod_cast Iff.rfl
  simp only [nearestEven, Int.fract_div_natCast_eq_div_natCast_mod, Rat.floor_natCast_div_natCast,
    hbelow, hhalf, roundHalfEven, Bool.or_eq_true, Bool.and_eq_true, beq_iff_eq, decide_eq_true_eq]
  split <;> split <;> omega

/-- Also when there are fewer digits than are dropped: then the number is below a half. -/
theorem dropDigits_eq (c drop : ℕ) :
    (dropDigits c drop : ℤ) = nearestEven (c / ((10 ^ drop : ℕ) : ℚ)) := by
  unfold dropDigits
  split
  next hfew =>
    have hpos : 0 < 10 ^ drop := Nat.pow_pos (by decide)
    have hunit : (0 : ℚ) < ((10 ^ drop : ℕ) : ℚ) := by exact_mod_cast hpos
    have hsmall : 2 * c < 10 ^ drop := by
      have hlt := lt_pow_digitCount c
      have hpow : 10 ^ (digitCount c + 1) ≤ 10 ^ drop := Nat.pow_le_pow_right (by decide) hfew
      rw [Nat.pow_succ] at hpow
      omega
    have hsmall : (2 : ℚ) * c < ((10 ^ drop : ℕ) : ℚ) := by exact_mod_cast hsmall
    symm
    refine nearestEven_of_lt ?_
    rw [Nat.cast_zero, Int.cast_zero, sub_zero, abs_of_nonneg (by positivity),
      div_lt_div_iff₀ hunit two_pos]
    linarith
  next => exact roundHalfEven_eq c drop

/-! ### Decimals as numbers -/

/-- The number that a sign, a coefficient and an exponent stand for. -/
def number (negative : Bool) (c : ℕ) (e : ℤ) : ℚ := signed negative c * 10 ^ e

@[simp] theorem number_zero (s : Bool) (e : ℤ) : number s 0 e = 0 := by
  cases s <;> simp [number, signed]

theorem number_not (s : Bool) (c : ℕ) (e : ℤ) : number (!s) c e = -number s c e := by
  cases s <;> simp [number, signed]

theorem abs_number (s : Bool) (c : ℕ) (e : ℤ) : |number s c e| = c * 10 ^ e := by
  rw [number, abs_mul, abs_of_pos (ten_zpow_pos e)]
  cases s <;> simp [signed]

theorem number_eq_zero {s : Bool} {c : ℕ} {e : ℤ} : number s c e = 0 ↔ c = 0 := by
  rw [← abs_eq_zero, abs_number, mul_eq_zero, or_iff_left (ten_zpow_pos e).ne', Nat.cast_eq_zero]

/-- A nonzero number is negative when it has the sign. -/
theorem number_lt_zero {s : Bool} {c : ℕ} {e : ℤ} (hc : c ≠ 0) : number s c e < 0 ↔ s = true := by
  have hpos : 0 < (c : ℚ) * 10 ^ e :=
    mul_pos (by exact_mod_cast Nat.pos_of_ne_zero hc) (ten_zpow_pos e)
  cases s
  · simpa [number, signed] using hpos.le
  · simpa [number, signed] using hpos

/-- Zeros at the end and a higher exponent are the same number. -/
theorem number_mul_pow (s : Bool) (c k : ℕ) (e : ℤ) : number s (c * 10 ^ k) e = number s c (e + k) := by
  have hsigned : (signed s (c * 10 ^ k) : ℚ) = signed s c * 10 ^ (k : ℤ) := by
    rw [← ten_pow_cast]
    cases s <;> simp [signed]
  rw [number, hsigned, mul_assoc, ← ten_zpow_add, add_comm (k : ℤ) e, number]

/-- A whole number at an exponent, by its sign and its digits. -/
theorem number_natAbs (t e : ℤ) : number (t < 0) t.natAbs e = t * 10 ^ e := by
  have hsigned : signed (t < 0) t.natAbs = t := by
    by_cases h : t < 0
    · simp only [signed, h, decide_true, if_true]
      omega
    · simp only [signed, h, decide_false, Bool.false_eq_true, if_false]
      omega
  rw [number, hsigned]

theorem leading_number {s : Bool} {c : ℕ} {e : ℤ} (hc : c ≠ 0) :
    leading (number s c e) = adjusted c e := by
  have hlow : 10 ^ (digitCount c - 1) ≤ c := by
    by_contra hlt
    rcases Nat.lt_or_ge 1 (digitCount c) with hmore | hone
    · have := (digitCount_le_iff (by omega)).2 (Nat.not_le.1 hlt)
      omega
    · rw [show digitCount c - 1 = 0 by omega] at hlt
      omega
  have hhigh := lt_pow_digitCount c
  have hpos := digitCount_pos c
  have hlow : (10 : ℚ) ^ ((digitCount c : ℤ) - 1) ≤ c := by
    rw [show (digitCount c : ℤ) - 1 = (digitCount c - 1 : ℕ) by omega, ← ten_pow_cast]
    exact_mod_cast hlow
  have hhigh : (c : ℚ) < 10 ^ (digitCount c : ℤ) := by
    rw [← ten_pow_cast]
    exact_mod_cast hhigh
  refine leading_eq ?_ ?_ <;> rw [abs_number, adjusted]
  · rw [show e + (digitCount c : ℤ) - 1 = digitCount c - 1 + e by ring, ten_zpow_add]
    exact mul_le_mul_of_nonneg_right hlow (ten_zpow_pos e).le
  · rw [show e + (digitCount c : ℤ) - 1 + 1 = digitCount c + e by ring, ten_zpow_add]
    exact mul_lt_mul_of_pos_right hhigh (ten_zpow_pos e)

/-! ### Rounding to a precision -/

namespace Precision

variable {p : Precision} {x y : ℚ}

/-- The exponent of the last digit that is kept of `x`. -/
def quantum (p : Precision) (x : ℚ) : ℤ := max (leading x + 1 - p.digits) p.tiny

/-- The number `x` rounded to the precision, as if there were no largest exponent. -/
def rounded (p : Precision) (x : ℚ) : ℚ := roundAt (p.quantum x) x

/-- The number `x` is too large for the precision when it is rounded. -/
def Overflows (p : Precision) (x : ℚ) : Prop := 10 ^ (exponentLimit + 1) ≤ |p.rounded x|

/-- What the number `x` becomes in a precision: a decimal that stands for the rounded number and has
no more digits than the precision, unless that is too large. -/
inductive Gives (p : Precision) (x : ℚ) : Except Fault Decimal → Prop
  /-- The rounded number. -/
  | finite {s : Bool} {c : ℕ} {e : ℤ} (small : ¬ p.Overflows x) (rounds : number s c e = p.rounded x)
    (digits : c < 10 ^ p.digits) : Gives p x (.ok (.finite s c e))
  /-- An overflow, with the sign of the number. -/
  | overflowed (large : p.Overflows x) : Gives p x (p.overflowed (x < 0))

@[simp] theorem rounded_zero (p : Precision) : p.rounded 0 = 0 := roundAt_zero _

theorem not_overflows_zero (p : Precision) : ¬ p.Overflows 0 := by
  rw [Overflows, rounded_zero, abs_zero, not_le]
  exact ten_zpow_pos _

variable {s : Bool} {c : ℕ}

/-- Multiples of the quantum are not rounded. -/
theorem rounded_of_le {e : ℤ} (h : p.quantum (number s c e) ≤ e) :
    p.rounded (number s c e) = number s c e := roundAt_of_multiple h _

/-- A number with few digits and an exponent that is not too small is not rounded. -/
theorem rounded_of_fits {e : ℤ} (hdigits : c < 10 ^ p.digits) (he : p.tiny ≤ e) :
    p.rounded (number s c e) = number s c e := by
  by_cases hc : c = 0
  · rw [hc, number_zero, rounded_zero]
  · refine rounded_of_le (max_le ?_ he)
    have hbound : |number s c e| < 10 ^ (p.digits + e) := by
      rw [abs_number, ten_zpow_add, ← ten_pow_cast]
      exact mul_lt_mul_of_pos_right (by exact_mod_cast hdigits) (ten_zpow_pos e)
    have hleading := (abs_lt_ten_zpow (mt number_eq_zero.1 hc)).1 hbound
    omega

/-- What is dropped from a coefficient is what is dropped from the number. -/
theorem number_dropDigits {e k : ℤ} (h : e ≤ k) :
    number s (dropDigits c (k - e).toNat) k = roundAt k (number s c e) := by
  have hscaled : (c : ℚ) * 10 ^ e / 10 ^ k = c / ((10 ^ (k - e).toNat : ℕ) : ℚ) := by
    rw [ten_pow_toNat (by omega), div_eq_div_iff (ten_zpow_pos _).ne' (ten_zpow_pos _).ne', mul_assoc,
      ← ten_zpow_add, add_sub_cancel]
  have hrounded : ((dropDigits c (k - e).toNat : ℤ) : ℚ) * 10 ^ k = roundAt k (c * 10 ^ e) := by
    rw [dropDigits_eq, roundAt, hscaled]
  cases s
  · simpa [number, signed] using hrounded
  · simpa [number, signed, roundAt_neg] using hrounded

theorem leading_lt_quantum (p : Precision) (x : ℚ) : leading x < p.digits + p.quantum x := by
  have := le_max_left (leading x + 1 - p.digits) p.tiny
  rw [quantum]
  omega

/-- A number has at most the digits of the precision above its quantum, also when it is rounded. -/
theorem abs_rounded_le (p : Precision) (x : ℚ) : |p.rounded x| ≤ 10 ^ (p.digits + p.quantum x) := by
  by_cases hx : x = 0
  · rw [hx, rounded_zero, abs_zero]
    exact (ten_zpow_pos _).le
  · exact abs_roundAt_le_ten_zpow (by omega) ((abs_lt_ten_zpow hx).2 (leading_lt_quantum p x)).le

/-- A leading digit at the largest exponent or below leaves no place for an overflow, except by the
carry of rounding up. -/
theorem digits_add_quantum_le (hle : leading x ≤ exponentLimit) :
    p.digits + p.quantum x ≤ exponentLimit + 1 := by
  have hlimit : exponentLimit = 999999 := rfl
  rw [quantum, tiny]
  omega

theorem overflows_of_leading (hp : 0 < p.digits) (hx : x ≠ 0) (h : exponentLimit < leading x) :
    p.Overflows x := by
  have hlimit : exponentLimit = 999999 := rfl
  have hquantum : p.quantum x ≤ leading x := by
    rw [quantum, tiny]
    omega
  have hkept := ten_zpow_le_abs_roundAt hquantum ((ten_zpow_le_abs hx).2 le_rfl)
  exact (ten_zpow_le.2 h).trans hkept

theorem not_overflows_of_lt {k : ℤ} (hk : k ≤ exponentLimit + 1) (h : |p.rounded x| < 10 ^ k) :
    ¬ p.Overflows x := not_le.2 (h.trans_le (ten_zpow_le.2 hk))

/-- Rounding up adds a digit only to reach the power of ten. -/
theorem eq_pow_of_carry {r : ℕ} (hp : 0 < p.digits) (hr : number s r (p.quantum x) = p.rounded x)
    (hcarry : p.digits < digitCount r) : r = 10 ^ p.digits := by
  refine Nat.le_antisymm ?_ ?_
  · have hle := abs_rounded_le p x
    rw [← hr, abs_number, ten_zpow_add, ← ten_pow_cast] at hle
    exact_mod_cast le_of_mul_le_mul_right hle (ten_zpow_pos (p.quantum x))
  · rw [← Nat.not_lt, ← digitCount_le_iff hp]
    exact Nat.not_le.2 hcarry

/-- The last step of fitting: rounding up may have added a digit, which is then a zero at the end. -/
theorem gives_of_rounded {r : ℕ} (hp : 0 < p.digits) (hle : leading x ≤ exponentLimit)
    (hsign : decide (x < 0) = s) (hr : number s r (p.quantum x) = p.rounded x) :
    p.Gives x (if p.digits < digitCount r then
        if p.top < p.quantum x + 1 then p.overflowed s
        else .ok (.finite s (r / 10) (p.quantum x + 1))
      else .ok (.finite s r (p.quantum x))) := by
  have hpos := ten_zpow_pos (p.quantum x)
  have hroom := digits_add_quantum_le (p := p) hle
  have habs : |p.rounded x| = r * 10 ^ p.quantum x := by rw [← hr, abs_number]
  by_cases hcarry : p.digits < digitCount r
  · rw [if_pos hcarry]
    have hr10 := eq_pow_of_carry hp hr hcarry
    -- a carry is a power of ten, so dropping its last zero loses nothing
    have habs : |p.rounded x| = 10 ^ (p.digits + p.quantum x) := by
      rw [habs, hr10, ten_pow_cast, ten_zpow_add]
    by_cases htop : p.top < p.quantum x + 1
    · rw [if_pos htop, ← hsign]
      refine .overflowed ?_
      rw [Overflows, habs, ten_zpow_le]
      rw [top] at htop
      omega
    · rw [if_neg htop]
      rw [top] at htop
      have hsucc : 10 ^ p.digits = 10 ^ (p.digits - 1) * 10 ^ 1 := by
        rw [← Nat.pow_add, Nat.sub_add_cancel hp]
      have hdrop : r / 10 = 10 ^ (p.digits - 1) := by
        rw [hr10, hsucc, Nat.pow_one, Nat.mul_div_cancel _ (by decide)]
      refine .finite ?_ ?_ ?_
      · rw [Overflows, habs, ten_zpow_le]
        omega
      · rw [hdrop, ← hr, hr10, hsucc, number_mul_pow]
        rfl
      · rw [hdrop]
        exact Nat.pow_lt_pow_right (by decide) (by omega)
  · rw [if_neg hcarry]
    have hdigits : r < 10 ^ p.digits := (digitCount_le_iff hp).1 (Nat.not_lt.1 hcarry)
    refine .finite (not_overflows_of_lt hroom ?_) hr hdigits
    rw [habs, ten_zpow_add, ← ten_pow_cast]
    exact mul_lt_mul_of_pos_right (by exact_mod_cast hdigits) hpos

/-- **Fitting rounds to the nearest**, or overflows: for every coefficient and exponent. -/
theorem fit_gives (hp : 0 < p.digits) (s : Bool) (c : ℕ) (e : ℤ) :
    p.Gives (number s c e) (p.fit s c e) := by
  unfold fit
  by_cases hc : c = 0
  · rw [if_pos (by simpa using hc)]
    refine .finite ?_ ?_ (Nat.pow_pos (by decide))
    · rw [hc, number_zero]
      exact not_overflows_zero p
    · rw [hc, number_zero, number_zero, rounded_zero]
  rw [if_neg (by simpa using hc)]
  have hx : number s c e ≠ 0 := mt number_eq_zero.1 hc
  have hleading := leading_number (s := s) (e := e) hc
  have hfull : e + (digitCount c : ℤ) - p.digits = leading (number s c e) + 1 - p.digits := by
    rw [hleading, adjusted]
    ring
  have hsign : decide (number s c e < 0) = s := by
    rw [Bool.eq_iff_iff, decide_eq_true_iff, number_lt_zero hc]
  -- in terms of the leading digit, the exponent that is rounded at is the quantum
  have hquantum : max (leading (number s c e) + 1 - (p.digits : ℤ)) p.tiny = p.quantum (number s c e) :=
    rfl
  dsimp only
  rw [hfull, hquantum]
  by_cases hlarge : p.top < leading (number s c e) + 1 - p.digits
  · rw [if_pos hlarge]
    rw [top] at hlarge
    have hover := Gives.overflowed (overflows_of_leading hp hx (by omega))
    rwa [hsign] at hover
  rw [if_neg hlarge]
  rw [top] at hlarge
  have hle : leading (number s c e) ≤ exponentLimit := by omega
  by_cases hlow : e < p.quantum (number s c e)
  · rw [if_pos hlow]
    exact gives_of_rounded hp hle hsign (number_dropDigits hlow.le)
  · rw [if_neg hlow]
    have hkept := rounded_of_le (Int.not_lt.1 hlow)
    refine .finite (not_overflows_of_lt le_rfl ?_) hkept.symm ?_
    · rw [hkept, abs_lt_ten_zpow hx]
      omega
    · rw [← digitCount_le_iff hp]
      rw [quantum, ← hfull] at hlow
      omega

/-! ### Where only the digits count -/

/-- The leading digit of a number stands at an exponent that results may have. -/
def InRange (x : ℚ) : Prop := x = 0 ∨ -exponentLimit ≤ leading x ∧ leading x ≤ exponentLimit

/-- **In the range of exponents only the digits count**: a number whose rounding to the digits of the
precision is in the range becomes just that. -/
theorem rounded_eq_roundDigits (hp : 0 < p.digits) (h : InRange (roundDigits p.digits x)) :
    p.rounded x = roundDigits p.digits x ∧ ¬ p.Overflows x := by
  by_cases hx : x = 0
  · rw [hx, rounded_zero, roundDigits, roundAt_zero]
    exact ⟨rfl, not_overflows_zero p⟩
  have hlow : 10 ^ leading x ≤ |roundDigits p.digits x| :=
    ten_zpow_le_abs_roundAt (by omega) ((ten_zpow_le_abs hx).2 le_rfl)
  have hhigh : |roundDigits p.digits x| ≤ 10 ^ (leading x + 1) :=
    abs_roundAt_le_ten_zpow (by omega) ((abs_lt_ten_zpow hx).2 (by omega)).le
  have hne : roundDigits p.digits x ≠ 0 := abs_pos.1 ((ten_zpow_pos _).trans_le hlow)
  obtain ⟨hleast, hmost⟩ := h.resolve_left hne
  have hsame : p.rounded x = roundDigits p.digits x := by
    rcases Int.lt_or_le (leading x) (-exponentLimit) with hbelow | hnormal
    · -- the digits are rounded up to the smallest power of ten in the range
      have hedge : leading x + 1 = -exponentLimit := by
        have hpower := ((ten_zpow_le_abs hne).2 hleast).trans hhigh
        have := ten_zpow_le.1 hpower
        omega
      have hpower : |roundDigits p.digits x| = 10 ^ (leading x + 1) := by
        refine le_antisymm hhigh ((ten_zpow_le_abs hne).2 ?_)
        omega
      have hquantum : p.quantum x = leading x + 1 - p.digits + 1 := by
        rw [quantum, tiny]
        omega
      rw [rounded, hquantum, roundDigits]
      refine roundAt_succ_of_power hp ?_
      rw [← roundDigits, hpower]
      congr 1
      omega
    · have hquantum : p.quantum x = leading x + 1 - p.digits := by
        rw [quantum, tiny]
        omega
      rw [rounded, hquantum, roundDigits]
  refine ⟨hsame, not_overflows_of_lt le_rfl ?_⟩
  rw [hsame, abs_lt_ten_zpow hne]
  omega

/-- A number that overflows has its leading digit at the largest exponent, or above it. -/
theorem Overflows.le_leading (h : p.Overflows x) : exponentLimit ≤ leading x := by
  have hpower := ten_zpow_le.1 (h.trans (abs_rounded_le p x))
  have hlimit : exponentLimit = 999999 := rfl
  rw [quantum, tiny] at hpower
  omega

/-- Only a number whose digits are rounded to one above the range overflows. -/
theorem Overflows.lt_leading (h : p.Overflows x) :
    exponentLimit < leading (roundDigits p.digits x) := by
  -- so far up the least exponent plays no part, and only the digits count
  have hlarge := h.le_leading
  have hquantum : p.quantum x = leading x + 1 - p.digits := by
    have hlimit : exponentLimit = 999999 := rfl
    rw [quantum, tiny]
    omega
  rw [Overflows, rounded, hquantum, ← roundDigits] at h
  have hne := abs_pos.1 ((ten_zpow_pos _).trans_le h)
  have := (ten_zpow_le_abs hne).1 h
  omega

/-! ### Numbers that may stand for another -/

/-- The number `y` may be rounded in the place of `x`: it is equal, or in the same gap, and the digits
of the precision end above it. -/
def Close (p : Precision) (x y : ℚ) : Prop :=
  x = y ∨ ∃ k, SameGap k x y ∧ k + p.digits ≤ leading x

theorem Close.neg (h : p.Close x y) : p.Close (-x) (-y) := by
  rcases h with rfl | ⟨k, hgap, hk⟩
  · exact .inl rfl
  · exact .inr ⟨k, hgap.neg, by rwa [leading_neg]⟩

theorem Close.rounded_eq (hp : 0 < p.digits) (h : p.Close x y) : p.rounded x = p.rounded y := by
  rcases h with rfl | ⟨k, hgap, hk⟩
  · rfl
  · have hleading := hgap.leading_eq (by omega)
    have hquantum : k < p.quantum x := by
      rw [quantum]
      omega
    have hsame : p.quantum y = p.quantum x := by rw [quantum, ← hleading, quantum]
    rw [rounded, rounded, hsame, hgap.roundAt_eq hquantum]

theorem Close.lt_zero_iff (h : p.Close x y) : x < 0 ↔ y < 0 := by
  rcases h with rfl | ⟨k, hgap, -⟩
  · exact Iff.rfl
  · exact hgap.lt_zero_iff

/-- **What is rounded in the place of a number gives what the number gives.** -/
theorem Gives.of_close (hp : 0 < p.digits) (h : p.Close x y) {r : Except Fault Decimal}
    (hy : p.Gives y r) : p.Gives x r := by
  have hrounded := h.rounded_eq hp
  cases hy with
  | finite small rounds digits =>
    rw [Overflows, ← hrounded] at small
    exact .finite small (rounds.trans hrounded.symm) digits
  | overflowed large =>
    rw [Overflows, ← hrounded] at large
    rw [← decide_eq_decide.2 h.lt_zero_iff]
    exact .overflowed large

end Precision
end Decimal
end LineScript
