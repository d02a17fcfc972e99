import Mathlib.Algebra.Order.Round
import Mathlib.Data.Int.Log
import Mathlib.Data.Rat.Floor
import Mathlib.Tactic.FieldSimp
import Mathlib.Tactic.Linarith
import LineScript.Decimal.Basic

/-!
# Rounding rational numbers

A number is rounded at an exponent to the nearest multiple of that power of ten, a half to the even
one, and to so many digits by rounding at the exponent where they end.

Two numbers are rounded to the same multiple when they lie in the same gap between multiples of
`5 · 10 ^ k`, for any `k` below the exponent.  This is all that has to be known of a number that is
not computed in full.

## Main definitions

* `nearestEven` — the nearest whole number, a half to the even one.
* `leading` — the exponent of the leading digit.
* `roundAt`, `roundDigits` — rounding at an exponent, and to a number of digits.
* `HasDigits` — a number that can be written with so many digits.
* `SameGap` — two numbers that no rounding at a higher exponent tells apart.

## Main results

* `nearestEven_spec`, `nearestEven_eq` — **the nearest whole number is the only one** that is at most
  a half away, and even if it is just a half.
* `roundDigits_of_hasDigits` — numbers of few digits are not changed.
* `SameGap.roundAt_eq` — **numbers of the same gap are rounded to the same multiple.**
-/

namespace LineScript

/-! ### The nearest whole number -/

/-- The whole number nearest to `x`; a half goes to the even neighbour. -/
def nearestEven (x : ℚ) : ℤ :=
  if Int.fract x < 1 / 2 ∨ Int.fract x = 1 / 2 ∧ ⌊x⌋ % 2 = 0 then ⌊x⌋ else ⌊x⌋ + 1

/-- The nearest whole number is at most a half away, and even if it is just a half. -/
theorem nearestEven_spec (x : ℚ) :
    |x - nearestEven x| ≤ 1 / 2 ∧ (|x - nearestEven x| = 1 / 2 → nearestEven x % 2 = 0) := by
  have hfloor := Int.self_sub_floor x
  have hnonneg := Int.fract_nonneg x
  have hlt := Int.fract_lt_one x
  unfold nearestEven
  split
  next hdown =>
    rw [hfloor, abs_of_nonneg hnonneg]
    rcases hdown with hbelow | ⟨hhalf, heven⟩
    · exact ⟨hbelow.le, fun h => absurd h hbelow.ne⟩
    · exact ⟨hhalf.le, fun _ => heven⟩
  next hup =>
    rw [not_or, not_and, not_lt] at hup
    have hleft : x - ((⌊x⌋ + 1 : ℤ) : ℚ) = -(1 - Int.fract x) := by
      rw [← hfloor]
      push_cast
      ring
    rw [hleft, abs_neg, abs_of_nonneg (by linarith)]
    refine ⟨by linarith, fun h => ?_⟩
    have hodd := hup.2 (by linarith)
    omega

/-- There is only one such number. -/
theorem nearestEven_eq {x : ℚ} {n : ℤ} (h : |x - n| ≤ 1 / 2)
    (heven : |x - n| = 1 / 2 → n % 2 = 0) : nearestEven x = n := by
  obtain ⟨h', heven'⟩ := nearestEven_spec x
  by_contra hne
  have hone : (1 : ℚ) ≤ |(nearestEven x : ℚ) - n| := by
    exact_mod_cast Int.one_le_abs (sub_ne_zero.2 hne)
  have htriangle := abs_sub_le (nearestEven x : ℚ) x n
  rw [abs_sub_comm (nearestEven x : ℚ) x] at htriangle
  -- both are just a half away, so they are neighbours, and both even
  have hapart : |(nearestEven x : ℚ) - n| = 1 := by linarith
  have hparity := heven (by linarith)
  have hparity' := heven' (by linarith)
  have hapart : |nearestEven x - n| = 1 := by exact_mod_cast hapart
  rcases abs_eq (by decide) |>.1 hapart with h | h <;> omega

theorem nearestEven_of_lt {x : ℚ} {n : ℤ} (h : |x - n| < 1 / 2) : nearestEven x = n :=
  nearestEven_eq h.le fun heq => absurd heq h.ne

@[simp] theorem nearestEven_intCast (n : ℤ) : nearestEven n = n :=
  nearestEven_of_lt (by simp)

theorem nearestEven_neg (x : ℚ) : nearestEven (-x) = -nearestEven x := by
  obtain ⟨h, heven⟩ := nearestEven_spec x
  have hflip : |-x - ((-nearestEven x : ℤ) : ℚ)| = |x - nearestEven x| := by
    rw [← abs_neg]
    congr 1
    push_cast
    ring
  refine nearestEven_eq (by rwa [hflip]) fun heq => ?_
  have := heven (by rwa [hflip] at heq)
  omega

theorem nearestEven_mono {x y : ℚ} (h : x ≤ y) : nearestEven x ≤ nearestEven y := by
  by_contra hlt
  have hlt : (nearestEven y : ℚ) + 1 ≤ nearestEven x := by exact_mod_cast Int.not_le.1 hlt
  have hx := (abs_le.1 (nearestEven_spec x).1).1
  have hy := (abs_le.1 (nearestEven_spec y).1).2
  -- there is room for both only when they are the same number
  obtain rfl : x = y := by linarith
  linarith

/-! ### Powers of ten -/

theorem ten_zpow_pos (k : ℤ) : (0 : ℚ) < 10 ^ k := zpow_pos (by norm_num) k

theorem ten_zpow_add (j k : ℤ) : (10 : ℚ) ^ (j + k) = 10 ^ j * 10 ^ k := zpow_add₀ (by norm_num) j k

theorem ten_zpow_le {j k : ℤ} : (10 : ℚ) ^ j ≤ 10 ^ k ↔ j ≤ k :=
  zpow_le_zpow_iff_right₀ (by norm_num)

theorem ten_zpow_lt {j k : ℤ} : (10 : ℚ) ^ j < 10 ^ k ↔ j < k :=
  zpow_lt_zpow_iff_right₀ (by norm_num)

theorem ten_pow_cast (k : ℕ) : ((10 ^ k : ℕ) : ℚ) = 10 ^ (k : ℤ) := by
  rw [zpow_natCast]
  push_cast
  rfl

theorem ten_pow_toNat {k : ℤ} (h : 0 ≤ k) : ((10 ^ k.toNat : ℕ) : ℚ) = 10 ^ k := by
  rw [ten_pow_cast, Int.toNat_of_nonneg h]

/-- The exponent of the leading digit of a number. -/
def leading (x : ℚ) : ℤ := Int.log 10 |x|

theorem ten_zpow_le_abs {x : ℚ} (hx : x ≠ 0) {k : ℤ} : 10 ^ k ≤ |x| ↔ k ≤ leading x :=
  Int.zpow_le_iff_le_log (b := 10) (by decide) (abs_pos.2 hx)

theorem abs_lt_ten_zpow {x : ℚ} (hx : x ≠ 0) {k : ℤ} : |x| < 10 ^ k ↔ leading x < k :=
  Int.lt_zpow_iff_log_lt (b := 10) (by decide) (abs_pos.2 hx)

theorem leading_eq {x : ℚ} {k : ℤ} (hlow : 10 ^ k ≤ |x|) (hhigh : |x| < 10 ^ (k + 1)) :
    leading x = k := by
  have hx : x ≠ 0 := abs_pos.1 ((ten_zpow_pos k).trans_le hlow)
  have hle := (ten_zpow_le_abs hx).1 hlow
  have hlt := (abs_lt_ten_zpow hx).1 hhigh
  omega

@[simp] theorem leading_neg (x : ℚ) : leading (-x) = leading x := by rw [leading, leading, abs_neg]

theorem leading_ten_zpow (k : ℤ) : leading (10 ^ k) = k := by
  refine leading_eq ?_ ?_ <;> rw [abs_of_pos (ten_zpow_pos k)]
  exact ten_zpow_lt.2 (lt_add_one k)

/-- The leading digit of a quotient is at the difference of the exponents, or one below. -/
theorem le_leading_div {x y : ℚ} (hx : x ≠ 0) (hy : y ≠ 0) :
    leading x - leading y - 1 ≤ leading (x / y) := by
  have hlow := (ten_zpow_le_abs hx).2 le_rfl
  have hhigh := (abs_lt_ten_zpow hy).2 (lt_add_one (leading y))
  rw [← ten_zpow_le_abs (div_ne_zero hx hy), abs_div, le_div_iff₀ (abs_pos.2 hy)]
  calc (10 : ℚ) ^ (leading x - leading y - 1) * |y|
      ≤ 10 ^ (leading x - leading y - 1) * 10 ^ (leading y + 1) :=
        mul_le_mul_of_nonneg_left hhigh.le (ten_zpow_pos _).le
    _ = 10 ^ leading x := by
        rw [← ten_zpow_add]
        congr 1
        omega
    _ ≤ |x| := hlow

/-! ### Rounding at an exponent -/

/-- The multiple of `10 ^ k` that is nearest to `x`, a half to the even one. -/
def roundAt (k : ℤ) (x : ℚ) : ℚ := nearestEven (x / 10 ^ k) * 10 ^ k

/-- The number `x` rounded to `n` digits. -/
def roundDigits (n : ℕ) (x : ℚ) : ℚ := roundAt (leading x + 1 - n) x

/-- The number `x` can be written with `n` digits and an exponent. -/
def HasDigits (n : ℕ) (x : ℚ) : Prop := ∃ m k : ℤ, m.natAbs < 10 ^ n ∧ x = m * 10 ^ k

@[simp] theorem roundAt_zero (k : ℤ) : roundAt k 0 = 0 := by
  have h : nearestEven (0 : ℚ) = 0 := nearestEven_intCast 0
  rw [roundAt, zero_div, h, Int.cast_zero, zero_mul]

theorem roundAt_neg (k : ℤ) (x : ℚ) : roundAt k (-x) = -roundAt k x := by
  rw [roundAt, neg_div, nearestEven_neg, Int.cast_neg, neg_mul, roundAt]

/-- A multiple of a power that is high enough is not rounded. -/
theorem roundAt_of_multiple {j k : ℤ} (h : j ≤ k) (m : ℤ) : roundAt j (m * 10 ^ k) = m * 10 ^ k := by
  have hsplit : (10 : ℚ) ^ k = ((10 ^ (k - j).toNat : ℕ) : ℚ) * 10 ^ j := by
    rw [ten_pow_toNat (by omega), ← ten_zpow_add, sub_add_cancel]
  have hwhole : (m : ℚ) * 10 ^ k / 10 ^ j = ((m * (10 ^ (k - j).toNat : ℕ) : ℤ) : ℚ) := by
    rw [div_eq_iff (ten_zpow_pos j).ne', hsplit]
    push_cast
    ring
  rw [roundAt, hwhole, nearestEven_intCast, ← hwhole, div_mul_cancel₀ _ (ten_zpow_pos j).ne']

theorem roundAt_ten_zpow {j k : ℤ} (h : j ≤ k) : roundAt j (10 ^ k) = 10 ^ k := by
  simpa using roundAt_of_multiple h 1

theorem roundAt_mono (k : ℤ) {x y : ℚ} (h : x ≤ y) : roundAt k x ≤ roundAt k y := by
  have hpos := ten_zpow_pos k
  have hdiv : x / 10 ^ k ≤ y / 10 ^ k := div_le_div_of_nonneg_right h hpos.le
  refine mul_le_mul_of_nonneg_right ?_ hpos.le
  exact_mod_cast nearestEven_mono hdiv

theorem abs_roundAt (k : ℤ) (x : ℚ) : |roundAt k x| = roundAt k |x| := by
  have hnonneg : ∀ {y : ℚ}, 0 ≤ y → |roundAt k y| = roundAt k y := fun hy =>
    abs_of_nonneg ((roundAt_zero k).ge.trans (roundAt_mono k hy))
  rcases abs_cases x with ⟨habs, hx⟩ | ⟨habs, hx⟩
  · rw [habs, hnonneg hx]
  · rw [habs, ← hnonneg (neg_nonneg.2 hx.le), roundAt_neg, abs_neg]

/-- Rounding does not pass a power of ten. -/
theorem ten_zpow_le_abs_roundAt {j k : ℤ} (hjk : j ≤ k) {x : ℚ} (h : 10 ^ k ≤ |x|) :
    10 ^ k ≤ |roundAt j x| := by
  rw [abs_roundAt, ← roundAt_ten_zpow hjk]
  exact roundAt_mono j h

theorem abs_roundAt_le_ten_zpow {j k : ℤ} (hjk : j ≤ k) {x : ℚ} (h : |x| ≤ 10 ^ k) :
    |roundAt j x| ≤ 10 ^ k := by
  rw [abs_roundAt, ← roundAt_ten_zpow hjk]
  exact roundAt_mono j h

/-- A number of `n` digits is not changed by rounding to `n` digits. -/
theorem roundDigits_of_hasDigits {n : ℕ} {x : ℚ} (h : HasDigits n x) : roundDigits n x = x := by
  obtain ⟨m, k, hm, rfl⟩ := h
  by_cases hzero : (m : ℚ) * 10 ^ k = 0
  · rw [hzero, roundDigits, roundAt_zero]
  · have hm : |(m : ℚ)| < 10 ^ (n : ℤ) := by
      rw [← ten_pow_cast, ← Int.cast_abs, Int.abs_eq_natAbs]
      exact_mod_cast hm
    have hbound : |(m : ℚ) * 10 ^ k| < 10 ^ (n + k) := by
      rw [abs_mul, abs_of_pos (ten_zpow_pos k), ten_zpow_add]
      exact mul_lt_mul_of_pos_right hm (ten_zpow_pos k)
    have hleading := (abs_lt_ten_zpow hzero).1 hbound
    exact roundAt_of_multiple (by omega) m

/-- Rounding at the next exponent does nothing more when the last digit is a zero. -/
theorem roundAt_succ_of_dvd {k : ℤ} {x : ℚ} (h : 10 ∣ nearestEven (x / 10 ^ k)) :
    roundAt (k + 1) x = roundAt k x := by
  obtain ⟨m, hm⟩ := h
  have hpos := ten_zpow_pos k
  have hsucc : (10 : ℚ) ^ (k + 1) = 10 ^ k * 10 := by rw [ten_zpow_add, zpow_one]
  have hclose := (nearestEven_spec (x / 10 ^ k)).1
  rw [hm] at hclose
  have htenth : x / 10 ^ (k + 1) - m = (x / 10 ^ k - ((10 * m : ℤ) : ℚ)) / 10 := by
    rw [hsucc]
    push_cast
    field_simp
  have hnearest : nearestEven (x / 10 ^ (k + 1)) = m := by
    refine nearestEven_of_lt ?_
    rw [htenth, abs_div, abs_of_pos (by norm_num : (0 : ℚ) < 10)]
    linarith
  rw [roundAt, hnearest, roundAt, hm, hsucc]
  push_cast
  ring

/-- So it does when rounding gave a higher power of ten. -/
theorem roundAt_succ_of_power {k : ℤ} {n : ℕ} {x : ℚ} (hn : 0 < n)
    (h : |roundAt k x| = 10 ^ (k + n)) : roundAt (k + 1) x = roundAt k x := by
  have hpos := ten_zpow_pos k
  have hcoefficient : |(nearestEven (x / 10 ^ k) : ℚ)| = ((10 ^ n : ℕ) : ℚ) := by
    rw [roundAt, abs_mul, abs_of_pos hpos, ten_zpow_add, mul_comm, ← ten_pow_cast] at h
    exact mul_left_cancel₀ hpos.ne' h
  have hcoefficient : (nearestEven (x / 10 ^ k)).natAbs = 10 ^ n := by
    rw [← Int.cast_abs, Int.abs_eq_natAbs] at hcoefficient
    exact_mod_cast hcoefficient
  refine roundAt_succ_of_dvd ?_
  rw [← Int.natAbs_dvd_natAbs, hcoefficient]
  exact dvd_pow_self 10 hn.ne'

/-! ### Gaps

The multiples of `5 · 10 ^ k` are, for every higher exponent, the numbers that rounding tells apart:
the multiples of the power of ten and the halves between them. -/

/-- Two numbers lie in the same gap between multiples of `5 · 10 ^ k`. -/
def SameGap (k : ℤ) (x y : ℚ) : Prop :=
  ∃ m : ℤ, (5 * m * 10 ^ k < x ∧ x < 5 * (m + 1) * 10 ^ k) ∧
    (5 * m * 10 ^ k < y ∧ y < 5 * (m + 1) * 10 ^ k)

namespace SameGap

variable {k : ℤ} {x y : ℚ}

section

variable (h : SameGap k x y)

include h

theorem symm : SameGap k y x := by
  obtain ⟨m, hx, hy⟩ := h
  exact ⟨m, hy, hx⟩

theorem refl : SameGap k x x := by
  obtain ⟨m, hx, -⟩ := h
  exact ⟨m, hx, hx⟩

theorem neg : SameGap k (-x) (-y) := by
  obtain ⟨m, hx, hy⟩ := h
  refine ⟨-(m + 1), ⟨?_, ?_⟩, ⟨?_, ?_⟩⟩ <;> push_cast <;> linarith

/-- No multiple is between the two. -/
theorem lt_of_le {n : ℤ} (hn : 5 * n * 10 ^ k ≤ x) : 5 * n * 10 ^ k < y := by
  obtain ⟨m, ⟨-, hx⟩, hy, -⟩ := h
  have hpos := ten_zpow_pos k
  have hlt : (n : ℚ) < m + 1 := by
    have hlt := lt_of_mul_lt_mul_right (hn.trans_lt hx) hpos.le
    linarith
  have hle : (n : ℚ) ≤ m := by exact_mod_cast Int.lt_add_one_iff.1 (by exact_mod_cast hlt)
  exact (mul_le_mul_of_nonneg_right (by linarith) hpos.le).trans_lt hy

theorem lt_of_ge {n : ℤ} (hn : x ≤ 5 * n * 10 ^ k) : y < 5 * n * 10 ^ k := by
  have hneg := h.neg.lt_of_le (n := -n) (by push_cast; linarith)
  push_cast at hneg
  linarith

theorem ne_zero : x ≠ 0 := by
  rintro rfl
  have hlt := h.refl.lt_of_le (n := 0) (by simp)
  simp at hlt

theorem lt_zero_iff : x < 0 ↔ y < 0 := by
  have hforth : ∀ {x y : ℚ}, SameGap k x y → x < 0 → y < 0 := fun h hx => by
    simpa using h.lt_of_ge (n := 0) (by simpa using hx.le)
  exact ⟨hforth h, hforth h.symm⟩

end

/-- A higher power of ten is such a multiple, by an even number. -/
theorem exists_ten_zpow {j : ℤ} (hj : k < j) : ∃ n : ℤ, (10 : ℚ) ^ j = 5 * (2 * n : ℤ) * 10 ^ k := by
  refine ⟨(10 ^ (j - k - 1).toNat : ℕ), ?_⟩
  have hsplit : (10 : ℚ) ^ j = 10 ^ (j - k - 1) * 10 ^ (1 : ℤ) * 10 ^ k := by
    rw [← ten_zpow_add, ← ten_zpow_add]
    congr 1
    ring
  have hcast : (((2 * (10 ^ (j - k - 1).toNat : ℕ) : ℤ)) : ℚ) = 2 * 10 ^ (j - k - 1) := by
    rw [← ten_pow_toNat (by omega)]
    push_cast
    rfl
  rw [hcast, hsplit, zpow_one]
  ring

theorem ten_zpow_le_abs {j : ℤ} (h : SameGap k x y) (hj : k < j) (hx : 10 ^ j ≤ |x|) :
    10 ^ j ≤ |y| := by
  obtain ⟨n, hn⟩ := exists_ten_zpow hj
  rw [hn] at hx ⊢
  rcases le_abs.1 hx with hx | hx
  · exact (h.lt_of_le hx).le.trans (le_abs_self y)
  · exact (h.neg.lt_of_le hx).le.trans (neg_le_abs y)

theorem leading_eq (h : SameGap k x y) (hk : k < leading x) : leading x = leading y := by
  symm
  have hlow := h.ten_zpow_le_abs hk ((LineScript.ten_zpow_le_abs h.ne_zero).2 le_rfl)
  refine LineScript.leading_eq hlow ?_
  by_contra hge
  have hback := h.symm.ten_zpow_le_abs (by omega) (not_lt.1 hge)
  have := (LineScript.ten_zpow_le_abs h.ne_zero).1 hback
  omega

/-- Numbers of the same gap are rounded to the same multiple of every higher power of ten. -/
theorem roundAt_eq {q : ℤ} (h : SameGap k x y) (hkq : k < q) : roundAt q x = roundAt q y := by
  have hpos := ten_zpow_pos q
  obtain ⟨n, hn⟩ := exists_ten_zpow hkq
  set r := nearestEven (x / 10 ^ q) with hr
  obtain ⟨hlow, hhigh⟩ := abs_le.1 (nearestEven_spec (x / 10 ^ q)).1
  rw [← hr] at hlow hhigh
  -- the halves beside the nearest multiple
  have hbelow : ((r : ℚ) - 1 / 2) * 10 ^ q = 5 * ((2 * r - 1) * n : ℤ) * 10 ^ k := by
    rw [hn]
    push_cast
    ring
  have habove : ((r : ℚ) + 1 / 2) * 10 ^ q = 5 * ((2 * r + 1) * n : ℤ) * 10 ^ k := by
    rw [hn]
    push_cast
    ring
  have hx : (r - 1 / 2) * 10 ^ q ≤ x ∧ x ≤ (r + 1 / 2) * 10 ^ q := by
    rw [← le_div_iff₀ hpos, ← div_le_iff₀ hpos]
    constructor <;> linarith
  rw [hbelow, habove] at hx
  have hlow' := h.lt_of_le hx.1
  have hhigh' := h.lt_of_ge hx.2
  rw [← hbelow, ← lt_div_iff₀ hpos] at hlow'
  rw [← habove, ← div_lt_iff₀ hpos] at hhigh'
  have hnearest : nearestEven (y / 10 ^ q) = r := by
    refine nearestEven_of_lt (abs_lt.2 ⟨?_, ?_⟩) <;> linarith
  rw [roundAt, roundAt, hnearest]

end SameGap

end LineScript
