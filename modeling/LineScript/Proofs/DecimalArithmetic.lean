import LineScript.Proofs.Fitting
import Mathlib.Data.Nat.Cast.Field

/-!
# Decimal arithmetic is rational arithmetic, rounded

Every operation on finite decimals gives what the exact result becomes in its precision.  A sum
replaces an operand that is far below the other one by a single digit, and a quotient stops at a
digit more than is needed and marks that it is not exact; neither changes what is rounded, since the
exact result stays in the same gap.  A remainder is exact until it is fitted.

## Main definitions

* `truncate` — a number without its fraction.
* `remainder` — what is left of a number after whole multiples of another.

## Main results

* `Decimal.add_gives`, `Decimal.mul_gives`, `Decimal.div_gives` — **sums, products and quotients are
  rounded from the exact result.**
* `Decimal.rem_gives` — **so are remainders**, unless the whole quotient has too many digits.
* `Decimal.add_finite_comm`, `Decimal.mul_finite_comm` — sums and products do not depend on the order.
-/

namespace LineScript

/-! ### Remainders of numbers -/

/-- A number without its fraction. -/
def truncate (x : ℚ) : ℤ := if 0 ≤ x then ⌊x⌋ else ⌈x⌉

/-- What is left of `x` after a whole multiple of `y`, toward zero. -/
def remainder (x y : ℚ) : ℚ := x - y * truncate (x / y)

theorem truncate_neg (x : ℚ) : truncate (-x) = -truncate x := by
  rcases lt_trichotomy x 0 with h | rfl | h
  · rw [truncate, if_pos (by linarith), truncate, if_neg (by linarith), Int.floor_neg]
  · simp [truncate]
  · rw [truncate, if_neg (by linarith), truncate, if_pos h.le, Int.ceil_neg]

/-- Whole numbers are divided toward zero. -/
theorem truncate_div (m n : ℤ) : truncate (m / n) = m.tdiv n := by
  have hnat : ∀ m n : ℕ, truncate ((m : ℚ) / n) = (m : ℤ).tdiv n := fun m n => by
    rw [truncate, if_pos (by positivity), Rat.floor_natCast_div_natCast]
    rfl
  obtain ⟨m, rfl | rfl⟩ := m.eq_nat_or_neg <;> obtain ⟨n, rfl | rfl⟩ := n.eq_nat_or_neg <;>
    simp [neg_div, div_neg, truncate_neg, hnat, Int.tdiv_neg, Int.neg_tdiv]

/-- Remainders of whole numbers at the same exponent. -/
theorem remainder_scaled (m n e : ℤ) :
    remainder (m * 10 ^ e) (n * 10 ^ e) = (m.tmod n : ℤ) * 10 ^ e := by
  have hsplit : (m : ℚ) = n * (m.tdiv n : ℤ) + (m.tmod n : ℤ) := by
    exact_mod_cast (Int.mul_tdiv_add_tmod m n).symm
  rw [remainder, mul_div_mul_right _ _ (ten_zpow_pos e).ne', truncate_div]
  rw [hsplit]
  ring

/-- Beside a multiple of the next power of ten, numbers up to a power stay in one gap. -/
theorem sameGap_add {k a : ℤ} {x y : ℚ} (hx : 0 < x) (hx' : x ≤ 10 ^ k) (hy : 0 < y)
    (hy' : y ≤ 10 ^ k) : SameGap k (a * 10 ^ (k + 1) + x) (a * 10 ^ (k + 1) + y) := by
  have hsucc : (10 : ℚ) ^ (k + 1) = 10 ^ k * 10 := by rw [ten_zpow_add, zpow_one]
  refine ⟨2 * a, ⟨?_, ?_⟩, ?_, ?_⟩ <;> rw [hsucc] <;> push_cast <;> linarith

namespace Decimal

open Precision

variable {p : Precision} {s s₁ s₂ : Bool} {c c₁ c₂ : ℕ} {e e₁ e₂ : ℤ}

/-! ### Sums -/

/-- A number at a lower exponent. -/
theorem number_lowered {e' : ℤ} (h : e' ≤ e) :
    number s (c * 10 ^ (e - e').toNat) e' = number s c e := by
  rw [number_mul_pow, Int.toNat_of_nonneg (by omega), add_sub_cancel]

/-- Beside a multiple of the next power of ten, a number below a power may be replaced by it. -/
theorem sameGap_number {k a : ℤ} (hc : c ≠ 0) (h : adjusted c e < k) :
    SameGap k (a * 10 ^ (k + 1) + number s c e) (a * 10 ^ (k + 1) + number s 1 k) := by
  have hgap : ∀ a : ℤ, SameGap k (a * 10 ^ (k + 1) + number false c e)
      (a * 10 ^ (k + 1) + number false 1 k) := by
    intro a
    have hpositive : ∀ {c : ℕ} {e : ℤ}, c ≠ 0 → 0 < number false c e := fun hc =>
      lt_of_not_ge fun hle => (hle.lt_or_eq).elim (fun h => by cases (number_lt_zero hc).1 h)
        fun h => hc (number_eq_zero.1 h)
    refine sameGap_add (hpositive hc) ?_ (hpositive one_ne_zero) ?_
    · refine (le_abs_self _).trans ((abs_lt_ten_zpow (mt number_eq_zero.1 hc)).2 ?_).le
      rwa [leading_number hc]
    · simp [number, signed]
  cases s with
  | false => exact hgap a
  | true =>
    have hneg := (hgap (-a)).neg
    rw [← Bool.not_false, number_not, number_not]
    convert hneg using 1 <;> push_cast <;> ring

/-- An operand that is far below the other one. -/
theorem negligible_le (p : Precision) (c : ℕ) (e : ℤ) :
    negligible p c e < e ∧ negligible p c e + p.digits + 1 ≤ adjusted c e := by
  rw [negligible, adjusted]
  omega

/-- Far below the leading digit, an operand takes at most one digit from it. -/
theorem le_abs_add {k : ℤ} {x y : ℚ} (hx : 10 ^ (k + 2) ≤ |x|) (hy : |y| ≤ 10 ^ k) :
    10 ^ (k + 1) ≤ |x + y| := by
  have hpos := ten_zpow_pos k
  have hone : (10 : ℚ) ^ (k + 1) = 10 ^ k * 10 := by rw [ten_zpow_add, zpow_one]
  have htwo : (10 : ℚ) ^ (k + 2) = 10 ^ k * 100 := by
    rw [ten_zpow_add]
    norm_num
  have htriangle := abs_sub_abs_le_abs_sub x (-y)
  rw [sub_neg_eq_add, abs_neg] at htriangle
  linarith

theorem sumAligned_eq : sumAligned p s₁ c₁ e₁ s₂ c₂ e₂ =
    (signed s₁ (c₁ * 10 ^ (e₁ - (clampTo (negligible p c₁ e₁) c₂ e₂).2).toNat) +
      signed s₂ (clampTo (negligible p c₁ e₁) c₂ e₂).1, (clampTo (negligible p c₁ e₁) c₂ e₂).2) := rfl

/-- **The sum of two numbers is found exactly, or a number that may be rounded in its place.** -/
theorem sumAligned_close (hp : 0 < p.digits) (h₁ : c₁ ≠ 0) (h₂ : c₂ ≠ 0) (he : e₂ ≤ e₁) :
    p.Close (number s₁ c₁ e₁ + number s₂ c₂ e₂)
      ((sumAligned p s₁ c₁ e₁ s₂ c₂ e₂).1 * 10 ^ (sumAligned p s₁ c₁ e₁ s₂ c₂ e₂).2) := by
  have haligned : ∀ {c e}, e ≤ e₁ →
      ((signed s₁ (c₁ * 10 ^ (e₁ - e).toNat) + signed s₂ c : ℤ) : ℚ) * 10 ^ e =
        number s₁ c₁ e₁ + number s₂ c e := by
    intro c e he
    rw [← number_lowered (s := s₁) (c := c₁) he, Int.cast_add, add_mul, number, number]
  rw [sumAligned_eq]
  by_cases hfar : adjusted c₂ e₂ < negligible p c₁ e₁
  · rw [clampTo, if_pos hfar]
    obtain ⟨hbelow, hdigits⟩ := negligible_le p c₁ e₁
    have hlarge : 10 ^ adjusted c₁ e₁ ≤ |number s₁ c₁ e₁| :=
      (ten_zpow_le_abs (mt number_eq_zero.1 h₁)).2 (leading_number h₁).ge
    have hsmall : |number s₂ c₂ e₂| ≤ 10 ^ negligible p c₁ e₁ :=
      ((abs_lt_ten_zpow (mt number_eq_zero.1 h₂)).2 (by rwa [leading_number h₂])).le
    generalize negligible p c₁ e₁ = k at *
    -- the sum keeps its leading digit, or loses one place: the gap is still below the digits kept
    have hleast : 10 ^ (adjusted c₁ e₁ - 1) ≤ |number s₁ c₁ e₁ + number s₂ c₂ e₂| := by
      rw [← sub_add_cancel (adjusted c₁ e₁) 2] at hlarge
      have hbeside := le_abs_add hlarge (hsmall.trans (ten_zpow_le.2 (by omega)))
      rwa [show adjusted c₁ e₁ - 2 + 1 = adjusted c₁ e₁ - 1 by omega] at hbeside
    rw [haligned hbelow.le]
    refine .inr ⟨k, ?_, ?_⟩
    · have habove : k + 1 ≤ e₁ := by omega
      rw [← number_lowered (s := s₁) habove]
      exact sameGap_number h₂ hfar
    · have hne := abs_pos.1 ((ten_zpow_pos _).trans_le hleast)
      have hleading := (ten_zpow_le_abs hne).1 hleast
      omega
  · rw [clampTo, if_neg hfar]
    exact .inl (haligned he).symm

/-- A whole number at an exponent is fitted by its sign and its digits; a zero has no sign. -/
theorem fit_total_gives (hp : 0 < p.digits) (t e e' : ℤ) :
    p.Gives (t * 10 ^ e) (if t == 0 then p.fit false 0 e' else p.fit (t < 0) t.natAbs e) := by
  by_cases ht : t = 0
  · rw [if_pos (by simpa using ht), ht, Int.cast_zero, zero_mul, ← number_zero false e']
    exact fit_gives hp _ _ _
  · rw [if_neg (by simpa using ht), ← number_natAbs]
    exact fit_gives hp _ _ _

/-- A number beside a zero keeps its value when its exponent goes down. -/
theorem lowered_gives (hp : 0 < p.digits) (s : Bool) (c : ℕ) (e target : ℤ) :
    p.Gives (number s c e) (lowered p s c e target) := by
  have hle : max (min e target) (e - p.digits - 1) ≤ e := by omega
  rw [lowered, ← number_lowered hle]
  exact fit_gives hp _ _ _

/-- The operand with the larger exponent comes first. -/
theorem addFinite_eq (h₁ : c₁ ≠ 0) (h₂ : c₂ ≠ 0) :
    addFinite p s₁ c₁ e₁ s₂ c₂ e₂ =
      let t := if e₁ < e₂ then sumAligned p s₂ c₂ e₂ s₁ c₁ e₁ else sumAligned p s₁ c₁ e₁ s₂ c₂ e₂
      if t.1 == 0 then p.fit false 0 (min e₁ e₂) else p.fit (t.1 < 0) t.1.natAbs t.2 := by
  have hb₁ : (c₁ == 0) = false := beq_false_of_ne h₁
  have hb₂ : (c₂ == 0) = false := beq_false_of_ne h₂
  simp only [addFinite, hb₁, hb₂, Bool.and_false, Bool.false_eq_true, if_false]

/-- **Sums are rounded from the exact sum.** -/
theorem add_gives (hp : 0 < p.digits) (s₁ : Bool) (c₁ : ℕ) (e₁ : ℤ) (s₂ : Bool) (c₂ : ℕ) (e₂ : ℤ) :
    p.Gives (number s₁ c₁ e₁ + number s₂ c₂ e₂) (add p (.finite s₁ c₁ e₁) (.finite s₂ c₂ e₂)) := by
  show p.Gives _ (addFinite p s₁ c₁ e₁ s₂ c₂ e₂)
  by_cases h₁ : c₁ = 0
  · subst h₁
    rw [number_zero, zero_add]
    by_cases h₂ : c₂ = 0
    · subst h₂
      rw [number_zero, ← number_zero (s₁ && s₂) (min e₁ e₂)]
      exact fit_gives hp _ _ _
    · have hb₂ : (c₂ == 0) = false := beq_false_of_ne h₂
      simpa [addFinite, hb₂] using lowered_gives hp s₂ c₂ e₂ e₁
  by_cases h₂ : c₂ = 0
  · subst h₂
    have hb₁ : (c₁ == 0) = false := beq_false_of_ne h₁
    rw [number_zero, add_zero]
    simpa [addFinite, hb₁] using lowered_gives hp s₁ c₁ e₁ e₂
  rw [addFinite_eq h₁ h₂]
  by_cases he : e₁ < e₂
  · rw [if_pos he, add_comm]
    exact (fit_total_gives hp _ _ _).of_close hp (sumAligned_close hp h₂ h₁ he.le)
  · rw [if_neg he]
    exact (fit_total_gives hp _ _ _).of_close hp (sumAligned_close hp h₁ h₂ (Int.not_lt.1 he))

/-- **So are differences.** -/
theorem sub_gives (hp : 0 < p.digits) (s₁ : Bool) (c₁ : ℕ) (e₁ : ℤ) (s₂ : Bool) (c₂ : ℕ) (e₂ : ℤ) :
    p.Gives (number s₁ c₁ e₁ - number s₂ c₂ e₂) (sub p (.finite s₁ c₁ e₁) (.finite s₂ c₂ e₂)) := by
  rw [sub_eq_add_neg, ← number_not]
  exact add_gives hp _ _ _ _ _ _

/-- Operands with the same exponent are both taken as they are. -/
theorem sumAligned_of_eq :
    sumAligned p s₁ c₁ e s₂ c₂ e = (signed s₁ c₁ + signed s₂ c₂, e) := by
  have hnear : ¬ adjusted c₂ e < negligible p c₁ e := by
    have hpos := digitCount_pos c₂
    have hbelow := (negligible_le p c₁ e).1
    rw [adjusted]
    omega
  rw [sumAligned_eq, clampTo, if_neg hnear, sub_self, Int.toNat_zero, Nat.pow_zero, Nat.mul_one]

/-- **Sums do not depend on the order**, not even in sign and exponent. -/
theorem add_finite_comm (p : Precision) (s₁ : Bool) (c₁ : ℕ) (e₁ : ℤ) (s₂ : Bool) (c₂ : ℕ) (e₂ : ℤ) :
    add p (.finite s₁ c₁ e₁) (.finite s₂ c₂ e₂) = add p (.finite s₂ c₂ e₂) (.finite s₁ c₁ e₁) := by
  show addFinite p s₁ c₁ e₁ s₂ c₂ e₂ = addFinite p s₂ c₂ e₂ s₁ c₁ e₁
  by_cases h₁ : c₁ = 0 <;> by_cases h₂ : c₂ = 0
  · simp [addFinite, h₁, h₂, Bool.and_comm, min_comm]
  · simp [addFinite, h₁, h₂]
  · simp [addFinite, h₁, h₂]
  rw [addFinite_eq h₁ h₂, addFinite_eq h₂ h₁, min_comm]
  rcases lt_trichotomy e₁ e₂ with hlt | rfl | hgt
  · rw [if_pos hlt, if_neg hlt.not_gt]
  · simp only [lt_irrefl, if_false, sumAligned_of_eq, add_comm (signed s₁ c₁)]
  · rw [if_neg hgt.not_gt, if_pos hgt]

/-! ### Products -/

theorem number_mul (s₁ : Bool) (c₁ : ℕ) (e₁ : ℤ) (s₂ : Bool) (c₂ : ℕ) (e₂ : ℤ) :
    number s₁ c₁ e₁ * number s₂ c₂ e₂ = number (s₁ != s₂) (c₁ * c₂) (e₁ + e₂) := by
  rw [number, number, number, ten_zpow_add]
  cases s₁ <;> cases s₂ <;> simp [signed] <;> ring

/-- **Products are rounded from the exact product.** -/
theorem mul_gives (hp : 0 < p.digits) (s₁ : Bool) (c₁ : ℕ) (e₁ : ℤ) (s₂ : Bool) (c₂ : ℕ) (e₂ : ℤ) :
    p.Gives (number s₁ c₁ e₁ * number s₂ c₂ e₂) (mul p (.finite s₁ c₁ e₁) (.finite s₂ c₂ e₂)) := by
  rw [number_mul]
  exact fit_gives hp _ _ _

/-- **Products do not depend on the order**, not even in sign and exponent. -/
theorem mul_finite_comm (p : Precision) (s₁ : Bool) (c₁ : ℕ) (e₁ : ℤ) (s₂ : Bool) (c₂ : ℕ) (e₂ : ℤ) :
    mul p (.finite s₁ c₁ e₁) (.finite s₂ c₂ e₂) = mul p (.finite s₂ c₂ e₂) (.finite s₁ c₁ e₁) := by
  show p.fit (s₁ != s₂) (c₁ * c₂) (e₁ + e₂) = p.fit (s₂ != s₁) (c₂ * c₁) (e₂ + e₁)
  rw [bne_comm, Nat.mul_comm, Int.add_comm]

/-! ### Quotients -/

/-- Moving zeros from the coefficient to the exponent does not change the number. -/
theorem number_moveZeros (s : Bool) (n c : ℕ) (e : ℤ) :
    number s (moveZeros n c e).1 (moveZeros n c e).2 = number s c e := by
  induction n generalizing c e with
  | zero => rfl
  | succ n ih =>
    rw [moveZeros]
    split
    next h =>
      have hback : c / 10 * 10 ^ 1 = c := by
        rw [beq_iff_eq] at h
        omega
      rw [ih, ← hback, number_mul_pow, hback]
      rfl
    next => rfl

theorem number_div (s₁ : Bool) (c₁ : ℕ) (e₁ : ℤ) (s₂ : Bool) (c₂ : ℕ) (e₂ : ℤ) :
    number s₁ c₁ e₁ / number s₂ c₂ e₂ = signed (s₁ != s₂) c₁ / c₂ * 10 ^ (e₁ - e₂) := by
  have hzpow : (10 : ℚ) ^ (e₁ - e₂) = 10 ^ e₁ / 10 ^ e₂ := zpow_sub₀ (by norm_num) e₁ e₂
  rw [number, number, mul_div_mul_comm, hzpow]
  cases s₁ <;> cases s₂ <;> simp [signed, neg_div, div_neg]

/-- Zeros at the end of a dividend or of a divisor move the quotient by as many digits. -/
theorem shifted_div (c₁ c₂ : ℕ) (shift : ℤ) :
    ((c₁ * 10 ^ shift.toNat : ℕ) : ℚ) / ((c₂ * 10 ^ (-shift).toNat : ℕ) : ℚ) =
      c₁ / c₂ * 10 ^ shift := by
  have hpower : ((10 ^ shift.toNat : ℕ) : ℚ) / ((10 ^ (-shift).toNat : ℕ) : ℚ) = 10 ^ shift := by
    rw [ten_pow_cast, ten_pow_cast, ← zpow_sub₀ (by norm_num)]
    congr 1
    omega
  rw [Nat.cast_mul, Nat.cast_mul, mul_div_mul_comm, hpower]

/-- An inexact quotient lies in the gap of its whole part, or of the next number when the whole part
is a multiple of five. -/
theorem sameGap_div {num den : ℕ} (hden : den ≠ 0) (h : num % den ≠ 0) (k : ℤ) :
    SameGap k ((num : ℚ) / den * 10 ^ k)
      ((if num / den % 5 == 0 then num / den + 1 else num / den : ℕ) * 10 ^ k) := by
  have hpos := ten_zpow_pos k
  have hpositive := Nat.pos_of_ne_zero hden
  have hden : (0 : ℚ) < den := by exact_mod_cast hpositive
  have hsplit : (num : ℚ) = den * (num / den : ℕ) + (num % den : ℕ) := by
    exact_mod_cast (Nat.div_add_mod num den).symm
  have hlow : ((num / den : ℕ) : ℚ) < num / den := by
    have hrest : (0 : ℚ) < (num % den : ℕ) := by exact_mod_cast Nat.pos_of_ne_zero h
    rw [lt_div_iff₀ hden]
    linarith
  have hhigh : (num : ℚ) / den < (num / den : ℕ) + 1 := by
    have hrest : ((num % den : ℕ) : ℚ) < den := by exact_mod_cast Nat.mod_lt num hpositive
    rw [div_lt_iff₀ hden]
    linarith
  set q := num / den
  -- both lie strictly between the multiples of five around the whole part
  have hfive : 5 * (q / 5) ≤ q ∧ q + 1 ≤ 5 * (q / 5 + 1) := by omega
  have hmark : 5 * (q / 5) < (if q % 5 == 0 then q + 1 else q) ∧
      (if q % 5 == 0 then q + 1 else q) < 5 * (q / 5 + 1) := by
    by_cases hzero : q % 5 = 0
    · rw [if_pos (by simpa using hzero)]
      omega
    · rw [if_neg (by simpa using hzero)]
      omega
  generalize (if q % 5 == 0 then q + 1 else q) = r at *
  have hfive : (5 : ℚ) * (q / 5 : ℕ) ≤ q ∧ (q : ℚ) + 1 ≤ 5 * ((q / 5 : ℕ) + 1) := by
    exact_mod_cast hfive
  have hmark : (5 : ℚ) * (q / 5 : ℕ) < r ∧ (r : ℚ) < 5 * ((q / 5 : ℕ) + 1) := by exact_mod_cast hmark
  refine ⟨(q / 5 : ℕ), ⟨?_, ?_⟩, ?_, ?_⟩ <;> refine mul_lt_mul_of_pos_right ?_ hpos <;>
    rw [Int.cast_natCast] <;> linarith

/-- **A quotient is found exactly, or a number that may be rounded in its place.** -/
theorem quotient_close (p : Precision) (e₁ e₂ : ℤ) (h₁ : c₁ ≠ 0) (h₂ : c₂ ≠ 0) :
    p.Close (number false c₁ e₁ / number false c₂ e₂)
      (number false (quotient p c₁ e₁ c₂ e₂).1 (quotient p c₁ e₁ c₂ e₂).2) := by
  have hleading := le_leading_div (mt (number_eq_zero (s := false) (e := e₁)).1 h₁)
    (mt (number_eq_zero (s := false) (e := e₂)).1 h₂)
  rw [leading_number h₁, leading_number h₂, adjusted, adjusted] at hleading
  unfold quotient
  extract_lets shift num den q e
  have hden : den ≠ 0 := Nat.mul_ne_zero h₂ (Nat.pow_pos (by decide)).ne'
  have hexact : number false c₁ e₁ / number false c₂ e₂ = (num : ℚ) / den * 10 ^ e := by
    rw [number_div, shifted_div, mul_assoc, ← ten_zpow_add, add_sub_cancel]
    rfl
  have hnumber : ∀ n : ℕ, number false n e = n * 10 ^ e := fun n => by simp [number, signed]
  by_cases hrest : num % den = 0
  · rw [if_pos (by simpa using hrest), number_moveZeros, hnumber, hexact]
    left
    rw [Nat.cast_div (Nat.dvd_of_mod_eq_zero hrest) (by exact_mod_cast hden)]
  · rw [if_neg (by simpa using hrest), hnumber]
    refine .inr ⟨e, ?_, by omega⟩
    rw [hexact]
    exact sameGap_div hden hrest e

/-- **Quotients are rounded from the exact quotient.** -/
theorem div_gives (hp : 0 < p.digits) (h₂ : c₂ ≠ 0) (s₁ : Bool) (c₁ : ℕ) (e₁ : ℤ) (s₂ : Bool)
    (e₂ : ℤ) :
    p.Gives (number s₁ c₁ e₁ / number s₂ c₂ e₂) (div p (.finite s₁ c₁ e₁) (.finite s₂ c₂ e₂)) := by
  show p.Gives _ (if c₁ == 0 then p.fit (s₁ != s₂) 0 (e₁ - e₂)
    else p.fit (s₁ != s₂) (quotient p c₁ e₁ c₂ e₂).1 (quotient p c₁ e₁ c₂ e₂).2)
  by_cases h₁ : c₁ = 0
  · rw [if_pos (by simpa using h₁), h₁, number_zero, zero_div, ← number_zero (s₁ != s₂) (e₁ - e₂)]
    exact fit_gives hp _ _ _
  rw [if_neg (by simpa using h₁)]
  refine (fit_gives hp _ _ _).of_close hp ?_
  -- the digits are found without the signs, which are put back by symmetry
  have hclose := quotient_close p e₁ e₂ h₁ h₂
  rw [number_div] at hclose ⊢
  cases s₁ != s₂ with
  | false => exact hclose
  | true =>
    have hneg := hclose.neg
    rw [← number_not, Bool.not_false] at hneg
    simpa [signed, neg_div] using hneg

/-! ### Remainders -/

theorem remainder_number (s₁ s₂ : Bool) (c₁ c₂ : ℕ) (e : ℤ) :
    remainder (number s₁ c₁ e) (number s₂ c₂ e) = number s₁ (c₁ % c₂) e := by
  have hsigned : (signed s₁ c₁).tmod (signed s₂ c₂) = signed s₁ (c₁ % c₂) := by
    cases s₁ <;> cases s₂ <;> simp [signed, Int.tmod_neg, Int.neg_tmod] <;> rfl
  rw [number, number, remainder_scaled, hsigned, number]

theorem floor_abs_div_number (s₁ s₂ : Bool) (c₁ c₂ : ℕ) (e : ℤ) :
    ⌊|number s₁ c₁ e / number s₂ c₂ e|⌋ = (c₁ / c₂ : ℕ) := by
  rw [abs_div, abs_number, abs_number, mul_div_mul_right _ _ (ten_zpow_pos e).ne',
    Rat.floor_natCast_div_natCast]
  rfl

/-- The leading digits of the dividend and the divisor are so far apart that the quotient is less than
one, or that it has too many digits. -/
theorem quotient_of_gap {num den k : ℕ} {e : ℤ} (h₁ : c₁ ≠ 0) (h₂ : c₂ ≠ 0)
    (hnum : number false num e = number false c₁ e₁) (hden : number false den e = number false c₂ e₂) :
    (adjusted c₁ e₁ - adjusted c₂ e₂ ≤ -2 → num < den) ∧
      (k < adjusted c₁ e₁ - adjusted c₂ e₂ → 10 ^ k ≤ num / den) := by
  have hx : number false c₁ e₁ ≠ 0 := mt number_eq_zero.1 h₁
  have hy : number false c₂ e₂ ≠ 0 := mt number_eq_zero.1 h₂
  rw [← leading_number (s := false) h₁, ← leading_number (s := false) h₂]
  refine ⟨fun hgap => ?_, fun hgap => ?_⟩
  · have hlt : |number false c₁ e₁| < |number false c₂ e₂| :=
      ((abs_lt_ten_zpow hx).2 (by omega)).trans_le ((ten_zpow_le_abs hy).2 le_rfl)
    rw [← hnum, ← hden, abs_number, abs_number] at hlt
    exact_mod_cast lt_of_mul_lt_mul_right hlt (ten_zpow_pos e).le
  · have hquotient : (10 : ℚ) ^ (k : ℤ) ≤ |number false c₁ e₁ / number false c₂ e₂| := by
      rw [ten_zpow_le_abs (div_ne_zero hx hy)]
      have hleading := le_leading_div hx hy
      omega
    rw [← ten_pow_cast, ← Int.cast_natCast, ← Int.le_floor, ← hnum, ← hden,
      floor_abs_div_number] at hquotient
    exact_mod_cast hquotient

/-- The tests on the leading digits only save the division. -/
theorem remFinite_eq (h₂ : c₂ ≠ 0) : remFinite p s c₁ e₁ c₂ e₂ =
    let num := c₁ * 10 ^ (e₁ - min e₁ e₂).toNat
    let den := c₂ * 10 ^ (e₂ - min e₁ e₂).toNat
    if num / den < 10 ^ p.digits then p.fit s (num % den) (min e₁ e₂) else .error .quotientTooLong := by
  unfold remFinite
  extract_lets e gap num den
  have hnum : number false num e = number false c₁ e₁ := number_lowered (min_le_left _ _)
  have hden : number false den e = number false c₂ e₂ := number_lowered (min_le_right _ _)
  -- a dividend that is smaller than the divisor is what is left
  have hless : num < den → p.fit s num e = if num / den < 10 ^ p.digits then p.fit s (num % den) e
      else .error .quotientTooLong := fun h => by
    rw [Nat.div_eq_of_lt h, Nat.mod_eq_of_lt h, if_pos (Nat.pow_pos (by decide))]
  by_cases h₁ : c₁ = 0
  · have hzero : num = 0 := by rw [← number_eq_zero, hnum, h₁, number_zero]
    have hpos : 0 < den := Nat.pos_of_ne_zero (Nat.mul_ne_zero h₂ (Nat.pow_pos (by decide)).ne')
    rw [if_pos (by simpa using h₁), ← hless (hzero ▸ hpos), hzero]
  rw [if_neg (by simpa using h₁)]
  obtain ⟨hsmall, hlarge⟩ := quotient_of_gap (k := p.digits) h₁ h₂ hnum hden
  by_cases hbelow : gap ≤ -2
  · rw [if_pos hbelow, ← hless (hsmall hbelow)]
  rw [if_neg hbelow]
  by_cases habove : gap ≤ p.digits
  · rw [if_pos habove]
  · rw [if_neg habove, if_neg (Nat.not_lt.2 (hlarge (not_le.1 habove)))]

/-- **Remainders are rounded from the exact remainder**, unless the whole quotient has more digits than
the precision. -/
theorem rem_gives (hp : 0 < p.digits) (h₂ : c₂ ≠ 0) (s₁ : Bool) (c₁ : ℕ) (e₁ : ℤ) (s₂ : Bool)
    (e₂ : ℤ) :
    (10 ^ p.digits ≤ ⌊|number s₁ c₁ e₁ / number s₂ c₂ e₂|⌋ →
      rem p (.finite s₁ c₁ e₁) (.finite s₂ c₂ e₂) = .error .quotientTooLong) ∧
    (⌊|number s₁ c₁ e₁ / number s₂ c₂ e₂|⌋ < 10 ^ p.digits →
      p.Gives (remainder (number s₁ c₁ e₁) (number s₂ c₂ e₂))
        (rem p (.finite s₁ c₁ e₁) (.finite s₂ c₂ e₂))) := by
  have hpow : ((10 ^ p.digits : ℕ) : ℤ) = 10 ^ p.digits := by push_cast; rfl
  have hrem : rem p (.finite s₁ c₁ e₁) (.finite s₂ c₂ e₂) = remFinite p s₁ c₁ e₁ c₂ e₂ := rfl
  rw [hrem, remFinite_eq h₂]
  extract_lets num den
  have hnum : number s₁ num (min e₁ e₂) = number s₁ c₁ e₁ := number_lowered (min_le_left _ _)
  have hden : number s₂ den (min e₁ e₂) = number s₂ c₂ e₂ := number_lowered (min_le_right _ _)
  rw [← hnum, ← hden, floor_abs_div_number, remainder_number, ← hpow, Nat.cast_le, Nat.cast_lt]
  by_cases hfits : num / den < 10 ^ p.digits
  · rw [if_pos hfits]
    exact ⟨fun h => absurd h (Nat.not_le.2 hfits), fun _ => fit_gives hp _ _ _⟩
  · rw [if_neg hfits]
    exact ⟨fun _ => rfl, fun h => absurd h hfits⟩

end Decimal
end LineScript
