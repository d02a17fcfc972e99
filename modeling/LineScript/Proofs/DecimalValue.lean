import LineScript.Decimal.Arithmetic

/-!
# The digits of decimals

The count of the digits of a number says between which powers of ten it is.  A change of sign keeps
some of the digits: nothing is rounded when those that do not fit are zeros.

## Main definitions

* `Decimal.SignChanges` — the sign of a number can be changed and nothing is rounded.

## Main results

* `digitCount_le_iff` — **a number has at most `m` digits exactly when it is below `10 ^ m`.**
-/

namespace LineScript

/-! ### Counts of digits -/

theorem digitCountBelow_pos (k n : Nat) : 0 < digitCountBelow k n := by
  induction k generalizing n with
  | zero => exact Nat.one_pos
  | succ k ih =>
    rw [digitCountBelow_succ]
    split
    · exact ih n
    · exact Nat.add_pos_right _ (ih _)

theorem digitCountBelow_le_iff {k n m : Nat} (hn : n < 10 ^ 2 ^ k) (hm : 0 < m) :
    digitCountBelow k n ≤ m ↔ n < 10 ^ m := by
  induction k generalizing n m with
  | zero =>
    have hten : 10 ^ 1 ≤ 10 ^ m := Nat.pow_le_pow_right (by decide) hm
    simp only [Nat.pow_zero, Nat.pow_one] at hn hten
    rw [digitCountBelow_zero]
    omega
  | succ k ih =>
    rw [digitCountBelow_succ]
    split
    next hlow => exact ih hlow hm
    next hhigh =>
      have hhigh := Nat.not_lt.1 hhigh
      have hhalf : n / 10 ^ 2 ^ k < 10 ^ 2 ^ k := by
        rw [Nat.div_lt_iff_lt_mul (Nat.pow_pos (by decide)), ← Nat.pow_add]
        rwa [Nat.pow_succ, Nat.mul_two] at hn
      have hpos := digitCountBelow_pos k (n / 10 ^ 2 ^ k)
      rcases Nat.lt_or_ge (2 ^ k) m with hlt | hge
      · obtain ⟨j, rfl⟩ := Nat.exists_eq_add_of_lt hlt
        have hj := ih hhalf (m := j + 1) (Nat.succ_pos j)
        rw [Nat.div_lt_iff_lt_mul (Nat.pow_pos (by decide)), ← Nat.pow_add] at hj
        rw [show 2 ^ k + j + 1 = j + 1 + 2 ^ k by omega, ← hj]
        omega
      · have hpow : 10 ^ m ≤ 10 ^ 2 ^ k := Nat.pow_le_pow_right (by decide) hge
        omega

/-- **A number has at most `m` digits exactly when it is below `10 ^ m`.** -/
theorem digitCount_le_iff {n m : Nat} (hm : 0 < m) : digitCount n ≤ m ↔ n < 10 ^ m := by
  refine digitCountBelow_le_iff ?_ hm
  calc n < 2 ^ (n.log2 + 1) := Nat.lt_log2_self
    _ ≤ 10 ^ (n.log2 + 1) := Nat.pow_le_pow_left (by decide) _
    _ ≤ 10 ^ 2 ^ ((n.log2 + 1).log2 + 1) :=
      Nat.pow_le_pow_right (by decide) (Nat.le_of_lt Nat.lt_log2_self)

theorem digitCount_pos (n : Nat) : 0 < digitCount n := digitCountBelow_pos _ n

theorem lt_pow_digitCount (n : Nat) : n < 10 ^ digitCount n :=
  (digitCount_le_iff (digitCount_pos n)).1 (Nat.le_refl _)

theorem digitCount_eq_length (n : Nat) : digitCount n = (natDigits n).length := by
  have hlength : ∀ {m}, 0 < m → ((natDigits n).length ≤ m ↔ n < 10 ^ m) := fun hm =>
    Nat.length_toDigits_le_iff (by decide) hm
  have hpos : 0 < (natDigits n).length := by
    refine Nat.pos_of_ne_zero fun h => ?_
    exact Nat.toDigits_ne_nil (List.length_eq_zero_iff.1 h)
  refine Nat.le_antisymm ((digitCount_le_iff hpos).2 ((hlength hpos).1 (Nat.le_refl _))) ?_
  exact (hlength (digitCount_pos n)).2 (lt_pow_digitCount n)

namespace Decimal

/-! ### Changes of sign -/

/-- The last exponent that `c · 10 ^ e` keeps in a change of sign. -/
def leastKept (c : Nat) (e : Int) : Int :=
  max (e + digitCount c - Precision.sign.digits) Precision.sign.tiny

/-- The sign of `c · 10 ^ e` can be changed and nothing is rounded: the number is not too large, and
below the last exponent that is kept there are only zeros. -/
def SignChanges (c : Nat) (e : Int) : Prop :=
  c = 0 ∨ e + digitCount c ≤ exponentLimit + 1 ∧ 10 ^ (leastKept c e - e).toNat ∣ c

/-- Whole numbers of few digits change their sign. -/
theorem signChanges_of_digits {c : Nat} (h : digitCount c ≤ Precision.sign.digits) : SignChanges c 0 := by
  have hdigits : (Precision.sign.digits : Int) = 28 := rfl
  have htiny : Precision.sign.tiny ≤ 0 := by decide
  have hlimit : exponentLimit = 999999 := rfl
  have hkept : (leastKept c 0 - 0).toNat = 0 := by
    unfold leastKept
    omega
  refine .inr ⟨by omega, ?_⟩
  rw [hkept, Nat.pow_zero]
  exact Nat.one_dvd c

end Decimal

end LineScript
