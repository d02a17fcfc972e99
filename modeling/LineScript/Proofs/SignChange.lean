import LineScript.Proofs.ExactRemainders
import LineScript.Proofs.EqualNumbers

/-!
# Changes of sign

A change of sign rounds to 28 digits, and it fails when that is too large; a difference keeps 1000
digits.  So a number with its sign changed is zero minus the number, and changing the sign twice gives
the number back, exactly when 28 digits hold the number.

## Main results

* `Decimal.Precision.holds_iff` — a precision holds the numbers that it does not round.
* `Decimal.Precision.holds_number_iff` — 28 digits hold a number exactly when those that do not fit are
  zeros.
* `Value.negate_eq` — **a change of sign rounds to 28 digits**, or fails when that is too large.
* `Value.zero_sub_exact` — **zero minus a number is exact.**
* `unary_minus_iff_holds` — **a change of sign is a difference from zero exactly when 28 digits hold the
  number.**
-/

namespace LineScript

namespace Decimal.Precision

variable {p : Precision} {x : ℚ}

theorem quantum_neg (p : Precision) (x : ℚ) : p.quantum (-x) = p.quantum x := by
  rw [quantum, leading_neg, quantum]

theorem rounded_neg (p : Precision) (x : ℚ) : p.rounded (-x) = -p.rounded x := by
  rw [rounded, quantum_neg, roundAt_neg, rounded]

theorem overflows_neg : p.Overflows (-x) ↔ p.Overflows x := by
  rw [Overflows, rounded_neg, abs_neg, Overflows]

theorem Holds.neg (h : p.Holds x) : p.Holds (-x) := by
  obtain ⟨⟨s, c, e, rfl, hdigits, he⟩, hsmall⟩ := h
  exact ⟨⟨!s, c, e, number_not s c e, hdigits, he⟩, by rwa [abs_neg]⟩

/-- What a number is rounded to can be written in the precision. -/
theorem holds_rounded (hp : 0 < p.digits) (h : ¬ p.Overflows x) : p.Holds (p.rounded x) := by
  have htiny : p.tiny ≤ p.quantum x := le_max_right _ _
  refine ⟨?_, not_le.1 h⟩
  have hnumber : number (nearestEven (x / 10 ^ p.quantum x) < 0)
      (nearestEven (x / 10 ^ p.quantum x)).natAbs (p.quantum x) = p.rounded x := number_natAbs _ _
  rcases (abs_rounded_le p x).lt_or_eq with hlt | heq
  · refine ⟨_, _, _, hnumber, ?_, htiny⟩
    rw [← hnumber, abs_number, ten_zpow_add, ← ten_pow_cast] at hlt
    exact_mod_cast lt_of_mul_lt_mul_right hlt (ten_zpow_pos (p.quantum x)).le
  · -- rounding up has reached the next power of ten, which is a one with an exponent
    have hone : 1 < 10 ^ p.digits := Nat.one_lt_pow hp.ne' (by decide)
    rcases (abs_eq (ten_zpow_pos _).le).1 heq with hpos | hneg
    · exact ⟨false, 1, p.digits + p.quantum x, by simp [number, signed, hpos], hone, by omega⟩
    · exact ⟨true, 1, p.digits + p.quantum x, by simp [number, signed, hneg], hone, by omega⟩

/-- **A precision holds the numbers that it does not round.** -/
theorem holds_iff (hp : 0 < p.digits) : p.Holds x ↔ ¬ p.Overflows x ∧ p.rounded x = x := by
  refine ⟨fun h => ⟨h.not_overflows, h.rounded_eq⟩, fun ⟨h, heq⟩ => ?_⟩
  rw [← heq]
  exact holds_rounded hp h

/-- **28 digits hold a number exactly when the digits that do not fit are zeros.** -/
theorem holds_number_iff {c : ℕ} {e : ℤ} :
    Precision.sign.Holds (number false c e) ↔ SignChanges c e := by
  have hpos : 0 < Precision.sign.digits := by decide
  by_cases hc : c = 0
  · subst hc
    refine iff_of_true ((holds_iff hpos).2 ?_) (.inl rfl)
    rw [number_zero]
    exact ⟨not_overflows_zero _, rounded_zero _⟩
  have hquantum : Precision.sign.quantum (number false c e) = leastKept c e := by
    rw [quantum, leading_number hc, adjusted, leastKept, sub_add_cancel]
  have hsize : |number false c e| < 10 ^ (exponentLimit + 1) ↔
      e + digitCount c ≤ exponentLimit + 1 := by
    rw [abs_lt_ten_zpow (mt number_eq_zero.1 hc), leading_number hc, adjusted]
    omega
  rw [SignChanges, or_iff_right hc, ← hsize]
  constructor
  · refine fun h => ⟨h.2, ?_⟩
    rcases le_total e (leastKept c e) with hlow | hhigh
    · -- the digits that are left, with zeros in the place of the others, are the number
      have hleast : leastKept c e = e + (leastKept c e - e).toNat := by omega
      have hrounded := h.rounded_eq
      rw [rounded, hquantum, ← number_dropDigits hlow] at hrounded
      nth_rewrite 2 [hleast] at hrounded
      rw [← number_mul_pow] at hrounded
      exact Dvd.intro_left _ ((number_strictMono e).injective hrounded)
    · rw [Int.toNat_of_nonpos (by omega), pow_zero]
      exact one_dvd c
  · rintro ⟨hlarge, c', hc'⟩
    have hkept : Precision.sign.rounded (number false c e) = number false c e := by
      have hnumber : number false c e = number false c' (e + (leastKept c e - e).toNat) := by
        rw [← number_mul_pow, mul_comm, ← hc']
      rw [hnumber]
      refine rounded_of_le ?_
      rw [← hnumber, hquantum]
      omega
    refine (holds_iff hpos).2 ⟨not_overflows_of_lt le_rfl ?_, hkept⟩
    rwa [hkept]

end Decimal.Precision

open Decimal (Precision number)

namespace Value

variable {v : Value} {x : ℚ}

/-- **A change of sign rounds to 28 digits**, or fails when that is too large. -/
theorem negate_eq (hv : v.IsNumber x) :
    ¬ Precision.sign.Overflows x ∧ (∃ u, v.negate = .ok u ∧ u.IsNumber (-Precision.sign.rounded x)) ∨
      Precision.sign.Overflows x ∧ v.negate = .error (.fault Decimal.Fault.overflow.toFault) := by
  cases hv with
  | @integer n f range =>
    have hholds : Precision.sign.Holds n := holds_ofInt (by decide) (by decide) range
    refine .inl ⟨hholds.not_overflows, ofInt (-n), rfl, ?_⟩
    rw [hholds.rounded_eq, ← Int.cast_neg]
    exact isNumber_ofInt (-n)
  | @decimal s c e f =>
    have hgives : Precision.sign.Gives (-number s c e) (Decimal.finite s c e).neg := by
      rw [← Decimal.number_not]
      -- zero loses its sign, any other number changes it
      by_cases hc : c = 0
      · subst hc
        simpa [Decimal.neg] using Precision.fit_gives (p := .sign) (by decide) false 0 e
      · rw [Decimal.neg, if_neg (by simpa using hc)]
        exact Precision.fit_gives (by decide) (!s) c e
    rw [← Precision.overflows_neg, ← Precision.rounded_neg]
    have hnegate : negate ⟨.decimal (.finite s c e), f⟩ =
      ((Decimal.finite s c e).neg.map decimal).mapError fun f => .fault f.toFault := rfl
    rw [hnegate]
    generalize (Decimal.finite s c e).neg = r at hgives
    cases hgives with
    | finite small rounds digits =>
      refine .inl ⟨small, _, rfl, ?_⟩
      rw [← rounds]
      exact .decimal
    | overflowed large => exact .inr ⟨large, rfl⟩

theorem isNumber_of_negate {u : Value} (hv : v.IsNumber x) (hu : v.negate = .ok u) :
    ¬ Precision.sign.Overflows x ∧ u.IsNumber (-Precision.sign.rounded x) := by
  rcases negate_eq hv with ⟨hsmall, u', hu', hnumber⟩ | ⟨-, herror⟩
  · cases hu.symm.trans hu'
    exact ⟨hsmall, hnumber⟩
  · cases hu.symm.trans herror

/-- The sign of a number that 28 digits hold is changed as it should. -/
theorem negate_of_holds (hv : v.IsNumber x) (h : Precision.sign.Holds x) :
    ∃ u, v.negate = .ok u ∧ u.IsNumber (-x) := by
  rcases negate_eq hv with ⟨-, u, hu, hnumber⟩ | ⟨hlarge, -⟩
  · exact ⟨u, hu, h.rounded_eq ▸ hnumber⟩
  · exact absurd hlarge h.not_overflows

/-- **Zero minus a number is exact.** -/
theorem zero_sub_exact (view : HostView) (hv : v.IsNumber x) (hl : v.WithinLimits) :
    ∃ w, (ofInt 0).combine view .subtract v = .ok (.value w) ∧ w.IsNumber (-x) := by
  have hzero : (ofInt 0).IsNumber 0 := by simpa using isNumber_ofInt 0
  rcases combine_exact view .subtract hzero hv with ⟨f, hexact, -⟩ | ⟨z, w, hexact, hcombine, hw⟩
  · cases hexact
  · cases hexact
    rw [zero_sub] at hw
    exact ⟨w, hcombine, hw.isNumber_of_holds (hl.holds hv).neg⟩

end Value

open Value in
/-- **A change of sign is a difference from zero exactly when 28 digits hold the number.**  The number
has at most 1000 digits and exponents within the limits.  Zero minus the number is exact.  A change of
sign rounds it to 28 digits, a half to the even neighbour, and fails when that is too large.  So the
two agree, and a second change of sign gives the number back, exactly for the numbers that can be
written with 28 digits; all whole numbers of 64 bits are among them. -/
theorem unary_minus_iff_holds (view : HostView) {v : Value} {x : ℚ} (hv : v.IsNumber x)
    (hl : v.WithinLimits) :
    (∃ w, (ofInt 0).combine view .subtract v = .ok (.value w) ∧ w.IsNumber (-x) ∧
      ((∃ u, v.negate = .ok u ∧ u.equal view w = .ok true) ↔ Precision.sign.Holds x)) ∧
    ((∃ u t, v.negate = .ok u ∧ u.negate = .ok t ∧ t.equal view v = .ok true) ↔
      Precision.sign.Holds x) ∧
    (¬ Precision.sign.Overflows x →
      ∃ u, v.negate = .ok u ∧ u.IsNumber (-Precision.sign.rounded x)) ∧
    (Precision.sign.Overflows x → v.negate = .error (.fault Decimal.Fault.overflow.toFault)) ∧
    (v.kind = .integer → Precision.sign.Holds x) := by
  have hpos : 0 < Precision.sign.digits := by decide
  obtain ⟨w, hcombine, hw⟩ := zero_sub_exact view hv hl
  refine ⟨⟨w, hcombine, hw, ?_, ?_⟩, ⟨?_, ?_⟩, fun hsmall => ?_, fun hlarge => ?_, fun hkind => ?_⟩
  · rintro ⟨u, hu, hequal⟩
    obtain ⟨hsmall, hnumber⟩ := isNumber_of_negate hv hu
    have heq := (hnumber.equal_iff view hw).1 hequal
    exact (Precision.holds_iff hpos).2 ⟨hsmall, neg_inj.1 heq⟩
  · intro hholds
    obtain ⟨u, hu, hnumber⟩ := negate_of_holds hv hholds
    exact ⟨u, hu, (hnumber.equal_iff view hw).2 rfl⟩
  · -- what a second change of sign gives is rounded, so it is held
    rintro ⟨u, t, hu, ht, hequal⟩
    obtain ⟨-, hnumber⟩ := isNumber_of_negate hv hu
    obtain ⟨hsmall, hnumber'⟩ := isNumber_of_negate hnumber ht
    have heq := (hnumber'.equal_iff view hv).1 hequal
    rw [← heq]
    exact (Precision.holds_rounded hpos hsmall).neg
  · intro hholds
    obtain ⟨u, hu, hnumber⟩ := negate_of_holds hv hholds
    obtain ⟨t, ht, hnumber'⟩ := negate_of_holds hnumber hholds.neg
    exact ⟨u, t, hu, ht, (hnumber'.equal_iff view hv).2 (neg_neg x)⟩
  · rcases negate_eq hv with ⟨-, hnumber⟩ | ⟨hlarge, -⟩
    · exact hnumber
    · exact absurd hlarge hsmall
  · rcases negate_eq hv with ⟨hsmall, -⟩ | ⟨-, herror⟩
    · exact absurd hlarge hsmall
    · exact herror
  · cases hv with
    | integer range => exact holds_ofInt (by decide) (by decide) range
    | decimal => cases hkind

/-- A number of 29 digits that end in a zero is held by 28 digits, so its sign can be changed twice. -/
theorem unary_minus_iff_holds_zeros :
    let v : Value := .decimal (.finite false 12345678901234567890123456780 (-28))
    v.IsNumber (number false 12345678901234567890123456780 (-28)) ∧ v.WithinLimits ∧
      ∃ u t, v.negate = .ok u ∧ u.negate = .ok t ∧ t.equal default v = .ok true := by
  intro v
  have hv : v.IsNumber (number false 12345678901234567890123456780 (-28)) := .decimal
  have hl : v.WithinLimits := by
    rintro _ _ _ ⟨⟩
    decide
  have hholds : Precision.sign.Holds (number false 12345678901234567890123456780 (-28)) := by
    refine ⟨⟨false, 1234567890123456789012345678, -27, ?_, by decide, by decide⟩, (hl.holds hv).2⟩
    norm_num [number, Decimal.signed]
  exact ⟨hv, hl, (unary_minus_iff_holds default hv hl).2.1.2 hholds⟩

/-- A number of 29 digits loses the last one when its sign is changed: it is not zero minus the number
any more, and a second change of sign does not bring the number back. -/
theorem negate_rounds_digits :
    let v : Value := .decimal (.finite false 12345678901234567890123456789 (-28))
    ∃ u w t, v.negate = .ok u ∧ (Value.ofInt 0).combine default .subtract v = .ok (.value w) ∧
      u.equal default w = .ok false ∧ u.negate = .ok t ∧ t.equal default v = .ok false := by
  exact ⟨_, _, _, rfl, rfl, by decide +kernel, rfl, by decide +kernel⟩

end LineScript
