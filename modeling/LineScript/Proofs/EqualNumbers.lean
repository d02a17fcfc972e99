import LineScript.Proofs.NumberArithmetic
import LineScript.Value.Comparison

/-!
# Equal numbers

A number can be given in many ways: as a whole number, or as a decimal of some digits and some
exponent.  A script finds two of them equal exactly when they are the same rational number, and then
it finds no difference between them in any operation.

## Main definitions

* `Value.SameNumber` — two values that are numerically the same.
* `SameOutcome` — two outcomes of operations that are the same.

## Main results

* `Decimal.finiteOrder_eq_cmp` — finite decimals are ordered as the numbers that they stand for.
* `Value.IsNumber.equal` — **numbers are equal to a script when they are equal.**
* `arithmetic_respects_equality` — **operations on equal numbers have the same outcome.**
-/

namespace LineScript

namespace Decimal

/-! ### The order of finite decimals -/

/-- A decimal with a larger leading digit has the larger magnitude. -/
theorem number_lt_of_adjusted {c₁ c₂ : ℕ} {e₁ e₂ : ℤ} (h₁ : c₁ ≠ 0) (h₂ : c₂ ≠ 0)
    (h : adjusted c₁ e₁ < adjusted c₂ e₂) : number false c₁ e₁ < number false c₂ e₂ := by
  have hpos : ∀ {c : ℕ} {e : ℤ}, |number false c e| = number false c e := fun {c e} => by
    rw [abs_number]
    rfl
  have hx : number false c₁ e₁ ≠ 0 := mt number_eq_zero.1 h₁
  have hy : number false c₂ e₂ ≠ 0 := mt number_eq_zero.1 h₂
  rw [← leading_number (s := false) h₁, ← abs_lt_ten_zpow hx, hpos] at h
  refine h.trans_le ?_
  rw [← hpos (c := c₂), ten_zpow_le_abs hy, leading_number h₂]

theorem number_strictMono (e : ℤ) : StrictMono fun c : ℕ => number false c e := by
  intro c c' h
  have hcast : (c : ℚ) < c' := by exact_mod_cast h
  exact mul_lt_mul_of_pos_right hcast (ten_zpow_pos e)

theorem magnitudeOrder_eq_cmp {c₁ c₂ : ℕ} {e₁ e₂ : ℤ} (h₁ : c₁ ≠ 0) (h₂ : c₂ ≠ 0) :
    magnitudeOrder c₁ e₁ c₂ e₂ = cmp (number false c₁ e₁) (number false c₂ e₂) := by
  unfold magnitudeOrder
  cases horder : compare (adjusted c₁ e₁) (adjusted c₂ e₂) with
  | lt => exact ((cmp_eq_lt_iff _ _).2 (number_lt_of_adjusted h₁ h₂ (Int.compare_eq_lt.1 horder))).symm
  | gt => exact ((cmp_eq_gt_iff _ _).2 (number_lt_of_adjusted h₂ h₁ (Int.compare_eq_gt.1 horder))).symm
  | eq =>
    -- both at the lower of the two exponents, where the coefficients decide
    have hleft : number false (c₁ * 10 ^ (e₁ - e₂).toNat) (min e₁ e₂) = number false c₁ e₁ := by
      rw [number_mul_pow]
      congr 1
      omega
    have hright : number false (c₂ * 10 ^ (e₂ - e₁).toNat) (min e₁ e₂) = number false c₂ e₂ := by
      rw [number_mul_pow]
      congr 1
      omega
    rw [← hleft, ← hright, (number_strictMono (min e₁ e₂)).cmp_map_eq, cmp_eq_compare]

/-- **Finite decimals are ordered as the numbers that they stand for.** -/
theorem finiteOrder_eq_cmp (s₁ : Bool) (c₁ : ℕ) (e₁ : ℤ) (s₂ : Bool) (c₂ : ℕ) (e₂ : ℤ) :
    finiteOrder s₁ c₁ e₁ s₂ c₂ e₂ = cmp (number s₁ c₁ e₁) (number s₂ c₂ e₂) := by
  have hpos : ∀ {c : ℕ} (e : ℤ), c ≠ 0 → 0 < number false c e := fun {c} e hc => by
    rw [← number_zero false e]
    exact number_strictMono e (Nat.pos_of_ne_zero hc)
  have hneg : ∀ {c : ℕ} (e : ℤ), c ≠ 0 → number true c e < 0 := fun e hc =>
    (number_lt_zero hc).2 rfl
  unfold finiteOrder
  -- zeros have no sign; else the signs decide, and the magnitudes where they agree
  by_cases h₁ : c₁ = 0
  · subst h₁
    by_cases h₂ : c₂ = 0
    · subst h₂
      rw [number_zero, number_zero, cmp_self_eq_eq]
      rfl
    rw [number_zero, if_neg (by simpa using h₂)]
    cases s₂ with
    | false => exact ((cmp_eq_lt_iff _ _).2 (hpos e₂ h₂)).symm
    | true => exact ((cmp_eq_gt_iff _ _).2 (hneg e₂ h₂)).symm
  by_cases h₂ : c₂ = 0
  · subst h₂
    rw [number_zero, if_neg (by simp [h₁]), if_neg (by simpa using h₁)]
    cases s₁ with
    | false => exact ((cmp_eq_gt_iff _ _).2 (hpos e₁ h₁)).symm
    | true => exact ((cmp_eq_lt_iff _ _).2 (hneg e₁ h₁)).symm
  rw [if_neg (by simp [h₁]), if_neg (by simpa using h₁), if_neg (by simpa using h₂)]
  cases s₁ with
  | false =>
    cases s₂ with
    | false => exact magnitudeOrder_eq_cmp h₁ h₂
    | true => exact ((cmp_eq_gt_iff _ _).2 ((hneg e₂ h₂).trans (hpos e₁ h₁))).symm
  | true =>
    cases s₂ with
    | false => exact ((cmp_eq_lt_iff _ _).2 ((hneg e₁ h₁).trans (hpos e₂ h₂))).symm
    | true =>
      -- magnitudes of negative numbers compare the other way round
      have hanti : StrictAnti fun x : ℚ => -x := fun _ _ h => neg_lt_neg h
      rw [← Bool.not_false, number_not, number_not, hanti.cmp_map_eq]
      exact magnitudeOrder_eq_cmp h₂ h₁

/-- Equality of finite decimals is equality of numbers. -/
theorem equal_finite (s₁ : Bool) (c₁ : ℕ) (e₁ : ℤ) (s₂ : Bool) (c₂ : ℕ) (e₂ : ℤ) :
    equal (.finite s₁ c₁ e₁) (.finite s₂ c₂ e₂) =
      .ok (decide (number s₁ c₁ e₁ = number s₂ c₂ e₂)) := by
  have hequal : equal (.finite s₁ c₁ e₁) (.finite s₂ c₂ e₂) =
      .ok (some (finiteOrder s₁ c₁ e₁ s₂ c₂ e₂) == some .eq) := rfl
  rw [hequal, finiteOrder_eq_cmp]
  congr 1
  rw [Bool.eq_iff_iff, beq_iff_eq, Option.some_inj, cmp_eq_eq_iff, decide_eq_true_iff]

end Decimal

open Decimal (Precision number)

namespace Value

variable {a b v : Value} {x y z : ℚ}

/-- Whole numbers are equal when their decimals are. -/
theorem equal_of_asDecimal (view : HostView) {d e : Decimal} (hd : a.asDecimal? = some d)
    (he : b.asDecimal? = some e) : a.equal view b = equalDecimals d e := by
  obtain ⟨payload, _⟩ := a
  obtain ⟨payload', _⟩ := b
  cases payload <;> cases hd <;> cases payload' <;> cases he
  · -- two whole numbers are not taken for decimals
    rename_i m n
    have hwhole : (Decimal.ofInt m).equal (.ofInt n) = .ok (m == n) := by
      refine (Decimal.equal_finite ..).trans (congrArg Except.ok ?_)
      rw [number_ofInt, number_ofInt, Bool.eq_iff_iff, decide_eq_true_iff, beq_iff_eq, Int.cast_inj]
    rw [equalDecimals, hwhole]
    rfl
  all_goals rfl

theorem equal_of_finite (view : HostView) {s₁ s₂ : Bool} {c₁ c₂ : ℕ} {e₁ e₂ : ℤ}
    (hd : a.asDecimal? = some (.finite s₁ c₁ e₁)) (he : b.asDecimal? = some (.finite s₂ c₂ e₂)) :
    a.equal view b = .ok (decide (number s₁ c₁ e₁ = number s₂ c₂ e₂)) := by
  rw [equal_of_asDecimal view hd he, equalDecimals, Decimal.equal_finite]
  rfl

/-- Equality of numbers is decided by their values, whatever their kinds. -/
theorem IsNumber.equal (view : HostView) (ha : a.IsNumber x) (hb : b.IsNumber y) :
    a.equal view b = .ok (decide (x = y)) := by
  obtain ⟨s₁, c₁, e₁, hd, rfl⟩ := ha.asDecimal
  obtain ⟨s₂, c₂, e₂, he, rfl⟩ := hb.asDecimal
  exact equal_of_finite view hd he

theorem IsNumber.equal_iff (view : HostView) (ha : a.IsNumber x) (hb : b.IsNumber y) :
    a.equal view b = .ok true ↔ x = y := by
  rw [ha.equal view hb, Except.ok.injEq, decide_eq_true_iff]

/-- Two values are numerically the same: they stand for one number, or are the same infinity. -/
def SameNumber (v w : Value) : Prop :=
  (∃ z, v.IsNumber z ∧ w.IsNumber z) ∨ ∃ s, v = .decimal (.infinite s) ∧ w = .decimal (.infinite s)

theorem sameNumber_of_becomes {p : Precision} {w : Value} (hv : v.Becomes p z) (hw : w.Becomes p z) :
    SameNumber v w := by
  rcases hv with ⟨hsmall, hv⟩ | ⟨hlarge, rfl⟩
  · rcases hw with ⟨-, hw⟩ | ⟨hlarge, -⟩
    · exact .inl ⟨_, hv, hw⟩
    · exact absurd hlarge hsmall
  · rcases hw with ⟨hsmall, -⟩ | ⟨-, rfl⟩
    · exact absurd hlarge hsmall
    · exact .inr ⟨_, rfl, rfl⟩

/-- Numbers that are the same are equal, to a script as well. -/
theorem SameNumber.equal (view : HostView) {w : Value} (h : SameNumber v w) :
    v.equal view w = .ok true := by
  rcases h with ⟨z, hv, hw⟩ | ⟨s, rfl, rfl⟩
  · exact (hv.equal_iff view hw).2 rfl
  · cases s <;> rfl

end Value

/-- Two outcomes of an operation are the same: the same failure, or numbers that are the same and that
a script finds equal. -/
def SameOutcome (view : HostView) (r r' : Except Failure Combined) : Prop :=
  (∃ f, r = .error f ∧ r' = .error f) ∨
    ∃ v w, r = .ok (.value v) ∧ r' = .ok (.value w) ∧ v.SameNumber w ∧ v.equal view w = .ok true

theorem sameOutcome_of_isNumber (view : HostView) (op : Arithmetic) {a a' b b' : Value} {x y : ℚ}
    (ha : a.IsNumber x) (ha' : a'.IsNumber x) (hb : b.IsNumber y) (hb' : b'.IsNumber y) :
    SameOutcome view (a.combine view op b) (a'.combine view op b') := by
  have h' := Value.combine_exact view op ha' hb'
  rcases Value.combine_exact view op ha hb with ⟨f, hexact, hcombine⟩ | ⟨z, v, hexact, hcombine, hv⟩
  · rcases h' with ⟨f', hexact', hcombine'⟩ | ⟨z, v, hexact', -⟩
    · cases hexact.symm.trans hexact'
      exact .inl ⟨f, hcombine, hcombine'⟩
    · cases hexact.symm.trans hexact'
  · rcases h' with ⟨f', hexact', -⟩ | ⟨z', w, hexact', hcombine', hw⟩
    · cases hexact.symm.trans hexact'
    · cases hexact.symm.trans hexact'
      have hsame := Value.sameNumber_of_becomes hv hw
      exact .inr ⟨v, w, hcombine, hcombine', hsame, hsame.equal view⟩

/-- **Operations on equal numbers have the same outcome.**  However the numbers are given, as whole
numbers or as decimals of any digits and exponents, if a script finds the operands equal, then the
operations fail with the same failure or give the same number; and whole numbers are combined to what
their decimals are combined to. -/
theorem arithmetic_respects_equality (view : HostView) (op : Arithmetic) {a a' b b' : Value}
    {x x' y y' : ℚ} (ha : a.IsNumber x) (ha' : a'.IsNumber x') (hb : b.IsNumber y)
    (hb' : b'.IsNumber y') (heqa : a.equal view a' = .ok true) (heqb : b.equal view b' = .ok true) :
    SameOutcome view (a.combine view op b) (a'.combine view op b') ∧
    ∀ m n, a.payload = .integer m → b.payload = .integer n →
      SameOutcome view (a.combine view op b)
        ((Value.decimal (.ofInt m)).combine view op (.decimal (.ofInt n))) := by
  have hdecimal : ∀ {v : Value} {z : ℚ} {k : ℤ}, v.IsNumber z → v.payload = .integer k →
      (Value.decimal (.ofInt k)).IsNumber z := by
    intro v z k hv hk
    cases hv with
    | integer =>
      cases hk
      rw [← Value.number_ofInt k]
      exact .decimal
    | decimal => cases hk
  -- equality to a script is equality of the numbers, and the outcome depends on these only
  have hx := (ha.equal_iff view ha').1 heqa
  have hy := (hb.equal_iff view hb').1 heqb
  subst hx hy
  refine ⟨sameOutcome_of_isNumber view op ha ha' hb hb', fun m n hm hn => ?_⟩
  exact sameOutcome_of_isNumber view op ha (hdecimal ha hm) hb (hdecimal hb hn)

/-- The smallest whole number of 64 bits, divided by minus one: a result of more than 64 bits. -/
theorem arithmetic_respects_equality_smallest :
    let low : Value := ⟨.integer (-(2 ^ 63)), .none⟩
    let low' : Value := .decimal (.finite true 92233720368547758080 (-1))
    let minus : Value := ⟨.integer (-1), .none⟩
    let minus' : Value := .decimal (.finite true 100 (-2))
    low.equal default low' = .ok true ∧ minus.equal default minus' = .ok true ∧
      SameOutcome default (low.combine default .divide minus) (low'.combine default .divide minus') := by
  intro low low' minus minus'
  have hlow : low.IsNumber ((-(2 ^ 63) : ℤ) : ℚ) := .integer (by decide)
  have hlow' : low'.IsNumber (number true 92233720368547758080 (-1)) := .decimal
  have hminus : minus.IsNumber ((-1 : ℤ) : ℚ) := .integer (by decide)
  have hminus' : minus'.IsNumber (number true 100 (-2)) := .decimal
  have heqlow : low.equal default low' = .ok true :=
    (hlow.equal_iff default hlow').2 (by norm_num [number, Decimal.signed])
  have heqminus : minus.equal default minus' = .ok true :=
    (hminus.equal_iff default hminus').2 (by norm_num [number, Decimal.signed])
  exact ⟨heqlow, heqminus,
    (arithmetic_respects_equality default .divide hlow hlow' hminus hminus' heqlow heqminus).1⟩

end LineScript
