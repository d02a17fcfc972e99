import LineScript.Proofs.NumberArithmetic

/-!
# Arithmetic is correctly rounded

Sums, differences and products are the exact results rounded to 1000 digits, and quotients the exact
quotients rounded to 34 digits, a half to the even neighbour, wherever the rounded result is in the
range of exponents.  Whole numbers stay whole numbers as long as they have 64 bits.

## Main results

* `sums_correctly_rounded` — **sums, differences and products are correctly rounded**, and sums and
  products do not depend on the order.
* `quotients_correctly_rounded` — **quotients are correctly rounded**, and a divisor that is zero is
  an error.
-/

namespace LineScript

open Decimal (Precision number)
open Decimal.Precision (InRange)

namespace Value

variable {a b v : Value} {x y z : ℚ} {op : Arithmetic} {p : Precision}

/-! ### What becomes of a number in the range -/

/-- In the range of exponents a number becomes its rounding to the digits of the precision. -/
theorem Becomes.isNumber_roundDigits (hp : 0 < p.digits) (h : v.Becomes p z)
    (hrange : InRange (roundDigits p.digits z)) : v.IsNumber (roundDigits p.digits z) := by
  obtain ⟨hrounded, hsmall⟩ := Precision.rounded_eq_roundDigits hp hrange
  rcases h with ⟨-, hv⟩ | ⟨hlarge, -⟩
  · rwa [hrounded] at hv
  · exact absurd hlarge hsmall

/-- A number with few enough digits becomes itself. -/
theorem Becomes.isNumber_of_hasDigits (hp : 0 < p.digits) (h : v.Becomes p z)
    (hdigits : HasDigits p.digits z) (hrange : InRange z) : v.IsNumber z := by
  have hself := roundDigits_of_hasDigits hdigits
  have hv := h.isNumber_roundDigits hp (by rwa [hself])
  rwa [hself] at hv

/-! ### Kinds of results -/

theorem kind_ofInt (n : ℤ) : (ofInt n).kind = if inIntegerRange n then .integer else .decimal := by
  unfold ofInt kind
  split <;> rfl

theorem inIntegerRange_iff_cast {n : ℤ} :
    inIntegerRange n = true ↔ -(2 ^ 63) ≤ (n : ℚ) ∧ (n : ℚ) ≤ 2 ^ 63 - 1 := by
  rw [inIntegerRange_iff]
  exact_mod_cast Iff.rfl

/-- Sums, differences and products of whole numbers are whole. -/
theorem combineIntegers_whole (hop : zeroDivisor op = none) (m n : ℤ) :
    ∃ k : ℤ, combineIntegers op m n = .ok (ofInt k) ∧ op.exact m n = .ok (k : ℚ) := by
  cases op with
  | plus => exact ⟨m + n, rfl, by rw [Arithmetic.exact, Int.cast_add]⟩
  | subtract => exact ⟨m - n, rfl, by rw [Arithmetic.exact, Int.cast_sub]⟩
  | multiply => exact ⟨m * n, rfl, by rw [Arithmetic.exact, Int.cast_mul]⟩
  | divide | module => cases hop

theorem kind_of_combineDecimals {d₁ d₂ : Decimal} (h : combineDecimals op d₁ d₂ = .ok v) :
    v.kind = .decimal := by
  unfold combineDecimals at h
  split at h
  · cases h
    rfl
  · cases h

/-- A result is a whole number exactly when the operands are, and it has 64 bits. -/
theorem kind_of_combineNumbers (hop : zeroDivisor op = none) (ha : a.IsNumber x) (hb : b.IsNumber y)
    (hexact : op.exact x y = .ok z) (hv : combineNumbers op a b = .ok v) :
    v.kind = .integer ↔
      a.kind = .integer ∧ b.kind = .integer ∧ -(2 ^ 63) ≤ z ∧ z ≤ 2 ^ 63 - 1 := by
  rcases ha.pair hb with ⟨m, n, f, g, rfl, rfl, rfl, rfl, -, -⟩ |
    ⟨hmixed, s₁, c₁, e₁, s₂, c₂, e₂, ha', hb', -, -⟩
  · obtain ⟨k, hcombine, hwhole⟩ := combineIntegers_whole hop m n
    rw [combineNumbers_integers (.inl hop), hcombine] at hv
    cases hv
    cases hwhole.symm.trans hexact
    have hkind : ∀ {i h}, kind ⟨.integer i, h⟩ = .integer := rfl
    rw [← inIntegerRange_iff_cast, kind_ofInt, and_iff_right hkind, and_iff_right hkind]
    split <;> simp [*]
  · rw [combineNumbers_decimals (.inl hop) hmixed ha' hb'] at hv
    rw [kind_of_combineDecimals hv]
    refine ⟨fun h => (by cases h), fun h => ?_⟩
    exact absurd hmixed (not_or.2 ⟨not_not.2 h.1, not_not.2 h.2.1⟩)

/-! ### The order of the operands -/

/-- **Sums and products do not depend on the order.** -/
theorem combineNumbers_comm (hop : op = .plus ∨ op = .multiply) (ha : a.IsNumber x) (hb : b.IsNumber y) :
    combineNumbers op a b = combineNumbers op b a := by
  have hnone : zeroDivisor op = none := by rcases hop with rfl | rfl <;> rfl
  rcases ha.pair hb with ⟨m, n, f, g, rfl, rfl, -⟩ |
    ⟨hmixed, s₁, c₁, e₁, s₂, c₂, e₂, ha', hb', -⟩
  · rw [combineNumbers_integers (.inl hnone), combineNumbers_integers (.inl hnone)]
    rcases hop with rfl | rfl
    · rw [combineIntegers, combineIntegers, Int.add_comm]
    · rw [combineIntegers, combineIntegers, Int.mul_comm]
  · rw [combineNumbers_decimals (.inl hnone) hmixed ha' hb',
      combineNumbers_decimals (.inl hnone) hmixed.symm hb' ha', combineDecimals, combineDecimals]
    rcases hop with rfl | rfl
    · rw [decimalOperation, Decimal.add_finite_comm]
    · rw [decimalOperation, Decimal.mul_finite_comm]

end Value

/-- **Sums, differences and products are correctly rounded.**  The result is the exact one rounded to
1000 digits, a half to the even neighbour, whenever that is in the range of exponents; so it is exact
when the exact result has at most 1000 digits.  It is a whole number exactly when the operands are and
it has 64 bits.  The operands of a sum and of a product can be swapped: the result is the same in kind,
sign, digits and exponent. -/
theorem sums_correctly_rounded (view : HostView) {op : Arithmetic}
    (hop : op = .plus ∨ op = .subtract ∨ op = .multiply) {a b : Value} {x y : ℚ} (ha : a.IsNumber x)
    (hb : b.IsNumber y) :
    ∃ z v, op.exact x y = .ok z ∧ a.combine view op b = .ok (.value v) ∧
      (InRange (roundDigits 1000 z) → v.IsNumber (roundDigits 1000 z)) ∧
      (HasDigits 1000 z → InRange z → v.IsNumber z) ∧
      (v.kind = .integer ↔
        a.kind = .integer ∧ b.kind = .integer ∧ -(2 ^ 63) ≤ z ∧ z ≤ 2 ^ 63 - 1) ∧
      (op ≠ .subtract → b.combine view op a = .ok (.value v)) := by
  have hnone : Value.zeroDivisor op = none := by rcases hop with rfl | rfl | rfl <;> rfl
  have hwide : op.precision = .wide := by rcases hop with rfl | rfl | rfl <;> rfl
  have hpos : 0 < Precision.wide.digits := by decide
  rcases Value.combineNumbers_answers op ha hb with ⟨f, hexact, -⟩ | ⟨z, v, hexact, hanswer, hv⟩
  · rcases hop with rfl | rfl | rfl <;> cases hexact
  rw [hwide] at hv
  have hrounded := hv.isNumber_roundDigits hpos
  have hself := hv.isNumber_of_hasDigits hpos
  rw [show Precision.wide.digits = 1000 from rfl] at hrounded hself
  refine ⟨z, v, hexact, ?_, hrounded, hself,
    Value.kind_of_combineNumbers hnone ha hb hexact hanswer, fun hswap => ?_⟩
  · rw [Value.combine_of_isNumeric view op ha.isNumeric hb.isNumeric, hanswer]
    rfl
  · have hcomm : op = .plus ∨ op = .multiply := hop.imp_right fun h => h.resolve_left hswap
    rw [Value.combine_of_isNumeric view op hb.isNumeric ha.isNumeric,
      ← Value.combineNumbers_comm hcomm ha hb, hanswer]
    rfl

/-- Five is a half of the last digit that is kept, and the power of ten is the even neighbour. -/
theorem roundDigits_power_add_five (k : ℕ) :
    roundDigits (k + 2) (10 ^ (k + 2 : ℤ) + 5) = 10 ^ (k + 2 : ℤ) := by
  obtain ⟨m, hm, hpower⟩ : ∃ m : ℕ, 1 ≤ m ∧ (10 : ℚ) ^ (k + 2 : ℤ) = 100 * m := by
    refine ⟨10 ^ k, Nat.pow_pos (by decide), ?_⟩
    rw [ten_zpow_add, ten_pow_cast, mul_comm]
    norm_num
  have hm : (1 : ℚ) ≤ m := by exact_mod_cast hm
  have hleading : leading (10 ^ (k + 2 : ℤ) + 5) = k + 2 := by
    refine leading_eq ?_ ?_ <;> rw [abs_of_pos (add_pos (ten_zpow_pos _) (by norm_num))]
    · linarith
    · rw [ten_zpow_add (k + 2), zpow_one, hpower]
      linarith
  have hhalf : nearestEven ((100 * m + 5) / 10) = 10 * m := by
    have hdistance : (100 * (m : ℚ) + 5) / 10 - ((10 * m : ℤ) : ℚ) = 1 / 2 := by
      push_cast
      ring
    refine nearestEven_eq ?_ fun _ => by omega
    rw [hdistance, abs_of_pos (by norm_num)]
  have hplace : (k + 2 + 1 - (k + 2 : ℕ) : ℤ) = 1 := by
    push_cast
    ring
  rw [roundDigits, hleading, hplace, roundAt, zpow_one, hpower, hhalf]
  push_cast
  ring

/-- A sum of 1001 digits that end in a five: the tie is rounded to the even neighbour. -/
theorem sums_correctly_rounded_tie :
    let a : Value := .decimal (.finite false 1 1000)
    let b : Value := ⟨.integer 5, .none⟩
    a.IsNumber (10 ^ (1000 : ℤ)) ∧ b.IsNumber 5 ∧
      ∃ v, a.combine default .plus b = .ok (.value v) ∧ v.IsNumber (10 ^ (1000 : ℤ)) := by
  intro a b
  have ha : a.IsNumber (10 ^ (1000 : ℤ)) := by
    have h : a.IsNumber (number false 1 1000) := .decimal
    simpa [number, Decimal.signed] using h
  have hb : b.IsNumber 5 := by
    have h : b.IsNumber ((5 : ℤ) : ℚ) := .integer (by decide)
    exact_mod_cast h
  obtain ⟨z, v, hexact, hcombine, hrounded, -⟩ := sums_correctly_rounded default (.inl rfl) ha hb
  cases hexact
  refine ⟨ha, hb, v, hcombine, ?_⟩
  have htie : roundDigits 1000 (10 ^ (1000 : ℤ) + 5) = 10 ^ (1000 : ℤ) := roundDigits_power_add_five 998
  have hleading : leading (10 ^ (1000 : ℤ)) = 1000 := leading_ten_zpow 1000
  rw [htie] at hrounded
  refine hrounded (.inr ?_)
  rw [hleading]
  decide

/-! ### Quotients -/

namespace Value

variable {a b v : Value} {x y : ℚ}

theorem isZero_integer {n : ℤ} {f : Flags} (hn : n ≠ 0) : isZero ⟨.integer n, f⟩ = .ok false :=
  congrArg Except.ok (beq_false_of_ne hn)

/-- A whole quotient has 64 bits, but for one case. -/
theorem inIntegerRange_ediv {m n : ℤ} (hm : inIntegerRange m = true) (hn : n ≠ 0) (h : n ∣ m) :
    inIntegerRange (m / n) = true ↔ ¬ (m = -(2 ^ 63) ∧ n = -1) := by
  obtain ⟨k, rfl⟩ := h
  have hproduct := natAbs_le_of_inIntegerRange hm
  rw [Int.natAbs_mul] at hproduct
  have hk : k.natAbs ≤ 2 ^ 63 :=
    (Nat.le_mul_of_pos_left k.natAbs (Int.natAbs_pos.2 hn)).trans hproduct
  rw [Int.mul_ediv_cancel_left k hn]
  rw [inIntegerRange_iff] at hm ⊢
  constructor
  · rintro ⟨-, hmost⟩ ⟨hlow, rfl⟩
    omega
  · intro hcase
    refine ⟨by omega, ?_⟩
    by_contra hlarge
    -- the quotient is just above 64 bits, so nothing is divided
    have hedge : k = 2 ^ 63 := by omega
    subst hedge
    have hunit : n.natAbs ≤ 1 := Nat.le_of_mul_le_mul_right (by omega) (by decide : 0 < 2 ^ 63)
    have hminus : n = 1 ∨ n = -1 := by omega
    rcases hminus with rfl | rfl
    · omega
    · exact hcase ⟨by omega, rfl⟩

/-- **Whole numbers that divide without a rest are divided as whole numbers.** -/
theorem divide_whole {m n : ℤ} {f g : Flags} (hm : inIntegerRange m = true) (hn : n ≠ 0) (h : n ∣ m) :
    ∃ v, combineNumbers .divide ⟨.integer m, f⟩ ⟨.integer n, g⟩ = .ok v ∧ v.IsNumber (m / n) ∧
      v.kind = if m = -(2 ^ 63) ∧ n = -1 then .decimal else .integer := by
  have hrest : (m.tmod n == 0) = true := beq_iff_eq.2 (Int.tmod_eq_zero_of_dvd h)
  have hbits := inIntegerRange_ediv hm hn h
  refine ⟨ofInt (m / n), ?_, ?_, ?_⟩
  · rw [combineNumbers_integers (.inr (isZero_integer hn)), combineIntegers, if_pos hrest,
      Int.tdiv_eq_ediv_of_dvd h]
  · rw [← Int.cast_div h (Int.cast_ne_zero.2 hn)]
    exact isNumber_ofInt _
  · rw [kind_ofInt]
    by_cases hcase : m = -(2 ^ 63) ∧ n = -1
    · rw [if_pos hcase, if_neg fun hrange => hbits.1 hrange hcase]
    · rw [if_neg hcase, if_pos (hbits.2 hcase)]

/-- A result has at most the digits of the precision, unless it is an infinity. -/
theorem digits_of_gives {p : Precision} {z : ℚ} {d : Decimal} {r : Except Decimal.Fault Decimal}
    (hp : 0 < p.digits) (h : p.Gives z r) (hd : r = .ok d) :
    (∃ s c e, d = .finite s c e ∧ digitCount c ≤ p.digits) ∨
      ∃ s, d = .infinite s ∧ Decimal.exponentLimit < leading (roundDigits p.digits z) := by
  cases h with
  | finite small rounds digits =>
    cases hd
    exact .inl ⟨_, _, _, rfl, (digitCount_le_iff hp).2 digits⟩
  | overflowed large =>
    unfold Precision.overflowed at hd
    split at hd
    · cases hd
    · cases hd
      exact .inr ⟨_, rfl, large.lt_leading⟩

/-- All other quotients are divided as decimals. -/
theorem divide_decimals (ha : a.IsNumber x) (hb : b.IsNumber y) (hy : y ≠ 0)
    (h : ∀ m n, a.payload = .integer m → b.payload = .integer n → ¬ n ∣ m) :
    ∃ d₁ d₂, combineNumbers .divide a b = combineDecimals .divide d₁ d₂ ∧
      Precision.quotient.Gives (x / y) (decimalOperation .divide d₁ d₂) := by
  have htest : zeroDivisor .divide = none ∨ b.isZero = .ok false := by
    rw [hb.isZero, decide_eq_false hy]
    exact .inr rfl
  have hgives : ∀ {s₁ c₁ e₁ s₂ c₂ e₂}, number s₁ c₁ e₁ = x → number s₂ c₂ e₂ = y →
      Precision.quotient.Gives (x / y)
        (decimalOperation .divide (.finite s₁ c₁ e₁) (.finite s₂ c₂ e₂)) := by
    intro s₁ c₁ e₁ s₂ c₂ e₂ hx hy'
    rw [← hx, ← hy']
    rw [← hy'] at hy
    exact Decimal.div_gives (by decide) (mt Decimal.number_eq_zero.2 hy) _ _ _ _ _
  rcases ha.pair hb with ⟨m, n, f, g, rfl, rfl, rfl, rfl, -, -⟩ |
    ⟨hmixed, s₁, c₁, e₁, s₂, c₂, e₂, ha', hb', hx, hy'⟩
  · have hrest : ¬ (m.tmod n == 0) = true := fun hzero =>
      h m n rfl rfl (Int.dvd_of_tmod_eq_zero (beq_iff_eq.1 hzero))
    refine ⟨.ofInt m, .ofInt n, ?_, hgives (number_ofInt m) (number_ofInt n)⟩
    rw [combineNumbers_integers htest, combineIntegers, if_neg hrest]
  · exact ⟨_, _, combineNumbers_decimals htest hmixed ha' hb', hgives hx.symm hy'.symm⟩

/-- **All other quotients are rounded to 34 digits.** -/
theorem divide_rounded (ha : a.IsNumber x) (hb : b.IsNumber y) (hy : y ≠ 0)
    (h : ∀ m n, a.payload = .integer m → b.payload = .integer n → ¬ n ∣ m) :
    ∃ v, combineNumbers .divide a b = .ok v ∧
      ((∃ s c e, v = .decimal (.finite s c e) ∧ digitCount c ≤ 34) ∨
        ∃ s, v = .decimal (.infinite s) ∧
          Decimal.exponentLimit < leading (roundDigits 34 (x / y))) ∧
      (InRange (roundDigits 34 (x / y)) → v.IsNumber (roundDigits 34 (x / y))) ∧
      (HasDigits 34 (x / y) → InRange (x / y) → v.IsNumber (x / y)) := by
  have hpos : 0 < Precision.quotient.digits := by decide
  obtain ⟨d₁, d₂, hcombine, hgives⟩ := divide_decimals ha hb hy h
  obtain ⟨d, hd, hbecomes⟩ := becomes_of_gives rfl hgives
  have hdigits := digits_of_gives hpos hgives hd
  have hrounded := hbecomes.isNumber_roundDigits hpos
  have hself := hbecomes.isNumber_of_hasDigits hpos
  rw [show Precision.quotient.digits = 34 from rfl] at hdigits hrounded hself
  refine ⟨.decimal d, by rw [hcombine, combineDecimals, hd], ?_, hrounded, hself⟩
  rcases hdigits with ⟨s, c, e, rfl, hc⟩ | ⟨s, rfl, hlarge⟩
  · exact .inl ⟨s, c, e, rfl, hc⟩
  · exact .inr ⟨s, rfl, hlarge⟩

end Value

/-- **Quotients are correctly rounded.**  Whole numbers that divide without a rest give the exact
quotient, a whole number but for one case.  Any other quotient is a decimal of at most 34 digits, or an
infinity when it is too large; it is the exact quotient rounded to 34 digits, a half to the even
neighbour, whenever that is in the range of exponents, so it is exact when the exact quotient has at
most 34 digits.  A divisor that is zero is an error of arithmetic, for quotients and for remainders,
whatever is divided. -/
theorem quotients_correctly_rounded (view : HostView) {a b : Value} {y : ℚ} (hb : b.IsNumber y) :
    (∀ x, a.IsNumber x → y ≠ 0 → ∃ v, a.combine view .divide b = .ok (.value v) ∧
      (∀ m n, a.payload = .integer m → b.payload = .integer n → n ∣ m →
        v.IsNumber (x / y) ∧ v.kind = if m = -(2 ^ 63) ∧ n = -1 then .decimal else .integer) ∧
      ((∀ m n, a.payload = .integer m → b.payload = .integer n → ¬ n ∣ m) →
        ((∃ s c e, v = .decimal (.finite s c e) ∧ digitCount c ≤ 34) ∨
          ∃ s, v = .decimal (.infinite s) ∧
            Decimal.exponentLimit < leading (roundDigits 34 (x / y))) ∧
        (InRange (roundDigits 34 (x / y)) → v.IsNumber (roundDigits 34 (x / y))) ∧
        (HasDigits 34 (x / y) → InRange (x / y) → v.IsNumber (x / y)))) ∧
    (y = 0 → a.isNumeric = true →
      a.combine view .divide b = .error (.ofCause .divisionByZero) ∧
      a.combine view .module b = .error (.ofCause .moduloByZero) ∧
      Cause.divisionByZero.kind = .arithmetic ∧ Cause.moduloByZero.kind = .arithmetic) := by
  refine ⟨fun x ha hy => ?_, ?_⟩
  · rw [Value.combine_of_isNumeric view .divide ha.isNumeric hb.isNumeric]
    by_cases hwhole : ∃ m n, a.payload = .integer m ∧ b.payload = .integer n ∧ n ∣ m
    · obtain ⟨m, n, hm, hn, hdvd⟩ := hwhole
      cases ha with
      | decimal => cases hm
      | integer hrange =>
        cases hb with
        | decimal => cases hn
        | integer =>
          cases hm
          cases hn
          obtain ⟨v, hv, hexact, hkind⟩ := Value.divide_whole hrange (Int.cast_ne_zero.1 hy) hdvd
          refine ⟨v, by rw [hv]; rfl, ?_, fun h => absurd hdvd (h m n rfl rfl)⟩
          rintro _ _ ⟨⟩ ⟨⟩ -
          exact ⟨hexact, hkind⟩
    · have hrest : ∀ m n, a.payload = .integer m → b.payload = .integer n → ¬ n ∣ m :=
        fun m n hm hn hdvd => hwhole ⟨m, n, hm, hn, hdvd⟩
      obtain ⟨v, hv, hrounded⟩ := Value.divide_rounded ha hb hy hrest
      exact ⟨v, by rw [hv]; rfl, fun m n hm hn hdvd => absurd hdvd (hrest m n hm hn), fun _ => hrounded⟩
  · rintro rfl ha
    have hdivide : Value.zeroDivisor .divide = some .divisionByZero := rfl
    have hmodule : Value.zeroDivisor .module = some .moduloByZero := rfl
    rw [Value.combine_of_isNumeric view .divide ha hb.isNumeric,
      Value.combine_of_isNumeric view .module ha hb.isNumeric,
      Value.combineNumbers_of_zero hdivide hb, Value.combineNumbers_of_zero hmodule hb]
    exact ⟨rfl, rfl, rfl, rfl⟩

theorem roundDigits_two_thirds :
    roundDigits 34 (2 / 3) = 6666666666666666666666666666666667 * 10 ^ (-34 : ℤ) := by
  have hleading : leading (2 / 3) = -1 := by
    refine leading_eq ?_ ?_ <;> norm_num
  have hnearest : nearestEven (2 / 3 / 10 ^ (-34 : ℤ)) = 6666666666666666666666666666666667 :=
    nearestEven_of_lt (by norm_num [abs_lt])
  rw [roundDigits, hleading, show (-1 + 1 - (34 : ℕ) : ℤ) = -34 from rfl, roundAt, hnearest]
  norm_num

/-- Two thirds of whole numbers: 33 sixes and a seven. -/
theorem quotients_correctly_rounded_two_thirds :
    let a : Value := ⟨.integer 2, .none⟩
    let b : Value := ⟨.integer 3, .none⟩
    a.IsNumber 2 ∧ b.IsNumber 3 ∧
      ∃ v, a.combine default .divide b = .ok (.value v) ∧
        v.IsNumber (6666666666666666666666666666666667 * 10 ^ (-34 : ℤ)) := by
  intro a b
  have ha : a.IsNumber ((2 : ℤ) : ℚ) := .integer (by decide)
  have hb : b.IsNumber ((3 : ℤ) : ℚ) := .integer (by decide)
  norm_cast at ha hb
  obtain ⟨v, hcombine, -, hrest⟩ := (quotients_correctly_rounded default hb).1 2 ha (by norm_num)
  obtain ⟨-, hrounded, -⟩ := hrest (by rintro _ _ ⟨⟩ ⟨⟩; decide)
  refine ⟨ha, hb, v, hcombine, ?_⟩
  rw [roundDigits_two_thirds] at hrounded
  refine hrounded (.inr ?_)
  have hleading : leading (6666666666666666666666666666666667 * 10 ^ (-34 : ℤ)) = -1 := by
    refine leading_eq ?_ ?_ <;> norm_num
  rw [hleading]
  decide

end LineScript
