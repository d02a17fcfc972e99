import LineScript.Proofs.Discipline
import LineScript.Proofs.NumberArithmetic

/-!
# Classes of numbers that operations keep to

Decimals are finite, infinite, or no numbers at all.  An operation on decimals that are numbers or
infinite gives such a decimal again, or fails; so does a change of sign, and it never makes an infinity
of a finite number.  An operation on finite numbers, though, may give an infinity: the result is too
large for the exponents then.

## Main definitions

* `Decimal.IsFinite`, `Decimal.IsInfinite`, `Decimal.IsOrdered` — classes of decimals.
* `NumberClass` — a class of decimals that operations leave in one direction only.

## Main results

* `numberClass_ordered` — **no operation on numbers gives what is no number.**
* `numberClass_finite` — **operations on finite numbers leave them for the infinities only.**
* `NumberClass.combine`, `NumberClass.negate` — operations on values.
-/

namespace LineScript

namespace Decimal

/-- A finite decimal. -/
def IsFinite : Decimal → Prop
  | .finite .. => True
  | _ => False

/-- An infinity. -/
def IsInfinite : Decimal → Prop
  | .infinite _ => True
  | _ => False

/-- A decimal that has a place in the order of numbers: a finite one or an infinity. -/
def IsOrdered : Decimal → Prop
  | .nan .. => False
  | _ => True

variable {p : Precision} {a b d : Decimal} {s : Bool} {c : ℕ} {e : ℤ}

theorem isOrdered_iff : d.IsOrdered ↔ d.IsFinite ∨ d.IsInfinite := by
  cases d <;> simp [IsOrdered, IsFinite, IsInfinite]

theorem IsFinite.isOrdered (h : d.IsFinite) : d.IsOrdered := isOrdered_iff.2 (.inl h)

theorem IsFinite.not_isInfinite (h : d.IsFinite) : ¬ d.IsInfinite := by
  cases d with
  | finite => exact id
  | infinite | nan => cases h

theorem isFinite_ofInt (n : ℤ) : (ofInt n).IsFinite := trivial

/-- A number that is rounded is finite, or too large and an infinity. -/
theorem Precision.Gives.isFinite {x : ℚ} (h : p.Gives x (.ok d)) :
    d.IsFinite ∨ p.overflowFails = false ∧ d.IsInfinite := by
  generalize hr : Except.ok d = r at h
  cases h with
  | finite =>
    cases hr
    exact .inl trivial
  | overflowed =>
    unfold Precision.overflowed at hr
    split at hr <;> cases hr
    next hfails => exact .inr ⟨Bool.eq_false_iff.2 hfails, trivial⟩

theorem Precision.Gives.isOrdered {x : ℚ} (h : p.Gives x (.ok d)) : d.IsOrdered :=
  isOrdered_iff.2 (h.isFinite.imp_right fun h => h.2)

variable (hp : 0 < p.digits)

include hp

theorem isOrdered_of_fit (h : p.fit s c e = .ok d) : d.IsOrdered :=
  (h ▸ Precision.fit_gives hp s c e : p.Gives _ (.ok d)).isOrdered

/-! ### Operations -/

theorem isOrdered_of_add (ha : a.IsOrdered) (hb : b.IsOrdered) (h : add p a b = .ok d) :
    d.IsOrdered := by
  cases a <;> cases ha <;> cases b <;> cases hb
  · exact (h ▸ add_gives hp .. : p.Gives _ (.ok d)).isOrdered
  iterate 2
    · cases h
      trivial
  · -- infinities of opposite signs have no sum
    rename_i s₁ s₂
    cases s₁ <;> cases s₂ <;> cases h <;> trivial

omit hp in
theorem isOrdered_flip (h : d.IsOrdered) : d.flip.IsOrdered := by
  cases d with
  | nan => cases h
  | finite | infinite => trivial

theorem isOrdered_of_mul (ha : a.IsOrdered) (hb : b.IsOrdered) (h : mul p a b = .ok d) :
    d.IsOrdered := by
  -- an infinity and zero have no product
  have hinfinite : ∀ {c : ℕ} {s : Bool},
      (if c == 0 then .error .invalid else .ok (.infinite s)) = (Except.ok d : Except Fault _) →
        d.IsOrdered := by
    intro c s h
    split at h <;> cases h
    trivial
  cases a <;> cases ha <;> cases b <;> cases hb
  · exact isOrdered_of_fit hp h
  iterate 2 exact hinfinite h
  · cases h
    trivial

theorem isOrdered_of_div (ha : a.IsOrdered) (hb : b.IsOrdered) (h : div p a b = .ok d) :
    d.IsOrdered := by
  cases a <;> cases ha <;> cases b <;> cases hb
  · simp only [div, nanOf?] at h
    split at h <;> exact isOrdered_of_fit hp h
  iterate 2
    · cases h
      trivial
  · cases h

theorem isOrdered_of_remFinite {s₁ : Bool} {c₁ c₂ : ℕ} {e₁ e₂ : ℤ}
    (h : remFinite p s₁ c₁ e₁ c₂ e₂ = .ok d) : d.IsOrdered := by
  unfold remFinite at h
  dsimp only at h
  split at h
  · exact isOrdered_of_fit hp h
  · split at h
    · exact isOrdered_of_fit hp h
    · split at h
      · split at h
        · exact isOrdered_of_fit hp h
        · cases h
      · cases h

theorem isOrdered_of_rem (ha : a.IsOrdered) (hb : b.IsOrdered) (h : rem p a b = .ok d) :
    d.IsOrdered := by
  cases a <;> cases ha <;> cases b <;> cases hb
  · exact isOrdered_of_remFinite hp h
  · exact isOrdered_of_fit hp h
  all_goals cases h

omit hp

/-- A change of sign makes no infinity of a finite number: it fails where it would. -/
theorem isFinite_of_neg (ha : a.IsFinite) (h : a.neg = .ok d) : d.IsFinite := by
  cases a with
  | finite s c e =>
    obtain ⟨t, k, hfit⟩ : ∃ t k, Precision.sign.fit t k e = .ok d := by
      rw [neg] at h
      split at h <;> exact ⟨_, _, h⟩
    have hgives := hfit ▸ Precision.fit_gives (p := .sign) (by decide) t k e
    exact hgives.isFinite.resolve_right fun h => Bool.noConfusion h.1
  | infinite | nan => cases ha

theorem isOrdered_of_neg (ha : a.IsOrdered) (h : a.neg = .ok d) : d.IsOrdered := by
  cases a with
  | finite s c e => exact (isFinite_of_neg (a := .finite s c e) trivial h).isOrdered
  | infinite s =>
    cases h
    trivial
  | nan => cases ha

/-- What overflows and what does not, but for a factor of ten. -/
theorem Precision.abs_of_overflows {z : ℚ} (hp : 0 < p.digits) :
    (p.Overflows z → 10 ^ exponentLimit ≤ |z|) ∧ (10 ^ (exponentLimit + 1) ≤ |z| → p.Overflows z) := by
  by_cases hz : z = 0
  · refine ⟨fun h => absurd (hz ▸ h) (Precision.not_overflows_zero p), fun h => ?_⟩
    rw [hz, abs_zero] at h
    exact absurd (ten_zpow_pos _) (not_lt.2 h)
  · refine ⟨fun h => (ten_zpow_le_abs hz).2 h.le_leading, fun h => ?_⟩
    exact Precision.overflows_of_leading hp hz (Int.lt_of_add_one_le ((ten_zpow_le_abs hz).1 h))

end Decimal

/-! ### Classes of numbers -/

/-- A class of decimals that has all finite numbers in it, that a change of sign does not leave, and
that the operations leave for the lost decimals only. -/
structure NumberClass (good lost : Decimal → Prop) : Prop where
  finite : ∀ {d : Decimal}, d.IsFinite → good d
  operation : ∀ {op : Arithmetic} {a b d : Decimal}, good a → good b →
    Value.decimalOperation op a b = .ok d → good d ∨ lost d
  neg : ∀ {d d' : Decimal}, good d → d.neg = .ok d' → good d'

theorem isOrdered_of_decimalOperation {op : Arithmetic} {a b d : Decimal} (ha : a.IsOrdered)
    (hb : b.IsOrdered) (h : Value.decimalOperation op a b = .ok d) : d.IsOrdered := by
  cases op with
  | plus => exact Decimal.isOrdered_of_add (by decide) ha hb h
  | subtract => exact Decimal.isOrdered_of_add (by decide) ha (Decimal.isOrdered_flip hb) h
  | multiply => exact Decimal.isOrdered_of_mul (by decide) ha hb h
  | divide => exact Decimal.isOrdered_of_div (by decide) ha hb h
  | module => exact Decimal.isOrdered_of_rem (by decide) ha hb h

/-- **No operation on numbers gives what is no number.** -/
theorem numberClass_ordered : NumberClass Decimal.IsOrdered fun _ => False where
  finite h := h.isOrdered
  operation ha hb h := .inl (isOrdered_of_decimalOperation ha hb h)
  neg := Decimal.isOrdered_of_neg

/-- **Operations on finite numbers leave them for the infinities only.** -/
theorem numberClass_finite : NumberClass Decimal.IsFinite Decimal.IsInfinite where
  finite h := h
  operation ha hb h :=
    Decimal.isOrdered_iff.1 (isOrdered_of_decimalOperation ha.isOrdered hb.isOrdered h)
  neg := Decimal.isFinite_of_neg

/-- The number of a value, if it is a decimal, has a property. -/
def Value.DecimalIn (good : Decimal → Prop) (v : Value) : Prop := ∀ d, v.payload = .decimal d → good d

namespace NumberClass

variable {good lost : Decimal → Prop} {op : Arithmetic} {a b v : Value}
  (hclass : NumberClass good lost)

include hclass

theorem ofInt (n : ℤ) : (Value.ofInt n).DecimalIn good := by
  intro d hd
  unfold Value.ofInt at hd
  split at hd <;> cases hd
  exact hclass.finite (Decimal.isFinite_ofInt n)

theorem asDecimal (hv : v.DecimalIn good) {d : Decimal}
    (h : v.asDecimal? = some d) : good d := by
  unfold Value.asDecimal? at h
  split at h
  · cases h
    exact hclass.finite (Decimal.isFinite_ofInt _)
  next hp =>
    cases h
    exact hv _ hp
  · cases h

theorem combineDecimals {x y : Decimal} (hx : good x) (hy : good y)
    (h : Value.combineDecimals op x y = .ok v) : ∃ d, v.payload = .decimal d ∧ (good d ∨ lost d) := by
  unfold Value.combineDecimals at h
  split at h
  next d hd =>
    cases h
    exact ⟨d, rfl, hclass.operation hx hy hd⟩
  next => cases h

/-- Whole numbers are combined to a number of the class, or their quotient is one of decimals. -/
theorem combineIntegers {m n : ℤ}
    (h : Value.combineIntegers op m n = .ok v) :
    v.DecimalIn good ∨ ∃ d, v.payload = .decimal d ∧ (good d ∨ lost d) := by
  cases op <;> simp only [Value.combineIntegers] at h
  case divide =>
    split at h
    · cases h
      exact .inl (hclass.ofInt _)
    · exact .inr (hclass.combineDecimals (hclass.finite (Decimal.isFinite_ofInt m))
        (hclass.finite (Decimal.isFinite_ofInt n)) h)
  all_goals
    cases h
    exact .inl (hclass.ofInt _)

/-- An operation on values gives a number of the class, or a lost one; texts are joined to texts. -/
theorem combine {view : HostView} (ha : a.DecimalIn good)
    (hb : b.DecimalIn good) (h : a.combine view op b = .ok (.value v)) :
    v.DecimalIn good ∨ ∃ d, v.payload = .decimal d ∧ lost d := by
  have hdecimal : (∃ d, v.payload = .decimal d ∧ (good d ∨ lost d)) →
      v.DecimalIn good ∨ ∃ d, v.payload = .decimal d ∧ lost d := by
    rintro ⟨d, hd, hgood | hlost⟩
    · refine .inl fun d' hd' => ?_
      cases hd.symm.trans hd'
      exact hgood
    · exact .inr ⟨d, hd, hlost⟩
  obtain ⟨_, heq, hnumbers⟩ | ⟨text, heq⟩ | ⟨_, heq, -⟩ := Value.delivers_combine.of_ok h <;> cases heq
  · obtain ⟨m, n, hwhole⟩ | ⟨x, y, hx, hy, hdecimals⟩ := Value.delivers_combineNumbers.of_ok hnumbers
    · obtain hgood | hd := hclass.combineIntegers hwhole
      · exact .inl hgood
      · exact hdecimal hd
    · exact hdecimal (hclass.combineDecimals (hclass.asDecimal ha hx) (hclass.asDecimal hb hy) hdecimals)
  · exact .inl fun d hd => by cases hd

theorem negate (ha : a.DecimalIn good) (h : a.negate = .ok v) :
    v.DecimalIn good := by
  unfold Value.negate at h
  split at h
  · cases h
    exact hclass.ofInt _
  next d hd =>
    cases hneg : d.neg <;> rw [hneg] at h <;> cases h
    intro d' hd'
    cases hd'
    exact hclass.neg (ha d hd) hneg
  · cases h

end NumberClass

end LineScript
