import LineScript.Proofs.EqualNumbers
import Mathlib.Data.List.Lex
import Mathlib.Order.WithBotTop

/-!
# The order of values

Numbers are ordered by what they are worth: whole numbers, decimals of any digits and exponents, and
the two infinities around them.  Texts are ordered by the code points of their characters.  On each of
the two classes the six comparisons are those of one total order; beyond them nothing has an order,
and equality is symmetric for all values.

## Main definitions

* `Value.amount?`, `Value.codePoints?` — what a number is worth, and the code points of a text.
* `Comparison.Relates` — what a comparison says of two elements of an order.
* `Value.ComparesBy` — values compare as what they are measured by.
* `Value.TotalOn` — the laws of a total order, as scripts see them.

## Main results

* `Value.comparesBy_amount` — **numbers compare by what they are worth.**
* `Value.comparesBy_codePoints` — **texts compare by their code points.**
* `Value.equal_comm` — **equality is symmetric.**
* `comparison_total_order` — **comparison is a total order of the numbers, and one of the texts.**
-/

namespace LineScript

namespace Decimal

/-! ### The infinities -/

/-- What a decimal is worth: a number or an infinity, and nothing when it is no number. -/
def amount? : Decimal → Option (WithBotTop ℚ)
  | .finite s c e => some (.coe (number s c e))
  | .infinite s => some (if s then ⊥ else ⊤)
  | .nan .. => none

/-- **Decimals are ordered by what they are worth**, the infinities around all numbers. -/
theorem order?_of_amount {a b : Decimal} {x y : WithBotTop ℚ} (ha : a.amount? = some x)
    (hb : b.amount? = some y) : a.order? b = some (cmp x y) := by
  have hbot : ∀ z : ℚ, ⊥ < WithBotTop.coe z := fun z => bot_lt_iff_ne_bot.2 (WithBotTop.coe_ne_bot z)
  have htop : ∀ z : ℚ, WithBotTop.coe z < ⊤ := fun z => lt_top_iff_ne_top.2 (WithBotTop.coe_ne_top z)
  have hends : (⊥ : WithBotTop ℚ) < ⊤ := bot_lt_top
  cases a with
  | nan => cases ha
  | finite s₁ c₁ e₁ =>
    cases ha
    cases b with
    | nan => cases hb
    | finite s₂ c₂ e₂ =>
      cases hb
      rw [WithBotTop.coe_strictMono.cmp_map_eq]
      exact congrArg some (finiteOrder_eq_cmp ..)
    | infinite t =>
      cases hb
      cases t with
      | false => exact congrArg some ((cmp_eq_lt_iff _ _).2 (htop _)).symm
      | true => exact congrArg some ((cmp_eq_gt_iff _ _).2 (hbot _)).symm
  | infinite s =>
    cases ha
    cases b with
    | nan => cases hb
    | finite s₂ c₂ e₂ =>
      cases hb
      cases s with
      | false => exact congrArg some ((cmp_eq_gt_iff _ _).2 (htop _)).symm
      | true => exact congrArg some ((cmp_eq_lt_iff _ _).2 (hbot _)).symm
    | infinite t =>
      cases hb
      cases s <;> cases t
      · exact congrArg some (cmp_self_eq_eq _).symm
      · exact congrArg some ((cmp_eq_gt_iff _ _).2 hends).symm
      · exact congrArg some ((cmp_eq_lt_iff _ _).2 hends).symm
      · exact congrArg some (cmp_self_eq_eq _).symm

/-- Decimals are equal when they are worth the same. -/
theorem equal_of_amount {a b : Decimal} {x y : WithBotTop ℚ} (ha : a.amount? = some x)
    (hb : b.amount? = some y) : a.equal b = .ok (decide (x = y)) := by
  have hequal : a.equal b = .ok (a.order? b == some .eq) := by
    cases a with
    | nan => cases ha
    | finite | infinite =>
      cases b with
      | nan => cases hb
      | finite | infinite => rfl
  rw [hequal, order?_of_amount ha hb]
  congr 1
  rw [Bool.eq_iff_iff, beq_iff_eq, Option.some_inj, cmp_eq_eq_iff, decide_eq_true_iff]

/-- Equality of decimals is symmetric, also for those that are no numbers. -/
theorem equal_comm (a b : Decimal) : a.equal b = b.equal a := by
  cases a with
  | nan _ signalling =>
    cases b with
    | nan _ signalling' => cases signalling <;> cases signalling' <;> rfl
    | finite | infinite => cases signalling <;> rfl
  | finite | infinite =>
    cases b with
    | nan _ signalling => cases signalling <;> rfl
    | finite | infinite =>
      rw [equal_of_amount rfl rfl, equal_of_amount rfl rfl]
      exact congrArg Except.ok (decide_eq_decide.2 eq_comm)

end Decimal

/-! ### Comparisons in an order -/

/-- What a comparison says of two elements of an order. -/
def Comparison.Relates {α : Type} [LinearOrder α] (op : Comparison) (x y : α) : Prop :=
  match op with
  | .equal => x = y
  | .notEqual => x ≠ y
  | .less => x < y
  | .greater => y < x
  | .lessEqual => x ≤ y
  | .greaterEqual => y ≤ x

instance {α : Type} [LinearOrder α] (op : Comparison) (x y : α) : Decidable (op.Relates x y) :=
  match op with
  | .equal => inferInstanceAs (Decidable (x = y))
  | .notEqual => inferInstanceAs (Decidable (x ≠ y))
  | .less => inferInstanceAs (Decidable (x < y))
  | .greater => inferInstanceAs (Decidable (y < x))
  | .lessEqual => inferInstanceAs (Decidable (x ≤ y))
  | .greaterEqual => inferInstanceAs (Decidable (y ≤ x))

theorem Comparison.holds_cmp {α : Type} [LinearOrder α] (op : Comparison) (x y : α) :
    op.holds (cmp x y) = decide (op.Relates x y) := by
  have h := cmp_compares x y
  rw [Bool.eq_iff_iff, decide_eq_true_iff]
  cases op with
  | equal => exact beq_iff_eq.trans h.eq_eq
  | notEqual => exact bne_iff_ne.trans (not_congr h.eq_eq)
  | less => exact beq_iff_eq.trans h.eq_lt
  | greater => exact beq_iff_eq.trans h.eq_gt
  | lessEqual => exact bne_iff_ne.trans h.ne_gt
  | greaterEqual => exact bne_iff_ne.trans h.ne_lt

namespace Value

variable {a b c : Value} {view : HostView}

/-- Comparisons follow from equality and from the order. -/
theorem compare_of_order {α : Type} [LinearOrder α] {x y : α} {r : Bool}
    (hequal : a.equal view b = .ok r) (hr : r = true ↔ x = y) (horder : a.order b = .ok (cmp x y))
    (op : Comparison) :
    a.compare view (some op.label) b = .ok (.boolean (decide (op.Relates x y))) := by
  have hname : (some (op.label : Key)).bind Comparison.ofName? = some op := Comparison.ofName?_label op
  rw [← Comparison.holds_cmp, compare, hname]
  cases op with
  | equal | notEqual =>
    have heq : r = (cmp x y == .eq) := by
      rw [Bool.eq_iff_iff, hr, beq_iff_eq, cmp_eq_eq_iff]
    rw [hequal, heq]
    rfl
  | less | greater | lessEqual | greaterEqual =>
    rw [horder]
    rfl

/-- Values compare as what they are measured by, as far as they have a measure. -/
def ComparesBy {α : Type} [LinearOrder α] (view : HostView) (measure : Value → Option α) : Prop :=
  ∀ ⦃a b x y⦄, measure a = some x → measure b = some y → ∀ op : Comparison,
    a.compare view (some op.label) b = .ok (.boolean (decide (op.Relates x y)))

/-! ### Numbers -/

/-- What a value is worth: the number that it is, or the infinity. -/
def amount? (v : Value) : Option (WithBotTop ℚ) :=
  match v.payload with
  | .integer n => some (.coe n)
  | .decimal d => d.amount?
  | _ => none

/-- A whole number is worth what its decimal is. -/
theorem amount?_eq_bind (v : Value) : v.amount? = v.asDecimal?.bind Decimal.amount? := by
  obtain ⟨payload, _⟩ := v
  cases payload with
  | integer n => exact congrArg (fun z : ℚ => some (WithBotTop.coe z)) (number_ofInt n).symm
  | null | boolean | decimal | string | host | function => rfl

theorem exists_decimal_of_amount {x : WithBotTop ℚ} (ha : a.amount? = some x) :
    ∃ d, a.asDecimal? = some d ∧ d.amount? = some x :=
  Option.bind_eq_some_iff.1 ((amount?_eq_bind a).symm.trans ha)

/-- Whole numbers are ordered as their decimals are. -/
theorem order_of_asDecimal {d e : Decimal} {o : Ordering} (hd : a.asDecimal? = some d)
    (he : b.asDecimal? = some e) (ho : d.order? e = some o) : a.order b = .ok o := by
  obtain ⟨payload, _⟩ := a
  obtain ⟨payload', _⟩ := b
  cases payload <;> cases hd <;> cases payload' <;> cases he
  · rename_i m n
    have hwhole : (Decimal.ofInt m).order? (.ofInt n) = some (cmp (m : ℚ) n) := by
      rw [← number_ofInt m, ← number_ofInt n]
      exact congrArg some (Decimal.finiteOrder_eq_cmp ..)
    rw [hwhole, (Int.cast_strictMono (R := ℚ)).cmp_map_eq, cmp_eq_compare] at ho
    exact congrArg Except.ok (Option.some.inj ho)
  all_goals simp only [order, asDecimal?, ho]

/-- **Numbers compare by what they are worth.** -/
theorem comparesBy_amount (view : HostView) : ComparesBy view amount? := by
  intro a b x y ha hb op
  obtain ⟨d, hd, hx⟩ := exists_decimal_of_amount ha
  obtain ⟨e, he, hy⟩ := exists_decimal_of_amount hb
  refine compare_of_order ?_ decide_eq_true_iff
    (order_of_asDecimal hd he (Decimal.order?_of_amount hx hy)) op
  rw [equal_of_asDecimal view hd he, equalDecimals, Decimal.equal_of_amount hx hy]
  rfl

/-! ### Texts -/

/-- The code points of a text. -/
def codePoints? (v : Value) : Option (List ℕ) :=
  match v.payload with
  | .string s => some (s.toList.map Char.toNat)
  | _ => none

theorem exists_string_of_codePoints {x : List ℕ} (h : a.codePoints? = some x) :
    ∃ s, a.payload = .string s ∧ s.toList.map Char.toNat = x := by
  obtain ⟨payload, _⟩ := a
  cases payload with
  | string s => exact ⟨s, rfl, Option.some.inj h⟩
  | null | boolean | integer | decimal | host | function => cases h

theorem codePoints_inj {s t : String} :
    s.toList.map Char.toNat = t.toList.map Char.toNat ↔ s = t := by
  have hinj : Function.Injective Char.toNat := fun _ _ h => Char.toNat_inj.1 h
  rw [hinj.list_map.eq_iff, String.toList_inj]

theorem orderTexts_compares (s t : List Char) :
    (orderTexts s t).Compares (s.map Char.toNat) (t.map Char.toNat) := by
  fun_induction orderTexts s t with
  | case1 => exact rfl
  | case2 => exact List.Lex.nil
  | case3 => exact List.Lex.nil
  | case4 c s d t h => exact List.Lex.rel h
  | case5 c s d t _ h => exact List.Lex.rel h
  | case6 c s d t h h' ih =>
    have heq : c.toNat = d.toNat := le_antisymm (not_lt.1 h') (not_lt.1 h)
    rw [List.map_cons, List.map_cons, heq]
    generalize orderTexts s t = o at ih ⊢
    cases o with
    | lt => exact List.Lex.cons ih
    | eq => exact congrArg (d.toNat :: ·) ih
    | gt => exact List.Lex.cons ih

/-- **Texts compare by their code points**, the first difference deciding. -/
theorem comparesBy_codePoints (view : HostView) : ComparesBy view codePoints? := by
  intro a b x y ha hb op
  obtain ⟨s, hs, rfl⟩ := exists_string_of_codePoints ha
  obtain ⟨t, ht, rfl⟩ := exists_string_of_codePoints hb
  have hequal : a.equal view b = .ok (s == t) := by rw [equal, hs, ht]
  have horder : a.order b = .ok (orderTexts s.toList t.toList) := by rw [order, hs, ht]
  rw [← (orderTexts_compares s.toList t.toList).cmp_eq] at horder
  exact compare_of_order hequal (beq_iff_eq.trans codePoints_inj.symm) horder op

/-! ### The laws of a total order -/

/-- A script finds that a comparison of two values holds. -/
def Finds (view : HostView) (op : Comparison) (a b : Value) : Prop :=
  a.compare view (some op.label) b = .ok (.boolean true)

/-- Comparison is a total order on the values of a class: the laws as scripts see them. -/
structure TotalOn (view : HostView) (C : Value → Prop) : Prop where
  /-- Every comparison is answered. -/
  answered : ∀ {a b}, C a → C b → ∀ op, ∃ r, a.compare view (some (op : Comparison).label) b =
    .ok (.boolean r)
  /-- Exactly one of less, equal and greater holds. -/
  exactly_one : ∀ {a b}, C a → C b →
    (Finds view .less a b ∧ ¬ Finds view .equal a b ∧ ¬ Finds view .greater a b) ∨
    (¬ Finds view .less a b ∧ Finds view .equal a b ∧ ¬ Finds view .greater a b) ∨
    (¬ Finds view .less a b ∧ ¬ Finds view .equal a b ∧ Finds view .greater a b)
  /-- Less or equal is what it says. -/
  less_equal : ∀ {a b}, C a → C b →
    (Finds view .lessEqual a b ↔ Finds view .less a b ∨ Finds view .equal a b)
  /-- Greater or equal is what it says. -/
  greater_equal : ∀ {a b}, C a → C b →
    (Finds view .greaterEqual a b ↔ Finds view .greater a b ∨ Finds view .equal a b)
  /-- Greater is less, the other way round. -/
  greater_swap : ∀ {a b}, C a → C b → (Finds view .greater a b ↔ Finds view .less b a)
  /-- Not equal is the opposite of equal. -/
  not_equal : ∀ {a b}, C a → C b → (Finds view .notEqual a b ↔ ¬ Finds view .equal a b)
  /-- Less is transitive. -/
  less_trans : ∀ {a b c}, C a → C b → C c → Finds view .less a b → Finds view .less b c →
    Finds view .less a c
  /-- Equal is transitive. -/
  equal_trans : ∀ {a b c}, C a → C b → C c → Finds view .equal a b → Finds view .equal b c →
    Finds view .equal a c

/-- What compares like the elements of an order is totally ordered. -/
theorem ComparesBy.totalOn {α : Type} [LinearOrder α] {measure : Value → Option α}
    (h : ComparesBy view measure) : TotalOn view fun v => ∃ x, measure v = some x := by
  have hfinds : ∀ {a b x y}, measure a = some x → measure b = some y → ∀ op : Comparison,
      (Finds view op a b ↔ op.Relates x y) := fun ha hb op => by
    rw [Finds, h ha hb op]
    simp [boolean]
  -- each law is one of the order, once `hfinds` has put the order for what is found
  constructor
  · rintro a b ⟨x, ha⟩ ⟨y, hb⟩ op
    exact ⟨_, h ha hb op⟩
  · rintro a b ⟨x, ha⟩ ⟨y, hb⟩
    rw [hfinds ha hb, hfinds ha hb, hfinds ha hb]
    rcases lt_trichotomy x y with hlt | heq | hgt
    · exact .inl ⟨hlt, hlt.ne, hlt.not_gt⟩
    · exact .inr (.inl ⟨heq.not_lt, heq, heq.not_gt⟩)
    · exact .inr (.inr ⟨hgt.not_gt, hgt.ne', hgt⟩)
  · rintro a b ⟨x, ha⟩ ⟨y, hb⟩
    rw [hfinds ha hb, hfinds ha hb, hfinds ha hb]
    exact le_iff_lt_or_eq
  · rintro a b ⟨x, ha⟩ ⟨y, hb⟩
    rw [hfinds ha hb, hfinds ha hb, hfinds ha hb]
    exact le_iff_lt_or_eq.trans (or_congr_right eq_comm)
  · rintro a b ⟨x, ha⟩ ⟨y, hb⟩
    rw [hfinds ha hb, hfinds hb ha]
    exact Iff.rfl
  · rintro a b ⟨x, ha⟩ ⟨y, hb⟩
    rw [hfinds ha hb, hfinds ha hb]
    exact Iff.rfl
  · rintro a b c ⟨x, ha⟩ ⟨y, hb⟩ ⟨z, hc⟩
    rw [hfinds ha hb, hfinds hb hc, hfinds ha hc]
    exact lt_trans
  · rintro a b c ⟨x, ha⟩ ⟨y, hb⟩ ⟨z, hc⟩
    rw [hfinds ha hb, hfinds hb hc, hfinds ha hc]
    exact Eq.trans

/-! ### Values without an order -/

/-- **Beyond numbers and texts nothing has an order.** -/
theorem order_of_not_isOrdered (h : a.isOrdered b = false) :
    a.order b = .error (.ofCause (.cannotOrder a.kind b.kind)) := by
  obtain ⟨payload, _⟩ := a
  obtain ⟨payload', _⟩ := b
  cases payload with
  | integer | decimal =>
    cases payload' with
    | integer | decimal => cases h
    | _ => rfl
  | string =>
    cases payload' with
    | string => cases h
    | _ => rfl
  | null | boolean | host | function => rfl

theorem compare_of_not_isOrdered (view : HostView) (h : a.isOrdered b = false) {op : Comparison}
    (hequal : op ≠ .equal) (hnotEqual : op ≠ .notEqual) :
    a.compare view (some op.label) b = .error (.ofCause (.cannotOrder a.kind b.kind)) := by
  have hresult : (a.order b).map (fun o => boolean (op.holds o)) =
      .error (.ofCause (.cannotOrder a.kind b.kind)) := by
    rw [order_of_not_isOrdered h]
    rfl
  cases op with
  | equal => exact absurd rfl hequal
  | notEqual => exact absurd rfl hnotEqual
  | less | greater | lessEqual | greaterEqual => exact hresult

/-! ### Equality is symmetric -/

/-- Equality of the texts of two values is symmetric, if not both of them can fail to be written. -/
theorem equalTexts_comm (h : (∃ t, a.text view = .ok t) ∨ ∃ t, b.text view = .ok t) :
    equalTexts view a b = equalTexts view b a := by
  unfold equalTexts
  rcases h with ⟨t, h⟩ | ⟨t, h⟩
  · cases hb : b.text view with
    | error => simp only [h, bind, Except.bind]
    | ok t' => simp only [h, bind, Except.bind, BEq.comm]
  · cases ha : a.text view with
    | error => simp only [h, bind, Except.bind]
    | ok t' => simp only [h, bind, Except.bind, BEq.comm]

end Value

theorem HostValue.equal_comm {view : HostView} (hview : ∀ r t, view.equal r t = view.equal t r)
    (g h : HostValue) : g.equal view h = h.equal view g := by
  cases g with
  | boolean | integer | text | function =>
    cases h with
    | boolean | integer | text | function => first | exact BEq.comm | rfl
    | _ => rfl
  | object r =>
    cases h with
    | object t => rw [HostValue.equal, HostValue.equal, hview, BEq.comm (a := r)]
    | _ => rfl
  | method r m =>
    cases h with
    | method t n => rw [HostValue.equal, HostValue.equal, BEq.comm (a := r), BEq.comm (a := m)]
    | _ => rfl
  | null | decimal | float | callable | output => cases h <;> rfl

/-- **Equality is symmetric**, for all kinds of values, if it is so for the objects of the host. -/
theorem Value.equal_comm {view : HostView} (hview : ∀ r t, view.equal r t = view.equal t r)
    (a b : Value) : a.equal view b = b.equal view a := by
  have hdecimals : ∀ d e, equalDecimals d e = equalDecimals e d := fun d e => by
    rw [equalDecimals, equalDecimals, Decimal.equal_comm]
  -- at most one of two values that are compared by their texts belongs to the host
  have htexts : (∃ t, a.text view = .ok t) ∨ (∃ t, b.text view = .ok t) →
      (equalTexts view a b).mapError Failure.fault = (equalTexts view b a).mapError .fault :=
    fun h => congrArg (Except.mapError Failure.fault) (equalTexts_comm h)
  unfold equal
  cases ha : a.payload with
  | null => cases b.payload <;> rfl
  | function =>
    cases b.payload with
    | function => exact congrArg Except.ok BEq.comm
    | _ => rfl
  | boolean | string | integer | decimal =>
    cases b.payload with
    | null | function => rfl
    | boolean | string | integer | decimal | host =>
      -- values of one kind, two numbers, or two texts
      first
        | exact congrArg Except.ok BEq.comm
        | exact hdecimals _ _
        | exact htexts (.inl ⟨_, by rw [text, ha]⟩)
  | host =>
    cases hb : b.payload with
    | host => exact congrArg Except.ok (HostValue.equal_comm hview _ _)
    | null | function => rfl
    | boolean | integer | decimal | string => exact htexts (.inr ⟨_, by rw [text, hb]⟩)

open Value in
/-- **Comparison is one total order of the numbers, and one of the texts.**  Numbers, the infinities
among them, compare by what they are worth, and texts by their code points; on each of the two classes
the laws of a total order hold.  Any other two values have no order, and asking for one is a failure
of typing.  Equality is symmetric for all values, if it is so for the objects of the host. -/
theorem comparison_total_order (view : HostView) :
    ComparesBy view amount? ∧ TotalOn view (fun v => ∃ x, v.amount? = some x) ∧
    ComparesBy view codePoints? ∧ TotalOn view (fun v => ∃ x, v.codePoints? = some x) ∧
    (∀ a b : Value, ¬ (a.isNumeric = true ∧ b.isNumeric = true) →
      ¬ (a.kind = .string ∧ b.kind = .string) → ∀ op : Comparison, op ≠ .equal → op ≠ .notEqual →
        a.compare view (some op.label) b = .error (.ofCause (.cannotOrder a.kind b.kind)) ∧
          (Cause.cannotOrder a.kind b.kind).kind = .typing) ∧
    ((∀ r t, view.equal r t = view.equal t r) →
      ∀ a b : Value, ∀ op : Comparison, op = .equal ∨ op = .notEqual →
        a.compare view (some op.label) b = b.compare view (some op.label) a) := by
  refine ⟨comparesBy_amount view, (comparesBy_amount view).totalOn, comparesBy_codePoints view,
    (comparesBy_codePoints view).totalOn, ?_, ?_⟩
  · intro a b hnumbers hstrings op hequal hnotEqual
    have hordered : a.isOrdered b = false := by
      rw [Bool.eq_false_iff, ne_eq, isOrdered, Bool.or_eq_true, Bool.and_eq_true, Bool.and_eq_true,
        beq_iff_eq, beq_iff_eq]
      exact not_or.2 ⟨hnumbers, hstrings⟩
    exact ⟨compare_of_not_isOrdered view hordered hequal hnotEqual, rfl⟩
  · rintro hview a b op (rfl | rfl)
    · exact congrArg (Except.map boolean) (Value.equal_comm hview a b)
    · exact congrArg (Except.map fun r => boolean !r) (Value.equal_comm hview a b)

/-- One and a half is less than infinity and more than the whole number one, however many zeros it is
written with; a text beyond the basic plane comes after one that ends it; a text and a number have no
order, and are equal in both directions. -/
theorem comparison_total_order_mixed :
    let half : Value := .decimal (.finite false 1500 (-3))
    (Value.Finds default .less half (.decimal (.infinite false)) ∧
      Value.Finds default .greater half ⟨.integer 1, .none⟩) ∧
    Value.Finds default .less (.string "\uffff") (.string "𝄞") ∧
    half.compare default (some Comparison.less.label) (.string "1.500") =
      .error (.ofCause (.cannotOrder .decimal .string)) ∧
    half.compare default (some Comparison.equal.label) (.string "1.500") =
      (Value.string "1.500").compare default (some Comparison.equal.label) half := by
  intro half
  obtain ⟨hnumbers, -, htexts, -, hothers, hsymmetric⟩ := comparison_total_order default
  have hfinite : WithBotTop.coe (Decimal.number false 1500 (-3)) < ⊤ :=
    lt_top_iff_ne_top.2 (WithBotTop.coe_ne_top _)
  have hone : WithBotTop.coe ((1 : ℤ) : ℚ) < WithBotTop.coe (Decimal.number false 1500 (-3)) := by
    refine WithBotTop.coe_lt_coe.2 ?_
    norm_num [Decimal.number, Decimal.signed]
  have hplane : [65535] < [119070] := List.Lex.rel (by decide)
  have hfinds : ∀ {a b : Value} {op : Comparison} {p : Prop} [Decidable p], p →
      a.compare default (some op.label) b = .ok (.boolean (decide p)) → Value.Finds default op a b :=
    fun hp h => h.trans (congrArg (fun r => Except.ok (Value.boolean r)) (decide_eq_true hp))
  exact ⟨⟨hfinds hfinite (hnumbers rfl rfl .less), hfinds hone (hnumbers rfl rfl .greater)⟩,
    hfinds hplane (htexts rfl rfl .less),
    (hothers half (.string "1.500") (by decide) (by decide) .less (by decide) (by decide)).1,
    hsymmetric (fun r t => BEq.comm) half (.string "1.500") .equal (.inl rfl)⟩

end LineScript
