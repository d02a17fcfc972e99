import LineScript.Proofs.Attribution
import LineScript.Proofs.Keeping
import LineScript.Proofs.LongIntegers
import LineScript.Proofs.NumberArithmetic

/-!
# Values stay well kinded

What a value holds is of the kind of the value, and a whole number that it holds has 64 bits.  A
whole number beyond them is shown by a decimal that is equal to it: as a literal, as the result of
an operation or of a change of sign, and when it comes from the host.

There are two limits.  A literal with more digits than can be converted is no number at all, and
what an object of the host makes of an operation stays with the host, a whole number like anything
else.

## Main definitions

* `Value.WellKinded` — a value whose payload is of its kind.
* `Decimal.IsInt` — a decimal is equal to a whole number.
* `Value.Shows` — a value is a whole number, as it is or as a decimal.
* `ExactIntegers` — the ways in which whole numbers come up, and what they are shown by.

## Main results

* `exactIntegers` — whole numbers are shown exactly, in every environment.
* `values_well_kinded` — **values stay well kinded**, at every point of a run.
-/

namespace LineScript

open Run

variable {σ : Type}

/-! ### Kinds -/

/-- A value whose payload is of its kind; a whole number has 64 bits. -/
def Value.WellKinded (v : Value) : Prop :=
  match v.kind with
  | .null => v.payload = .null
  | .boolean => ∃ b, v.payload = .boolean b
  | .integer => ∃ n, v.payload = .integer n ∧ -(2 ^ 63) ≤ n ∧ n ≤ 2 ^ 63 - 1
  | .decimal => ∃ d, v.payload = .decimal d
  | .string => ∃ s, v.payload = .string s
  | .host => ∃ h, v.payload = .host h
  | .function => ∃ f, v.payload = .function f

/-- Only the size of a whole number is not said by the types. -/
theorem Value.wellKinded_iff {v : Value} :
    v.WellKinded ↔ ∀ n, v.payload = .integer n → inIntegerRange n = true := by
  obtain ⟨payload, flags⟩ := v
  cases payload with
  | integer k =>
    constructor
    · rintro ⟨_, heq, hrange⟩ n hn
      cases heq
      cases hn
      exact inIntegerRange_iff.2 hrange
    · intro h
      exact ⟨k, rfl, inIntegerRange_iff.1 (h k rfl)⟩
  | null =>
    refine ⟨fun _ n hn => ?_, fun _ => rfl⟩
    cases hn
  | _ =>
    refine ⟨fun _ n hn => ?_, fun _ => ⟨_, rfl⟩⟩
    cases hn

theorem lasting_wellKinded : Lasting Value.WellKinded where
  plain hv := Value.wellKinded_iff.2 hv.integer
  function f := ⟨f, rfl⟩
  host h := ⟨h, rfl⟩
  bare hv := Value.wellKinded_iff.2 (Value.wellKinded_iff.1 hv)

/-- Every value that an element gives is well kinded, with whatever flags. -/
theorem wellKinded_of_gives {env : Env σ} {holds : σ → Prop} (hhost : FaithfulHost env holds)
    {s : Scopes} {el : Element} {o : Option Value}
    (h : (keeping env holds hhost lasting_wellKinded env.symbols.names_trivial).gives s el o) :
    ∀ v ∈ o, v.WellKinded := by
  intro v hv
  exact Value.wellKinded_iff.2 (Value.wellKinded_iff.1 (Custody.value_of_gives _ h v hv).2)

/-! ### Whole numbers -/

/-- The decimal `± coefficient · 10 ^ exponent` is equal to a whole number. -/
def Decimal.IsInt : Decimal → Int → Prop
  | .finite negative c e, k =>
    (if negative then -(c : Int) else c) * 10 ^ e.toNat = k * 10 ^ (-e).toNat
  | .infinite _, _ | .nan .., _ => False

theorem Decimal.isInt_ofInt (k : Int) : (Decimal.ofInt k).IsInt k := by
  show (if decide (k < 0) then -(k.natAbs : Int) else k.natAbs) * 10 ^ 0 = k * 10 ^ 0
  by_cases hk : k < 0
  · rw [if_pos (decide_eq_true hk)]
    omega
  · rw [if_neg (by simpa using hk)]
    omega

/-- A value is a whole number: of 64 bits as it is, and beyond them as a decimal equal to it. -/
def Value.Shows (v : Value) (k : Int) : Prop :=
  if inIntegerRange k then v.payload = .integer k else ∃ d, v.payload = .decimal d ∧ d.IsInt k

theorem Value.shows_ofInt (k : Int) : (Value.ofInt k).Shows k := by
  unfold Shows ofInt
  by_cases hk : inIntegerRange k = true
  · rw [if_pos hk, if_pos hk]
  · rw [if_neg hk, if_neg hk]
    exact ⟨_, rfl, Decimal.isInt_ofInt k⟩

theorem Literal.shows_ofInt (k : Int) : (Value.ofLiteral (Literal.ofInt k)).Shows k := by
  unfold Value.Shows Literal.ofInt
  by_cases hk : inIntegerRange k = true
  · rw [if_pos hk, if_pos hk]
    rfl
  · rw [if_neg hk, if_neg hk]
    exact ⟨_, rfl, Decimal.isInt_ofInt k⟩

/-! ### Operations -/

/-- The whole number that an operation gives on whole numbers, where it gives one: sums, differences
and products always, quotients where they are whole, and remainders with the sign of the dividend. -/
def Arithmetic.whole? : Arithmetic → Int → Int → Option Int
  | .plus, a, b => some (a + b)
  | .subtract, a, b => some (a - b)
  | .multiply, a, b => some (a * b)
  | .divide, a, b => if b ≠ 0 ∧ b ∣ a then some (a / b) else none
  | .module, a, b => if b ≠ 0 then some (a.tmod b) else none

theorem combineIntegers_of_whole {op : Arithmetic} {a b k : Int} (h : op.whole? a b = some k) :
    Value.combineIntegers op a b = .ok (.ofInt k) := by
  cases op with
  | plus | subtract | multiply =>
    cases h
    rfl
  | divide =>
    simp only [Arithmetic.whole?] at h
    split at h
    next hb =>
      cases h
      have hzero : (a.tmod b == 0) = true := by
        rw [beq_iff_eq]
        exact Int.tmod_eq_zero_of_dvd hb.2
      rw [Value.combineIntegers, if_pos hzero, Int.tdiv_eq_ediv_of_dvd hb.2]
    next => cases h
  | module =>
    simp only [Arithmetic.whole?] at h
    split at h
    · cases h
      rfl
    · cases h

/-- A divisor of whole numbers that gives one is not zero. -/
theorem divisor_ne_zero_of_whole {op : Arithmetic} {a b k : Int} (h : op.whole? a b = some k)
    {cause : Cause} (hcause : Value.zeroDivisor op = some cause) : b ≠ 0 := by
  cases op with
  | plus | subtract | multiply => cases hcause
  | divide =>
    simp only [Arithmetic.whole?] at h
    split at h
    next hb => exact hb.1
    next => cases h
  | module =>
    simp only [Arithmetic.whole?] at h
    split at h
    next hb => exact hb
    next => cases h

theorem combine_of_whole {op : Arithmetic} {a b k : Int} (h : op.whole? a b = some k)
    (view : HostView) (f g : Flags) :
    Value.combine view op ⟨.integer a, f⟩ ⟨.integer b, g⟩ = .ok (.value (.ofInt k)) := by
  have hnumbers : Value.combineNumbers op ⟨.integer a, f⟩ ⟨.integer b, g⟩ = .ok (.ofInt k) := by
    unfold Value.combineNumbers
    cases hcause : Value.zeroDivisor op with
    | none => exact combineIntegers_of_whole h
    -- the test for a divisor of zero comes before the division
    | some cause =>
      have hb : (b == 0) = false := beq_eq_false_iff_ne.2 (divisor_ne_zero_of_whole h hcause)
      have hzero : Value.isZero ⟨.integer b, g⟩ = .ok false := congrArg Except.ok hb
      simp only [hzero]
      exact combineIntegers_of_whole h
  show (Value.combineNumbers op ⟨.integer a, f⟩ ⟨.integer b, g⟩).map Combined.value = _
  rw [hnumbers]
  rfl

/-- The ways in which whole numbers come up, and what they are shown by. -/
structure ExactIntegers (env : Env σ) (inner : Inner σ) : Prop where
  literal : ∀ {yes line digits}, (∀ c ∈ digits, isDigit c = true) → digits.length ≤ digitLimit →
    ∃ l, (Term.number digits).lower env.symbols yes line = .ok (.literal line l) ∧
      (Value.ofLiteral l).Shows (readNat digits)
  tooLong : ∀ {yes line digits}, (∀ c ∈ digits, isDigit c = true) → digitLimit < digits.length →
    (Term.number digits).lower env.symbols yes line = .error (tooManyDigits digits.length)
  operation : ∀ {op a b k}, Arithmetic.whole? op a b = some k → ∀ f g out (m : Machine σ),
    ∃ v, outcome (arithmetic env inner out (some (.text op.label)) ⟨.integer a, f⟩ ⟨.integer b, g⟩) m =
      (.ok v, m) ∧ v.Shows k
  negation : ∀ a f, ∃ v, Value.negate ⟨.integer a, f⟩ = .ok v ∧ v.Shows (-a)
  host : ∀ k, (Value.ofHost (.integer k)).Shows k
  /-- What an object makes of an operation stays with the host. -/
  object : ∀ {op h h' right out} {m : Machine σ}, h.isOperable (env.host.view m.host) = true →
    right.kind ≠ .string → env.host.operate op h (out right) = .done h' → ∀ f,
      outcome (arithmetic env inner out (some (.text op.label)) ⟨.host h, f⟩ right) m =
        (.ok (.host h'), m)

theorem ofName?_text (op : Arithmetic) :
    (some (Key.text op.label)).bind Arithmetic.ofName? = some op := by
  cases op <;> rfl

/-- **Whole numbers are shown exactly**, in every environment. -/
theorem exactIntegers (env : Env σ) (inner : Inner σ) : ExactIntegers env inner where
  literal {yes line digits} h hle := by
    refine ⟨.ofInt (readNat digits), ?_, Literal.shows_ofInt _⟩
    rw [Term.lower, Literal.ofNumber_digits h, if_neg (Nat.not_lt.2 hle)]
    rfl
  tooLong h hlt := by
    rw [Term.lower, Literal.ofNumber_digits h, if_pos hlt]
    rfl
  operation {op a b k} h f g out m := by
    refine ⟨.ofInt k, ?_, Value.shows_ofInt k⟩
    simp only [arithmetic, ofName?_text]
    refine (outcome_bind_of_ok _ (rfl : outcome (view env) m = (.ok _, m))).trans ?_
    rw [combine_of_whole h]
    rfl
  negation a f := ⟨.ofInt (-a), rfl, Value.shows_ofInt (-a)⟩
  host := Value.shows_ofInt
  object {op h h' right out m} hoperable hright hoperate f := by
    have hcombine : Value.combine (env.host.view m.host) op ⟨.host h, f⟩ right =
        .ok (.delegated h) := by
      have hstring : ((Value.kind ⟨.host h, f⟩ == .string) || (right.kind == .string)) = false := by
        rw [Bool.or_eq_false_iff]
        exact ⟨rfl, beq_eq_false_iff_ne.2 hright⟩
      rw [Value.combine, if_neg (by simp [Value.isNumeric]), if_neg (by simp [hstring])]
      simp only [hoperable, if_true]
    simp only [arithmetic, ofName?_text]
    refine (outcome_bind_of_ok _ (rfl : outcome (view env) m = (.ok _, m))).trans ?_
    rw [hcombine]
    refine (outcome_bind_of_ok (a := Combined.delegated h) _ rfl).trans ?_
    simp only [hoperate]
    rfl

/-! ### Runs -/

/-- **Values stay well kinded.**  Whatever a host that hands out functions of texts only does with a
new runner, every value that is bound, and every argument of a call that is active or recorded, is
well kinded.  From a machine of which that is so, it is so at every point of a run: statements and
expressions that were read give well-kinded values, and a watch that gives an alarm at any other
machine, or at any other value that an element gives, never gives it.  And whole numbers are shown
exactly, in the ways that they come up. -/
theorem values_well_kinded (env : Env σ) {holds : σ → Prop} (hhost : FaithfulHost env holds) (n : Nat)
    (alarm : Run σ Unit) :
    let w := Watch.report (Machine.Holds Value.WellKinded) (fun _ o => ∀ v ∈ o, v.WellKinded) alarm
    (∀ state uses, holds state → (∀ u ∈ uses, u.OfTexts env) →
      let m := ((Runner.create env state).useAll uses).machine
      m.OfTexts env holds ∧ m.Holds Value.WellKinded) ∧
    (∀ m : Machine σ, m.OfTexts env holds → m.Holds Value.WellKinded →
      (∀ st, IsRead env st →
        (∀ e ∈ st.exprs, ∀ c v m', outcome (Expr.eval env (env.inner n) c e) m = (.ok v, m') →
          v.WellKinded) ∧
        ∀ k c, (outcome (Statement.exec env (env.inner n) k c st) m).2.Holds Value.WellKinded ∧
          (∀ o m', outcome (Statement.exec env (env.inner n) k c st) m = (.ok o, m') →
            ∀ v ∈ o, v.WellKinded) ∧
          outcome (Statement.exec env (env.inner n) k c st) m =
            outcome (Watched.exec w env (Watched.inner w env n) k c st) m) ∧
      ∀ asked, asked.OfTexts env →
        (outcome (answer env (env.inner n) asked) m).2.Holds Value.WellKinded ∧
        outcome (answer env (env.inner n) asked) m =
          outcome (answer env (Watched.inner w env n) asked) m) ∧
    ExactIntegers env (env.inner n) := by
  intro w
  let K := keeping env holds hhost lasting_wellKinded env.symbols.names_trivial
  have hw : w.Silent K :=
    Watch.silent_report alarm (fun _ hm => hm.2) fun _ _ _ => wellKinded_of_gives hhost
  have hi := inner_watched hw n
  refine ⟨fun state uses hstate huses => ?_, fun m hm hheld => ⟨fun st hst => ⟨?_, fun k c => ?_⟩,
    fun asked hasked => ?_⟩, exactIntegers env (env.inner n)⟩
  · exact kept_useAll hhost lasting_wellKinded env.symbols.names_trivial hstate huses
  · intro e he c v m' h
    have hexpr : K.expr e := K.code_expr (c := c) hst e he
    have heval := Custody.required (w := w) (eval_watched hw hi c e hexpr ⟨hm, hheld⟩)
    exact (heval.good_of_outcome h).2
  · have hexec := exec_watched hw hi k c st hst ⟨hm, hheld⟩
    refine ⟨hexec.kept.1.2, fun o m' h => ?_, hexec.outcome_eq⟩
    exact wellKinded_of_gives hhost (hexec.good_of_outcome h)
  · have hinv : K.inv m := ⟨hm, hheld⟩
    have hpermitted : K.request m.scopes asked := hasked
    have hanswer := K.answer hi hinv hpermitted
    exact ⟨hanswer.kept.1.2, hanswer.outcome_eq⟩

/-- The smallest whole number of 64 bits, divided by minus one. -/
def smallestNegated : String := "low = -9223372036854775807 - 1\nlow / -1"

/-- The quotient has more than 64 bits, so it is a decimal. -/
theorem values_well_kinded_smallest :
    let asked : Request := .eval (.text smallestNegated)
    let answered := outcome (answer libraryEnv (libraryEnv.inner 9) asked) lateRunner.machine
    FaithfulHost libraryEnv (fun _ => True) ∧
      lateRunner.machine.OfTexts libraryEnv (fun _ => True) ∧
      lateRunner.machine.Holds Value.WellKinded ∧ answered.2.Holds Value.WellKinded ∧
      Arithmetic.whole? .divide (-(2 ^ 63)) (-1) = some (2 ^ 63) ∧
      (answered.1.toOption.map fun h => ((Value.ofHost h).kind, (Value.ofHost h).asDecimal?)) =
        some (.decimal, some (.ofInt (2 ^ 63))) := by
  intro asked answered
  obtain ⟨hrunner, hrun, -⟩ :=
    values_well_kinded libraryEnv faithful_libraryHost 9 (throw .exhausted)
  have huses : ∀ u ∈ [Use.set "apply" (.object 0)], u.OfTexts libraryEnv := by
    intro u hu
    rw [List.mem_singleton.1 hu]
    rintro f (hf | hf) <;> cases hf
  obtain ⟨hm, hheld⟩ := hrunner () [.set "apply" (.object 0)] trivial huses
  have hafter := ((hrun _ hm hheld).2 asked trivial).1
  exact ⟨faithful_libraryHost, hm, hheld, hafter, by decide, by decide +kernel⟩

/-- A whole number of one digit more than can be converted is no decimal, and nothing else either:
its text fails to be read. -/
theorem nines_past_limit_fail :
    let nines := List.replicate (digitLimit + 1) '9'
    inIntegerRange (readNat nines) = false ∧
      (parse standardSymbols libraryHost.load none none (String.ofList nines) ()).1 =
        .error (.fault (tooManyDigits (digitLimit + 1))) := by
  intro nines
  have hdigits : ∀ c ∈ nines, c ∈ asciiDigits := fun c hc => by
    rw [(List.mem_replicate.1 hc).2]
    decide
  have hlength : nines.length = digitLimit + 1 := List.length_replicate
  have h := parse_long_integer libraryHost.load none none () hdigits (by rw [hlength]; decide)
  rw [hlength] at h
  exact ⟨by decide +kernel, h⟩

end LineScript
