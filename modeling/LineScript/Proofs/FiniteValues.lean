import LineScript.Proofs.EqualNumbers
import LineScript.Proofs.FiniteLiterals
import LineScript.Proofs.WellKinded

/-!
# Infinities come from overflows

A script that starts from numbers, and that gets nothing else from the host, never holds what is no
number: it is not bound, handed over or given anywhere in a run.  Infinities it may hold, though it starts from
finite numbers.  An operation on finite numbers fails, or it gives the exact result in its precision,
and the result is an infinity exactly when the exact one overflows.  That is the only way: up to the
first operation that overflows, all numbers of a run are finite.

## Main definitions

* `HostValue.Regular`, `Value.Regular`, `Machine.Regular` — what holds numbers of a class only,
  functions of texts, and objects that are kept.
* `RegularHost` — a host whose kept objects hand out nothing else.
* `regular` — the custody of evaluation under a regular host.
* `RunsRegular` — runs in which a watch for everything else is not heard.

## Main results

* `runsRegular_ordered` — **no run comes to hold what is no number.**
* `runsRegular_finite` — **a run comes to hold an infinity by an operation only.**
* `finite_until_overflow` — **numbers stay finite until an operation overflows**, and are numbers ever
  after.
-/

namespace LineScript

open Run

variable {σ : Type} {env : Env σ} {good lost : Decimal → Prop} {kept : HostValue → Prop}

/-! ### Values -/

section Regular

variable (env good kept)

/-- A host value that is regular: its number is in a class, if it is one, its function is of a text, and
it is one of the objects and methods that are kept, if it is one at all. -/
structure HostValue.Regular (h : HostValue) : Prop where
  ofTexts : h.OfTexts env
  number : (Value.ofHost h).DecimalIn good
  foreign : h.IsForeign → kept h

/-- A value that is regular to the host. -/
def Value.Regular (v : Value) : Prop := v.toHostBare.Regular env good kept

/-- A machine that holds regular values only. -/
structure Machine.Regular (m : Machine σ) : Prop where
  held : m.Holds (Value.Regular env good kept)
  namespaces : ∀ n ∈ m.namespaces, n.object.Regular env good kept

end Regular

variable {v : Value} {f : ScriptFunction} {m : Machine σ} {asked : Request}

namespace Value

theorem Regular.decimalIn (h : v.Regular env good kept) : v.DecimalIn good := by
  intro d hd
  have hbare : v.toHostBare = .decimal d := by rw [toHostBare, hd]
  have hnumber := h.number
  rw [hbare] at hnumber
  exact hnumber d rfl

/-- A value that a script computes is regular when its number is. -/
theorem Plain.regular (hclass : NumberClass good lost) (hv : v.Plain) (hd : v.DecimalIn good) :
    v.Regular env good kept := by
  have htexts : v.toHostBare.OfTexts env := ofTexts_toHostBare hv.ofTexts
  obtain ⟨payload, flags⟩ := v
  cases payload with
  | integer n => exact ⟨htexts, hclass.ofInt n, False.elim⟩
  | decimal d =>
    refine ⟨htexts, fun d' hd' => ?_, False.elim⟩
    cases hd'
    exact hd d rfl
  | host h => exact absurd rfl (hv.host h)
  | null | boolean | string | function => exact ⟨htexts, fun _ h => (by cases h), False.elim⟩

theorem regular_function : (Value.function f).Regular env good kept ↔ f.OfText env := by
  constructor
  · intro h
    exact h.ofTexts f (.inl rfl)
  · intro h
    exact ⟨ofTexts_toHostBare (ofTexts_function.2 h), fun _ h => (by cases h), False.elim⟩

theorem Regular.function (h : v.Regular env good kept) (hf : v.payload = .function f) :
    (Value.function f).Regular env good kept := by
  have hbare : v.toHostBare = .function f := by rw [toHostBare, hf]
  exact regular_function.2 (h.ofTexts f (.inl hbare))

end Value

/-- What is written down is regular when its number is finite. -/
theorem Literal.Finite.regular (hclass : NumberClass good lost) {l : Literal} (h : l.Finite) :
    (Value.ofLiteral l).Regular env good kept := by
  have htexts : (Value.ofLiteral l).toHostBare.OfTexts env :=
    Value.ofTexts_toHostBare (Value.ofTexts_ofLiteral l)
  cases l with
  | integer n => exact ⟨htexts, hclass.ofInt n, False.elim⟩
  | decimal d =>
    refine ⟨htexts, fun d' hd' => ?_, False.elim⟩
    cases hd'
    exact hclass.finite h
  | null | boolean | string => exact ⟨htexts, fun _ h => (by cases h), False.elim⟩

theorem HostValue.regular_callable :
    (HostValue.callable f).Regular env good kept ↔ f.OfText env := by
  constructor
  · intro h
    exact ofTexts_callable.1 h.ofTexts
  · intro h
    exact ⟨ofTexts_callable.2 h, fun _ h => (by cases h), False.elim⟩

theorem Value.Regular.toHost (h : v.Regular env good kept) : v.toHost.Regular env good kept := by
  unfold Value.toHost
  split
  next f hf => exact HostValue.regular_callable.2 (Value.regular_function.1 (h.function hf))
  next => exact h

theorem HostValue.Regular.ofHost (hclass : NumberClass good lost) {h : HostValue}
    (hh : h.Regular env good kept) : (Value.ofHost h).Regular env good kept := by
  have htexts := Value.ofTexts_toHostBare (Value.ofTexts_ofHost hh.ofTexts)
  cases h with
  | integer n => exact (Value.plain_ofInt n).regular hclass hh.number
  | decimal | float => exact ⟨htexts, hh.number, False.elim⟩
  | object | method | output => exact ⟨htexts, hh.number, hh.foreign⟩
  | null | boolean | text | function | callable =>
    exact ⟨htexts, fun _ h => (by cases h), False.elim⟩

/-! ### Hosts -/

section Hosts

variable (env good kept)

/-- A request in which the host hands over regular values only. -/
def Request.Regular : Request → Prop
  | .call h args => h.Regular env good kept ∧ ∀ a ∈ args, a.Regular env good kept
  | .invoke _ args => ∀ a ∈ args, a.Regular env good kept
  | .set _ h => h.Regular env good kept
  | .eval _ | .handle _ | .get _ => True

/-- Host code that hands out regular values only, when it gets no others. -/
def HostProgram.Regular : HostProgram σ → Prop
  | .done value => value.Regular env good kept
  | .fail _ | .rethrow _ => True
  | .read next => ∀ state, (next state).Regular
  | .write _ next => next.Regular
  | .ask asked next => asked.Regular env good kept ∧
      ∀ reply, (∀ value, reply = .ok value → value.Regular env good kept) → (next reply).Regular

/-- A host whose kept objects hand out regular values only, when they get no others, and whose modules
are regular.  Nothing is said of what it does with other objects. -/
structure RegularHost : Prop where
  member : ∀ {state name} {h h' : HostValue}, kept h →
    h.member (env.host.view state) name = .found h' → h'.Regular env good kept
  module : ∀ {state name} {h : HostValue}, env.host.importModule state name = .found h →
    h.Regular env good kept
  call : ∀ {h : HostValue} {args : List HostValue}, kept h →
    (∀ a ∈ args, a.Regular env good kept) → (env.host.call h args).Regular env good kept
  operate : ∀ {op} {h a : HostValue}, kept h → a.Regular env good kept →
    (env.host.operate op h a).Regular env good kept

/-- The policy of evaluation: machines hold regular values only.  A run may be given up with the scopes
of `quits`. -/
def regularly (quits : Scopes → Prop) : Policy σ where
  inv := Machine.Regular env good kept
  step _ _ := True
  refl _ := trivial
  trans _ _ := trivial
  frame call := ∀ v ∈ call.args, v.Regular env good kept
  aside ha hm := by
    refine ⟨⟨hm.held.aside ha, ?_⟩, trivial⟩
    rw [ha.namespaces]
    exact hm.namespaces
  enter hframe hm := ⟨hm.held.enter hframe, hm.namespaces⟩
  leave hm _ := ⟨⟨hm.held.leave, hm.namespaces⟩, trivial⟩
  quits := quits

end Hosts

variable {quits : Scopes → Prop}

/-- Regular host code is safe. -/
theorem HostProgram.Regular.safe {program : HostProgram σ} (hm : m.Regular env good kept)
    (h : program.Regular env good kept) : program.Safe (regularly env good kept quits)
      (fun _ h => h.Regular env good kept) (fun _ asked => asked.Regular env good kept) m := by
  induction program generalizing m with
  | done _ => exact h
  | fail _ | rethrow _ => trivial
  | read next ih => exact ih m.host hm (h m.host)
  | write state next ih =>
    have hm' : Machine.Regular env good kept { m with host := state } :=
      ⟨hm.held.hosted state, hm.namespaces⟩
    exact ⟨hm', trivial, ih hm' h⟩
  | ask asked next ih =>
    exact ⟨h.1, fun m' reply hm' _ hreply _ => ih reply hm' (h.2 reply hreply)⟩

theorem HostValue.isForeign_of_member {view : HostView} {h h' : HostValue} {name : String}
    (hfound : h.member view name = .found h') : h.IsForeign := by
  cases h with
  | object ref => trivial
  | _ => cases hfound

/-! ### The custody -/

theorem Machine.Regular.assign (hm : m.Regular env good kept) (c : Nat) (name : String)
    (hv : v.Regular env good kept) :
    Machine.Regular env good kept { m with scopes := m.scopes.assign c name v } :=
  ⟨hm.held.assign c name hv, hm.namespaces⟩

/-- **The custody of evaluation** under a regular host: what is run was read from a text, and values are
regular.  A run may be given up at a result that is lost. -/
def regular (hhost : RegularHost env good kept) (hclass : NumberClass good lost) (quits : Scopes → Prop) :
    Custody env where
  toPolicy := regularly env good kept quits
  value _ v := v.Regular env good kept
  arg _ v := v.Regular env good kept
  host _ h := h.Regular env good kept
  request _ asked := asked.Regular env good kept
  code _ st := IsRead env st
  value_mono _ hv := hv
  host_mono _ hh := hh
  plain hv hkind := hv.regular hclass fun _ hd => absurd (congrArg Payload.kind hd) hkind
  lost v := ∃ d, v.payload = .decimal d ∧ lost d
  combined ha hb h :=
    (hclass.combine ha.decimalIn hb.decimalIn h).imp_left ((Value.plain_of_combine h).regular hclass)
  negated hv h := (Value.plain_of_negate h).regular hclass (hclass.negate hv.decimalIn h)
  bare hv := hv
  arg_value hv := hv
  arg_bare hv := hv
  arg_frame hargs := hargs
  function hv hf := hv.function hf
  ofHost := HostValue.Regular.ofHost hclass
  wrap hh := hh
  toHost := Value.Regular.toHost
  toHostBare hv := hv
  callable hf := Value.regular_function.2 (HostValue.regular_callable.1 hf)
  lookup hm hv := hm.held.bound.lookup hv
  member _ hh hfound := hhost.member (hh.foreign (HostValue.isForeign_of_member hfound)) hfound
  module _ := hhost.module
  namespaces hm := hm.namespaces _
  imports hm hns := ⟨⟨hm.held.imported _, hns⟩, trivial⟩
  call hm hforeign hh ha := (hhost.call (hh.foreign hforeign) ha).safe hm
  operate hm hforeign hh ha := (hhost.operate (hh.foreign hforeign) ha).safe hm
  request_call hr := hr
  request_invoke hr := hr
  request_set hm hr := ⟨hm.assign _ _ (HostValue.Regular.ofHost hclass hr), trivial⟩
  load hm _ := ⟨⟨hm.held.hosted _, hm.namespaces⟩, trivial⟩
  parsed _ hparse := isRead_of_parse hparse
  expr := Expr.Finite
  free _ _ := trivial
  expr_literal he := he.regular hclass
  expr_operation he := he
  expr_negation he := he
  expr_call he := allFinite_iff.1 he
  code_expr hcode := hcode.finite
  code_loop hcode := hcode.loop
  code_branch hcode := hcode.branchBodies
  code_otherwise hcode := hcode.otherwise
  assign c name hm hv := hm.assign c name hv
  define _ _ hcode := Value.regular_function.2 (IsRead.function hcode)
  push c name hm := ⟨hm.held.push c name, hm.namespaces⟩
  body hf := Value.regular_function.1 hf

/-! ### Runs -/

/-- A new runner has the function that prints, which is no object. -/
theorem Machine.Regular.create (env : Env σ) (state : σ) :
    (Runner.create env state).machine.Regular env good kept := by
  have houtput : (Value.host .output).Regular env good kept := by
    refine ⟨?_, fun _ h => (by cases h), False.elim⟩
    rintro f (hf | hf) <;> cases hf
  exact ⟨.create env state houtput, fun _ hn => absurd hn List.not_mem_nil⟩

/-- Every value that an element gives is regular, with whatever flags. -/
theorem regular_of_gives {hhost : RegularHost env good kept} {hclass : NumberClass good lost}
    {s : Scopes} {el : Element} {o : Option Value} (h : (regular hhost hclass quits).gives s el o) :
    ∀ v ∈ o, v.Regular env good kept :=
  Custody.value_of_gives _ h

section Runs

variable (env good kept)

/-- The watch that gives an alarm at everything that is not regular. -/
noncomputable def Watch.irregular (alarm : Run σ Unit) : Watch σ :=
  .report (Machine.Regular env good kept) (fun _ o => ∀ v ∈ o, v.Regular env good kept) alarm

/-- A watch changes nothing in the answer to what is asked for, and the answer and the machine that is
left are regular. -/
structure RunsRegular (w : Watch σ) (n : Nat) (asked : Request) (m : Machine σ) : Prop where
  watched : outcome (answer env (env.inner n) asked) m =
    outcome (answer env (Watched.inner w env n) asked) m
  machine : (outcome (answer env (env.inner n) asked) m).2.Regular env good kept
  answered : ∀ h, (outcome (answer env (env.inner n) asked) m).1 = .ok h → h.Regular env good kept

end Runs

/-- A silent watch changes nothing, or the run is given up under it. -/
theorem runsRegular_of_silent {hhost : RegularHost env good kept} {hclass : NumberClass good lost}
    {w : Watch σ} (hw : w.Silent (regular hhost hclass quits)) (n : Nat)
    (hm : m.Regular env good kept) (hasked : asked.Regular env good kept) :
    RunsRegular env good kept w n asked m ∨
      ∃ m', outcome (answer env (Watched.inner w env n) asked) m = (.error .exhausted, m') ∧
        quits m'.scopes := by
  let K := regular hhost hclass quits
  have hpermitted : K.request m.scopes asked := hasked
  cases K.answer (inner_watched hw n) hm hpermitted with
  | intro hleft hright hinv _ hends =>
    refine .inl ⟨?_, ?_, ?_⟩
    · rw [hleft, hright]
      cases hends with
      | ok hab => rw [hab.1]
      | error e => rfl
    · rw [hleft]
      exact hinv
    · rw [hleft]
      rintro h rfl
      cases hends with
      | ok hab => exact hab.2
  | quit hright hgiven => exact .inr ⟨_, hright, hgiven⟩

/-- **No run comes to hold what is no number**, if it starts without it. -/
theorem runsRegular_ordered (hhost : RegularHost env Decimal.IsOrdered kept) (n : Nat)
    (alarm : Run σ Unit) (hm : m.Regular env Decimal.IsOrdered kept)
    (hasked : asked.Regular env Decimal.IsOrdered kept) :
    RunsRegular env Decimal.IsOrdered kept (.irregular env Decimal.IsOrdered kept alarm) n asked m := by
  have hw : (Watch.irregular env Decimal.IsOrdered kept alarm).Silent
      (regular hhost numberClass_ordered fun _ => False) :=
    Watch.silent_report alarm (fun _ hm => hm) (fun _ _ _ => regular_of_gives) fun _ ⟨_, _, h⟩ => h
  obtain hrun | ⟨_, -, hquits⟩ := runsRegular_of_silent hw n hm hasked
  · exact hrun
  · exact hquits.elim

/-- A value that is an infinity. -/
def Value.IsInfinite (v : Value) : Prop := ∃ d, v.payload = .decimal d ∧ d.IsInfinite

/-- **A run comes to hold an infinity by an operation only**: a watch that gives up where an operation
gives one gives up, or the run holds none. -/
theorem runsRegular_finite (hhost : RegularHost env Decimal.IsFinite kept) (n : Nat)
    (alarm : Run σ Unit) (mark : Scopes) (hm : m.Regular env Decimal.IsFinite kept)
    (hasked : asked.Regular env Decimal.IsFinite kept) :
    let w := (Watch.irregular env Decimal.IsFinite kept alarm).upTo Value.IsInfinite mark
    RunsRegular env Decimal.IsFinite kept w n asked m ∨
      ∃ m', outcome (answer env (Watched.inner w env n) asked) m = (.error .exhausted, m') ∧
        m'.scopes = mark := by
  intro w
  have hfinite : ∀ v : Value, v.Regular env Decimal.IsFinite kept → ¬ v.IsInfinite := by
    rintro v hv ⟨d, hd, hinfinite⟩
    exact (hv.decimalIn d hd).not_isInfinite hinfinite
  have hw : w.Silent (regular hhost numberClass_finite (· = mark)) :=
    Watch.silent_upTo alarm (fun _ hm => hm) (fun _ _ _ => regular_of_gives) (fun _ => hfinite) rfl
  exact runsRegular_of_silent hw n hm hasked

/-! ### A product that overflows -/

/-- A runner with a large number, whose host has bound no object. -/
def largeRunner : Runner Unit :=
  (Runner.create libraryEnv ()).useAll [.set "x" (.decimal (.finite false 9 999999))]

/-- The text that asks for ten times the number. -/
def tenfold : Request := .eval (.text "x * 10")

/-- A host without modules is regular to a script that has no objects, whatever it does. -/
theorem regularHost_libraryEnv : RegularHost libraryEnv good fun _ => False where
  member hkept := hkept.elim
  module hfound := by cases hfound
  call hkept := hkept.elim
  operate hkept := hkept.elim

theorem regular_largeRunner (hclass : NumberClass good lost) :
    largeRunner.machine.Regular libraryEnv good fun _ => False := by
  have hlarge : Literal.Finite (.decimal (.finite false 9 999999)) := trivial
  exact (Machine.Regular.create libraryEnv ()).assign rootScope "x" (hlarge.regular hclass)

theorem answer_tenfold :
    ∃ h, (outcome (answer libraryEnv (libraryEnv.inner 9) tenfold) largeRunner.machine).1 = .ok h ∧
      (Value.ofHost h).asDecimal? = some (.infinite false) := by
  have hanswer : ((outcome (answer libraryEnv (libraryEnv.inner 9) tenfold)
      largeRunner.machine).1.toOption.bind fun h => (Value.ofHost h).asDecimal?) =
        some (.infinite false) := by
    decide +kernel
  rcases hr : (outcome (answer libraryEnv (libraryEnv.inner 9) tenfold) largeRunner.machine).1 with _ | h
  · rw [hr] at hanswer
    cases hanswer
  · rw [hr] at hanswer
    exact ⟨h, rfl, hanswer⟩

/-! ### The main theorem -/

/-- **Numbers stay finite until an operation overflows**, and are numbers ever after.

An operation on finite numbers fails where the exact one does, or gives the exact result in its
precision: an infinity exactly when that overflows, which results of less than `10 ^ 999999` do not and
results of `10 ^ 1000000` or more do.  No operation on numbers or infinities gives what is no number.

Hence a session that starts without what is no number never holds it; a watch that gives an alarm
otherwise is not heard.  And a run that starts from finite numbers holds finite ones only, as long as no
operation gives an infinity: a watch that gives up there, and gives an alarm at every other infinity,
either gives up or is not heard. -/
theorem finite_until_overflow (env : Env σ) (kept : HostValue → Prop) (n : Nat) (alarm : Run σ Unit)
    (mark : Scopes) :
    (∀ (view : HostView) (op : Arithmetic) (a b : Value) (x y : ℚ), a.IsNumber x → b.IsNumber y →
      (∃ f, op.exact x y = .error f ∧ a.combine view op b = .error f) ∨
        ∃ z v, op.exact x y = .ok z ∧ a.combine view op b = .ok (.value v) ∧
          (¬ op.precision.Overflows z ∧ v.IsNumber (op.precision.rounded z) ∨
            op.precision.Overflows z ∧ v = .decimal (.infinite (decide (z < 0)))) ∧
          (op.precision.Overflows z → 10 ^ Decimal.exponentLimit ≤ |z|) ∧
          (10 ^ (Decimal.exponentLimit + 1) ≤ |z| → op.precision.Overflows z)) ∧
    (∀ (view : HostView) (op : Arithmetic) (a b v : Value), a.DecimalIn Decimal.IsOrdered →
      b.DecimalIn Decimal.IsOrdered → a.combine view op b = .ok (.value v) →
        v.DecimalIn Decimal.IsOrdered) ∧
    (RegularHost env Decimal.IsOrdered kept →
      let w := Watch.irregular env Decimal.IsOrdered kept alarm
      (∀ state uses, (∀ u ∈ uses, ∀ asked ∈ u.request, asked.Regular env Decimal.IsOrdered kept) →
        ((Runner.create env state).useAll uses).machine.Regular env Decimal.IsOrdered kept) ∧
      ∀ m asked, m.Regular env Decimal.IsOrdered kept → asked.Regular env Decimal.IsOrdered kept →
        RunsRegular env Decimal.IsOrdered kept w n asked m) ∧
    (RegularHost env Decimal.IsFinite kept →
      let w := (Watch.irregular env Decimal.IsFinite kept alarm).upTo Value.IsInfinite mark
      ∀ m asked, m.Regular env Decimal.IsFinite kept → asked.Regular env Decimal.IsFinite kept →
        RunsRegular env Decimal.IsFinite kept w n asked m ∨
          ∃ m', outcome (answer env (Watched.inner w env n) asked) m = (.error .exhausted, m') ∧
            m'.scopes = mark) := by
  refine ⟨fun view op a b x y ha hb => ?_, fun view op a b v ha hb h => ?_, fun hhost => ⟨?_, ?_⟩,
    fun hhost m asked hm hasked => ?_⟩
  · obtain hfails | ⟨z, v, hexact, hcombine, hv⟩ := Value.combine_exact view op ha hb
    · exact .inl hfails
    · have hdigits : 0 < op.precision.digits := by cases op <;> decide
      exact .inr ⟨z, v, hexact, hcombine, hv, Decimal.Precision.abs_of_overflows hdigits⟩
  · obtain hgood | ⟨_, _, hlost⟩ := numberClass_ordered.combine ha hb h
    · exact hgood
    · exact hlost.elim
  · intro state uses huses
    let K := regular hhost numberClass_ordered fun _ => False
    exact K.kept_useAll uses rfl (.create env state) (fun u hu asked hasked _ => huses u hu asked hasked)
      fun _ ⟨_, _, h⟩ => h
  · intro m asked hm hasked
    exact runsRegular_ordered hhost n alarm hm hasked
  · exact runsRegular_finite hhost n alarm mark hm hasked

/-- Ten times the large number overflows.  The run that asks for it is given up under the watch, and it
is a regular one once infinities are. -/
theorem finite_until_overflow_tenfold :
    let objects : HostValue → Prop := fun _ => False
    let alarm : Run Unit Unit := throw (.raised default)
    let w := (Watch.irregular libraryEnv Decimal.IsFinite objects alarm).upTo Value.IsInfinite default
    RegularHost libraryEnv Decimal.IsFinite objects ∧ RegularHost libraryEnv Decimal.IsOrdered objects ∧
      largeRunner.machine.Regular libraryEnv Decimal.IsFinite objects ∧
      largeRunner.machine.Regular libraryEnv Decimal.IsOrdered objects ∧
      Arithmetic.multiply.precision.Overflows (Decimal.number false 9 999999 * (10 : ℤ)) ∧
      (∀ v, (Value.decimal (.infinite true)).combine default .multiply ⟨.integer (-2), .none⟩ =
        .ok (.value v) → v.DecimalIn Decimal.IsOrdered) ∧
      (∃ m', outcome (answer libraryEnv (Watched.inner w libraryEnv 9) tenfold) largeRunner.machine =
        (.error .exhausted, m') ∧ m'.scopes = default) ∧
      RunsRegular libraryEnv Decimal.IsOrdered objects (.irregular libraryEnv Decimal.IsOrdered objects alarm)
        9 tenfold largeRunner.machine := by
  intro objects alarm w
  obtain ⟨hoperation, hnumbers, hordered, hfinite⟩ :=
    finite_until_overflow libraryEnv objects 9 alarm default
  refine ⟨regularHost_libraryEnv, regularHost_libraryEnv, regular_largeRunner numberClass_finite,
    regular_largeRunner numberClass_ordered, ?_, ?_, ?_, ?_⟩
  · have hlarge : (Value.decimal (.finite false 9 999999)).IsNumber (Decimal.number false 9 999999) :=
      .decimal
    have hten : (⟨.integer 10, .none⟩ : Value).IsNumber ((10 : ℤ) : ℚ) := .integer (by decide)
    obtain ⟨_, hexact, -⟩ | ⟨z, v, hexact, hcombine, ⟨-, hv⟩ | ⟨hoverflows, -⟩, -⟩ :=
      hoperation default .multiply _ _ _ _ hlarge hten
    · cases hexact
    · cases hcombine
      cases hv
    · cases hexact
      exact hoverflows
  · intro v h
    refine hnumbers default .multiply _ _ v (fun d hd => ?_) (fun d hd => ?_) h
    · cases hd
      trivial
    · cases hd
  · obtain hrun | hgiven := hfinite regularHost_libraryEnv largeRunner.machine tenfold
      (regular_largeRunner numberClass_finite) trivial
    · -- the answer would be a finite number
      obtain ⟨h, hanswer, hvalue⟩ := answer_tenfold
      exact (numberClass_finite.asDecimal (hrun.answered h hanswer).number hvalue).elim
    · exact hgiven
  · exact (hordered regularHost_libraryEnv).2 _ _ (regular_largeRunner numberClass_ordered) trivial

/-- Operations on finite numbers do give an infinity, and so does a script that starts from one. -/
theorem multiply_gives_infinity :
    (∃ v, (Value.decimal (.finite false 9 999999)).combine default .multiply ⟨.integer 10, .none⟩ =
      .ok (.value v) ∧ v.IsInfinite) ∧
    ∃ h, (outcome (answer libraryEnv (libraryEnv.inner 9) tenfold) largeRunner.machine).1 = .ok h ∧
      (Value.ofHost h).asDecimal? = some (.infinite false) :=
  ⟨⟨_, rfl, _, rfl, trivial⟩, answer_tenfold⟩

end LineScript
