import Mathlib.Control.Monad.Basic
import LineScript.Proofs.FlagPassing
import LineScript.Proofs.Lines
import LineScript.Proofs.TreeLines

/-!
# What escapes from a run

A run fails with an error of the script, or with a failure of the host that no part of the
evaluator has turned into one.  Arithmetic, members, imports and host calls are guarded: whatever
happens there becomes an error of the script, unless calls are nested too deeply.  Reading the text,
comparisons, changes of sign and conditions are not, and what fails there leaves the run as it is.

## Main definitions

* `Run.Leaks` — what a run can fail with beside errors of the script.
* `Escape` — the failures that are not guarded against.

## Main results

* `escape_iff` — the failures that escape, one by one.
* `Env.contained_inner` — calls of script functions let nothing else escape.
* `escapes_of_eval` — **a text that is run for its value fails with an error of the script, or with
  one of these.**
-/

namespace LineScript

open Run

variable {σ α β : Type}

/-! ### Failures that are no errors of the script -/

/-- Beside errors of the script, the run fails with nothing but what `P` says of the state that the
host is left in. -/
def Run.Leaks (P : σ → Fault → Prop) (x : Run σ α) : Prop :=
  ∀ m m' id f, outcome x m = (.error (.raised ⟨id, .fault f⟩), m') → P m'.host f

variable {f : Fault}

namespace Run.Leaks

variable {P : σ → Fault → Prop} {x : Run σ α} {g : α → Run σ β}

theorem of_ok (h : ∀ m, ∃ a m', outcome x m = (.ok a, m')) : Leaks P x := by
  intro m m' id f hx
  obtain ⟨a, m₁, h⟩ := h m
  rw [h] at hx
  cases hx

theorem pure (a : α) : Leaks P (Pure.pure a : Run σ α) := of_ok fun _ => ⟨_, _, rfl⟩

theorem exhausted : Leaks P (MonadExcept.throw .exhausted : Run σ α) := fun _ _ _ _ h => by cases h

theorem raiseCause (c : Cause) : Leaks P (Run.raiseCause c : Run σ α) := fun _ _ _ _ h => by cases h

theorem raise (hf : ∀ state, P state f) : Leaks P (Run.raise (.fault f) : Run σ α) := by
  intro m m' id f' h
  cases h
  exact hf _

theorem bind (hx : Leaks P x) (hg : ∀ a, Leaks P (g a)) : Leaks P (x >>= g) := by
  intro m m' id f h
  rcases hout : outcome x m with ⟨stop | a, m₁⟩
  · rw [outcome_bind_of_error g hout] at h
    cases h
    exact hx _ _ _ _ hout
  · rw [outcome_bind_of_ok g hout] at h
    exact hg a _ _ _ _ h

/-- A first step that does not fail. -/
theorem next (hx : ∀ m, ∃ a m', outcome x m = (.ok a, m')) (hg : ∀ a, Leaks P (g a)) :
    Leaks P (x >>= g) :=
  (of_ok hx).bind hg

/-- A first step that is taken in one case only. -/
theorem bindIf {c : Prop} [Decidable c] {x : Run σ Unit} {g : Unit → Run σ β} (hx : Leaks P x)
    (hg : Leaks P (g ())) : Leaks P (if c then x >>= g else g ()) := by
  split
  · exact hx.bind fun _ => hg
  · exact hg

theorem orRaise {r : Except Failure α} (hr : ∀ state f, r = .error (.fault f) → P state f) :
    Leaks P (Run.orRaise r : Run σ α) := by
  intro m m' id f h
  cases r with
  | ok a => cases h
  | error e =>
    cases h
    exact hr _ _ rfl

/-- A result that depends on what can be seen of the host. -/
theorem viewed {env : Env σ} {r : HostView → Except Failure α}
    (hr : ∀ state f, r (env.host.view state) = .error (.fault f) → P state f) :
    Leaks P (view env >>= fun seen => Run.orRaise (r seen)) := by
  intro m m' id f h
  have h : outcome (Run.orRaise (r (env.host.view m.host)) : Run σ α) m = _ := h
  cases hres : r (env.host.view m.host) with
  | ok a =>
    rw [hres] at h
    cases h
  | error e =>
    rw [hres] at h
    cases h
    exact hr _ _ hres

/-- Nothing but calls nested too deeply gets through a guard. -/
theorem guarded (hrec : ∀ state f, f.cls = .recursion → P state f) (x : Run σ α) :
    Leaks P (Run.guarded x) := by
  intro m m' id f h
  rcases hout : outcome x m with ⟨r, m₁⟩
  rw [Run.guarded, outcome_attempt_bind _ hout] at h
  rcases r with (⟨id', e | f'⟩ | _) | a
  · cases h
  · dsimp only at h
    split at h
    next hcls =>
      cases h
      exact hrec _ _ (by simpa using hcls)
    next => cases h
  · cases h
  · cases h

theorem atLine (line : SourceLine) (hx : Leaks P x) : Leaks P (Run.atLine line x) := by
  intro m m' id f h
  rcases hout : outcome x { m with line := some line } with ⟨r, m₁⟩
  rw [outcome_atLine hout] at h
  rcases r with (⟨id', e | f'⟩ | _) | a
  · cases h
  · cases h
    exact hx _ _ _ _ hout
  · cases h
  · cases h

theorem inFrame (frame : Frame) (hx : Leaks P x) : Leaks P (Run.inFrame frame x) := by
  intro m m' id f h
  rcases hout : outcome x (m.enter frame) with ⟨r, m₁⟩
  rw [outcome_inFrame hout] at h
  cases h
  show P (recorded (α := α) _ m₁).host f
  rw [(@Machine.aside_recorded σ α (fun _ => True) _ m₁).host]
  exact hx _ _ _ _ hout

theorem keepingLine (hx : Leaks P x) : Leaks P (Run.keepingLine x) := by
  intro m m' id f h
  rcases hout : outcome x m with ⟨r, m₁⟩
  rw [outcome_keepingLine hout] at h
  cases h
  exact hx m m₁ id f hout

end Run.Leaks

/-! ### What is not guarded against -/

/-- The failures that leave a run as they are, when the host is in a state: calls nested too deeply,
failures of reading a text, and those of comparisons, changes of sign and conditions. -/
inductive Escape (env : Env σ) (state : σ) : Fault → Prop where
  | recursion {f : Fault} : f.cls = .recursion → Escape env state f
  | reading {f : Fault} : ReadingFault env.symbols env.host.load f → Escape env state f
  | comparison {op : Option Key} {left right : Value} {f : Fault} :
      Value.compare (env.host.view state) op left right = .error (.fault f) → Escape env state f
  | negation {v : Value} {f : Fault} : v.negate = .error (.fault f) → Escape env state f
  | condition {v : Value} {f : Fault} :
      v.truthy (env.host.view state) = .error f → Escape env state f

variable {v : Value}

variable {view : HostView}

/-- Only the text of something that belongs to the host can fail. -/
theorem Value.text_eq_error_iff :
    v.text view = .error f ↔ ∃ h, v.payload = .host h ∧ h.shown view = .error f := by
  unfold Value.text
  cases v.payload <;> simp

theorem Value.truthy_eq_error_iff :
    v.truthy view = .error f ↔ ∃ h, v.payload = .host h ∧ h.shown view = .error f := by
  unfold Value.truthy Value.text
  cases hv : v.payload with
  | host h => cases hshown : h.shown view <;> simp [Except.map, hshown]
  | _ => simp [Except.map]

/-- Decimals can be compared for equality unless one of them asks for attention. -/
theorem Decimal.equal_eq_error {a b : Decimal} {f : Decimal.Fault} (h : a.equal b = .error f) :
    f = .invalid := by
  unfold Decimal.equal at h
  split at h
  · cases h
    rfl
  · cases h
    rfl
  · cases h

theorem Decimal.Precision.fit_eq_error {p : Precision} {negative : Bool} {c : Nat} {e : Int}
    {f : Decimal.Fault} (h : p.fit negative c e = .error f) : f = .overflow := by
  have hover : ∀ {f}, p.overflowed negative = .error f → f = .overflow := by
    intro f h
    unfold Precision.overflowed at h
    split at h <;> cases h
    rfl
  unfold Precision.fit at h
  dsimp only at h
  repeat' split at h
  all_goals first | exact hover h | cases h

/-- A change of sign fails for a number that asks for attention, and for one that is too large. -/
theorem Decimal.neg_eq_error {d : Decimal} {f : Decimal.Fault} (h : d.neg = .error f) :
    f = .invalid ∨ f = .overflow := by
  unfold Decimal.neg at h
  split at h
  · split at h <;> exact .inr (Precision.fit_eq_error h)
  · cases h
  · cases h
    exact .inl rfl
  · cases h

theorem Value.equalDecimals_eq_fault {a b : Decimal}
    (h : Value.equalDecimals a b = .error (.fault f)) : f = Decimal.Fault.invalid.toFault := by
  unfold Value.equalDecimals at h
  cases hequal : a.equal b with
  | ok r =>
    rw [hequal] at h
    cases h
  | error e =>
    rw [hequal, Decimal.equal_eq_error hequal] at h
    cases h
    rfl

theorem Value.equal_eq_fault {left right : Value}
    (h : Value.equal view left right = .error (.fault f)) :
    f = Decimal.Fault.invalid.toFault ∨ ∃ shown : HostValue, shown.shown view = .error f := by
  unfold Value.equal at h
  split at h
  case h_2 | h_3 | h_4 => exact .inl (Value.equalDecimals_eq_fault h)
  case h_14 =>
    right
    unfold Value.equalTexts at h
    cases hleft : left.text view with
    | error e =>
      rw [hleft] at h
      cases h
      obtain ⟨shown, -, hshown⟩ := Value.text_eq_error_iff.1 hleft
      exact ⟨shown, hshown⟩
    | ok a =>
      cases hright : right.text view with
      | error e =>
        rw [hleft, hright] at h
        cases h
        obtain ⟨shown, -, hshown⟩ := Value.text_eq_error_iff.1 hright
        exact ⟨shown, hshown⟩
      | ok b =>
        rw [hleft, hright] at h
        cases h
  all_goals cases h

theorem Value.order_eq_fault {left right : Value} (h : Value.order left right = .error (.fault f)) :
    f = Decimal.Fault.invalid.toFault := by
  unfold Value.order at h
  split at h
  · cases h
  · cases h
  · split at h
    · split at h <;> cases h
      rfl
    · cases h

theorem error_of_map {ε : Type} {x : Except ε α} {g : α → β} {e : ε} (h : x.map g = .error e) :
    x = .error e := by
  cases x with
  | ok a => cases h
  | error e' => exact congrArg _ (Except.error.inj h)

/-- A comparison fails by a decimal that is no number, by a name that nobody knows, or by a text. -/
theorem Value.compare_eq_fault {name : Option Key} {left right : Value}
    (h : Value.compare view name left right = .error (.fault f)) :
    f = Decimal.Fault.invalid.toFault ∨
      name.bind Comparison.ofName? = none ∧ f = Comparison.unknown name ∨
      ∃ shown : HostValue, shown.shown view = .error f := by
  unfold Value.compare at h
  split at h
  next => exact (Value.equal_eq_fault (error_of_map h)).imp_right .inr
  next => exact (Value.equal_eq_fault (error_of_map h)).imp_right .inr
  next => exact .inl (Value.order_eq_fault (error_of_map h))
  next hname =>
    split at h <;> cases h
    exact .inr (.inl ⟨hname, rfl⟩)

theorem Value.negate_eq_fault (h : v.negate = .error (.fault f)) :
    f = Decimal.Fault.invalid.toFault ∨ f = Decimal.Fault.overflow.toFault := by
  unfold Value.negate at h
  split at h
  · cases h
  next d _ =>
    cases hneg : d.neg with
    | ok e =>
      rw [hneg] at h
      cases h
    | error e =>
      rw [hneg] at h
      cases h
      exact (Decimal.neg_eq_error hneg).imp (congrArg _) (congrArg _)
  · cases h

/-- **The failures that escape, one by one**: calls and inclusions nested too deeply, failures of
reading, a decimal that is no number, one too large for a change of sign, a comparison that the
symbols name and nobody knows, and something of the host whose text fails. -/
theorem escape_iff {env : Env σ} {state : σ} : Escape env state f ↔
    f.cls = .recursion ∨ ReadingFault env.symbols env.host.load f ∨
      f = Decimal.Fault.invalid.toFault ∨ f = Decimal.Fault.overflow.toFault ∨
      (∃ name : Option Key, name.bind Comparison.ofName? = none ∧ f = Comparison.unknown name) ∨
      ∃ h : HostValue, h.shown (env.host.view state) = .error f := by
  constructor
  · intro h
    cases h with
    | recursion h => exact .inl h
    | reading h => exact .inr (.inl h)
    | comparison h =>
      rcases Value.compare_eq_fault h with h | h | h
      · exact .inr (.inr (.inl h))
      · exact .inr (.inr (.inr (.inr (.inl ⟨_, h⟩))))
      · exact .inr (.inr (.inr (.inr (.inr h))))
    | negation h =>
      rcases Value.negate_eq_fault h with h | h
      · exact .inr (.inr (.inl h))
      · exact .inr (.inr (.inr (.inl h)))
    | condition h =>
      obtain ⟨shown, -, hshown⟩ := Value.truthy_eq_error_iff.1 h
      exact .inr (.inr (.inr (.inr (.inr ⟨shown, hshown⟩))))
  · rintro (h | h | rfl | rfl | ⟨name, hname, rfl⟩ | ⟨shown, hshown⟩)
    · exact .recursion h
    · exact .reading h
    · exact .negation (v := .decimal (.nan false true 0)) rfl
    · exact .negation (v := .decimal (.finite false 1 1000000)) rfl
    · have hcompare : Value.compare (env.host.view state) name (.ofInt 0) (.ofInt 0) =
          .error (.fault (Comparison.unknown name)) := by
        unfold Value.compare
        rw [hname]
        rfl
      exact .comparison hcompare
    · exact .condition (v := .host shown) (Value.truthy_eq_error_iff.2 ⟨shown, rfl, hshown⟩)

/-! ### Calls and expressions -/

section Evaluation

variable {env : Env σ} {inner : Inner σ} {scope n : Nat}

theorem leaks_guarded (x : Run σ α) : Leaks (Escape env) (guarded x) :=
  .guarded (fun _ _ => .recursion) x

theorem leaks_checkDepth : Leaks (Escape env) (checkDepth env) := by
  refine .next (fun _ => ⟨_, _, rfl⟩) fun m => ?_
  split
  · exact .raise fun _ => .recursion rfl
  · exact .pure _

theorem leaks_condition (v : Value) : Leaks (Escape env) (condition env v) := by
  refine .viewed fun state f h => ?_
  cases htruthy : v.truthy (env.host.view state) with
  | ok b =>
    rw [htruthy] at h
    cases h
  | error e =>
    rw [htruthy] at h
    cases h
    exact .condition htruthy

/-- What fails when a name is looked up is guarded. -/
def leaking (env : Env σ) : NameClass env where
  has := Leaks (Escape env)
  pure := .pure
  bind := .bind
  get := .of_ok fun _ => ⟨_, _, rfl⟩
  raiseCause := .raiseCause
  member _ _ := leaks_guarded _
  named _ := leaks_guarded _

theorem leaks_loopUpTo {holds : Run σ Bool} {body : Run σ (Option Value)}
    (hholds : Leaks (Escape env) holds) (hbody : Leaks (Escape env) body) :
    ∀ n, Leaks (Escape env) (loopUpTo holds body n)
  | 0 => .exhausted
  | n + 1 => by
    rw [loopUpTo]
    refine hholds.bind fun b => ?_
    cases b with
    | false => exact .pure _
    | true =>
      refine hbody.bind fun o => ?_
      cases o with
      | none => exact leaks_loopUpTo hholds hbody n
      | some v => exact .pure v

theorem leaks_bindParams (scope : Nat) : ∀ (params : List String) (args : List Value),
    Leaks (Escape env) (bindParams scope params args : Run σ Unit)
  | [], _ => .pure ()
  | _ :: _, [] => .pure ()
  | _ :: ps, _ :: vs => .next (fun _ => ⟨(), _, rfl⟩) fun _ => leaks_bindParams scope ps vs

/-- Calls of script functions fail with errors of the script and with what escapes. -/
def Inner.Contained (env : Env σ) (inner : Inner σ) : Prop :=
  ∀ f args site, Leaks (Escape env) (inner.call f args site)

section

set_option linter.unusedSectionVars false

variable (hi : inner.Contained env)

include hi

theorem leaks_callNamed (line : SourceLine) (name : String)
    (target : Callee) (args : List Value) :
    Leaks (Escape env) (callNamed env inner line name target args) := by
  refine .next (fun _ => ⟨_, _, rfl⟩) fun _ => ?_
  cases target with
  | script f => exact hi f args (some line)
  | host h =>
    exact leaks_checkDepth.bind fun _ => (Leaks.inFrame _ (leaks_guarded _)).bind fun _ => .pure _

mutual

theorem leaks_eval : ∀ e : Expr,
    Leaks (Escape env) (e.eval env inner scope)
  | .literal line l => by
    rw [Expr.eval]
    exact .atLine line (.pure _)
  | .reference line name => by
    rw [Expr.eval]
    exact .atLine line ((leaking env).reference scope name)
  | .operation line .logical op left right => by
    rw [Expr.eval]
    refine .atLine line ((leaks_eval left).bind fun a => ?_)
    refine (leaks_condition a).bind fun first => ?_
    split
    · exact .pure _
    · split
      · exact .pure _
      · exact (leaks_eval right).bind fun b => (leaks_condition b).bind fun _ => .pure _
  | .operation line .comparison op left right => by
    rw [Expr.eval]
    refine .atLine line ((leaks_eval left).bind fun a => (leaks_eval right).bind fun b => ?_)
    exact .viewed fun _ _ => .comparison
  | .operation line .arithmetic op left right => by
    rw [Expr.eval]
    refine .atLine line ((leaks_eval left).bind fun a => (leaks_eval right).bind fun b => ?_)
    exact leaks_guarded _
  | .negation line operand => by
    rw [Expr.eval]
    refine .atLine line ((leaks_eval operand).bind fun v => ?_)
    exact .orRaise fun _ _ => .negation
  | .call line name args => by
    rw [Expr.eval]
    refine .atLine line (.bind ((leaking env).callee scope name) fun target => ?_)
    exact (leaks_evalAll args).bind fun values => leaks_callNamed hi line name target values

theorem leaks_evalAll : ∀ es : List Expr,
    Leaks (Escape env) (evalAll env inner scope es)
  | [] => by
    rw [evalAll]
    exact .pure _
  | e :: es => by
    rw [evalAll]
    exact (leaks_eval e).bind fun _ => (leaks_evalAll es).bind fun _ => .pure _

end

/-! ### Statements -/

mutual

theorem leaks_exec : ∀ st : Statement,
    Leaks (Escape env) (st.exec env inner n scope)
  | .expression line e | .returning line (some e) => by
    rw [Statement.exec]
    exact .atLine line ((leaks_eval hi e).bind fun _ => .pure _)
  | .assignment line name e => by
    rw [Statement.exec]
    refine .atLine line ((leaks_eval hi e).bind fun v => ?_)
    refine .next (fun _ => ⟨(), _, rfl⟩) fun _ => ?_
    exact .next (fun _ => ⟨(), _, rfl⟩) fun _ => .pure _
  | .returning line none => by
    rw [Statement.exec]
    exact .atLine line (.pure _)
  | .importing line target => by
    rw [Statement.exec]
    exact .atLine line ((leaks_guarded _).bind fun _ => .pure _)
  | .conditional line branches otherwise => by
    rw [Statement.exec]
    refine .atLine line ((leaks_execBranches branches).bind fun o => ?_)
    cases o with
    | some v => exact .pure _
    | none => exact leaks_execOtherwise otherwise
  | .loop line holds body => by
    rw [Statement.exec]
    refine .atLine line (.bind (leaks_loopUpTo ?_ (leaks_execUntil _ body) n) fun _ => .pure _)
    exact (leaks_eval hi holds).bind fun v => leaks_condition v
  | .function line name params body => by
    rw [Statement.exec]
    exact .atLine line (.next (fun _ => ⟨(), _, rfl⟩) fun _ => .pure _)

theorem leaks_execUntil (ends : Value → Bool) : ∀ body : List Statement,
    Leaks (Escape env) (execUntil env inner n scope ends body)
  | [] => by
    rw [execUntil]
    exact .pure _
  | st :: rest => by
    rw [execUntil]
    refine (leaks_exec st).bind fun o => ?_
    cases o with
    | none => exact leaks_execUntil ends rest
    | some v =>
      dsimp only
      split
      · exact .pure _
      · exact leaks_execUntil ends rest

theorem leaks_execBranches : ∀ branches : List Branch,
    Leaks (Escape env) (execBranches env inner n scope branches)
  | [] => by
    rw [execBranches]
    exact .pure _
  | .mk line holds body :: rest => by
    rw [execBranches]
    refine (leaks_eval hi holds).bind fun v => (leaks_condition v).bind fun b => ?_
    cases b with
    | false => exact leaks_execBranches rest
    | true => exact (leaks_execUntil _ body).bind fun _ => .pure _

theorem leaks_execOtherwise : ∀ otherwise : Option (List Statement),
    Leaks (Escape env) (execOtherwise env inner n scope otherwise)
  | none => by
    rw [execOtherwise]
    exact .pure _
  | some body => by
    rw [execOtherwise]
    exact (leaks_execUntil _ body).bind fun _ => .pure _

end

theorem leaks_execAll : ∀ (body : List Statement) (last : Option Value),
    Leaks (Escape env) (execAll env inner n scope last body)
  | [], last => .pure last
  | st :: rest, last => by
    rw [execAll]
    refine (leaks_exec hi st).bind fun o => ?_
    cases o <;> exact leaks_execAll rest _

/-! ### Whole runs -/

theorem leaks_callWith (f : ScriptFunction) (args : List Value)
    (site : Option SourceLine) :
    Leaks (Escape env) (callWith env inner n f args site) := by
  unfold callWith
  refine .bindIf (.raiseCause _) (leaks_checkDepth.bind fun _ => ?_)
  refine .next (fun _ => ⟨_, _, rfl⟩) fun scope => ?_
  refine (leaks_bindParams scope f.params args).bind fun _ => .keepingLine (.inFrame _ ?_)
  refine .next (fun _ => ⟨(), _, rfl⟩) fun _ => ?_
  exact (leaks_execUntil hi _ f.body).bind fun _ => .pure _

end

/-- **Calls of script functions let nothing else escape**, however many steps they may take. -/
theorem Env.contained_inner (env : Env σ) : ∀ n, (env.inner n).Contained env := by
  intro n
  induction n with
  | zero => exact fun _ _ _ => .exhausted
  | succ n ih => exact fun f args site => leaks_callWith ih f args site

/-- Neither do scripts. -/
theorem leaks_runScript (n : Nat) (script : Script) :
    Leaks (Escape env) (runScript env n script) := by
  cases n with
  | zero => exact .exhausted
  | succ n => exact (leaks_execAll (env.contained_inner n) script.body none).bind fun _ => .pure _

/-- Nor does reading a text. -/
theorem leaks_parseSource (source : String) : Leaks (Escape env) (parseSource env source) := by
  intro m m' id f h
  have hparse : FailsWith (ReadingFailure env.symbols env.host.load fun _ => True)
      (parse env.symbols env.host.load env.base none source m.host).1 :=
    failsWith_parse m.host (fun _ _ _ _ => trivial) fun _ _ => trivial
  rcases hread : parse env.symbols env.host.load env.base none source m.host with ⟨r, state⟩
  rw [hread] at hparse
  rw [parseSource, outcome_bind_of_ok _ (outcome_parse hread)] at h
  cases r with
  | ok script => cases h
  | error e =>
    cases h
    cases hparse with
    | fault hfault => exact .reading hfault

end Evaluation

/-- Nor does running a text for its value. -/
theorem leaks_evalSource (env : Env σ) (n : Nat) (source : String) :
    Leaks (Escape env) (evalSource env (env.inner n) (.text source)) := by
  refine .next (fun _ => ⟨_, _, rfl⟩) fun idle => .bindIf (.of_ok fun _ => ⟨(), _, rfl⟩) ?_
  refine .bind (.next (fun _ => ⟨_, _, rfl⟩) fun seen => ?_) fun script => ?_
  · exact .next (fun _ => ⟨source, _, rfl⟩) fun _ => leaks_parseSource _
  · exact (leaks_runScript n script).bind fun _ => .pure _

/-- What a runner performs is a run from its machine. -/
theorem Runner.perform_of_outcome {r : Runner σ} {x : Inner σ → Run σ α} {result : Except Stop α}
    {m' : Machine σ} (h : outcome (x (r.env.inner stepLimit)) r.machine = (result, m')) :
    r.perform x = (result, { r with machine := m' }) := by
  have hrun : (x (r.env.inner stepLimit)).run.run r.machine = (result, m') := h
  unfold Runner.perform
  rw [hrun]

/-- A runner in which `x` is bound to something that is no number. -/
def undefinedNumber : Runner Unit := (Runner.create quietEnv ()).set "x" (.float "nan")

theorem eval_undefinedNumber : (undefinedNumber.eval "x < 1").1 =
    .error (.raised ⟨0, .fault ⟨.invalidOperation, "[<class 'decimal.InvalidOperation'>]"⟩⟩) := by
  have hrun : ((undefinedNumber.eval "x < 1").1.map fun _ => ()) =
      .error (.raised ⟨0, .fault Decimal.Fault.invalid.toFault⟩) := by
    decide +kernel
  exact error_of_map hrun

end LineScript
