import LineScript.Proofs.Discipline
import LineScript.Proofs.NodeLines
import LineScript.Proofs.Watched

/-!
# Watches that have nothing to say

A custody is a regime with what may be said of the expressions and statements that are run and of
what statements give.  Under a custody a watch is silent when it does nothing at machines and values
that are as they should be.  A run under a silent watch is the run of the evaluator, whatever the
watch would do elsewhere: no machine and no value that is not as it should be, no missing value and
no unknown operation comes up anywhere in it.  Where good values may be combined to a value that is
lost, the watch gives up; all is as it should be up to there.

## Main definitions

* `Custody` — a regime with good expressions, and with what statements may give.
* `Watch.Silent` — a watch that does nothing where all is as it should be.

## Main results

* `eval_watched`, `exec_watched` — expressions and statements run as if nobody watched.
* `inner_watched` — so do calls, calls of the host and whole scripts.
-/

namespace LineScript

open Run

variable {σ α β : Type}

/-- A regime with what may be said of the expressions and statements that are run, and of what
statements give. -/
structure Custody (env : Env σ) extends Regime env where
  /-- The expressions that are good to be evaluated. -/
  expr : Expr → Prop
  expr_line : ∀ {e}, expr e → line e.line := by exact fun _ => trivial
  /-- What statements may give: anything, as a rule. -/
  yields : Statement → Option Value → Prop := fun _ _ => True
  free : ∀ m m', step m m'
  expr_literal : ∀ {s line l}, expr (.literal line l) → value s (.ofLiteral l)
  expr_operation : ∀ {line family op left right}, expr (.operation line family op left right) →
    expr left ∧ expr right
  expr_negation : ∀ {line operand}, expr (.negation line operand) → expr operand
  expr_call : ∀ {line name args}, expr (.call line name args) → ∀ e ∈ args, expr e
  code_line : ∀ {c st}, code c st → line st.line := by exact fun _ => trivial
  code_expr : ∀ {c st}, code c st → ∀ e ∈ st.exprs, expr e
  code_loop : ∀ {c line holds body}, code c (.loop line holds body) → ∀ st ∈ body, code c st
  code_branch : ∀ {c line branches otherwise}, code c (.conditional line branches otherwise) →
    ∀ b ∈ branches, ∀ st ∈ b.body, code c st
  code_otherwise : ∀ {c line branches body}, code c (.conditional line branches (some body)) →
    ∀ st ∈ body, code c st
  assign : ∀ {m : Machine σ} {v} (c name), inv m → value m.scopes v →
    inv { m with scopes := m.scopes.assign c name v }
  define : ∀ {s c line name params body} (id bare), code c (.function line name params body) →
    value s (.function ⟨id, bare, params, body, c⟩)
  push : ∀ {m : Machine σ} (c name), inv m → inv { m with scopes := (m.scopes.push c name).2 }
  body : ∀ {s f c}, value s (.function f) → ∀ st ∈ f.body, code c st
  yields_expression : ∀ {s v line e}, value s v → yields (.expression line e) (some v) := by
    exact fun _ => trivial
  yields_assignment : ∀ {s v line name e}, value s v →
    yields (.assignment line name e) (some v.withoutFlags) := by exact fun _ => trivial
  yields_returning : ∀ {s v line e}, value s v →
    yields (.returning line e) (some (v.withFlag .returning)) := by exact fun _ => trivial
  yields_importing : ∀ {line target}, yields (.importing line target) none := by exact trivial
  yields_function : ∀ {line name params body}, yields (.function line name params body) none := by
    exact trivial
  yields_skipped : ∀ {line branches otherwise},
    yields (.conditional line branches otherwise) none := by exact trivial
  yields_ran : ∀ {line branches otherwise},
    yields (.conditional line branches otherwise) (some conditionalRan) := by exact trivial
  yields_branch : ∀ {line branches otherwise st v}, yields st (some v) → v.flags.any = true →
    yields (.conditional line branches otherwise) (some v) := by exact fun _ _ => trivial
  yields_ended : ∀ {line holds body}, yields (.loop line holds body) (some loopEnded) := by
    exact trivial
  yields_loop : ∀ {line holds body st v}, yields st (some v) → v.isReturn = true →
    yields (.loop line holds body) (some v) := by exact fun _ _ => trivial

namespace Custody

variable {env : Env σ} (K : Custody env)

/-- What an element gives: an expression a good value, and a statement what it may. -/
def gives (s : Scopes) : Element → Option Value → Prop
  | .expr _, o => ∃ v, o = some v ∧ K.value s v
  | .stmt st, o => K.yields st o ∧ ∀ v ∈ o, K.value s v.withoutFlags

/-- Every value that an element gives is good, apart from its flags. -/
theorem value_of_gives {s : Scopes} {el : Element} {o : Option Value} (h : K.gives s el o) :
    ∀ v ∈ o, K.value s v.withoutFlags := by
  intro v hv
  cases el with
  | expr e =>
    obtain ⟨_, rfl, hgood⟩ := h
    cases hv
    exact K.bare hgood
  | stmt st => exact h.2 v hv

/-- A value, and what is given where it is. -/
def Given (s : Scopes) (v : Value) (o : Option Value) : Prop := o = some v ∧ K.value s v

/-- The result of an operation, and what is given where it is. -/
def Computed (s : Scopes) (v : Value) (o : Option Value) : Prop :=
  o = some v ∧ (K.value s v ∨ K.lost v)

/-- What a conditional gives, whatever its branches are. -/
def branched (s : Scopes) (o : Option Value) : Prop :=
  ∀ line branches otherwise, K.gives s (.stmt (.conditional line branches otherwise)) o

/-- What a loop gives, whatever its body is. -/
def looped (s : Scopes) (v : Value) : Prop :=
  ∀ line holds body, K.gives s (.stmt (.loop line holds body)) (some v)

/-- What ends a list of statements: the value of one of them. -/
def stops (ends : Value → Bool) (s : Scopes) (o : Option Value) : Prop :=
  ∀ v ∈ o, (∃ st, K.yields st (some v)) ∧ ends v = true ∧ K.value s v.withoutFlags

end Custody

/-- A watch that does nothing where all is as it should be, and gives up where an operation gives a
value that is lost. -/
structure Watch.Silent {env : Env σ} (w : Watch σ) (K : Custody env) : Prop where
  before : ∀ {m : Machine σ} (el), K.inv m → outcome (w.before el) m = (.ok (), m)
  after : ∀ {m : Machine σ} {el o}, K.inv m → K.gives m.scopes el o →
    outcome (w.after el o) m = (.ok (), m)
  called : ∀ {m : Machine σ}, K.inv m → outcome w.called m = (.ok (), m)
  unknown : ∀ {line family op left right}, K.expr (.operation line family op left right) →
    family.knows op = true ∨ ∀ x, w.unknown x = x
  lost : ∀ {m : Machine σ} {line op left right v}, K.inv m → K.lost v →
    ∃ m', outcome (w.after (.expr (.operation line .arithmetic op left right)) (some v)) m =
      (.error .exhausted, m') ∧ K.quits m'.scopes

variable {env : Env σ} {K : Custody env} {w : Watch σ} {inner inner' : Inner σ} {m : Machine σ}

/-! ### Places that are watched -/

variable {y : Run σ (Option Value)}

/-- A value that is required is there. -/
theorem Custody.required {x : Run σ Value} (h : Alike K.toPolicy m K.Given x y) :
    Alike K.toPolicy m (Both K.value) x (Watched.required w y) := by
  cases h with
  | intro hx hy hinv hstep hends =>
    cases hends with
    | error e => exact .intro hx (outcome_bind_of_error _ hy) hinv hstep (.error e)
    | ok hab =>
      obtain ⟨rfl, hv⟩ := hab
      exact .intro hx (outcome_bind_of_ok _ hy) hinv hstep (.ok ⟨rfl, hv⟩)
  | quit hy hgiven => exact .quit (outcome_bind_of_error _ hy) hgiven

/-- A good value is given where it is. -/
theorem Custody.given {x : Run σ Value} {y : Run σ Value}
    (h : Alike K.toPolicy m (Both K.value) x y) :
    Alike K.toPolicy m K.Given x (do return some (← y)) := by
  refine h.map_right ?_
  rintro s v _ ⟨rfl, hv⟩
  exact ⟨rfl, hv⟩

/-- The result of an operation is given where it is. -/
theorem Custody.computed {x y : Run σ Value}
    (h : Alike K.toPolicy m (Both fun s v => K.value s v ∨ K.lost v) x y) :
    Alike K.toPolicy m K.Computed x (do return some (← y)) := by
  refine h.map_right ?_
  rintro s v _ ⟨rfl, hv⟩
  exact ⟨rfl, hv⟩

variable {line : SourceLine}

namespace Watch.Silent

variable {R S : Scopes → α → Option Value → Prop} {x : Run σ α}

variable (hw : w.Silent K)

include hw

/-- An element runs as if nobody watched, unless the watch gives up at what it gives. -/
theorem element (hm : K.inv m) {el : Element}
    (hR : ∀ m a o, K.inv m → R m.scopes a o → K.gives m.scopes el o ∧ S m.scopes a o ∨
      ∃ m', outcome (w.after el o) m = (.error .exhausted, m') ∧ K.quits m'.scopes)
    (h : Alike K.toPolicy m R x y) : Alike K.toPolicy m S x (Watched.element w el y) := by
  have hbefore := hw.before el hm
  cases h with
  | quit hy hgiven =>
    exact .quit ((outcome_bind_of_ok _ hbefore).trans (outcome_bind_of_error _ hy)) hgiven
  | intro hx hy hinv hstep hends =>
    cases hends with
    | error e =>
      exact .intro hx ((outcome_bind_of_ok _ hbefore).trans (outcome_bind_of_error _ hy)) hinv hstep
        (.error e)
    | ok hab =>
      obtain ⟨hgives, hS⟩ | ⟨m', hafter, hgiven⟩ := hR _ _ _ hinv hab
      · have hafter := hw.after hinv hgives
        exact .intro hx ((outcome_bind_of_ok _ hbefore).trans ((outcome_bind_of_ok _ hy).trans
          (outcome_bind_of_ok _ hafter))) hinv hstep (.ok hS)
      · exact .quit ((outcome_bind_of_ok _ hbefore).trans ((outcome_bind_of_ok _ hy).trans
          (outcome_bind_of_error _ hafter))) hgiven

/-- So does an expression, on its line. -/
theorem expr (hm : K.inv m) {e : Expr} (hline : K.line line) {x : Run σ Value}
    (h : ∀ {m : Machine σ}, K.inv m → Alike K.toPolicy m K.Given x y) :
    Alike K.toPolicy m K.Given (atLine line x) (Watched.element w (.expr e) (atLine line y)) := by
  refine hw.element hm (fun m v o _ hgiven => .inl ⟨⟨v, hgiven⟩, hgiven⟩) ?_
  exact .atLine hline hm fun hm₁ => h hm₁

/-- So does an operation of arithmetic, unless its result is lost. -/
theorem operation (hm : K.inv m) {op : Option Key} {left right : Expr} (hline : K.line line)
    {x : Run σ Value} (h : ∀ {m : Machine σ}, K.inv m → Alike K.toPolicy m K.Computed x y) :
    Alike K.toPolicy m K.Given (atLine line x)
      (Watched.element w (.expr (.operation line .arithmetic op left right)) (atLine line y)) := by
  refine hw.element hm ?_ (.atLine hline hm fun hm₁ => h hm₁)
  rintro m v _ hm ⟨rfl, hv | hlost⟩
  · exact .inl ⟨⟨v, rfl, hv⟩, rfl, hv⟩
  · exact .inr (hw.lost hm hlost)

/-- So does a statement, on its line. -/
theorem stmt (hm : K.inv m) {st : Statement} (hline : K.line line) {x y : Run σ (Option Value)}
    (h : ∀ {m : Machine σ}, K.inv m → Alike K.toPolicy m (Both fun s => K.gives s (.stmt st)) x y) :
    Alike K.toPolicy m (Both fun s => K.gives s (.stmt st)) (atLine line x)
      (Watched.element w (.stmt st) (atLine line y)) := by
  refine hw.element hm ?_ (.atLine hline hm fun hm₁ => h hm₁)
  rintro m o _ _ ⟨rfl, hgives⟩
  exact .inl ⟨hgives, rfl, hgives⟩

/-- What is called runs as if nobody watched. -/
theorem inCall (hm : K.inv m) {R : Scopes → α → β → Prop} {y : Run σ β}
    (h : Alike K.toPolicy m R x y) : Alike K.toPolicy m R x (do w.called; y) := by
  cases h with
  | intro hx hy hinv hstep hends =>
    exact .intro hx ((outcome_bind_of_ok _ (hw.called hm)).trans hy) hinv hstep hends
  | quit hy hgiven => exact .quit ((outcome_bind_of_ok _ (hw.called hm)).trans hy) hgiven

/-- An operation of a good expression needs no watch. -/
theorem known_eq {family : Family} {op : Option Key} {left right : Expr}
    (h : K.expr (.operation line family op left right)) (y : Run σ Value) :
    Watched.known w family op y = y := by
  unfold Watched.known
  split
  · rfl
  next hunknown =>
    obtain hknown | hunwatched := hw.unknown h
    · exact absurd hknown hunknown
    · exact hunwatched y

end Watch.Silent

/-! ### Expressions -/

theorem callNamed_watched (hw : w.Silent K) (hi : inner.Alike K.toRegime inner') (hm : K.inv m)
    (hline : K.line line) (name : String) {target : Callee} {args : List Value}
    (htarget : K.callee m.scopes target) (hargs : ∀ v ∈ args, K.value m.scopes v) :
    Alike K.toPolicy m (Both K.value) (callNamed env inner line name target args)
      (Watched.callNamed w env inner' line name target args) := by
  refine .toLine hline hm fun hm₁ => ?_
  cases target with
  | script f => exact hi.call (some line) hm₁ htarget fun v hv => K.arg_value (hargs v hv)
  | host h => exact K.callNamed_host hm₁ htarget hargs fun hm₂ hh hvalues =>
      hw.inCall hm₂ (hi.callHost hm₂ hh hvalues).guarded

section

set_option linter.unusedSectionVars false

variable (hw : w.Silent K) (hi : inner.Alike K.toRegime inner') (scope : Nat)

include hw hi scope

mutual

/-- **A good expression is evaluated as if nobody watched**, to a good value. -/
theorem eval_watched : ∀ (e : Expr) {m : Machine σ}, K.expr e → K.inv m →
      Alike K.toPolicy m K.Given (e.eval env inner scope) (Watched.eval w env inner' scope e)
  | .literal line l, m, he, hm => by
    rw [Expr.eval, Watched.eval]
    exact hw.expr hm (K.expr_line he) fun hm₁ => .pure hm₁ ⟨rfl, K.expr_literal he⟩
  | .reference line name, m, he, hm => by
    rw [Expr.eval, Watched.eval]
    exact hw.expr hm (K.expr_line he) fun hm₁ => Custody.given (K.reference hm₁ scope name)
  | .operation line .logical op left right, m, he, hm => by
    rw [Expr.eval, Watched.eval]
    obtain ⟨hleft, hright⟩ := K.expr_operation he
    refine hw.expr hm (K.expr_line he) fun hm₁ => ?_
    rw [hw.known_eq he]
    refine Custody.given ((Custody.required (eval_watched left hleft hm₁)).both
      fun m₂ a hm₂ _ _ => ?_)
    refine (K.condition hm₂ a).both fun m₃ first hm₃ _ _ => ?_
    split
    · exact .pure hm₃ ⟨rfl, K.value_boolean _⟩
    · split
      · exact .pure hm₃ ⟨rfl, K.value_boolean _⟩
      · refine (Custody.required (eval_watched right hright hm₃)).both fun m₄ b hm₄ _ _ => ?_
        refine (K.condition hm₄ b).both fun m₅ second hm₅ _ _ => ?_
        exact .pure hm₅ ⟨rfl, K.value_boolean _⟩
  | .operation line .comparison op left right, m, he, hm => by
    rw [Expr.eval, Watched.eval]
    obtain ⟨hleft, hright⟩ := K.expr_operation he
    refine hw.expr hm (K.expr_line he) fun hm₁ => ?_
    refine (Custody.required (eval_watched left hleft hm₁)).both fun m₂ a hm₂ _ _ => ?_
    refine (Custody.required (eval_watched right hright hm₂)).both fun m₃ b hm₃ _ _ => ?_
    rw [hw.known_eq he]
    exact Custody.given (.look rfl rfl (.orRaise hm₃ K.compared))
  | .operation line .arithmetic op left right, m, he, hm => by
    rw [Expr.eval, Watched.eval]
    obtain ⟨hleft, hright⟩ := K.expr_operation he
    refine hw.operation hm (K.expr_line he) fun hm₁ => ?_
    refine (Custody.required (eval_watched left hleft hm₁)).both fun m₂ a hm₂ _ ha => ?_
    refine (Custody.required (eval_watched right hright hm₂)).both fun m₃ b hm₃ hstep hb => ?_
    rw [hw.known_eq he]
    exact Custody.computed
      (K.arithmetic hi hm₃ (K.value_mono hstep ha) hb (K.toHost hb)).guarded
  | .negation line operand, m, he, hm => by
    rw [Expr.eval, Watched.eval]
    refine hw.expr hm (K.expr_line he) fun hm₁ =>
      (Custody.required (eval_watched operand (K.expr_negation he) hm₁)).both
        fun m₂ v hm₂ _ hv => ?_
    exact Custody.given (.orRaise hm₂ (K.opposite hv))
  | .call line name args, m, he, hm => by
    rw [Expr.eval, Watched.eval]
    refine hw.expr hm (K.expr_line he) fun hm₁ => (K.alike_callee hm₁ scope name).both
      fun m₂ target hm₂ _ htarget => ?_
    refine (evalAll_watched args (K.expr_call he) hm₂).both fun m₃ values hm₃ hstep hvalues => ?_
    exact Custody.given (callNamed_watched hw hi hm₃ (K.expr_line he) name (K.callee_mono hstep htarget) hvalues)

/-- So are arguments. -/
theorem evalAll_watched : ∀ (es : List Expr) {m : Machine σ}, (∀ e ∈ es, K.expr e) → K.inv m →
      Alike K.toPolicy m (Both fun s vs => ∀ v ∈ vs, K.value s v) (evalAll env inner scope es)
        (Watched.evalAll w env inner' scope es)
  | [], m, _, hm => by
    rw [evalAll, Watched.evalAll]
    exact .pure hm ⟨rfl, fun _ hv => absurd hv List.not_mem_nil⟩
  | e :: es, m, hes, hm => by
    rw [evalAll, Watched.evalAll]
    refine (Custody.required (eval_watched e (hes e List.mem_cons_self) hm)).both
      fun m₁ v hm₁ _ hv => ?_
    refine (evalAll_watched es (fun e' he' => hes e' (List.mem_cons_of_mem e he'))
      hm₁).both fun m₂ vs hm₂ hstep hvs => ?_
    refine .pure hm₂ ⟨rfl, fun u hu => ?_⟩
    cases hu with
    | head => exact K.bare (K.value_mono hstep hv)
    | tail _ hu => exact hvs u hu

end

end

/-! ### Statements -/

namespace Custody

variable {s : Scopes} {v : Value} {o : Option Value}

theorem gives_some {st : Statement} (hyields : K.yields st (some v))
    (hv : K.value s v.withoutFlags) : K.gives s (.stmt st) (some v) :=
  ⟨hyields, fun u hu => by cases hu; exact hv⟩

theorem gives_none {st : Statement} (hyields : K.yields st none) : K.gives s (.stmt st) none :=
  ⟨hyields, fun _ hu => by cases hu⟩

theorem stops_none {ends : Value → Bool} : K.stops ends s none := fun _ hu => by cases hu

theorem gives_returning {e : Option Expr} (hv : K.value s v) :
    K.gives s (.stmt (.returning line e)) (some (v.withFlag .returning)) :=
  gives_some (K.yields_returning hv) (show K.value s v.withoutFlags from K.bare hv)

/-- A branch that was run gives what ended it, or that it ran. -/
theorem branched_getD (ho : K.stops (fun v => v.flags.any) s o) :
    K.branched s (some (o.getD conditionalRan)) := by
  intro line branches otherwise
  cases o with
  | none => exact gives_some K.yields_ran (K.value_boolean true)
  | some v =>
    obtain ⟨⟨st, hst⟩, hany, hv⟩ := ho v rfl
    exact gives_some (K.yields_branch hst hany) hv

end Custody

/-- The rounds of a loop run as if nobody watched. -/
theorem loopUpTo_watched {holds holds' : Run σ Bool} {body body' : Run σ (Option Value)}
    (hholds : ∀ m, K.inv m → Alike K.toPolicy m (Both fun _ _ => True) holds holds')
    (hbody : ∀ m, K.inv m → Alike K.toPolicy m (Both (K.stops Value.isReturn)) body body') :
    ∀ (n : Nat) {m : Machine σ}, K.inv m →
      Alike K.toPolicy m (Both K.looped) (loopUpTo holds body n) (loopUpTo holds' body' n) := by
  intro n
  induction n with
  | zero =>
    intro m hm
    exact .throw hm trivial
  | succ n ih =>
    intro m hm
    rw [loopUpTo, loopUpTo]
    refine (hholds m hm).both fun m₁ b hm₁ _ _ => ?_
    cases b with
    | false =>
      exact .pure hm₁ ⟨rfl, fun _ _ _ =>
        Custody.gives_some K.yields_ended (K.value_boolean true)⟩
    | true =>
      refine (hbody m₁ hm₁).both fun m₂ o hm₂ _ ho => ?_
      cases o with
      | none => exact ih hm₂
      | some v =>
        obtain ⟨⟨st, hst⟩, hreturn, hv⟩ := ho v rfl
        exact .pure hm₂ ⟨rfl, fun _ _ _ => Custody.gives_some (K.yields_loop hst hreturn) hv⟩

/-- A condition is evaluated as if nobody watched. -/
theorem holds_watched (hw : w.Silent K) (hi : inner.Alike K.toRegime inner') (c : Nat) {e : Expr}
    (he : K.expr e) (hm : K.inv m) :
    Alike K.toPolicy m (Both fun _ _ => True) (do condition env (← e.eval env inner c))
      (do condition env (← Watched.required w (Watched.eval w env inner' c e))) := by
  refine (Custody.required (eval_watched hw hi c e he hm)).both fun m₁ v hm₁ _ _ => ?_
  exact K.condition hm₁ v

theorem bindParams_kept (c : Nat) : ∀ (params : List String) (args : List Value) {m : Machine σ},
    (∀ v ∈ args, K.value m.scopes (Value.withoutFlags v)) → K.inv m →
      Alike K.toPolicy m (fun _ _ _ => True) (bindParams c params args) (bindParams c params args)
  | [], _, m, _, hm => .pure hm trivial
  | _ :: _, [], m, _, hm => .pure hm trivial
  | p :: ps, v :: vs, m, hvs, hm => by
    rw [bindParams]
    have hm₁ := K.assign c p hm (hvs v List.mem_cons_self)
    refine .next rfl rfl (K.free _ _) (bindParams_kept c ps vs (fun u hu => ?_) hm₁)
    exact K.value_mono (K.free m _) (hvs u (List.mem_cons_of_mem v hu))

section

set_option linter.unusedSectionVars false

variable (hw : w.Silent K) (hi : inner.Alike K.toRegime inner') (n c : Nat)

include hw hi n c

mutual

/-- **A good statement runs as if nobody watched**, and gives what it may. -/
theorem exec_watched : ∀ (st : Statement) {m : Machine σ}, K.code c st → K.inv m →
      Alike K.toPolicy m (Both fun s => K.gives s (.stmt st)) (st.exec env inner n c)
        (Watched.exec w env inner' n c st)
  | .expression line e, m, hcode, hm => by
    rw [Statement.exec, Watched.exec]
    have he : K.expr e := K.code_expr hcode e List.mem_cons_self
    refine hw.stmt hm (K.code_line hcode) fun hm₁ => (Custody.required (eval_watched hw hi c e he hm₁)).both
      fun m₂ v hm₂ _ hv => ?_
    exact .pure hm₂ ⟨rfl, Custody.gives_some (K.yields_expression hv) (K.bare hv)⟩
  | .assignment line name e, m, hcode, hm => by
    rw [Statement.exec, Watched.exec]
    have he : K.expr e := K.code_expr hcode e List.mem_cons_self
    refine hw.stmt hm (K.code_line hcode) fun hm₁ => (Custody.required (eval_watched hw hi c e he hm₁)).both
      fun m₂ v hm₂ _ hv => ?_
    refine .note env _ hm₂ fun m₃ ha hm₃ => ?_
    have hv₃ : K.value m₃.scopes v.withoutFlags := by
      rw [ha.scopes]
      exact K.bare hv
    have hm₄ := K.assign c name hm₃ hv₃
    refine .next rfl rfl (K.free _ _) (.pure hm₄ ⟨rfl, ?_⟩)
    exact Custody.gives_some (K.yields_assignment hv) (K.value_mono (K.free _ _) hv₃)
  | .returning line none, m, hcode, hm => by
    rw [Statement.exec, Watched.exec]
    exact hw.stmt hm (K.code_line hcode) fun hm₁ =>
      .pure hm₁ ⟨rfl, Custody.gives_returning K.value_null⟩
  | .returning line (some e), m, hcode, hm => by
    rw [Statement.exec, Watched.exec]
    have he : K.expr e := K.code_expr hcode e (Option.mem_toList.2 rfl)
    refine hw.stmt hm (K.code_line hcode) fun hm₁ => (Custody.required (eval_watched hw hi c e he hm₁)).both
      fun m₂ v hm₂ _ hv => ?_
    exact .pure hm₂ ⟨rfl, Custody.gives_returning hv⟩
  | .importing line target, m, hcode, hm => by
    rw [Statement.exec, Watched.exec]
    refine hw.stmt hm (K.code_line hcode) fun hm₁ => (K.importPath hm₁ target).guarded.bind ?_
    intro m₂ _ _ hm₂ _ _
    exact .pure hm₂ ⟨rfl, Custody.gives_none K.yields_importing⟩
  | .conditional line branches otherwise, m, hcode, hm => by
    rw [Statement.exec, Watched.exec]
    have hconditions : ∀ b ∈ branches, K.expr b.condition :=
      fun b hb => K.code_expr hcode _ (List.mem_map.2 ⟨b, hb, rfl⟩)
    refine hw.stmt hm (K.code_line hcode) fun hm₁ =>
      (execBranches_watched branches hconditions (K.code_branch hcode) hm₁).both
        fun m₂ o hm₂ _ ho => ?_
    cases o with
    | some v => exact .pure hm₂ ⟨rfl, ho v rfl line branches otherwise⟩
    | none =>
      have hlast : ∀ body, otherwise = some body → ∀ st ∈ body, K.code c st := by
        rintro body rfl
        exact K.code_otherwise hcode
      refine (execOtherwise_watched otherwise hlast hm₂).widen (fun _ h => h)
        (fun _ _ h => h) ?_
      rintro m₃ o _ _ _ ⟨rfl, ho⟩
      exact ⟨rfl, ho line branches otherwise⟩
  | .loop line holds body, m, hcode, hm => by
    rw [Statement.exec, Watched.exec]
    have he : K.expr holds := K.code_expr hcode holds List.mem_cons_self
    refine hw.stmt hm (K.code_line hcode) fun hm₁ => (loopUpTo_watched (fun m₂ hm₂ => holds_watched hw hi c he hm₂)
      (fun m₂ hm₂ => execUntil_watched _ body (K.code_loop hcode) hm₂) n hm₁).both
        fun m₂ v hm₂ _ hv => ?_
    exact .pure hm₂ ⟨rfl, hv line holds body⟩
  | .function line name params body, m, hcode, hm => by
    rw [Statement.exec, Watched.exec]
    refine hw.stmt hm (K.code_line hcode) fun hm₁ => ?_
    refine (?_ : Alike _ _ (fun _ _ _ => True) _ _).bind fun m₂ _ _ hm₂ _ _ =>
      .pure hm₂ ⟨rfl, Custody.gives_none K.yields_function⟩
    refine .aside hm₁ rfl rfl ⟨rfl, rfl, rfl, rfl, fun _ => .inl, fun _ => .inl⟩ fun hm₂ => ?_
    exact .intro rfl rfl (K.assign c name hm₂ (K.define _ _ hcode)) (K.free _ _) (.ok trivial)

/-- Good statements run one after the other as if nobody watched. -/
theorem execUntil_watched (ends : Value → Bool) :
    ∀ (body : List Statement) {m : Machine σ}, (∀ st ∈ body, K.code c st) → K.inv m →
      Alike K.toPolicy m (Both (K.stops ends)) (execUntil env inner n c ends body)
        (Watched.execUntil w env inner' n c ends body)
  | [], m, _, hm => by
    rw [execUntil, Watched.execUntil]
    exact .pure hm ⟨rfl, Custody.stops_none⟩
  | st :: rest, m, hcode, hm => by
    rw [execUntil, Watched.execUntil]
    refine (exec_watched st (hcode st List.mem_cons_self) hm).bind ?_
    rintro m₁ o _ hm₁ _ ⟨rfl, hyields, hvalue⟩
    have hrest := execUntil_watched ends rest
      (fun st' hst' => hcode st' (List.mem_cons_of_mem st hst')) hm₁
    cases o with
    | none => exact hrest
    | some v =>
      dsimp only
      split
      next hends =>
        refine .pure hm₁ ⟨rfl, fun u hu => ?_⟩
        cases hu
        exact ⟨⟨st, hyields⟩, hends, hvalue v rfl⟩
      next => exact hrest

/-- The branches of a conditional run as if nobody watched. -/
theorem execBranches_watched :
    ∀ (branches : List Branch) {m : Machine σ}, (∀ b ∈ branches, K.expr b.condition) →
      (∀ b ∈ branches, ∀ st ∈ b.body, K.code c st) → K.inv m →
        Alike K.toPolicy m (Both fun s o => ∀ v ∈ o, K.branched s (some v))
          (execBranches env inner n c branches) (Watched.execBranches w env inner' n c branches)
  | [], m, _, _, hm => by
    rw [execBranches, Watched.execBranches]
    exact .pure hm ⟨rfl, fun _ hv => by cases hv⟩
  | .mk first holds body :: rest, m, hconditions, hcode, hm => by
    rw [execBranches, Watched.execBranches]
    have he : K.expr holds := hconditions _ List.mem_cons_self
    refine (Custody.required (eval_watched hw hi c holds he hm)).both fun m₁ v hm₁ _ _ => ?_
    refine (K.condition hm₁ v).both fun m₂ b hm₂ _ _ => ?_
    cases b with
    | false =>
      exact execBranches_watched rest
        (fun b hb => hconditions b (List.mem_cons_of_mem _ hb))
        (fun b hb => hcode b (List.mem_cons_of_mem _ hb)) hm₂
    | true =>
      refine (execUntil_watched _ body (hcode _ List.mem_cons_self) hm₂).both
        fun m₃ o hm₃ _ ho => ?_
      refine .pure hm₃ ⟨rfl, fun u hu => ?_⟩
      cases hu
      exact Custody.branched_getD ho

/-- So does the last branch. -/
theorem execOtherwise_watched : ∀ (otherwise : Option (List Statement)) {m : Machine σ},
      (∀ body, otherwise = some body → ∀ st ∈ body, K.code c st) → K.inv m →
        Alike K.toPolicy m (Both K.branched)
          (execOtherwise env inner n c otherwise) (Watched.execOtherwise w env inner' n c otherwise)
  | none, m, _, hm => by
    rw [execOtherwise, Watched.execOtherwise]
    exact .pure hm ⟨rfl, fun _ _ _ => Custody.gives_none K.yields_skipped⟩
  | some body, m, hcode, hm => by
    rw [execOtherwise, Watched.execOtherwise]
    refine (execUntil_watched _ body (hcode body rfl) hm).both fun m₁ o hm₁ _ ho => ?_
    exact .pure hm₁ ⟨rfl, Custody.branched_getD ho⟩

end

theorem execAll_watched : ∀ (body : List Statement) {last : Option Value} {m : Machine σ},
      (∀ st ∈ body, K.code c st) → (∀ v ∈ last, K.value m.scopes v.withoutFlags) → K.inv m →
        Alike K.toPolicy m (Both fun s o => ∀ v ∈ o, K.value s v.withoutFlags)
          (execAll env inner n c last body) (Watched.execAll w env inner' n c last body)
  | [], _, m, _, hlast, hm => .pure hm ⟨rfl, hlast⟩
  | st :: rest, last, m, hcode, hlast, hm => by
    rw [execAll, Watched.execAll]
    refine (exec_watched hw hi n c st (hcode st List.mem_cons_self) hm).bind ?_
    rintro m₁ o _ hm₁ hstep ⟨rfl, -, hvalue⟩
    have hlast₁ : ∀ v ∈ last, K.value m₁.scopes v.withoutFlags :=
      fun v hv => K.value_mono hstep (hlast v hv)
    have hcode₁ : ∀ st' ∈ rest, K.code c st' :=
      fun st' hst' => hcode st' (List.mem_cons_of_mem st hst')
    cases o with
    | none => exact execAll_watched rest hcode₁ hlast₁ hm₁
    | some v =>
      refine execAll_watched rest hcode₁ ?_ hm₁
      split
      · exact hlast₁
      · exact hvalue

end

/-! ### Calls -/

/-- **A call runs as if nobody watched.** -/
theorem callWith_watched (hw : w.Silent K) (hi : inner.Alike K.toRegime inner') (n : Nat)
    {f : ScriptFunction} {args : List Value} (site : Option SourceLine) (hm : K.inv m)
    (hf : K.value m.scopes (.function f)) (hargs : ∀ v ∈ args, K.arg m.scopes v) :
    Alike K.toPolicy m (Both K.value) (callWith env inner n f args site)
      (Watched.callWith w env inner' n f args site) := by
  unfold callWith Watched.callWith
  split
  · exact (Alike.raiseCause (R := fun _ _ _ => False) hm _).bind fun _ _ _ _ _ h => h.elim
  · refine (K.checkDepth hm).bind ?_
    intro m₁ _ _ hm₁ _ _
    refine .next rfl rfl (K.free _ _) ?_
    have hm₂ := K.push f.closure f.name hm₁
    refine (bindParams_kept _ f.params args (fun v hv => ?_) hm₂).bind ?_
    · exact K.value_mono (K.free m _) (K.arg_bare (hargs v hv))
    intro m₃ _ _ hm₃ _ _
    refine .keepingLine hm₃ (.inFrame (K.arg_frame hargs) hm₃ fun hm₄ => hw.inCall hm₄ ?_)
    refine .note env _ hm₄ fun m₅ _ hm₅ => ?_
    refine (execUntil_watched hw hi n _ _ f.body (K.body hf) hm₅).both fun m₆ o hm₆ _ ho => ?_
    refine .pure hm₆ ⟨rfl, ?_⟩
    cases o with
    | none => exact K.value_null
    | some v => exact (ho v rfl).2.2

theorem runScriptWith_watched (hw : w.Silent K) (hi : inner.Alike K.toRegime inner') (n : Nat)
    {script : Script} (hm : K.inv m) (hcode : ∀ st ∈ script.body, K.code rootScope st) :
    Alike K.toPolicy m (Both fun s o => ∀ v ∈ o, K.value s v) (runScriptWith env inner n script)
      (Watched.runScriptWith w env inner' n script) := by
  refine (execAll_watched hw hi n rootScope script.body hcode (fun _ hv => by cases hv) hm).both
    fun m₁ o hm₁ _ ho => ?_
  refine .pure hm₁ ⟨rfl, fun v hv => ?_⟩
  obtain ⟨u, hu, rfl⟩ := Option.map_eq_some_iff.1 hv
  exact ho u hu

/-- **Every way into the machine runs as if nobody watched**, for any number of steps. -/
theorem inner_watched (hw : w.Silent K) (n : Nat) :
    (env.inner n).Alike K.toRegime (Watched.inner w env n) := by
  induction n with
  | zero =>
    exact ⟨fun _ hm _ _ => .throw hm trivial, fun hm _ _ => .throw hm trivial,
      fun hm _ => .throw hm trivial⟩
  | succ n ih =>
    exact ⟨fun site hm hf hargs => callWith_watched hw ih n site hm hf hargs,
      fun hm hh hargs => K.callHostWith ih hm hh hargs,
      fun hm hcode => runScriptWith_watched hw ih n hm hcode⟩

end LineScript
