import LineScript.Proofs.Chronicled

/-!
# What a host brings about

Scripts by themselves raise failures, leave calls by them, forget them and print.  That a failure is
raised again, or that a text is handled in the middle of a run, takes host code that does so.  So
when the host does nothing but what has a property, every event of a run has the property.

## Main definitions

* `Event.Ordinary` — a property of the events that scripts bring about by themselves.
* `HostProgram.Brings`, `Host.Brings` — host code all of whose events have a property.
* `Chronicle.Only` — a chronicle all of whose events have a property.

## Main results

* `Chronicle.only_inner` — **the events of a run are those of scripts and those of the host.**
-/

namespace LineScript

open Run

variable {σ α β : Type}

/-- A property that the events have which scripts bring about by themselves. -/
structure Event.Ordinary (ok : Event → Prop) : Prop where
  raised : ∀ id calls, ok (.raised id calls)
  left : ∀ id calls, ok (.left id calls)
  forgotten : ok .forgotten
  printed : ∀ message, ok (.printed message)

/-- A request that brings about nothing but what has a property; a text that is handled throws
messages away, and may be reported. -/
def Request.Brings (ok : Event → Prop) : Request → Prop
  | .handle _ => ok .cleared ∧ ∀ message, ok (.reported message)
  | _ => True

/-- Host code that brings about nothing but what has a property.  A failure that it lets go on at
once is not raised again. -/
def HostProgram.Brings (ok : Event → Prop) : HostProgram σ → Prop
  | .done _ | .fail _ => True
  | .rethrow r => ok (.rethrown r.id)
  | .read next => ∀ state, (next state).Brings ok
  | .write _ next => next.Brings ok
  | .ask asked next => asked.Brings ok ∧ (∀ value, (next (.ok value)).Brings ok) ∧
    ∀ r, (next (.error r)).lets r = true ∨ (next (.error r)).Brings ok

/-- A host whose code brings about nothing but what has a property, whatever it is called for. -/
structure Host.Brings (ok : Event → Prop) (host : Host σ) : Prop where
  call : ∀ h args, (host.call h args).Brings ok
  operate : ∀ op h a, (host.operate op h a).Brings ok

namespace Chronicle

/-- A chronicle all of whose events have a property. -/
def Only (ok : Event → Prop) (x : Chronicle σ α) : Prop := ∀ m, ∀ e ∈ x.events m, ok e

/-- Ways back into the machine all of whose events have a property. -/
structure Inner.Only (ok : Event → Prop) (inner : Inner σ) : Prop where
  call : ∀ f args site, (inner.call f args site).Only ok
  callHost : ∀ h args, (inner.callHost h args).Only ok
  runScript : ∀ s, (inner.runScript s).Only ok

namespace Only

variable {ok : Event → Prop} {x : Chronicle σ α} {f : α → Chronicle σ β}

theorem leaf (hok : Event.Ordinary ok) {x : Run σ α} {h : Leaf x} : (Chronicle.leaf x h).Only ok := by
  intro m e he
  simp only [Chronicle.leaf, failing] at he
  split at he
  · rw [List.mem_singleton.1 he]
    exact hok.raised _ _
  · exact absurd he List.not_mem_nil

theorem pure (a : α) : (Pure.pure a : Chronicle σ α).Only ok :=
  fun _ _ he => absurd he List.not_mem_nil

theorem bind (hx : x.Only ok) (hf : ∀ a, (f a).Only ok) : (x >>= f).Only ok := by
  intro m e he
  rcases List.mem_append.1 he with he | he
  · exact hx m e he
  · rcases h : outcome x.run m with ⟨_ | a, m₁⟩ <;> rw [h] at he
    · exact absurd he List.not_mem_nil
    · exact hf a m₁ e he

theorem attempt (hx : x.Only ok) : x.attempt.Only ok := hx

theorem meet (hx : x.Only ok) {onFail : Raised → Option (Chronicle σ β)} (hf : ∀ a, (f a).Only ok)
    (hfail : ∀ r, ∀ y ∈ onFail r, y.Only ok) : (x.meet f onFail).Only ok := by
  intro m e he
  rcases List.mem_append.1 he with he | he
  · exact hx m e he
  · rcases h : outcome x.run m with ⟨(r | _) | a, m₁⟩ <;> rw [h] at he
    · rw [meeting] at he
      cases hr : onFail r with
      | none =>
        rw [hr] at he
        exact absurd he List.not_mem_nil
      | some y =>
        rw [hr] at he
        exact hfail r y hr m₁ e he
    · exact absurd he List.not_mem_nil
    · exact hf a m₁ e he

theorem guarded (hok : Event.Ordinary ok) (hx : x.Only ok) : x.guarded.Only ok := by
  refine hx.meet pure fun r y hy => ?_
  obtain ⟨id, e | f⟩ := r
  · cases hy
  · simp only at hy
    split at hy <;> cases hy
    exact leaf hok

theorem atLine (line : SourceLine) (hx : x.Only ok) : (x.atLine line).Only ok := fun _ => hx _

theorem keepingLine (hx : x.Only ok) : x.keepingLine.Only ok := hx

theorem inFrame (hok : Event.Ordinary ok) (frame : Frame) (hx : x.Only ok) :
    (x.inFrame frame).Only ok := by
  intro m e he
  rcases List.mem_append.1 he with he | he
  · exact hx _ e he
  · rw [leaving.eq_def] at he
    split at he
    · rw [List.mem_singleton.1 he]
      exact hok.left _ _
    · exact absurd he List.not_mem_nil

theorem forget (hok : Event.Ordinary ok) : (Chronicle.forget : Chronicle σ Unit).Only ok := by
  intro m e he
  rw [List.mem_singleton.1 he]
  exact hok.forgotten

theorem print (hok : Event.Ordinary ok) (message : String) :
    (Chronicle.print message : Chronicle σ Unit).Only ok := by
  intro m e he
  rw [List.mem_singleton.1 he]
  exact hok.printed message

/-- One of two runs. -/
theorem ite {y : Chronicle σ α} {c : Prop} [Decidable c] (hx : x.Only ok) (hy : y.Only ok) :
    (if c then x else y).Only ok := by
  split
  · exact hx
  · exact hy

end Only

section Evaluator

variable {ok : Event → Prop} {env : Env σ} {inner : Inner σ}

/-! ### Requests of the host -/

section

variable (hok : Event.Ordinary ok) (hi : inner.Only ok)

include hok hi

theorem only_invokeFunction (f : ScriptFunction) (args : List HostValue) :
    (invokeFunction inner f args).Only ok := by
  have hcall : (do
      let value ← inner.call f (args.map Value.ofHost) none
      return value.toHost : Chronicle σ HostValue).Only ok := (hi.call _ _ _).bind fun _ => .pure _
  exact (Only.leaf hok).bind fun _ => Only.ite ((Only.forget hok).bind fun _ => hcall) hcall

theorem only_invokeName (name : String) (args : List HostValue) :
    (invokeName inner name args).Only ok := by
  refine (Only.leaf hok).bind fun o => ?_
  split
  · exact only_invokeFunction hok hi _ args
  · exact .leaf hok

theorem only_unit (source : HostValue) : (unit env inner source).Only ok :=
  (Only.leaf hok).bind fun _ => hi.runScript _

theorem only_evalSource (source : HostValue) : (evalSource env inner source).Only ok := by
  have hrun : (do
      let script ← leaf (parseHost env source) (.parseHost _)
      return hostResult (← inner.runScript script) : Chronicle σ HostValue).Only ok :=
    (Only.leaf hok).bind fun _ => (hi.runScript _).bind fun _ => .pure _
  exact (Only.leaf hok).bind fun _ => Only.ite ((Only.forget hok).bind fun _ => hrun) hrun

theorem only_handleSource {source : HostValue} (hsource : (Request.handle source).Brings ok) :
    (handleSource env inner source).Only ok := by
  obtain ⟨hcleared, hreported⟩ := hsource
  have hclear : (clear : Chronicle σ Unit).Only ok := by
    intro m e he
    rw [List.mem_singleton.1 he]
    exact hcleared
  have hreport : ∀ message, (report message : Chronicle σ Unit).Only ok := by
    intro message m e he
    rw [List.mem_singleton.1 he]
    exact hreported message
  refine hclear.bind fun _ => (Only.leaf hok).bind fun idle => ?_
  refine Only.ite ((Only.forget hok).bind fun _ => (Only.leaf hok).bind fun _ => ?_) ?_
  all_goals
    refine (only_unit hok hi source).attempt.bind fun e => ?_
    rcases e with (r | _) | v
    · exact (Only.leaf hok).bind fun _ => (Only.leaf hok).bind fun _ => (hreport _).bind fun _ =>
        (Only.leaf hok).bind fun _ => .pure _
    · exact .leaf hok
    · exact (Only.leaf hok).bind fun _ => .pure _

theorem only_answer {asked : Request} (hasked : asked.Brings ok) :
    (answer env inner asked).Only ok := by
  cases asked with
  | call callee args => exact hi.callHost callee args
  | eval source => exact only_evalSource hok hi source
  | handle source => exact (only_handleSource hok hi hasked).bind fun _ => .pure _
  | invoke name args => exact only_invokeName hok hi name args
  | set | get => exact (Only.leaf hok).bind fun _ => .pure _

/-- Host code brings about what it does itself, and what its requests do. -/
theorem only_program {p : HostProgram σ} (hp : p.Brings ok) :
    (program (answer env inner) p).Only ok := by
  induction p with
  | done value => exact .pure value
  | fail failure => exact .leaf hok
  | rethrow raised =>
    intro m e he
    rw [List.mem_singleton.1 he]
    exact hp
  | read next ih => exact (Only.leaf hok).bind fun m => ih m.host (hp m.host)
  | write state next ih => exact (Only.leaf hok).bind fun _ => ih hp
  | ask asked next ih =>
    obtain ⟨hasked, hvalue, hfail⟩ := hp
    refine (only_answer hok hi hasked).meet (fun value => ih _ (hvalue value)) fun r y hy => ?_
    cases hlets : (next (.error r)).lets r with
    | true =>
      rw [hlets] at hy
      cases hy
    | false =>
      rw [hlets] at hy
      cases hy
      obtain hpass | hbrings := hfail r
      · rw [hlets] at hpass
        cases hpass
      · exact ih _ hbrings

theorem only_callNamed (line : SourceLine) (name : String) (target : Callee) (args : List Value) :
    (callNamed env inner line name target args).Only ok := by
  refine (Only.leaf hok).bind fun _ => ?_
  cases target with
  | script f => exact hi.call f args (some line)
  | host h =>
    refine (Only.leaf hok).bind fun _ => ?_
    exact (Only.inFrame hok _ ((hi.callHost h _).guarded hok)).bind fun _ => .pure _

end

/-! ### Expressions and statements -/

theorem only_loopUpTo (hok : Event.Ordinary ok) {holds : Chronicle σ Bool}
    {body : Chronicle σ (Option Value)} (hholds : holds.Only ok) (hbody : body.Only ok) (n : Nat) :
    (loopUpTo holds body n).Only ok := by
  induction n with
  | zero => exact .leaf hok
  | succ n ih =>
    refine hholds.bind fun b => Only.ite (hbody.bind fun o => ?_) (.pure _)
    cases o with
    | none => exact ih
    | some v => exact .pure v

section

set_option linter.unusedSectionVars false

variable (hok : Event.Ordinary ok) (hhost : env.host.Brings ok) (hi : inner.Only ok)

include hok hhost hi

theorem only_arithmetic (out : Value → HostValue) (name : Option Key) (left right : Value) :
    (arithmetic env inner out name left right).Only ok := by
  unfold arithmetic
  split
  · exact .leaf hok
  · refine (Only.leaf hok).bind fun _ => (Only.leaf hok).bind fun c => ?_
    cases c with
    | value v => exact .pure v
    | delegated receiver => exact (only_program hok hi (hhost.operate _ _ _)).bind fun _ => .pure _

mutual

theorem only_eval (scope : Nat) : ∀ e : Expr, (eval env inner scope e).Only ok
  | .literal line l => by
    rw [eval]
    exact .atLine line (.pure _)
  | .reference line name => by
    rw [eval]
    exact .atLine line (.leaf hok)
  | .operation line .logical op left right => by
    rw [eval]
    refine .atLine line ((only_eval scope left).bind fun a => ?_)
    refine (Only.leaf hok).bind fun first => Only.ite (.pure _) (Only.ite (.pure _) ?_)
    exact (only_eval scope right).bind fun b => (Only.leaf hok).bind fun _ => .pure _
  | .operation line .comparison op left right => by
    rw [eval]
    refine .atLine line ((only_eval scope left).bind fun a => ?_)
    exact (only_eval scope right).bind fun b => (Only.leaf hok).bind fun _ => .leaf hok
  | .operation line .arithmetic op left right => by
    rw [eval]
    refine .atLine line ((only_eval scope left).bind fun a => ?_)
    exact (only_eval scope right).bind fun b =>
      (only_arithmetic hok hhost hi _ op a b).guarded hok
  | .negation line operand => by
    rw [eval]
    exact .atLine line ((only_eval scope operand).bind fun _ => .leaf hok)
  | .call line name args => by
    rw [eval]
    refine .atLine line ((Only.leaf hok).bind fun target => ?_)
    exact (only_evalAll scope args).bind fun values =>
      only_callNamed hok hi line name target values

theorem only_evalAll (scope : Nat) : ∀ es : List Expr, (evalAll env inner scope es).Only ok
  | [] => by
    rw [evalAll]
    exact .pure []
  | e :: es => by
    rw [evalAll]
    exact (only_eval scope e).bind fun _ =>
      (only_evalAll scope es).bind fun _ => .pure _

end

mutual

theorem only_exec (n scope : Nat) : ∀ st : Statement, (exec env inner n scope st).Only ok
  | .expression line e | .returning line (some e) => by
    rw [exec]
    exact .atLine line ((only_eval hok hhost hi scope e).bind fun _ => .pure _)
  | .assignment line name e => by
    rw [exec]
    exact .atLine line ((only_eval hok hhost hi scope e).bind fun _ => (Only.leaf hok).bind fun _ =>
      (Only.leaf hok).bind fun _ => .pure _)
  | .returning line none => by
    rw [exec]
    exact .atLine line (.pure _)
  | .importing line target => by
    rw [exec]
    exact .atLine line (((Only.leaf hok).guarded hok).bind fun _ => .pure _)
  | .conditional line branches otherwise => by
    rw [exec]
    refine .atLine line ((only_execBranches n scope branches).bind fun o => ?_)
    cases o with
    | none => exact only_execOtherwise n scope otherwise
    | some v => exact .pure _
  | .loop line holds body => by
    rw [exec]
    refine .atLine line (Only.bind ?_ fun _ => .pure _)
    exact only_loopUpTo hok ((only_eval hok hhost hi scope holds).bind fun _ => .leaf hok)
      (only_execUntil n scope _ body) n
  | .function line name params body => by
    rw [exec]
    exact .atLine line ((Only.leaf hok).bind fun _ => .pure _)

theorem only_execUntil (n scope : Nat) (ends : Value → Bool) : ∀ body : List Statement,
    (execUntil env inner n scope ends body).Only ok
  | [] => by
    rw [execUntil]
    exact .pure none
  | st :: rest => by
    rw [execUntil]
    refine (only_exec n scope st).bind fun o => ?_
    cases o with
    | none => exact only_execUntil n scope ends rest
    | some v => exact Only.ite (.pure _) (only_execUntil n scope ends rest)

theorem only_execBranches (n scope : Nat) :
    ∀ branches : List Branch, (execBranches env inner n scope branches).Only ok
  | [] => by
    rw [execBranches]
    exact .pure none
  | .mk line holds body :: rest => by
    rw [execBranches]
    refine (only_eval hok hhost hi scope holds).bind fun _ => (Only.leaf hok).bind fun b => ?_
    exact Only.ite ((only_execUntil n scope _ body).bind fun _ => .pure _)
      (only_execBranches n scope rest)

theorem only_execOtherwise (n scope : Nat) : ∀ otherwise : Option (List Statement),
    (execOtherwise env inner n scope otherwise).Only ok
  | none => by
    rw [execOtherwise]
    exact .pure none
  | some body => by
    rw [execOtherwise]
    exact (only_execUntil n scope _ body).bind fun _ => .pure _

end

theorem only_execAll (n scope : Nat) : ∀ (body : List Statement) (last : Option Value),
    (execAll env inner n scope last body).Only ok
  | [], last => .pure last
  | st :: rest, last => by
    refine (only_exec hok hhost hi n scope st).bind fun o => ?_
    cases o with
    | none => exact only_execAll n scope rest last
    | some v => exact only_execAll n scope rest _

/-! ### Calls -/

theorem only_callWith (n : Nat) (f : ScriptFunction) (args : List Value) (site : Option SourceLine) :
    (callWith env inner n f args site).Only ok := by
  have hbody : ∀ (x : Chronicle σ Unit) (scope : Nat), x.Only ok → (keepingLine
      (inFrame ⟨f.name, args, site⟩ do
        x
        let v ← execUntil env inner n scope Value.isReturn f.body
        return (v.map Value.withoutFlags).getD .null)).Only ok := fun x scope hx =>
    .keepingLine (.inFrame hok _ (hx.bind fun _ =>
      (only_execUntil hok hhost hi n scope _ f.body).bind fun _ => .pure _))
  unfold callWith
  refine Only.ite ((Only.leaf hok).bind fun _ => ?_) ?_
  all_goals exact (Only.leaf hok).bind fun _ => (Only.leaf hok).bind fun scope =>
    (Only.leaf hok).bind fun _ => hbody _ scope (.leaf hok)

theorem only_callHostWith (h : HostValue) (args : List HostValue) :
    (callHostWith env inner h args).Only ok := by
  unfold callHostWith
  split
  · exact only_invokeFunction hok hi _ args
  · exact ((Only.leaf hok).bind fun _ => (Only.leaf hok).bind fun _ => .print hok _).bind
      fun _ => .pure _
  · exact only_program hok hi (hhost.call _ _)
  · exact only_program hok hi (hhost.call _ _)
  · exact (Only.leaf hok).bind fun _ => .leaf hok

end

/-- **The events of a run are those of scripts and those of the host**, with any number of steps. -/
theorem only_inner (hok : Event.Ordinary ok) (hhost : env.host.Brings ok) (n : Nat) :
    (Chronicle.inner env n).Only ok := by
  induction n with
  | zero =>
    have hstop : ∀ {α : Type}, (leaf (throw .exhausted) .exhausted : Chronicle σ α).Only ok := .leaf hok
    exact ⟨fun _ _ _ => hstop, fun _ _ => hstop, fun _ => hstop⟩
  | succ n ih =>
    exact ⟨fun f args site => only_callWith hok hhost ih n f args site,
      fun h args => only_callHostWith hok hhost ih h args,
      fun s => (only_execAll hok hhost ih n rootScope s.body none).bind fun _ => .pure _⟩

end Evaluator

end Chronicle

end LineScript
