import LineScript.Proofs.Chronicle

/-!
# The evaluator with its chronicle

The evaluator once more, put together from chronicles.  Names, conditions, results of operations and
changes of the scopes are leaves; printing, calls, host code and texts that are handled are where
the other events come from.  Every run of it is the run of the evaluator.  So whatever is run on a
machine has a chronicle, and the chronicle accounts for it.

Host code that lets a failure go on at once does not count as having dealt with it.

## Main definitions

* `Chronicle.eval`, `Chronicle.exec` — expressions and statements.
* `Chronicle.program`, `Chronicle.answer` — host code, and the answers to its requests.
* `Chronicle.callFunction`, `Chronicle.callHost`, `Chronicle.runScript` — calls and whole scripts.

## Main results

* `Chronicle.run_inner`, `Chronicle.run_unit` — **the runs are those of the evaluator.**
-/

namespace LineScript

open Run

variable {σ : Type}

/-- Whether host code does nothing but to let a failure go on. -/
def HostProgram.lets (r : Raised) : HostProgram σ → Bool
  | .rethrow r' => r' == r
  | _ => false

theorem HostProgram.eq_of_lets {r : Raised} {p : HostProgram σ} (h : p.lets r = true) :
    p = .rethrow r := by
  cases p with
  | rethrow r' => rw [eq_of_beq h]
  | done | fail | read | write | ask => cases h

namespace Chronicle

/-- The ways back into the machine, with their chronicles. -/
structure Inner (σ : Type) where
  /-- Call a script function; the line is that of the call. -/
  call : ScriptFunction → List Value → Option SourceLine → Chronicle σ Value
  /-- Call something that belongs to the host. -/
  callHost : HostValue → List HostValue → Chronicle σ HostValue
  /-- Run a script in the root scope. -/
  runScript : Script → Chronicle σ (Option Value)

/-- The ways back into the machine, without their chronicles. -/
def Inner.runs (inner : Inner σ) : LineScript.Inner σ where
  call f args site := (inner.call f args site).run
  callHost h args := (inner.callHost h args).run
  runScript s := (inner.runScript s).run

/-! ### Requests of the host -/

/-- Call a script function for the host. -/
def invokeFunction (inner : Inner σ) (f : ScriptFunction) (args : List HostValue) :
    Chronicle σ HostValue := do
  if ← leaf isIdle .isIdle then forget
  let value ← inner.call f (args.map Value.ofHost) none
  return value.toHost

/-- Call the script function of a name in the root scope, for the host. -/
def invokeName (inner : Inner σ) (name : String) (args : List HostValue) : Chronicle σ HostValue := do
  match (← leaf (lookup rootScope name) (.lookup _ _)).map Value.payload with
  | some (.function f) => invokeFunction inner f args
  | _ => leaf (raiseCause (.undefinedFunction name)) (.raise _)

/-- Run a source for its value. -/
def evalSource (env : Env σ) (inner : Inner σ) (source : HostValue) : Chronicle σ HostValue := do
  if ← leaf isIdle .isIdle then forget
  let script ← leaf (parseHost env source) (.parseHost _)
  return hostResult (← inner.runScript script)

/-- A source that is read and run. -/
def unit (env : Env σ) (inner : Inner σ) (source : HostValue) : Chronicle σ (Option Value) := do
  inner.runScript (← leaf (parseHost env source) (.parseHost _))

/-- Run a source, and report how it ended. -/
def handleSource (env : Env σ) (inner : Inner σ) (source : HostValue) : Chronicle σ Outcome := do
  clear
  if ← leaf isIdle .isIdle then
    forget
    leaf (modify fun m => { m with line := none }) (.setLine none)
  match ← attempt (unit env inner source) with
  | .ok v => return .success (hostResult v) (← leaf get .get).effects.toList
  | .error .exhausted => leaf (throw .exhausted) .exhausted
  | .error (.raised r) =>
    let m ← leaf get .get
    let told ← leaf (orFault
      (r.failure.report env.symbols (env.host.view m.host) m.record m.line (sourceText source)))
      (.orFault _)
    report told.message
    return .failure told (← leaf get .get).effects.toList

/-- The answer to a request of the host. -/
def answer (env : Env σ) (inner : Inner σ) : Request → Chronicle σ HostValue
  | .call callee args => inner.callHost callee args
  | .eval source => evalSource env inner source
  | .handle source => do return .text (← handleSource env inner source).status
  | .invoke name args => invokeName inner name args
  | .set name value => do
    leaf (assign rootScope name (.ofHost value)) (.assign _ _ _)
    return .null
  | .get name => do return hostResult (← leaf (lookup rootScope name) (.lookup _ _))

/-- Host code; `serve` answers its requests. -/
def program (serve : Request → Chronicle σ HostValue) : HostProgram σ → Chronicle σ HostValue
  | .done value => pure value
  | .fail failure => leaf (raise failure) (.raise failure)
  | .rethrow raised => rethrow raised
  | .read next => do program serve (next (← leaf get .get).host)
  | .write state next => do
    leaf (modify fun m => { m with host := state }) (.setHost state)
    program serve next
  | .ask request next =>
    (serve request).meet (fun value => program serve (next (.ok value)))
      fun r => if (next (.error r)).lets r then none else some (program serve (next (.error r)))

/-! ### Expressions -/

/-- The result of an arithmetic operation. -/
def arithmetic (env : Env σ) (inner : Inner σ) (out : Value → HostValue) (name : Option Key)
    (left right : Value) : Chronicle σ Value := do
  match name.bind Arithmetic.ofName? with
  | none => leaf (raise (.fault (Arithmetic.unknown name))) (.raise _)
  | some op =>
    match ← leaf (orRaise (Value.combine (← leaf (view env) .view) op left right)) (.orRaise _) with
    | .value v => return v
    | .delegated receiver =>
      return .host (← program (answer env inner) (env.host.operate op receiver (out right)))

/-- Call what a script calls by a name on a line. -/
def callNamed (env : Env σ) (inner : Inner σ) (line : SourceLine) (name : String) (target : Callee)
    (args : List Value) : Chronicle σ Value := do
  leaf (modify fun m => { m with line := some line }) (.setLine (some line))
  match target with
  | .script f => inner.call f args (some line)
  | .host h =>
    leaf (checkDepth env) .checkDepth
    let result ← inFrame ⟨name, args, some line⟩ (guarded (inner.callHost h (args.map Value.toHost)))
    return .ofHost result

mutual

/-- The value of an expression. -/
def eval (env : Env σ) (inner : Inner σ) (scope : Nat) : Expr → Chronicle σ Value
  | .literal line l => atLine line (pure (.ofLiteral l))
  | .reference line name => atLine line (leaf (reference env scope name) (.reference _ _))
  | .operation line family op left right =>
    atLine line do
      match family with
      | .logical =>
        let first ← leaf (condition env (← eval env inner scope left)) (.condition _)
        if op == some (.text "and") && !first then return .boolean false
        else if op == some (.text "or") && first then return .boolean true
        else return .boolean (← leaf (condition env (← eval env inner scope right)) (.condition _))
      | .comparison =>
        let a ← eval env inner scope left
        let b ← eval env inner scope right
        leaf (orRaise (Value.compare (← leaf (view env) .view) op a b)) (.orRaise _)
      | .arithmetic =>
        let a ← eval env inner scope left
        let b ← eval env inner scope right
        guarded (arithmetic env inner Value.toHost op a b)
  | .negation line operand =>
    atLine line do leaf (orRaise (← eval env inner scope operand).negate) (.orRaise _)
  | .call line name args =>
    atLine line do
      let target ← leaf (callee env scope name) (.callee _ _)
      let values ← evalAll env inner scope args
      callNamed env inner line name target values

/-- The values of expressions, without flags. -/
def evalAll (env : Env σ) (inner : Inner σ) (scope : Nat) : List Expr → Chronicle σ (List Value)
  | [] => pure []
  | e :: es => do
    let v ← eval env inner scope e
    let vs ← evalAll env inner scope es
    return v.withoutFlags :: vs

end

/-! ### Statements -/

/-- At most `n` rounds of a loop. -/
def loopUpTo (holds : Chronicle σ Bool) (body : Chronicle σ (Option Value)) :
    Nat → Chronicle σ Value
  | 0 => leaf (throw .exhausted) .exhausted
  | n + 1 => do
    if ← holds then
      match ← body with
      | some v => return v
      | none => loopUpTo holds body n
    else return loopEnded

mutual

/-- Run a statement; some give no value. -/
def exec (env : Env σ) (inner : Inner σ) (n scope : Nat) : Statement → Chronicle σ (Option Value)
  | .expression line e => atLine line do return some (← eval env inner scope e)
  | .assignment line name e =>
    atLine line do
      let v := (← eval env inner scope e).withoutFlags
      leaf (note env fun view => (v.describe view).map fun shown => s!"assign {name} {shown}") (.note _)
      leaf (assign scope name v) (.assign _ _ _)
      return some v
  | .returning line none => atLine line do return some (Value.null.withFlag .returning)
  | .returning line (some e) =>
    atLine line do return some ((← eval env inner scope e).withFlag .returning)
  | .importing line target =>
    atLine line do
      guarded (leaf (importPath env target) (.importPath _))
      return none
  | .conditional line branches otherwise =>
    atLine line do
      match ← execBranches env inner n scope branches with
      | some v => return some v
      | none => execOtherwise env inner n scope otherwise
  | .loop line holds body =>
    atLine line do
      return some (← loopUpTo (do leaf (condition env (← eval env inner scope holds)) (.condition _))
        (execUntil env inner n scope Value.isReturn body) n)
  | .function line name params body =>
    atLine line do
      leaf (define env scope name params body) (.define _ _ _ _)
      return none

/-- Run statements up to the first whose value ends them, and give that value. -/
def execUntil (env : Env σ) (inner : Inner σ) (n scope : Nat) (ends : Value → Bool) :
    List Statement → Chronicle σ (Option Value)
  | [] => pure none
  | st :: rest => do
    match ← exec env inner n scope st with
    | some v => if ends v then return some v else execUntil env inner n scope ends rest
    | none => execUntil env inner n scope ends rest

/-- Run the first branch whose condition holds, if there is one. -/
def execBranches (env : Env σ) (inner : Inner σ) (n scope : Nat) :
    List Branch → Chronicle σ (Option Value)
  | [] => pure none
  | .mk _ holds body :: rest => do
    if ← leaf (condition env (← eval env inner scope holds)) (.condition _) then
      let v ← execUntil env inner n scope (fun v => v.flags.any) body
      return some (v.getD conditionalRan)
    else execBranches env inner n scope rest

/-- Run the last branch of a conditional, if there is one. -/
def execOtherwise (env : Env σ) (inner : Inner σ) (n scope : Nat) :
    Option (List Statement) → Chronicle σ (Option Value)
  | none => pure none
  | some body => do
    let v ← execUntil env inner n scope (fun v => v.flags.any) body
    return some (v.getD conditionalRan)

end

/-- Run statements to the end, and give the last value. -/
def execAll (env : Env σ) (inner : Inner σ) (n scope : Nat) (last : Option Value) :
    List Statement → Chronicle σ (Option Value)
  | [] => pure last
  | st :: rest => do
    match ← exec env inner n scope st with
    | some v =>
      let last := if v.hasFlag .conditional || v.hasFlag .loop then last else some v
      execAll env inner n scope last rest
    | none => execAll env inner n scope last rest

/-! ### Calls -/

/-- Call a function of a script, one step above `inner`. -/
def callWith (env : Env σ) (inner : Inner σ) (n : Nat) (f : ScriptFunction) (args : List Value)
    (site : Option SourceLine) : Chronicle σ Value := do
  if args.length != f.arity then
    leaf (raiseCause (.argumentCount f.name f.arity args.length)) (.raise _)
  leaf (checkDepth env) .checkDepth
  let scope ← leaf (pushScope f.closure f.name) (.pushScope _ _)
  leaf (bindParams scope f.params args) (.bindParams _ _ _)
  keepingLine (inFrame ⟨f.name, args, site⟩ do
    leaf (note env fun view => do
      let shown := String.intercalate ", " (← args.mapM fun v => v.describe view)
      return s!"call {f.name} [{shown}]") (.note _)
    let v ← execUntil env inner n scope Value.isReturn f.body
    return (v.map Value.withoutFlags).getD .null)

/-- Print values in one line. -/
def printLine (env : Env σ) (args : List HostValue) : Chronicle σ Unit := do
  let view ← leaf (view env) .view
  let texts ← leaf (orFault (args.mapM fun h => (Value.ofHost h).text view)) (.orFault _)
  print (String.intercalate " " texts)

/-- Call something that belongs to the host, one step above `inner`. -/
def callHostWith (env : Env σ) (inner : Inner σ) (h : HostValue) (args : List HostValue) :
    Chronicle σ HostValue := do
  match h with
  | .callable f => invokeFunction inner f args
  | .output =>
    printLine env args
    return .null
  | .object _ | .method .. => program (answer env inner) (env.host.call h args)
  | h =>
    let name := h.className (← leaf (view env) .view)
    leaf (raise (.fault ⟨.type, s!"'{name}' object is not callable"⟩)) (.raise _)

/-- Run a script in the root scope, one step above `inner`. -/
def runScriptWith (env : Env σ) (inner : Inner σ) (n : Nat) (s : Script) :
    Chronicle σ (Option Value) := do
  let v ← execAll env inner n rootScope none s.body
  return v.map Value.withoutFlags

mutual

/-- Call a function of a script in at most `n` steps. -/
def callFunction (env : Env σ) :
    Nat → ScriptFunction → List Value → Option SourceLine → Chronicle σ Value
  | 0, _, _, _ => leaf (throw .exhausted) .exhausted
  | n + 1, f, args, site =>
    callWith env ⟨callFunction env n, callHost env n, runScript env n⟩ n f args site

/-- Call something that belongs to the host in at most `n` steps. -/
def callHost (env : Env σ) : Nat → HostValue → List HostValue → Chronicle σ HostValue
  | 0, _, _ => leaf (throw .exhausted) .exhausted
  | n + 1, h, args => callHostWith env ⟨callFunction env n, callHost env n, runScript env n⟩ h args

/-- Run a script in at most `n` steps. -/
def runScript (env : Env σ) : Nat → Script → Chronicle σ (Option Value)
  | 0, _ => leaf (throw .exhausted) .exhausted
  | n + 1, s => runScriptWith env ⟨callFunction env n, callHost env n, runScript env n⟩ n s

end

/-- The ways into the machine with their chronicles, with `n` steps. -/
def inner (env : Env σ) (n : Nat) : Inner σ := ⟨callFunction env n, callHost env n, runScript env n⟩

/-! ### The runs are those of the evaluator -/

section Runs

variable {α β : Type}

@[simp] theorem run_pure (a : α) : (pure a : Chronicle σ α).run = pure a := rfl

@[simp] theorem run_bind (x : Chronicle σ α) (f : α → Chronicle σ β) :
    (x >>= f).run = x.run >>= fun a => (f a).run := rfl

@[simp] theorem run_leaf (x : Run σ α) (h : Leaf x) : (leaf x h).run = x := rfl

@[simp] theorem run_ite (c : Prop) [Decidable c] (x y : Chronicle σ α) :
    (if c then x else y).run = if c then x.run else y.run := by
  split <;> rfl

variable {env : Env σ} {inner : Inner σ}

theorem run_invokeFunction (f : ScriptFunction) (args : List HostValue) :
    (invokeFunction inner f args).run = LineScript.invokeFunction inner.runs f args := by
  simp only [invokeFunction, LineScript.invokeFunction, run_bind, run_ite, run_leaf, run_pure]
  rfl

theorem run_invokeName (name : String) (args : List HostValue) :
    (invokeName inner name args).run = LineScript.invokeName inner.runs name args := by
  unfold invokeName LineScript.invokeName
  rw [run_bind]
  refine congrArg (_ >>= ·) (funext fun o => ?_)
  cases o with
  | none => rfl
  | some v =>
    obtain ⟨payload, flags⟩ := v
    cases payload with
    | function f => exact run_invokeFunction f args
    | null | boolean | integer | decimal | string | host => rfl

theorem run_evalSource (source : HostValue) :
    (evalSource env inner source).run = LineScript.evalSource env inner.runs source := by
  simp only [evalSource, LineScript.evalSource, run_bind, run_ite, run_leaf, run_pure]
  rfl

theorem run_handleSource (source : HostValue) :
    (handleSource env inner source).run = LineScript.handleSource env inner.runs source := by
  simp only [handleSource, LineScript.handleSource, run_bind, run_ite, run_leaf]
  refine congrArg (_ >>= ·) (funext fun _ => congrArg (_ >>= ·) (funext fun idle => ?_))
  cases idle with
  | false => exact congrArg (_ >>= ·) (funext fun e => by rcases e with (_ | _) | _ <;> rfl)
  | true =>
    refine congrArg (_ >>= ·) (funext fun _ => congrArg (_ >>= ·) (funext fun _ => ?_))
    exact congrArg (_ >>= ·) (funext fun e => by rcases e with (_ | _) | _ <;> rfl)

theorem run_answer (asked : Request) :
    (answer env inner asked).run = LineScript.answer env inner.runs asked := by
  cases asked with
  | call | set | get => rfl
  | eval source => exact run_evalSource source
  | handle source =>
    rw [answer, LineScript.answer, run_bind, run_handleSource]
    rfl
  | invoke name args => exact run_invokeName name args

/-- Host code runs as it does, answered by the same runs. -/
theorem run_program {serve : Request → Chronicle σ HostValue} {serve' : Request → Run σ HostValue}
    (h : ∀ asked, (serve asked).run = serve' asked) (p : HostProgram σ) :
    (program serve p).run = p.run serve' := by
  induction p with
  | done | fail | rethrow => rfl
  | read next ih => exact congrArg (_ >>= ·) (funext fun m => ih m.host)
  | write state next ih => exact congrArg (_ >>= ·) (funext fun _ => ih)
  | ask asked next ih =>
    rw [program, HostProgram.run, ← h asked]
    refine congrArg (_ >>= ·) (funext fun e => ?_)
    rcases e with (r | _) | value
    · dsimp only
      cases hlets : (next (.error r)).lets r with
      | true =>
        simp only [if_true, Option.map_none, Option.getD_none]
        rw [HostProgram.eq_of_lets hlets]
        rfl
      | false =>
        simp only [Bool.false_eq_true, if_false, Option.map_some, Option.getD_some]
        exact ih (.error r)
    · rfl
    · exact ih (.ok value)

theorem run_arithmetic (out : Value → HostValue) (name : Option Key) (left right : Value) :
    (arithmetic env inner out name left right).run =
      LineScript.arithmetic env inner.runs out name left right := by
  unfold arithmetic LineScript.arithmetic
  cases name.bind Arithmetic.ofName? with
  | none => rfl
  | some op =>
    refine congrArg (_ >>= ·) (funext fun view => congrArg (_ >>= ·) (funext fun c => ?_))
    cases c with
    | value v => rfl
    | delegated receiver =>
      exact congrArg (· >>= _) (run_program run_answer (env.host.operate op receiver (out right)))

theorem run_callNamed (line : SourceLine) (name : String) (target : Callee) (args : List Value) :
    (callNamed env inner line name target args).run =
      LineScript.callNamed env inner.runs line name target args := by
  unfold callNamed LineScript.callNamed
  refine congrArg (_ >>= ·) (funext fun _ => ?_)
  cases target with
  | script f => rfl
  | host h =>
    refine congrArg (_ >>= ·) (funext fun _ => congrArg (· >>= _) ?_)
    exact congrArg (Run.inFrame _) (run_guarded _)

mutual

/-- Expressions are evaluated as they are without a chronicle. -/
theorem run_eval (scope : Nat) : ∀ e : Expr,
    (eval env inner scope e).run = e.eval env inner.runs scope
  | .literal .. | .reference .. => by
    rw [eval, Expr.eval]
    rfl
  | .operation line .logical op left right => by
    rw [eval, Expr.eval, ← run_eval scope left, ← run_eval scope right]
    refine congrArg (Run.atLine line) ?_
    simp only [run_bind, run_ite, run_leaf, run_pure]
  | .operation line .comparison op left right => by
    rw [eval, Expr.eval, ← run_eval scope left, ← run_eval scope right]
    rfl
  | .operation line .arithmetic op left right => by
    rw [eval, Expr.eval, ← run_eval scope left, ← run_eval scope right]
    refine congrArg (Run.atLine line) ?_
    simp only [run_bind, run_guarded, run_arithmetic]
  | .negation line operand => by
    rw [eval, Expr.eval, ← run_eval scope operand]
    rfl
  | .call line name args => by
    rw [eval, Expr.eval, ← run_evalAll scope args]
    refine congrArg (Run.atLine line) ?_
    simp only [run_bind, run_leaf, run_callNamed]

theorem run_evalAll (scope : Nat) : ∀ es : List Expr,
    (evalAll env inner scope es).run = LineScript.evalAll env inner.runs scope es
  | [] => by
    rw [evalAll, LineScript.evalAll]
    rfl
  | e :: es => by
    rw [evalAll, LineScript.evalAll, ← run_eval scope e, ← run_evalAll scope es]
    rfl

end

theorem run_loopUpTo {holds : Chronicle σ Bool} {body : Chronicle σ (Option Value)} (n : Nat) :
    (loopUpTo holds body n).run = LineScript.loopUpTo holds.run body.run n := by
  induction n with
  | zero => rfl
  | succ n ih =>
    rw [loopUpTo, LineScript.loopUpTo, run_bind]
    refine congrArg (_ >>= ·) (funext fun b => ?_)
    cases b with
    | false => rfl
    | true =>
      refine congrArg (_ >>= ·) (funext fun o => ?_)
      cases o with
      | none => exact ih
      | some v => rfl

mutual

/-- So are statements run. -/
theorem run_exec (n scope : Nat) : ∀ st : Statement,
    (exec env inner n scope st).run = st.exec env inner.runs n scope
  | .expression line e | .assignment line _ e | .returning line (some e) => by
    rw [exec, Statement.exec, ← run_eval scope e]
    rfl
  | .returning _ none | .function .. => by
    rw [exec, Statement.exec]
    rfl
  | .importing line target => by
    rw [exec, Statement.exec]
    exact congrArg (fun x => Run.atLine line (x >>= _)) (run_guarded _)
  | .conditional line branches otherwise => by
    rw [exec, Statement.exec, ← run_execBranches n scope branches,
      ← run_execOtherwise n scope otherwise]
    refine congrArg (Run.atLine line) (congrArg (_ >>= ·) (funext fun o => ?_))
    cases o <;> rfl
  | .loop line holds body => by
    rw [exec, Statement.exec, ← run_eval scope holds, ← run_execUntil n scope _ body]
    exact congrArg (fun x => Run.atLine line (x >>= _)) (run_loopUpTo n)

theorem run_execUntil (n scope : Nat) (ends : Value → Bool) : ∀ body : List Statement,
    (execUntil env inner n scope ends body).run = LineScript.execUntil env inner.runs n scope ends body
  | [] => by
    rw [execUntil, LineScript.execUntil]
    rfl
  | st :: rest => by
    rw [execUntil, LineScript.execUntil, ← run_exec n scope st, ← run_execUntil n scope ends rest]
    refine congrArg (_ >>= ·) (funext fun o => ?_)
    cases o with
    | none => rfl
    | some v => exact run_ite _ _ _

theorem run_execBranches (n scope : Nat) : ∀ branches : List Branch,
    (execBranches env inner n scope branches).run =
      LineScript.execBranches env inner.runs n scope branches
  | [] => by
    rw [execBranches, LineScript.execBranches]
    rfl
  | .mk line holds body :: rest => by
    rw [execBranches, LineScript.execBranches, ← run_eval scope holds, ← run_execUntil n scope _ body,
      ← run_execBranches n scope rest]
    simp only [run_bind, run_ite, run_leaf, run_pure]

theorem run_execOtherwise (n scope : Nat) : ∀ otherwise : Option (List Statement),
    (execOtherwise env inner n scope otherwise).run =
      LineScript.execOtherwise env inner.runs n scope otherwise
  | none => by
    rw [execOtherwise, LineScript.execOtherwise]
    rfl
  | some body => by
    rw [execOtherwise, LineScript.execOtherwise, ← run_execUntil n scope _ body]
    rfl

end

theorem run_execAll (n scope : Nat) : ∀ (body : List Statement) (last : Option Value),
    (execAll env inner n scope last body).run = LineScript.execAll env inner.runs n scope last body
  | [], last => rfl
  | st :: rest, last => by
    rw [execAll, LineScript.execAll, ← run_exec n scope st]
    refine congrArg (_ >>= ·) (funext fun o => ?_)
    cases o with
    | none => exact run_execAll n scope rest last
    | some v => exact run_execAll n scope rest _

theorem run_callWith (n : Nat) (f : ScriptFunction) (args : List Value) (site : Option SourceLine) :
    (callWith env inner n f args site).run = LineScript.callWith env inner.runs n f args site := by
  unfold callWith LineScript.callWith
  simp only [run_ite, run_bind, run_leaf, keepingLine, inFrame, run_execUntil, run_pure]
  rfl

theorem run_callHostWith (h : HostValue) (args : List HostValue) :
    (callHostWith env inner h args).run = LineScript.callHostWith env inner.runs h args := by
  cases h with
  | callable f => exact run_invokeFunction f args
  | output => rfl
  | object | method => exact run_program run_answer _
  | _ => rfl

end Runs

/-- **The runs are those of the evaluator.** -/
theorem run_inner (env : Env σ) (n : Nat) : (inner env n).runs = env.inner n := by
  induction n with
  | zero => rfl
  | succ n ih =>
    have hcall : ∀ f args site, (callFunction env (n + 1) f args site).run =
        LineScript.callFunction env (n + 1) f args site := by
      intro f args site
      show (callWith env (inner env n) n f args site).run = _
      rw [run_callWith, ih]
      rfl
    have hhost : ∀ h args,
        (callHost env (n + 1) h args).run = LineScript.callHost env (n + 1) h args := by
      intro h args
      show (callHostWith env (inner env n) h args).run = _
      rw [run_callHostWith, ih]
      rfl
    have hscript : ∀ s, (runScript env (n + 1) s).run = LineScript.runScript env (n + 1) s := by
      intro s
      show (execAll env (inner env n) n rootScope none s.body).run >>= _ = _
      rw [run_execAll, ih]
      rfl
    show LineScript.Inner.mk _ _ _ = LineScript.Inner.mk _ _ _
    congr 1
    · funext f args site
      exact hcall f args site
    · funext h args
      exact hhost h args
    · funext s
      exact hscript s

/-- So is the run of a source. -/
theorem run_unit (env : Env σ) (n : Nat) (source : HostValue) :
    (unit env (inner env n) source).run =
      (do (env.inner n).runScript (← parseHost env source)) := by
  rw [← run_inner env n]
  rfl

end Chronicle

end LineScript
