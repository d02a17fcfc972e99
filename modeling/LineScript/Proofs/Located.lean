import LineScript.Proofs.Lines

/-!
# Nodes that answer for their own errors

The evaluator keeps one line under way and gives it to errors while they leave.  Here is what that
comes to, told without a line under way: the node of an expression, or an import, gives its own
line to an error that is raised in it and has no line yet.  No other part of a statement gives
lines to errors, and none is needed: an error that leaves a statement has a line.

Names, host code and the steps of a call are those of the evaluator, with the calls in them made
in this way too.  The line under way is kept as before, for the records of failures.

## Main definitions

* `Located.atNode` — a node, which gives its line to the errors raised in it.
* `Located.eval`, `Located.exec` — expressions and statements.
* `Located.callFunction`, `Located.callHost`, `Located.runScript` — calls and whole scripts.
* `Run.Settled` — a run whose errors have lines.

## Main results

* `Located.exec_settled` — **an error that leaves a statement has a line.**
-/

namespace LineScript

open Run

variable {σ α β : Type}

namespace Located

/-- Evaluate a node of a line.  An error of the script that is raised in it carries the number, the
text and the origin of this line, unless it has a line already, which it keeps. -/
def atNode (line : SourceLine) (x : Run σ α) : Run σ α := do
  modify fun m => { m with line := some line }
  match ← attempt x with
  | .error (.raised ⟨id, .script e⟩) =>
    match e.line with
    | none =>
      let placed :=
        { e with line := some line.number, text := some line.text, origin := line.origin }
      throw (.raised ⟨id, .script placed⟩)
    | some _ => throw (.raised ⟨id, .script e⟩)
  | r => resume r

/-- Run what begins on a line; errors leave it as they are. -/
def onward (line : SourceLine) (x : Run σ α) : Run σ α := do
  modify fun m => { m with line := some line }
  x

/-! ### Expressions -/

mutual

/-- The value of an expression. -/
def eval (env : Env σ) (inner : Inner σ) (scope : Nat) : Expr → Run σ Value
  | .literal line l => atNode line (pure (.ofLiteral l))
  | .reference line name => atNode line (reference env scope name)
  | .operation line family op left right =>
    atNode line do
      match family with
      | .logical =>
        let first ← condition env (← eval env inner scope left)
        if op == some (.text "and") && !first then return .boolean false
        else if op == some (.text "or") && first then return .boolean true
        else return .boolean (← condition env (← eval env inner scope right))
      | .comparison =>
        let a ← eval env inner scope left
        let b ← eval env inner scope right
        orRaise (Value.compare (← view env) op a b)
      | .arithmetic =>
        let a ← eval env inner scope left
        let b ← eval env inner scope right
        guarded (arithmetic env inner Value.toHost op a b)
  | .negation line operand =>
    atNode line do orRaise (← eval env inner scope operand).negate
  | .call line name args =>
    atNode line do
      let target ← callee env scope name
      let values ← evalAll env inner scope args
      callNamed env inner line name target values

/-- The values of expressions, without flags. -/
def evalAll (env : Env σ) (inner : Inner σ) (scope : Nat) : List Expr → Run σ (List Value)
  | [] => pure []
  | e :: es => do
    let v ← eval env inner scope e
    let vs ← evalAll env inner scope es
    return v.withoutFlags :: vs

end

/-! ### Statements -/

mutual

/-- Run a statement; some give no value. -/
def exec (env : Env σ) (inner : Inner σ) (n scope : Nat) : Statement → Run σ (Option Value)
  | .expression line e => onward line do return some (← eval env inner scope e)
  | .assignment line name e =>
    onward line do
      let v := (← eval env inner scope e).withoutFlags
      note env fun view => (v.describe view).map fun shown => s!"assign {name} {shown}"
      assign scope name v
      return some v
  | .returning line none => onward line do return some (Value.null.withFlag .returning)
  | .returning line (some e) =>
    onward line do return some ((← eval env inner scope e).withFlag .returning)
  | .importing line target =>
    atNode line do
      guarded (importPath env target)
      return none
  | .conditional line branches otherwise =>
    onward line do
      match ← execBranches env inner n scope branches with
      | some v => return some v
      | none => execOtherwise env inner n scope otherwise
  | .loop line holds body =>
    onward line do
      return some (← loopUpTo (do condition env (← eval env inner scope holds))
        (execUntil env inner n scope Value.isReturn body) n)
  | .function line name params body =>
    onward line do
      define env scope name params body
      return none

/-- Run statements up to the first whose value ends them, and give that value. -/
def execUntil (env : Env σ) (inner : Inner σ) (n scope : Nat) (ends : Value → Bool) :
    List Statement → Run σ (Option Value)
  | [] => pure none
  | st :: rest => do
    match ← exec env inner n scope st with
    | some v => if ends v then return some v else execUntil env inner n scope ends rest
    | none => execUntil env inner n scope ends rest

/-- Run the first branch whose condition holds, if there is one. -/
def execBranches (env : Env σ) (inner : Inner σ) (n scope : Nat) :
    List Branch → Run σ (Option Value)
  | [] => pure none
  | .mk _ holds body :: rest => do
    if ← condition env (← eval env inner scope holds) then
      let v ← execUntil env inner n scope (fun v => v.flags.any) body
      return some (v.getD conditionalRan)
    else execBranches env inner n scope rest

/-- Run the last branch of a conditional, if there is one. -/
def execOtherwise (env : Env σ) (inner : Inner σ) (n scope : Nat) :
    Option (List Statement) → Run σ (Option Value)
  | none => pure none
  | some body => do
    let v ← execUntil env inner n scope (fun v => v.flags.any) body
    return some (v.getD conditionalRan)

end

/-- Run statements to the end, and give the last value: that of a statement that is no
conditional and no loop. -/
def execAll (env : Env σ) (inner : Inner σ) (n scope : Nat) (last : Option Value) :
    List Statement → Run σ (Option Value)
  | [] => pure last
  | st :: rest => do
    match ← exec env inner n scope st with
    | some v =>
      let last := if v.hasFlag .conditional || v.hasFlag .loop then last else some v
      execAll env inner n scope last rest
    | none => execAll env inner n scope last rest

/-- Run statements as one block: its value is that of the last statement, or the first one
that returns. -/
def execBlock (env : Env σ) (inner : Inner σ) (n scope : Nat) (last : Option Value) :
    List Statement → Run σ (Option Value)
  | [] => pure last
  | st :: rest => do
    match ← exec env inner n scope st with
    | some v => if v.isReturn then return some v else execBlock env inner n scope (some v) rest
    | none => execBlock env inner n scope none rest

/-- Run a script as one block in the root scope. -/
def runBlock (env : Env σ) (inner : Inner σ) (n : Nat) (s : Script) : Run σ (Option Value) :=
  onward s.line (execBlock env inner n rootScope none s.body)

/-! ### Calls -/

/-- Call a function of a script, one step above `inner`. -/
def callWith (env : Env σ) (inner : Inner σ) (n : Nat) (f : ScriptFunction) (args : List Value)
    (site : Option SourceLine) : Run σ Value := do
  if args.length != f.arity then raiseCause (.argumentCount f.name f.arity args.length)
  checkDepth env
  let scope ← pushScope f.closure f.name
  bindParams scope f.params args
  keepingLine (inFrame ⟨f.name, args, site⟩ do
    note env fun view => do
      let shown := String.intercalate ", " (← args.mapM fun v => v.describe view)
      return s!"call {f.name} [{shown}]"
    let v ← execUntil env inner n scope Value.isReturn f.body
    return (v.map Value.withoutFlags).getD .null)

/-- Run a script in the root scope, one step above `inner`. -/
def runScriptWith (env : Env σ) (inner : Inner σ) (n : Nat) (s : Script) :
    Run σ (Option Value) := do
  let v ← execAll env inner n rootScope none s.body
  return v.map Value.withoutFlags

mutual

/-- Call a function of a script in at most `n` steps. -/
def callFunction (env : Env σ) : Nat → ScriptFunction → List Value → Option SourceLine → Run σ Value
  | 0, _, _, _ => throw .exhausted
  | n + 1, f, args, site =>
    callWith env ⟨callFunction env n, callHost env n, runScript env n⟩ n f args site

/-- Call something that belongs to the host in at most `n` steps. -/
def callHost (env : Env σ) : Nat → HostValue → List HostValue → Run σ HostValue
  | 0, _, _ => throw .exhausted
  | n + 1, h, args => callHostWith env ⟨callFunction env n, callHost env n, runScript env n⟩ h args

/-- Run a script in at most `n` steps. -/
def runScript (env : Env σ) : Nat → Script → Run σ (Option Value)
  | 0, _ => throw .exhausted
  | n + 1, s => runScriptWith env ⟨callFunction env n, callHost env n, runScript env n⟩ n s

end

/-- The ways into the machine, with `n` steps. -/
def inner (env : Env σ) (n : Nat) : Inner σ := ⟨callFunction env n, callHost env n, runScript env n⟩

end Located

/-! ### Errors that have lines -/

/-- A run whose errors have lines: every error of the script that leaves it does. -/
def Run.Settled (x : Run σ α) : Prop :=
  ∀ m m' id e, outcome x m = (.error (.raised ⟨id, .script e⟩), m') → e.line ≠ none

namespace Run.Settled

variable {x : Run σ α} {f : α → Run σ β}

theorem of_ok (h : ∀ m, ∃ a m', outcome x m = (.ok a, m')) : Settled x := by
  intro m m' id e hx
  obtain ⟨a, m₁, h⟩ := h m
  rw [h] at hx
  cases hx

theorem pure (a : α) : Settled (Pure.pure a : Run σ α) := of_ok fun _ => ⟨_, _, rfl⟩

theorem exhausted : Settled (MonadExcept.throw .exhausted : Run σ α) := by
  intro m m' id e hx
  cases hx

theorem orFault (r : Except Fault α) : Settled (Run.orFault r : Run σ α) := by
  intro m m' id e hx
  cases r with
  | ok a => cases hx
  | error f => cases hx

theorem bind (hx : Settled x) (hf : ∀ a, Settled (f a)) : Settled (x >>= f) := by
  intro m m' id e h
  rcases hout : outcome x m with ⟨stop | a, m₁⟩
  · rw [outcome_bind_of_error f hout] at h
    cases h
    exact hx _ _ _ _ hout
  · rw [outcome_bind_of_ok f hout] at h
    exact hf a _ _ _ _ h

/-- A first step that does not fail. -/
theorem next (hx : ∀ m, ∃ a m', outcome x m = (.ok a, m')) (hf : ∀ a, Settled (f a)) :
    Settled (x >>= f) :=
  (of_ok hx).bind hf

end Run.Settled

namespace Located

/-- The end of a node. -/
theorem outcome_atNode {line : SourceLine} {x : Run σ α} {m m' : Machine σ} {r : Except Stop α}
    (h : outcome x { m with line := some line } = (r, m')) :
    outcome (atNode line x) m = (stamped (some line) r, m') := by
  refine (outcome_bind_of_ok _ rfl).trans ((outcome_attempt_bind _ h).trans ?_)
  rcases r with (⟨id, e | f⟩ | _) | a
  · obtain ⟨cause, _ | k, text, origin⟩ := e <;> rfl
  · rfl
  · rfl
  · rfl

/-- The errors that leave a node have lines. -/
theorem atNode_settled (line : SourceLine) (x : Run σ α) : Settled (atNode line x) := by
  intro m m' id e h
  rcases hout : outcome x { m with line := some line } with ⟨r, m₁⟩
  rw [outcome_atNode hout] at h
  rcases r with (⟨id', e' | f⟩ | _) | a <;> cases h
  show (e'.stampAt _ _ _).line ≠ none
  unfold ScriptError.stampAt
  cases hline : e'.line with
  | none => nofun
  | some k =>
    rw [hline]
    nofun

theorem onward_settled (line : SourceLine) {x : Run σ α} (hx : Settled x) :
    Settled (onward line x) :=
  .next (fun _ => ⟨_, _, rfl⟩) fun _ => hx

variable {env : Env σ} {inner : Inner σ} {n scope : Nat}

theorem eval_settled : ∀ e : Expr, Settled (eval env inner scope e)
  | .literal line _ | .reference line _ | .negation line _ | .call line .. => by
    rw [eval]
    exact atNode_settled line _
  | .operation line family op left right => by
    cases family <;> rw [eval] <;> exact atNode_settled line _

theorem condition_settled (v : Value) : Settled (condition env v) :=
  .next (fun _ => ⟨_, _, rfl⟩) fun _ => .orFault _

theorem loopUpTo_settled {holds : Run σ Bool} {body : Run σ (Option Value)} (hholds : Settled holds)
    (hbody : Settled body) : ∀ n, Settled (loopUpTo holds body n)
  | 0 => .exhausted
  | n + 1 => by
    rw [loopUpTo]
    refine hholds.bind fun b => ?_
    cases b with
    | false => exact .pure _
    | true =>
      refine hbody.bind fun o => ?_
      cases o with
      | none => exact loopUpTo_settled hholds hbody n
      | some v => exact .pure v

mutual

/-- **An error that leaves a statement has a line.** -/
theorem exec_settled : ∀ st : Statement, Settled (exec env inner n scope st)
  | .expression line e | .returning line (some e) => by
    rw [exec]
    exact onward_settled line ((eval_settled e).bind fun _ => .pure _)
  | .assignment line name e => by
    rw [exec]
    refine onward_settled line ((eval_settled e).bind fun v => ?_)
    refine .next (fun m => ⟨(), _, rfl⟩) fun _ => ?_
    exact .next (fun _ => ⟨(), _, rfl⟩) fun _ => .pure _
  | .returning line none => by
    rw [exec]
    exact onward_settled line (.pure _)
  | .importing line target => by
    rw [exec]
    exact atNode_settled line _
  | .conditional line branches otherwise => by
    rw [exec]
    refine onward_settled line ((execBranches_settled branches).bind fun o => ?_)
    cases o with
    | some v => exact .pure _
    | none => exact execOtherwise_settled otherwise
  | .loop line holds body => by
    rw [exec]
    refine onward_settled line (.bind (loopUpTo_settled ?_ (execUntil_settled _ body) n)
      fun _ => .pure _)
    exact (eval_settled holds).bind fun v => condition_settled v
  | .function line name params body => by
    rw [exec]
    exact onward_settled line (.next (fun _ => ⟨(), _, rfl⟩) fun _ => .pure _)

theorem execUntil_settled (ends : Value → Bool) : ∀ body : List Statement,
    Settled (execUntil env inner n scope ends body)
  | [] => by
    rw [execUntil]
    exact .pure _
  | st :: rest => by
    rw [execUntil]
    refine (exec_settled st).bind fun o => ?_
    cases o with
    | none => exact execUntil_settled ends rest
    | some v =>
      dsimp only
      split
      · exact .pure _
      · exact execUntil_settled ends rest

theorem execBranches_settled : ∀ branches : List Branch,
    Settled (execBranches env inner n scope branches)
  | [] => by
    rw [execBranches]
    exact .pure _
  | .mk line holds body :: rest => by
    rw [execBranches]
    refine (eval_settled holds).bind fun v => (condition_settled v).bind fun b => ?_
    cases b with
    | false => exact execBranches_settled rest
    | true => exact (execUntil_settled _ body).bind fun _ => .pure _

theorem execOtherwise_settled : ∀ otherwise : Option (List Statement),
    Settled (execOtherwise env inner n scope otherwise)
  | none => by
    rw [execOtherwise]
    exact .pure _
  | some body => by
    rw [execOtherwise]
    exact (execUntil_settled _ body).bind fun _ => .pure _

end

theorem execAll_settled : ∀ (body : List Statement) (last : Option Value),
    Settled (execAll env inner n scope last body)
  | [], last => .pure last
  | st :: rest, last => by
    rw [execAll]
    refine (exec_settled st).bind fun o => ?_
    cases o <;> exact execAll_settled rest _

theorem execBlock_settled : ∀ (body : List Statement) (last : Option Value),
    Settled (execBlock env inner n scope last body)
  | [], last => .pure last
  | st :: rest, last => by
    rw [execBlock]
    refine (exec_settled st).bind fun o => ?_
    cases o with
    | none => exact execBlock_settled rest none
    | some v =>
      dsimp only
      split
      · exact .pure _
      · exact execBlock_settled rest _

/-- So has an error that leaves a script. -/
theorem runScript_settled : ∀ (n : Nat) (script : Script), Settled (runScript env n script)
  | 0, _ => .exhausted
  | _ + 1, script => (execAll_settled script.body none).bind fun _ => .pure _

theorem runBlock_settled (script : Script) : Settled (runBlock env inner n script) :=
  onward_settled script.line (execBlock_settled script.body none)

end Located

end LineScript
