import LineScript.Evaluator

/-!
# Runs under a watch

The evaluator once more, with a watch over it.  The watch looks at the machine before and after
every element of a script, sees what the element gave, and looks at every call that is entered.  It
also stands in at the places where a run could be stuck: where a value is required and the element
gave none, and where an operation is not known by its name.  A watch that has nothing to say leaves
every run as it is, so what a watch never reports never happens, in the middle of a run no less
than at its end.

Every element gives a value or none here, whatever it is, so that nothing about the values that are
required is taken for granted.  Names, host code and the steps of a call are those of the
evaluator, with the calls in them made under the same watch.

## Main definitions

* `Element` — what can be run: an expression or a statement.
* `Watch` — what is done at the places that are watched.
* `Watched.eval`, `Watched.exec` — expressions and statements under a watch.
* `Watched.callFunction`, `Watched.callHost`, `Watched.runScript` — calls and whole scripts.
-/

namespace LineScript

open Run

variable {σ : Type}

/-- What can be run. -/
inductive Element where
  /-- An expression. -/
  | expr (e : Expr)
  /-- A statement. -/
  | stmt (st : Statement)

/-- What is done at the places that are watched. -/
structure Watch (σ : Type) where
  /-- Before an element is run. -/
  before : Element → Run σ Unit
  /-- After an element gave a value, or none. -/
  after : Element → Option Value → Run σ Unit
  /-- In a call, before what is called starts. -/
  called : Run σ Unit
  /-- In the place of a value that is missing. -/
  missing : Run σ Value
  /-- In the place of an operation that is not known. -/
  unknown : Run σ Value → Run σ Value

/-- Whether a name is one of the operations of a family. -/
def Family.knows : Family → Option Key → Bool
  | .comparison, op => (op.bind Comparison.ofName?).isSome
  | .logical, op => op == some (.text "and") || op == some (.text "or")
  | .arithmetic, op => (op.bind Arithmetic.ofName?).isSome

namespace Watched

variable (w : Watch σ)

/-- Run an element under a watch. -/
def element (el : Element) (x : Run σ (Option Value)) : Run σ (Option Value) := do
  w.before el
  let o ← x
  w.after el o
  return o

/-- The value of an element, where a value is required. -/
def required (x : Run σ (Option Value)) : Run σ Value := do
  match ← x with
  | some v => return v
  | none => w.missing

/-- The result of an operation, where its name has to be known. -/
def known (family : Family) (op : Option Key) (x : Run σ Value) : Run σ Value :=
  if family.knows op then x else w.unknown x

/-- Call what a script calls by a name on a line. -/
def callNamed (env : Env σ) (inner : Inner σ) (line : SourceLine) (name : String) (target : Callee)
    (args : List Value) : Run σ Value := do
  modify fun m => { m with line := some line }
  match target with
  | .script f => inner.call f args (some line)
  | .host h =>
    checkDepth env
    let result ← inFrame ⟨name, args, some line⟩ do
      w.called
      guarded (inner.callHost h (args.map Value.toHost))
    return .ofHost result

/-! ### Expressions -/

mutual

/-- The value of an expression. -/
def eval (env : Env σ) (inner : Inner σ) (scope : Nat) : Expr → Run σ (Option Value)
  | .literal line l =>
    element w (.expr (.literal line l)) (atLine line (pure (some (.ofLiteral l))))
  | .reference line name =>
    element w (.expr (.reference line name)) (atLine line do return some (← reference env scope name))
  | .operation line family op left right =>
    element w (.expr (.operation line family op left right)) (atLine line do
      match family with
      | .logical =>
        return some (← known w .logical op do
          let first ← condition env (← required w (eval env inner scope left))
          if op == some (.text "and") && !first then return .boolean false
          else if op == some (.text "or") && first then return .boolean true
          else return .boolean (← condition env (← required w (eval env inner scope right))))
      | .comparison =>
        let a ← required w (eval env inner scope left)
        let b ← required w (eval env inner scope right)
        return some (← known w .comparison op do orRaise (Value.compare (← view env) op a b))
      | .arithmetic =>
        let a ← required w (eval env inner scope left)
        let b ← required w (eval env inner scope right)
        return some (← known w .arithmetic op (guarded (arithmetic env inner Value.toHost op a b))))
  | .negation line operand =>
    element w (.expr (.negation line operand)) (atLine line do
      return some (← orRaise (← required w (eval env inner scope operand)).negate))
  | .call line name args =>
    element w (.expr (.call line name args)) (atLine line do
      let target ← callee env scope name
      let values ← evalAll env inner scope args
      return some (← callNamed w env inner line name target values))

/-- The values of expressions, without flags. -/
def evalAll (env : Env σ) (inner : Inner σ) (scope : Nat) : List Expr → Run σ (List Value)
  | [] => pure []
  | e :: es => do
    let v ← required w (eval env inner scope e)
    let vs ← evalAll env inner scope es
    return v.withoutFlags :: vs

end

/-! ### Statements -/

mutual

/-- Run a statement; some give no value. -/
def exec (env : Env σ) (inner : Inner σ) (n scope : Nat) : Statement → Run σ (Option Value)
  | .expression line e =>
    element w (.stmt (.expression line e)) (atLine line do
      return some (← required w (eval w env inner scope e)))
  | .assignment line name e =>
    element w (.stmt (.assignment line name e)) (atLine line do
      let v := (← required w (eval w env inner scope e)).withoutFlags
      note env fun view => (v.describe view).map fun shown => s!"assign {name} {shown}"
      assign scope name v
      return some v)
  | .returning line none =>
    element w (.stmt (.returning line none)) (atLine line do
      return some (Value.null.withFlag .returning))
  | .returning line (some e) =>
    element w (.stmt (.returning line (some e))) (atLine line do
      return some ((← required w (eval w env inner scope e)).withFlag .returning))
  | .importing line target =>
    element w (.stmt (.importing line target)) (atLine line do
      guarded (importPath env target)
      return none)
  | .conditional line branches otherwise =>
    element w (.stmt (.conditional line branches otherwise)) (atLine line do
      match ← execBranches env inner n scope branches with
      | some v => return some v
      | none => execOtherwise env inner n scope otherwise)
  | .loop line holds body =>
    element w (.stmt (.loop line holds body)) (atLine line do
      return some (← loopUpTo (do condition env (← required w (eval w env inner scope holds)))
        (execUntil env inner n scope Value.isReturn body) n))
  | .function line name params body =>
    element w (.stmt (.function line name params body)) (atLine line do
      define env scope name params body
      return none)

/-- Run statements up to the first whose value ends them, and give that value. -/
def execUntil (env : Env σ) (inner : Inner σ) (n scope : Nat) (ends : Value → Bool) :
    List Statement → Run σ (Option Value)
  | [] => pure none
  | st :: rest => do
    match ← exec env inner n scope st with
    | some v => if ends v then return some v else execUntil env inner n scope ends rest
    | none => execUntil env inner n scope ends rest

/-- Run the first branch whose condition holds, if there is one. -/
def execBranches (env : Env σ) (inner : Inner σ) (n scope : Nat) :
    List Branch → Run σ (Option Value)
  | [] => pure none
  | .mk _ holds body :: rest => do
    if ← condition env (← required w (eval w env inner scope holds)) then
      let v ← execUntil env inner n scope (fun v => v.flags.any) body
      return some (v.getD conditionalRan)
    else execBranches env inner n scope rest

/-- Run the last branch of a conditional, if there is one. -/
def execOtherwise (env : Env σ) (inner : Inner σ) (n scope : Nat) :
    Option (List Statement) → Run σ (Option Value)
  | none => pure none
  | some body => do
    let v ← execUntil env inner n scope (fun v => v.flags.any) body
    return some (v.getD conditionalRan)

end

/-- Run statements to the end, and give the last value: that of a statement that is no
conditional and no loop. -/
def execAll (env : Env σ) (inner : Inner σ) (n scope : Nat) (last : Option Value) :
    List Statement → Run σ (Option Value)
  | [] => pure last
  | st :: rest => do
    match ← exec w env inner n scope st with
    | some v =>
      let last := if v.hasFlag .conditional || v.hasFlag .loop then last else some v
      execAll env inner n scope last rest
    | none => execAll env inner n scope last rest

/-! ### Calls -/

/-- Call a function of a script, one step above `inner`. -/
def callWith (env : Env σ) (inner : Inner σ) (n : Nat) (f : ScriptFunction) (args : List Value)
    (site : Option SourceLine) : Run σ Value := do
  if args.length != f.arity then raiseCause (.argumentCount f.name f.arity args.length)
  checkDepth env
  let scope ← pushScope f.closure f.name
  bindParams scope f.params args
  keepingLine (inFrame ⟨f.name, args, site⟩ do
    w.called
    note env fun view => do
      let shown := String.intercalate ", " (← args.mapM fun v => v.describe view)
      return s!"call {f.name} [{shown}]"
    let v ← execUntil w env inner n scope Value.isReturn f.body
    return (v.map Value.withoutFlags).getD .null)

/-- Run a script in the root scope, one step above `inner`. -/
def runScriptWith (env : Env σ) (inner : Inner σ) (n : Nat) (s : Script) :
    Run σ (Option Value) := do
  let v ← execAll w env inner n rootScope none s.body
  return v.map Value.withoutFlags

mutual

/-- Call a function of a script in at most `n` steps. -/
def callFunction (env : Env σ) : Nat → ScriptFunction → List Value → Option SourceLine → Run σ Value
  | 0, _, _, _ => throw .exhausted
  | n + 1, f, args, site =>
    callWith w env ⟨callFunction env n, callHost env n, runScript env n⟩ n f args site

/-- Call something that belongs to the host in at most `n` steps. -/
def callHost (env : Env σ) : Nat → HostValue → List HostValue → Run σ HostValue
  | 0, _, _ => throw .exhausted
  | n + 1, h, args => callHostWith env ⟨callFunction env n, callHost env n, runScript env n⟩ h args

/-- Run a script in at most `n` steps. -/
def runScript (env : Env σ) : Nat → Script → Run σ (Option Value)
  | 0, _ => throw .exhausted
  | n + 1, s => runScriptWith w env ⟨callFunction env n, callHost env n, runScript env n⟩ n s

end

/-- The ways into the machine under a watch, with `n` steps. -/
def inner (env : Env σ) (n : Nat) : Inner σ := ⟨callFunction w env n, callHost w env n, runScript w env n⟩

end Watched

end LineScript
