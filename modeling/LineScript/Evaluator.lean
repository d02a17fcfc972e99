import LineScript.Report
import LineScript.Value.Comparison

/-!
# Running scripts

Statements and expressions are run in a scope.  A conditional, a loop and a return hand a
flagged value upwards: a branch ends at the first flagged value, the body of a loop and of a
function at the first value that returns.  Host code that a script calls may in turn call
functions, and run other texts on the same machine.

The tree is walked by recursion on it; what leads back into the machine (calls, other texts,
loops) is bounded by a number of steps that the run is given.

## Main definitions

* `Inner` — the ways back into the machine.
* `HostProgram.run` — what host code does, on the machine.
* `Expr.eval`, `Statement.exec`, `execUntil` — expressions and statements.
* `callFunction`, `callHost`, `runScript` — calls and whole scripts.
* `handleScript` — a text with a report of how its run ended.
-/

namespace LineScript

variable {σ : Type}

open Run

/-! ### The ways back in -/

/-- The ways back into the machine, one step down. -/
structure Inner (σ : Type) where
  /-- Call a script function; the line is that of the call. -/
  call : ScriptFunction → List Value → Option SourceLine → Run σ Value
  /-- Call something that belongs to the host. -/
  callHost : HostValue → List HostValue → Run σ HostValue
  /-- Run a script in the root scope. -/
  runScript : Script → Run σ (Option Value)

/-- The number of the root scope. -/
def rootScope : Nat := 0

/-! ### Requests of the host -/

/-- Call a script function for the host. -/
def invokeFunction (inner : Inner σ) (f : ScriptFunction) (args : List HostValue) : Run σ HostValue := do
  if ← isIdle then forgetRecord
  let value ← inner.call f (args.map Value.ofHost) none
  return value.toHost

/-- Call the script function of a name in the root scope, for the host. -/
def invokeName (inner : Inner σ) (name : String) (args : List HostValue) : Run σ HostValue := do
  match (← lookup rootScope name).map Value.payload with
  | some (.function f) => invokeFunction inner f args
  | _ => raiseCause (.undefinedFunction name)

/-- What the host gets for a value; nothing for no value. -/
def hostResult (v : Option Value) : HostValue := (v.map Value.toHost).getD .null

/-- The script that a source is.  A source that is no text fails like host code. -/
def parseHost (env : Env σ) (source : HostValue) : Run σ Script := do
  parseSource env (← orFault (source.asText (← view env) "strip"))

/-- The text of a source, for a report about it; a source that is no text has no lines. -/
def sourceText : HostValue → String
  | .text s => s
  | _ => ""

/-- Run a source for its value. -/
def evalSource (env : Env σ) (inner : Inner σ) (source : HostValue) : Run σ HostValue := do
  if ← isIdle then forgetRecord
  let script ← parseHost env source
  return hostResult (← inner.runScript script)

/-- Run a source, and report how it ended. -/
def handleSource (env : Env σ) (inner : Inner σ) (source : HostValue) : Run σ Outcome := do
  modify fun m => { m with effects := #[] }
  if ← isIdle then
    forgetRecord
    modify fun m => { m with line := none }
  match ← attempt (do inner.runScript (← parseHost env source)) with
  | .ok v => return .success (hostResult v) (← get).effects.toList
  | .error .exhausted => throw .exhausted
  | .error (.raised r) =>
    let m ← get
    let report ← orFault
      (r.failure.report env.symbols (env.host.view m.host) m.record m.line (sourceText source))
    emit .stderr report.message
    return .failure report (← get).effects.toList

/-- The answer to a request of the host. -/
def answer (env : Env σ) (inner : Inner σ) : Request → Run σ HostValue
  | .call callee args => inner.callHost callee args
  | .eval source => evalSource env inner source
  | .handle source => return .text (← handleSource env inner source).status
  | .invoke name args => invokeName inner name args
  | .set name value => do
    assign rootScope name (.ofHost value)
    return .null
  | .get name => return hostResult (← lookup rootScope name)

/-- Run host code on the machine; `serve` answers its requests. -/
def HostProgram.run (serve : Request → Run σ HostValue) : HostProgram σ → Run σ HostValue
  | .done value => pure value
  | .fail failure => raise failure
  | .rethrow raised => throw (.raised raised)
  | .read next => do (next (← get).host).run serve
  | .write state next => do
    modify fun m => { m with host := state }
    next.run serve
  | .ask request next => do
    match ← attempt (serve request) with
    | .ok value => (next (.ok value)).run serve
    | .error (.raised r) => (next (.error r)).run serve
    | .error .exhausted => throw .exhausted

/-! ### Names -/

/-- What a path of members of a value leads to. -/
def memberOf (env : Env σ) (holder : Value) (path : String) : Run σ HostValue := do
  match holder.payload with
  | .null | .function _ => raiseCause (.kindHasNoMember holder.kind path)
  | _ => orRaise (memberAt (← view env) holder.toHostBare (pathNames path))

/-- What a bare name leads to in the imported namespaces. -/
def resolveName (env : Env σ) (name : String) : Run σ (Option HostValue) := do
  orRaise (Namespaces.resolve (← view env) name (← get).namespaces)

/-- What a name that is bound in no scope leads to: a member of a bound name, or something in
a namespace.  The first part of the answer is the bare name. -/
def resolveUnbound (env : Env σ) (scope : Nat) (name : String) : Run σ (String × Option HostValue) := do
  let (isGlobal, bare) := env.symbols.stripGlobal name
  let (head, rest) := splitHead bare
  let scopes := (← get).scopes
  let start := if isGlobal then scopes.rootOf scope else scope
  let holder ← if rest.isEmpty then pure none else lookup start head
  match holder with
  | some holder => return (bare, some (← guarded (memberOf env holder rest)))
  | none => return (bare, ← guarded (resolveName env bare))

/-- The value of a name; a name that stands for nothing is null. -/
def reference (env : Env σ) (scope : Nat) (name : String) : Run σ Value := do
  match ← lookup scope name with
  | some v => return v
  | none =>
    match (← resolveUnbound env scope name).2 with
    | some h => return .ofHost h
    | none => return .null

/-- Something that can be called. -/
inductive Callee where
  /-- A function of a script. -/
  | script (f : ScriptFunction)
  /-- Something that belongs to the host. -/
  | host (h : HostValue)
  deriving Inhabited

/-- What a call of a name calls. -/
def callee (env : Env σ) (scope : Nat) (name : String) : Run σ Callee := do
  match ← lookup scope name with
  | some v =>
    match v.payload with
    | .function f => return .script f
    | .host h => if h.isCallable (← view env) then return .host h else raiseCause (.notFunction name)
    | _ => raiseCause (.notFunction name)
  | none =>
    match ← resolveUnbound env scope name with
    | (bare, none) => raiseCause (.undefinedFunction bare)
    | (bare, some h) =>
      if h.isCallable (← view env) then return .host h else raiseCause (.notFunction bare)

/-! ### Expressions -/

/-- A value as a condition. -/
def condition (env : Env σ) (v : Value) : Run σ Bool := do orFault (v.truthy (← view env))

/-- The result of an arithmetic operation; `out` says what an object of the host on the left
gets for the value on the right. -/
def arithmetic (env : Env σ) (inner : Inner σ) (out : Value → HostValue) (name : Option Key)
    (left right : Value) : Run σ Value := do
  match name.bind Arithmetic.ofName? with
  | none => raise (.fault (Arithmetic.unknown name))
  | some op =>
    match ← orRaise (Value.combine (← view env) op left right) with
    | .value v => return v
    | .delegated receiver =>
      return .host (← (env.host.operate op receiver (out right)).run (answer env inner))

/-- The failure for calls nested too deeply. -/
def callsTooDeep : Fault := ⟨.recursion, "maximum recursion depth exceeded"⟩

/-- Fail when calls are nested as deeply as they may be. -/
def checkDepth (env : Env σ) : Run σ Unit := do
  if env.callLimit ≤ (← get).calls.length then raise (.fault callsTooDeep)

/-- Call what a script calls by a name on a line. -/
def callNamed (env : Env σ) (inner : Inner σ) (line : SourceLine) (name : String) (target : Callee)
    (args : List Value) : Run σ Value := do
  modify fun m => { m with line := some line }
  match target with
  | .script f => inner.call f args (some line)
  | .host h =>
    checkDepth env
    let result ← inFrame ⟨name, args, some line⟩ (guarded (inner.callHost h (args.map Value.toHost)))
    return .ofHost result

mutual

/-- The value of an expression. -/
def Expr.eval (env : Env σ) (inner : Inner σ) (scope : Nat) : Expr → Run σ Value
  | .literal line l => atLine line (pure (.ofLiteral l))
  | .reference line name => atLine line (reference env scope name)
  | .operation line family op left right =>
    atLine line do
      match family with
      | .logical =>
        let first ← condition env (← left.eval env inner scope)
        if op == some (.text "and") && !first then return .boolean false
        else if op == some (.text "or") && first then return .boolean true
        else return .boolean (← condition env (← right.eval env inner scope))
      | .comparison =>
        let a ← left.eval env inner scope
        let b ← right.eval env inner scope
        orRaise (Value.compare (← view env) op a b)
      | .arithmetic =>
        let a ← left.eval env inner scope
        let b ← right.eval env inner scope
        guarded (arithmetic env inner Value.toHost op a b)
  | .negation line operand =>
    atLine line do orRaise (← operand.eval env inner scope).negate
  | .call line name args =>
    atLine line do
      let target ← callee env scope name
      let values ← evalAll env inner scope args
      callNamed env inner line name target values

/-- The values of expressions, without flags. -/
def evalAll (env : Env σ) (inner : Inner σ) (scope : Nat) : List Expr → Run σ (List Value)
  | [] => pure []
  | e :: es => do
    let v ← e.eval env inner scope
    let vs ← evalAll env inner scope es
    return v.withoutFlags :: vs

end

/-! ### Statements -/

/-- The value of a conditional that ran to the end of a branch. -/
def conditionalRan : Value := (Value.boolean true).withFlag .conditional

/-- The value of a loop that ended. -/
def loopEnded : Value := (Value.boolean true).withFlag .loop

/-- At most `n` rounds of a loop: the body runs while the condition holds, and a value that
it returns ends the loop. -/
def loopUpTo (holds : Run σ Bool) (body : Run σ (Option Value)) : Nat → Run σ Value
  | 0 => throw .exhausted
  | n + 1 => do
    if ← holds then
      match ← body with
      | some v => return v
      | none => loopUpTo holds body n
    else return loopEnded

/-- Define a function in a scope. -/
def define (env : Env σ) (scope : Nat) (name : String) (params : List String) (body : List Statement) :
    Run σ Unit := do
  let bare := (env.symbols.stripGlobal name).2
  assign scope name (.function ⟨← freshId, bare, params, body, scope⟩)

/-- Import a namespace. -/
def importPath (env : Env σ) (path : String) : Run σ Unit := do
  let m ← get
  let ns ← orRaise
    (Namespaces.importing (env.host.importModule m.host) (env.host.view m.host) path m.namespaces)
  modify fun m => { m with namespaces := ns }

mutual

/-- Run a statement; some give no value. -/
def Statement.exec (env : Env σ) (inner : Inner σ) (n scope : Nat) : Statement → Run σ (Option Value)
  | .expression line e => atLine line do return some (← e.eval env inner scope)
  | .assignment line name e =>
    atLine line do
      let v := (← e.eval env inner scope).withoutFlags
      note env fun view => (v.describe view).map fun shown => s!"assign {name} {shown}"
      assign scope name v
      return some v
  | .returning line none => atLine line do return some (Value.null.withFlag .returning)
  | .returning line (some e) =>
    atLine line do return some ((← e.eval env inner scope).withFlag .returning)
  | .importing line target =>
    atLine line do
      guarded (importPath env target)
      return none
  | .conditional line branches otherwise =>
    atLine line do
      match ← execBranches env inner n scope branches with
      | some v => return some v
      | none => execOtherwise env inner n scope otherwise
  | .loop line holds body =>
    atLine line do
      return some (← loopUpTo (do condition env (← holds.eval env inner scope))
        (execUntil env inner n scope Value.isReturn body) n)
  | .function line name params body =>
    atLine line do
      define env scope name params body
      return none

/-- Run statements up to the first whose value ends them, and give that value. -/
def execUntil (env : Env σ) (inner : Inner σ) (n scope : Nat) (ends : Value → Bool) :
    List Statement → Run σ (Option Value)
  | [] => pure none
  | st :: rest => do
    match ← st.exec env inner n scope with
    | some v => if ends v then return some v else execUntil env inner n scope ends rest
    | none => execUntil env inner n scope ends rest

/-- Run the first branch whose condition holds, if there is one. -/
def execBranches (env : Env σ) (inner : Inner σ) (n scope : Nat) : List Branch → Run σ (Option Value)
  | [] => pure none
  | .mk _ holds body :: rest => do
    if ← condition env (← holds.eval env inner scope) then
      let v ← execUntil env inner n scope (fun v => v.flags.any) body
      return some (v.getD conditionalRan)
    else execBranches env inner n scope rest

/-- Run the last branch of a conditional, if there is one. -/
def execOtherwise (env : Env σ) (inner : Inner σ) (n scope : Nat) :
    Option (List Statement) → Run σ (Option Value)
  | none => pure none
  | some body => do
    let v ← execUntil env inner n scope (fun v => v.flags.any) body
    return some (v.getD conditionalRan)

end

/-- Run statements to the end, and give the last value: that of a statement that is no
conditional and no loop. -/
def execAll (env : Env σ) (inner : Inner σ) (n scope : Nat) (last : Option Value) :
    List Statement → Run σ (Option Value)
  | [] => pure last
  | st :: rest => do
    match ← st.exec env inner n scope with
    | some v =>
      let last := if v.hasFlag .conditional || v.hasFlag .loop then last else some v
      execAll env inner n scope last rest
    | none => execAll env inner n scope last rest

/-- Run statements as one block: its value is that of the last statement, or the first one
that returns. -/
def execBlock (env : Env σ) (inner : Inner σ) (n scope : Nat) (last : Option Value) :
    List Statement → Run σ (Option Value)
  | [] => pure last
  | st :: rest => do
    match ← st.exec env inner n scope with
    | some v => if v.isReturn then return some v else execBlock env inner n scope (some v) rest
    | none => execBlock env inner n scope none rest

/-- Run a script as one block in the root scope. -/
def runBlock (env : Env σ) (inner : Inner σ) (n : Nat) (s : Script) : Run σ (Option Value) :=
  atLine s.line (execBlock env inner n rootScope none s.body)

/-- Run the statements of a script in the root scope, and give the value of each. -/
def runEach (env : Env σ) (inner : Inner σ) (n : Nat) : List Statement → Run σ (List (Option Value))
  | [] => pure []
  | st :: rest => do
    let v ← st.exec env inner n rootScope
    let vs ← runEach env inner n rest
    return v :: vs

/-! ### Calls -/

/-- Bind parameters to arguments in a scope. -/
def bindParams (scope : Nat) : List String → List Value → Run σ Unit
  | p :: ps, v :: vs => do
    assign scope p v.withoutFlags
    bindParams scope ps vs
  | _, _ => pure ()

/-- Call a function of a script, one step above `inner`. -/
def callWith (env : Env σ) (inner : Inner σ) (n : Nat) (f : ScriptFunction) (args : List Value)
    (site : Option SourceLine) : Run σ Value := do
  if args.length != f.arity then raiseCause (.argumentCount f.name f.arity args.length)
  checkDepth env
  let scope ← pushScope f.closure f.name
  bindParams scope f.params args
  keepingLine (inFrame ⟨f.name, args, site⟩ do
    note env fun view => do
      let shown := String.intercalate ", " (← args.mapM fun v => v.describe view)
      return s!"call {f.name} [{shown}]"
    let v ← execUntil env inner n scope Value.isReturn f.body
    return (v.map Value.withoutFlags).getD .null)

/-- Print values in one line. -/
def printLine (env : Env σ) (args : List HostValue) : Run σ Unit := do
  let view ← view env
  let texts ← orFault (args.mapM fun h => (Value.ofHost h).text view)
  emit .stdout (String.intercalate " " texts)

/-- Call something that belongs to the host, one step above `inner`. -/
def callHostWith (env : Env σ) (inner : Inner σ) (h : HostValue) (args : List HostValue) :
    Run σ HostValue := do
  match h with
  | .callable f => invokeFunction inner f args
  | .output =>
    printLine env args
    return .null
  | .object _ | .method .. => (env.host.call h args).run (answer env inner)
  | h =>
    let name := h.className (← view env)
    raise (.fault ⟨.type, s!"'{name}' object is not callable"⟩)

/-- Run a script in the root scope, one step above `inner`. -/
def runScriptWith (env : Env σ) (inner : Inner σ) (n : Nat) (s : Script) : Run σ (Option Value) := do
  let v ← execAll env inner n rootScope none s.body
  return v.map Value.withoutFlags

mutual

/-- Call a function of a script in at most `n` steps. -/
def callFunction (env : Env σ) : Nat → ScriptFunction → List Value → Option SourceLine → Run σ Value
  | 0, _, _, _ => throw .exhausted
  | n + 1, f, args, site =>
    callWith env ⟨callFunction env n, callHost env n, runScript env n⟩ n f args site

/-- Call something that belongs to the host in at most `n` steps. -/
def callHost (env : Env σ) : Nat → HostValue → List HostValue → Run σ HostValue
  | 0, _, _ => throw .exhausted
  | n + 1, h, args => callHostWith env ⟨callFunction env n, callHost env n, runScript env n⟩ h args

/-- Run a script in at most `n` steps. -/
def runScript (env : Env σ) : Nat → Script → Run σ (Option Value)
  | 0, _ => throw .exhausted
  | n + 1, s => runScriptWith env ⟨callFunction env n, callHost env n, runScript env n⟩ n s

end

/-- The ways into the machine, with `n` steps. -/
def Env.inner (env : Env σ) (n : Nat) : Inner σ := ⟨callFunction env n, callHost env n, runScript env n⟩

end LineScript
