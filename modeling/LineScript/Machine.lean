import LineScript.Host
import LineScript.Namespace
import LineScript.Scope
import LineScript.Source

/-!
# The machine

A machine holds what a running script changes: the scopes, the line under way, the calls
that are active, what was printed, the imported namespaces and the state of the host.  When
a failure leaves a call, the machine keeps a record of the calls that were active then.

A run of the machine ends with a value, with a failure, or because it took too long; the
machine it leaves behind is there in each case.

## Main definitions

* `Frame`, `FailureRecord`, `Effect`, `Machine` — the state.
* `Env` — what stays the same during a run.
* `Run` — runs of the machine.
* `attempt`, `raise`, `guarded`, `atLine` — runs that fail, and runs that look at failures.
-/

namespace LineScript

/-! ### The state -/

/-- An active call. -/
structure Frame where
  /-- The name that was called. -/
  name : String
  /-- The arguments. -/
  args : List Value
  /-- The line of the call; none for a call by the host. -/
  site : Option SourceLine
  deriving Inhabited

/-- What is kept of a failure. -/
structure FailureRecord where
  /-- The number of the failure. -/
  id : Nat
  /-- The name of its class. -/
  className : String
  /-- The calls that were active, the innermost first. -/
  stack : List Frame
  /-- The line under way. -/
  line : Option SourceLine
  deriving Inhabited

/-- Where a message goes. -/
inductive Topic where
  /-- What the script prints. -/
  | stdout
  /-- Reports of errors. -/
  | stderr
  deriving DecidableEq, Repr, Inhabited

/-- A message that a script leaves behind. -/
structure Effect where
  /-- Where it goes. -/
  topic : Topic
  /-- What it says. -/
  message : String
  deriving DecidableEq, Repr, Inhabited

/-- The state of a machine. -/
structure Machine (σ : Type) where
  /-- The scopes. -/
  scopes : Scopes
  /-- The state of the host. -/
  host : σ
  /-- The line under way. -/
  line : Option SourceLine := none
  /-- The active calls, the innermost first. -/
  calls : List Frame := []
  /-- What is kept of the latest failure. -/
  record : Option FailureRecord := none
  /-- The messages of the script. -/
  effects : Array Effect := #[]
  /-- The imported namespaces. -/
  namespaces : Namespaces := []
  /-- The next number for a function or a failure. -/
  fresh : Nat := 0
  /-- The trace of calls and assignments, when it is wanted. -/
  trace : Array String := #[]

/-- What stays the same during a run. -/
structure Env (σ : Type) where
  /-- The symbols of the language. -/
  symbols : Symbols
  /-- The host. -/
  host : Host σ
  /-- The place that locators are relative to. -/
  base : Option String := none
  /-- How deep calls may be nested. -/
  callLimit : Nat := 220
  /-- Whether a trace is wanted. -/
  tracing : Bool := false

/-- Why a run stops early. -/
inductive Stop where
  /-- Something failed. -/
  | raised (r : Raised)
  /-- The run took too long. -/
  | exhausted
  deriving DecidableEq, Repr, Inhabited

/-- The runs of a machine that give something of type `α`. -/
abbrev Run (σ α : Type) := ExceptT Stop (StateM (Machine σ)) α

namespace Run

variable {σ α : Type}

/-! ### Failures -/

/-- A number that was not used before. -/
def freshId : Run σ Nat :=
  modifyGet fun m => (m.fresh, { m with fresh := m.fresh + 1 })

/-- Fail. -/
def raise (f : Failure) : Run σ α := do
  throw (.raised ⟨← freshId, f⟩)

/-- Fail for a cause whose line is not known yet. -/
def raiseCause (c : Cause) : Run σ α := raise (.ofCause c)

/-- A result, or the failure in its place. -/
def orRaise (r : Except Failure α) : Run σ α :=
  match r with
  | .ok a => pure a
  | .error f => raise f

/-- A result, or the failure of host code in its place. -/
def orFault (r : Except Fault α) : Run σ α := orRaise (r.mapError .fault)

/-- Run, and say how it ended. -/
def attempt (x : Run σ α) : Run σ (Except Stop α) := ExceptT.mk (Except.ok <$> x.run)

/-- End as a run did that was attempted. -/
def resume (r : Except Stop α) : Run σ α := ExceptT.mk (pure r)

/-- Run host code: its failures become errors of the script. -/
def guarded (x : Run σ α) : Run σ α := do
  match ← attempt x with
  | .error (.raised ⟨id, .fault f⟩) =>
    if f.cls == .recursion then throw (.raised ⟨id, .fault f⟩) else raiseCause f.toCause
  | r => resume r

/-- Run on a line: an error of the script that has no line yet is given the line under way. -/
def atLine (line : SourceLine) (x : Run σ α) : Run σ α := do
  modify fun m => { m with line := some line }
  match ← attempt x with
  | .error (.raised r) =>
    throw (.raised { r with failure := r.failure.stamp (← get).line })
  | r => resume r

/-- Keep a record of a failure, unless it is the one that is kept already. -/
def keepRecord (r : Raised) : Run σ Unit :=
  modify fun m =>
    if m.record.any fun kept => kept.id == r.id then m
    else { m with record := some ⟨r.id, r.failure.className, m.calls, m.line⟩ }

/-- Forget the record of a failure. -/
def forgetRecord : Run σ Unit := modify fun m => { m with record := none }

/-- Run with one more active call; a failure that leaves the call is recorded. -/
def inFrame (frame : Frame) (x : Run σ α) : Run σ α := do
  modify fun m => { m with calls := frame :: m.calls }
  let r ← attempt x
  if let .error (.raised raised) := r then keepRecord raised
  modify fun m => { m with calls := m.calls.tail }
  resume r

/-- Run, and go back to the line under way before. -/
def keepingLine (x : Run σ α) : Run σ α := do
  let saved := (← get).line
  let r ← attempt x
  modify fun m => { m with line := saved }
  resume r

/-! ### Parts of the state -/

/-- What scripts can see of the host. -/
def view (env : Env σ) : Run σ HostView := return env.host.view (← get).host

/-- The value of a name in a scope. -/
def lookup (scope : Nat) (name : String) : Run σ (Option Value) :=
  return (← get).scopes.lookup scope name

/-- Bind a name in a scope. -/
def assign (scope : Nat) (name : String) (value : Value) : Run σ Unit :=
  modify fun m => { m with scopes := m.scopes.assign scope name value }

/-- A new scope inside another one. -/
def pushScope (scope : Nat) (name : String) : Run σ Nat :=
  modifyGet fun m =>
    let (id, scopes) := m.scopes.push scope name
    (id, { m with scopes := scopes })

/-- Leave a message. -/
def emit (topic : Topic) (message : String) : Run σ Unit :=
  modify fun m => { m with effects := m.effects.push ⟨topic, message⟩ }

/-- Add a line to the trace, when it is wanted and can be written. -/
def note (env : Env σ) (line : HostView → Except Fault String) : Run σ Unit :=
  modify fun m =>
    if env.tracing then
      match line (env.host.view m.host) with
      | .ok text => { m with trace := m.trace.push ("[DBG] " ++ text) }
      | .error _ => m
    else m

/-- Whether no call is active. -/
def isIdle : Run σ Bool := return (← get).calls.isEmpty

/-- The script that a text is. -/
def parseSource (env : Env σ) (source : String) : Run σ Script := do
  let r ← modifyGet fun m =>
    let (r, host) := LineScript.parse env.symbols env.host.load env.base none source m.host
    (r, { m with host := host })
  orRaise r

end Run

end LineScript
