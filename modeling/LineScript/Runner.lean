import LineScript.Evaluator

/-!
# Runners

A runner is a machine with a root scope that stays from one script to the next.  The host
uses it to bind and read names, to run texts, and to call the functions that they define.

## Main definitions

* `Runner` — a machine and what it runs with.
* `Runner.create` — a runner that has nothing but the function that prints.
* `Runner.set`, `Runner.get`, `Runner.eval`, `Runner.handle`, `Runner.invoke`, `Runner.call` — what
  the host does with a runner.
* `Interface` — script functions under the names that the host wants to see.
-/

namespace LineScript

/-- A machine and what it runs with. -/
structure Runner (σ : Type) where
  /-- What stays the same. -/
  env : Env σ
  /-- The state. -/
  machine : Machine σ

/-- How many steps a run may take. -/
def stepLimit : Nat := 10000000

namespace Runner

variable {σ α : Type}

/-- A runner with an empty root scope, whose global names carry a mark or not. -/
def bare (env : Env σ) (mark : Option String) (state : σ) : Runner σ :=
  ⟨env, { scopes := .root mark "root", host := state }⟩

/-- The runner with a value bound in the root scope. -/
def bind (name : String) (value : Value) (r : Runner σ) : Runner σ :=
  { r with machine :=
      { r.machine with scopes := r.machine.scopes.assign rootScope name value } }

/-- A runner that has nothing but the function that prints. -/
def create (env : Env σ) (state : σ) : Runner σ :=
  (bare env (some env.symbols.globalMark) state).bind "print" (.host .output)

/-- What comes of a run, and the runner after it. -/
def perform (r : Runner σ) (x : Inner σ → Run σ α) : Except Stop α × Runner σ :=
  let (result, machine) := (x (r.env.inner stepLimit)).run.run r.machine
  (result, { r with machine := machine })

/-- What scripts can see of the host. -/
def view (r : Runner σ) : HostView := r.env.host.view r.machine.host

/-- The value of a name in the root scope. -/
def lookup (name : String) (r : Runner σ) : Option Value := r.machine.scopes.lookup rootScope name

/-- The bindings of the root scope, in order. -/
def bindings (r : Runner σ) : Bindings := (r.machine.scopes.get rootScope).bindings

/-- Bind a name in the root scope to a value of the host. -/
def set (name : String) (value : HostValue) (r : Runner σ) : Runner σ := r.bind name (.ofHost value)

/-- Read a name of the root scope; a name that is not bound is nothing. -/
def get (name : String) (r : Runner σ) : HostValue := hostResult (r.lookup name)

/-- The script that a text is. -/
def parse (source : String) (r : Runner σ) : Except Stop Script × Runner σ :=
  r.perform fun _ => Run.parseSource r.env source

/-- Run a text for its value. -/
def eval (source : String) (r : Runner σ) : Except Stop HostValue × Runner σ :=
  r.perform fun inner => evalSource r.env inner (.text source)

/-- Run a text, and report how it ended. -/
def handle (source : String) (r : Runner σ) : Except Stop Outcome × Runner σ :=
  r.perform fun inner => handleSource r.env inner (.text source)

/-- Call the script function of a name. -/
def invoke (name : String) (args : List HostValue) (r : Runner σ) : Except Stop HostValue × Runner σ :=
  r.perform fun inner => invokeName inner name args

/-- Call something that belongs to the host. -/
def call (callee : HostValue) (args : List HostValue) (r : Runner σ) :
    Except Stop HostValue × Runner σ :=
  r.perform fun inner => inner.callHost callee args

/-- The printed form of a value of the host. -/
def print (h : HostValue) (r : Runner σ) : Except Fault String := printHost r.env.symbols r.view h

end Runner

/-- Script functions under the names that the host wants to see; without names, all of them
that are not hidden by an underscore. -/
structure Interface where
  /-- The names. -/
  names : List String
  deriving DecidableEq, Repr, Inhabited

namespace Interface

/-- Whether an interface shows a name. -/
def shows (i : Interface) (name : String) : Bool :=
  !(name.toList.head? == some '_') && (i.names.isEmpty || i.names.contains name)

/-- An interface as it shows itself. -/
def describe (i : Interface) : String := s!"<ScriptInterface {quoteList i.names}>"

/-- Call a function through an interface. -/
def invoke {σ : Type} (i : Interface) (name : String) (args : List HostValue) (r : Runner σ) :
    Except Failure (Except Stop HostValue × Runner σ) :=
  if i.shows name then .ok (r.invoke name args) else .error (.fault ⟨.attribute, name⟩)

end Interface

end LineScript
