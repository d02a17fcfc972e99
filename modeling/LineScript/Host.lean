import LineScript.Locator.Loader
import LineScript.Value.Arithmetic

/-!
# The host

Scripts run inside a host that has objects, functions and modules of its own.  What the host
does when it is called is a program: it may look at its own state and change it, and it may
ask the scripts around it for something, as by calling one of their functions.

## Main definitions

* `Raised` — a failure on its way, with an identity of its own.
* `Request` — what host code asks of the scripts around it.
* `HostProgram` — what host code does.
* `Host` — everything that a host provides.
-/

namespace LineScript

/-- A failure on its way.  Two failures that look the same may be different events; the
number tells them apart. -/
structure Raised where
  /-- The number of the event. -/
  id : Nat
  /-- What failed. -/
  failure : Failure
  deriving DecidableEq, Repr, Inhabited

/-- What host code asks of the scripts around it. -/
inductive Request where
  /-- Call something. -/
  | call (callee : HostValue) (args : List HostValue)
  /-- Run a source, which should be a text, and give its value. -/
  | eval (source : HostValue)
  /-- Run a source, which should be a text, and give the status of its outcome. -/
  | handle (source : HostValue)
  /-- Call the script function of a name. -/
  | invoke (name : String) (args : List HostValue)
  /-- Bind a name in the root scope. -/
  | set (name : String) (value : HostValue)
  /-- Read a name from the root scope. -/
  | get (name : String)
  deriving Inhabited

/-- What host code does, over a state of the host. -/
inductive HostProgram (σ : Type) where
  /-- End with a value. -/
  | done (value : HostValue)
  /-- Fail. -/
  | fail (failure : Failure)
  /-- Let a failure that was met go on. -/
  | rethrow (raised : Raised)
  /-- Look at the state. -/
  | read (next : σ → HostProgram σ)
  /-- Change the state. -/
  | write (state : σ) (next : HostProgram σ)
  /-- Ask the scripts for something. -/
  | ask (request : Request) (next : Except Raised HostValue → HostProgram σ)

namespace HostProgram

variable {σ : Type}

/-- One program, and another one with its value. -/
def bind : HostProgram σ → (HostValue → HostProgram σ) → HostProgram σ
  | .done value, k => k value
  | .fail failure, _ => .fail failure
  | .rethrow raised, _ => .rethrow raised
  | .read next, k => .read fun s => (next s).bind k
  | .write state next, k => .write state (next.bind k)
  | .ask request next, k => .ask request fun r => (next r).bind k

/-- The failure of host code. -/
def fault (cls : FaultClass) (message : String) : HostProgram σ := .fail (.fault ⟨cls, message⟩)

/-- Ask for something, and go on with a failure when it fails. -/
def request (r : Request) : HostProgram σ :=
  .ask r fun
    | .ok value => .done value
    | .error raised => .rethrow raised

end HostProgram

/-- Everything that a host provides, over a state of its own. -/
structure Host (σ : Type) where
  /-- What scripts can see of the objects. -/
  view : σ → HostView
  /-- What an object, or a method of one, does when it is called. -/
  call : HostValue → List HostValue → HostProgram σ
  /-- What an object does as the left operand of an operation. -/
  operate : Arithmetic → HostValue → HostValue → HostProgram σ
  /-- The module of a name. -/
  importModule : σ → String → Lookup
  /-- How texts to include are found. -/
  load : Loader σ

end LineScript
