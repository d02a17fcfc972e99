import LineScript.Evaluator
import LineScript.Proofs.Runs

/-!
# The line under way

Every node of a script puts its own line under way, and nothing puts the line before it back but
the end of a call.  So a call leaves the line as it found it, whatever it ends with; and where
the host starts no other text, so does what the host does.  The evaluation of an expression that
stands on one line then ends on that line, also after calls of functions from elsewhere.

## Main definitions

* `Run.StaysAt` — a run that leaves a line under way.
* `NameClass` — a class of runs that names are looked up in.
* `Host.Quiet` — a host that starts no text of its own.
* `Expr.OnLine` — all nodes of an expression stand on one line.

## Main results

* `callFunction_staysAt` — **a call leaves the line as it found it.**
* `Inner.KeepsLine.callHostWith` — under a quiet host so does a call of the host.
* `Inner.KeepsLine.eval` — an expression that stands on a line is evaluated on it.
-/

namespace LineScript

open Run

variable {σ α β : Type}

/-! ### Runs that leave a line under way -/

/-- The end of a run on a line: an error of the script that has no line yet is given the line that
is under way then. -/
def Run.stamped (l : Option SourceLine) : Except Stop α → Except Stop α
  | .error (.raised r) => .error (.raised { r with failure := r.failure.stamp l })
  | r => r

variable {line : SourceLine} {env : Env σ} {l : Option SourceLine}

theorem Run.outcome_atLine {x : Run σ α} {m m' : Machine σ} {r : Except Stop α}
    (h : outcome x { m with line := some line } = (r, m')) :
    outcome (atLine line x) m = (stamped m'.line r, m') := by
  refine (outcome_bind_of_ok _ rfl).trans ((outcome_attempt_bind _ h).trans ?_)
  rcases r with (_ | _) | _ <;> rfl

theorem Run.outcome_of_atLine {x : Run σ α} {m m' : Machine σ} {a : α}
    (h : outcome (atLine line x) m = (.ok a, m')) :
    outcome x { m with line := some line } = (.ok a, m') := by
  rcases hx : outcome x { m with line := some line } with ⟨(r | _) | b, m₁⟩
  all_goals rw [outcome_atLine hx] at h; cases h
  rfl

/-- A run that, begun on a line, ends on it, whatever it ends with. -/
def Run.StaysAt (l : Option SourceLine) (x : Run σ α) : Prop :=
  ∀ m, m.line = l → (outcome x m).2.line = l

namespace Run.StaysAt

variable {l : Option SourceLine} {x : Run σ α} {f : α → Run σ β}

theorem pure (a : α) : StaysAt l (Pure.pure a : Run σ α) := fun _ hm => hm

theorem throw (e : Stop) : StaysAt l (MonadExcept.throw e : Run σ α) := fun _ hm => hm

theorem bind (hx : StaysAt l x) (hf : ∀ a, StaysAt l (f a)) : StaysAt l (x >>= f) := by
  intro m hm
  have hx' := hx m hm
  rcases h : outcome x m with ⟨e | a, m'⟩ <;> rw [h] at hx'
  · rw [outcome_bind_of_error f h]
    exact hx'
  · rw [outcome_bind_of_ok f h]
    exact hf a m' hx'

/-- A first step that is taken in one case only. -/
theorem bindIf {c : Prop} [Decidable c] {x : Run σ Unit} {f : Unit → Run σ β} (hx : StaysAt l x)
    (hf : StaysAt l (f ())) : StaysAt l (if c then x >>= f else f ()) := by
  split
  · exact hx.bind fun _ => hf
  · exact hf

theorem attempt (hx : StaysAt l x) : StaysAt l (Run.attempt x) := hx

theorem resume (r : Except Stop α) : StaysAt l (Run.resume r : Run σ α) := fun _ hm => hm

theorem raise (e : Failure) : StaysAt l (Run.raise e : Run σ α) := fun _ hm => hm

theorem orRaise (r : Except Failure α) : StaysAt l (Run.orRaise r : Run σ α) := by
  cases r with
  | ok a => exact pure a
  | error e => exact raise e

theorem orFault (r : Except Fault α) : StaysAt l (Run.orFault r : Run σ α) := orRaise _

/-- Looking at the machine changes nothing. -/
theorem look {f : Machine σ → Run σ β} (hf : ∀ m, StaysAt l (f m)) : StaysAt l (get >>= f) :=
  bind (fun _ hm => hm) hf

theorem guarded (hx : StaysAt l x) : StaysAt l (Run.guarded x) := by
  refine hx.attempt.bind fun r => ?_
  rcases r with (⟨id, _ | f⟩ | _) | _
  · exact resume _
  · dsimp only
    split
    · exact throw _
    · exact raise _
  · exact resume _
  · exact resume _

theorem inFrame (frame : Frame) (hx : StaysAt l x) : StaysAt l (Run.inFrame frame x) := by
  intro m hm
  rcases h : outcome x (m.enter frame) with ⟨r, m'⟩
  have hm' : m'.line = l := by
    have := hx (m.enter frame) hm
    rwa [h] at this
  rw [outcome_inFrame h]
  show (recorded r m').line = l
  unfold recorded
  split
  · show (if _ then m' else _ : Machine σ).line = l
    split <;> exact hm'
  · exact hm'

/-- The line before is put back. -/
theorem keepingLine (x : Run σ α) : StaysAt l (Run.keepingLine x) := by
  intro m hm
  rcases h : outcome x m with ⟨r, m'⟩
  rw [outcome_keepingLine h]
  exact hm

theorem atLine (hx : StaysAt (some line) x) : StaysAt (some line) (Run.atLine line x) := by
  intro m _
  have hx' := hx { m with line := some line } rfl
  rcases h : outcome x { m with line := some line } with ⟨r, m'⟩
  rw [h] at hx'
  rw [outcome_atLine h]
  exact hx'

end Run.StaysAt

/-! ### Calls -/

section Calls

variable {env : Env σ} {inner : Inner σ} {l : Option SourceLine}

theorem checkDepth_staysAt : StaysAt l (checkDepth env) := by
  refine .look fun m => ?_
  split
  · exact .raise _
  · exact .pure _

theorem bindParams_staysAt (scope : Nat) : ∀ (params : List String) (args : List Value),
    StaysAt l (bindParams scope params args : Run σ Unit)
  | [], _ => .pure ()
  | _ :: _, [] => .pure ()
  | _ :: ps, _ :: vs => .bind (fun _ hm => hm) fun _ => bindParams_staysAt scope ps vs

/-- A call puts the line back that was under way before it, whatever is done in it. -/
theorem call_staysAt (f : ScriptFunction) (args : List Value) (body : Nat → Run σ α) :
    StaysAt l (do
      if args.length != f.arity then raiseCause (.argumentCount f.name f.arity args.length)
      checkDepth env
      let scope ← pushScope f.closure f.name
      bindParams scope f.params args
      keepingLine (body scope)) :=
  .bindIf (.raise _) <| checkDepth_staysAt.bind fun _ => .bind (fun _ hm => hm) fun _ =>
    (bindParams_staysAt _ f.params args).bind fun _ => .keepingLine _

/-- **A call leaves the line as it found it**, for any number of steps. -/
theorem callFunction_staysAt : ∀ (n : Nat) (f : ScriptFunction) (args : List Value)
    (site : Option SourceLine), StaysAt l (callFunction env n f args site)
  | 0, _, _, _ => .throw _
  | _ + 1, f, args, _ => call_staysAt f args _

end Calls

/-! ### Hosts that start no text -/

/-- A request that runs no other text. -/
def Request.Quiet : Request → Prop
  | .eval _ | .handle _ => False
  | _ => True

/-- Host code that never asks for another text to be run. -/
def HostProgram.Quiet : HostProgram σ → Prop
  | .done _ | .fail _ | .rethrow _ => True
  | .read next => ∀ state, (next state).Quiet
  | .write _ next => next.Quiet
  | .ask asked next => asked.Quiet ∧ ∀ reply, (next reply).Quiet

/-- A host that starts no text of its own, whatever it is called for. -/
structure Host.Quiet (host : Host σ) : Prop where
  call : ∀ h args, (host.call h args).Quiet
  operate : ∀ op h a, (host.operate op h a).Quiet

/-- Ways back into the machine that leave every line as they found it. -/
structure Inner.KeepsLine (inner : Inner σ) : Prop where
  call : ∀ {l} f args site, StaysAt l (inner.call f args site)
  callHost : ∀ {l} h args, StaysAt l (inner.callHost h args)

namespace Inner.KeepsLine

variable {env : Env σ} {inner : Inner σ} {l : Option SourceLine} (hi : inner.KeepsLine)

include hi

theorem invokeFunction (f : ScriptFunction) (args : List HostValue) :
    StaysAt l (invokeFunction inner f args) := by
  refine .bind (fun _ hm => hm) fun _ => .bindIf ?_ ((hi.call _ _ _).bind fun _ => .pure _)
  exact fun _ hm => hm

theorem answer : ∀ {asked : Request}, asked.Quiet → StaysAt l (answer env inner asked)
  | .call h args, _ => hi.callHost h args
  | .invoke name args, _ => by
    refine .bind (fun _ hm => hm) fun o => ?_
    split
    · exact hi.invokeFunction _ _
    · exact .raise _
  | .set .., _ | .get _, _ => .bind (fun _ hm => hm) fun _ => .pure _

theorem program : ∀ {program : HostProgram σ}, program.Quiet →
    StaysAt l (program.run (LineScript.answer env inner)) := by
  intro program
  induction program with
  | done value => exact fun _ => .pure value
  | fail failure => exact fun _ => .raise failure
  | rethrow raised => exact fun _ => .throw _
  | read next ih => exact fun hq => .look fun m => ih m.host (hq m.host)
  | write state next ih => exact fun hq => .bind (fun _ hm => hm) fun _ => ih hq
  | ask asked next ih =>
    intro hq
    simp only [HostProgram.run]
    refine (hi.answer hq.1).attempt.bind fun reply => ?_
    rcases reply with (r | _) | value
    · exact ih _ (hq.2 _)
    · exact .throw _
    · exact ih _ (hq.2 _)

theorem callHostWith (hquiet : env.host.Quiet) (h : HostValue) (args : List HostValue) :
    StaysAt l (callHostWith env inner h args) := by
  cases h with
  | callable f => exact hi.invokeFunction f args
  | output =>
    refine .bind (.bind (fun _ hm => hm) fun view => ?_) fun _ => .pure _
    exact (StaysAt.orFault _).bind fun _ => fun _ hm => hm
  | object | method => exact hi.program (hquiet.call _ args)
  | _ => exact .bind (fun _ hm => hm) fun _ => .raise _

end Inner.KeepsLine

/-! ### Expressions -/

mutual

/-- All nodes of an expression stand on a line. -/
def Expr.OnLine (l : SourceLine) : Expr → Prop
  | .literal line _ | .reference line _ => line = l
  | .operation line _ _ left right => line = l ∧ left.OnLine l ∧ right.OnLine l
  | .negation line operand => line = l ∧ operand.OnLine l
  | .call line _ args => line = l ∧ AllOnLine l args

/-- All nodes of some expressions stand on a line. -/
def AllOnLine (l : SourceLine) : List Expr → Prop
  | [] => True
  | e :: es => e.OnLine l ∧ AllOnLine l es

end

/-- A class of runs that holds what looking up a name is put together from; what is asked of the host
is guarded. -/
structure NameClass (env : Env σ) where
  /-- The runs of the class. -/
  has : ∀ {α : Type}, Run σ α → Prop
  pure : ∀ {α : Type} (a : α), has (Pure.pure a)
  bind : ∀ {α β : Type} {x : Run σ α} {f : α → Run σ β}, has x → (∀ a, has (f a)) → has (x >>= f)
  get : has MonadState.get
  raiseCause : ∀ {α : Type} (c : Cause), has (Run.raiseCause c : Run σ α)
  member : ∀ holder path, has (guarded (memberOf env holder path))
  named : ∀ name, has (guarded (resolveName env name))

namespace NameClass

variable (C : NameClass env) (scope : Nat) (name : String)

theorem resolveUnbound : C.has (resolveUnbound env scope name) := by
  unfold LineScript.resolveUnbound
  rcases env.symbols.stripGlobal name with ⟨isGlobal, bare⟩
  dsimp only
  rcases splitHead bare with ⟨head, rest⟩
  -- the holder of a member is looked up only when the name has a dot
  refine C.bind C.get fun m => ?_
  dsimp only
  split <;> refine C.bind ?_ fun holder => ?_
  · exact C.pure none
  rotate_left
  · exact C.bind C.get fun _ => C.pure _
  all_goals
    cases holder with
    | some holder => exact C.bind (C.member holder rest) fun _ => C.pure _
    | none => exact C.bind (C.named bare) fun _ => C.pure _

theorem reference : C.has (reference env scope name) := by
  refine C.bind (C.bind C.get fun _ => C.pure _) fun o => ?_
  cases o with
  | some v => exact C.pure v
  | none =>
    refine C.bind (C.resolveUnbound scope name) fun found => ?_
    split <;> exact C.pure _

theorem callee : C.has (callee env scope name) := by
  have hcallable : ∀ (h : HostValue) (name : String), C.has (do
      if h.isCallable (← view env) then return Callee.host h
      else Run.raiseCause (.notFunction name)) := by
    intro h name
    refine C.bind (C.bind C.get fun _ => C.pure _) fun view => ?_
    split
    · exact C.pure _
    · exact C.raiseCause _
  refine C.bind (C.bind C.get fun _ => C.pure _) fun o => ?_
  cases o with
  | some v =>
    dsimp only
    split
    · exact C.pure _
    · exact hcallable _ _
    · exact C.raiseCause _
  | none =>
    refine C.bind (C.resolveUnbound scope name) fun found => ?_
    obtain ⟨bare, _ | h⟩ := found
    · exact C.raiseCause _
    · exact hcallable h bare

end NameClass

/-- Names are looked up on the line under way. -/
def staysAt (env : Env σ) (l : Option SourceLine) : NameClass env where
  has := StaysAt l
  pure := .pure
  bind := .bind
  get _ hm := hm
  raiseCause _ := .raise _
  member holder path := by
    unfold memberOf
    split
    · exact .guarded (.raise _)
    · exact .guarded (.raise _)
    · exact .guarded (.bind (fun _ hm => hm) fun _ => .orRaise _)
  named _ := .guarded (.bind (fun _ hm => hm) fun _ => .look fun _ => .orRaise _)

namespace Inner.KeepsLine

variable {env : Env σ} {inner : Inner σ} (hi : inner.KeepsLine)

include hi

theorem arithmetic (hquiet : env.host.Quiet) (out : Value → HostValue) (name : Option Key)
    (left right : Value) : StaysAt l (arithmetic env inner out name left right) := by
  unfold LineScript.arithmetic
  split
  · exact .raise _
  · refine .bind (fun _ hm => hm) fun _ => (StaysAt.orRaise _).bind fun c => ?_
    cases c with
    | value v => exact .pure v
    | delegated receiver => exact (hi.program (hquiet.operate _ _ _)).bind fun _ => .pure _

theorem callNamed (line : SourceLine) (name : String) (target : Callee) (args : List Value) :
    StaysAt (some line) (callNamed env inner line name target args) := by
  refine .bind (fun _ _ => rfl) fun _ => ?_
  cases target with
  | script f => exact hi.call _ _ _
  | host h =>
    refine checkDepth_staysAt.bind fun _ => ?_
    exact ((hi.callHost _ _).guarded.inFrame _).bind fun _ => .pure _

end Inner.KeepsLine

theorem importPath_staysAt (path : String) : StaysAt l (importPath env path) :=
  .look fun _ => (StaysAt.orRaise _).bind fun _ => fun _ hm => hm

theorem condition_staysAt (v : Value) : StaysAt l (condition env v) :=
  .bind (fun _ hm => hm) fun _ => .orFault _

namespace Inner.KeepsLine

variable {env : Env σ} {inner : Inner σ}

mutual

/-- **An expression that stands on a line is evaluated on it**: whatever functions it called, the
line is under way again afterwards. -/
theorem eval (hi : inner.KeepsLine) (hquiet : env.host.Quiet) (scope : Nat) :
    ∀ {l : SourceLine} {e : Expr}, e.OnLine l → StaysAt (some l) (e.eval env inner scope)
  | _, .literal _ _, h => by
    obtain rfl := h
    rw [Expr.eval]
    exact .atLine (.pure _)
  | _, .reference _ name, h => by
    obtain rfl := h
    rw [Expr.eval]
    exact .atLine ((staysAt env _).reference scope name)
  | _, .operation _ .logical op left right, h => by
    obtain ⟨rfl, hl, hr⟩ := h
    rw [Expr.eval]
    refine .atLine ((eval hi hquiet scope hl).bind fun a =>
      (condition_staysAt a).bind fun first => ?_)
    split
    · exact .pure _
    · split
      · exact .pure _
      · exact (eval hi hquiet scope hr).bind fun b =>
          (condition_staysAt b).bind fun _ => .pure _
  | _, .operation _ .comparison op left right, h => by
    obtain ⟨rfl, hl, hr⟩ := h
    rw [Expr.eval]
    exact .atLine ((eval hi hquiet scope hl).bind fun _ =>
      (eval hi hquiet scope hr).bind fun _ =>
        .bind (fun _ hm => hm) fun _ => .orRaise _)
  | _, .operation _ .arithmetic op left right, h => by
    obtain ⟨rfl, hl, hr⟩ := h
    rw [Expr.eval]
    exact .atLine ((eval hi hquiet scope hl).bind fun _ =>
      (eval hi hquiet scope hr).bind fun _ => (hi.arithmetic hquiet _ _ _ _).guarded)
  | _, .negation _ operand, h => by
    obtain ⟨rfl, ho⟩ := h
    rw [Expr.eval]
    exact .atLine ((eval hi hquiet scope ho).bind fun _ => .orRaise _)
  | _, .call _ name args, h => by
    obtain ⟨rfl, hargs⟩ := h
    rw [Expr.eval]
    exact .atLine (.bind ((staysAt env _).callee scope name) fun _ =>
      (evalAll hi hquiet scope hargs).bind fun _ => hi.callNamed _ _ _ _)

/-- Arguments that stand on a line are evaluated on it. -/
theorem evalAll (hi : inner.KeepsLine) (hquiet : env.host.Quiet) (scope : Nat) :
    ∀ {l : SourceLine} {es : List Expr}, AllOnLine l es →
      StaysAt (some l) (LineScript.evalAll env inner scope es)
  | _, [], _ => by
    rw [LineScript.evalAll]
    exact .pure []
  | _, e :: es, h => by
    rw [LineScript.evalAll]
    exact (eval hi hquiet scope h.1).bind fun _ =>
      (evalAll hi hquiet scope h.2).bind fun _ => .pure _

end

end Inner.KeepsLine

end LineScript
