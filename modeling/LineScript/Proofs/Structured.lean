import LineScript.Proofs.Discipline

/-!
# Statements that end in one of three ways

The evaluator lets control flow travel with flagged values.  Here is what that comes to, told
without flags: a statement ends normally, or as a block that ran, or with a return.  A branch of
a conditional stops at its first statement that ran or returned; the bodies of loops and
functions go on after a block that ran and stop at a return only; and a call gives the value
that its body returns, or else null.

Expressions, host code and the steps of a call are those of the evaluator, with the calls in
them made in this way too.

## Main definitions

* `Completion` — how a statement ends.
* `Structured.exec`, `Structured.execBody`, `Structured.execBranch` — statements, bodies, branches.
* `Structured.callFunction`, `Structured.callHost`, `Structured.runScript` — calls and whole scripts.

## Main results

* `Structured.execBody_returns_iff` — what a body returns is what its first statement returns that
  returns anything, and nothing after that statement is run.
-/

namespace LineScript

open Run

variable {σ : Type}

/-- How a statement ends. -/
inductive Completion where
  /-- Normally, with a value if it has one. -/
  | normal (value : Option Value)
  /-- As a loop that ended, or a conditional that took a branch. -/
  | ran
  /-- With a return from the call around it. -/
  | returned (value : Value)
  deriving Inhabited

namespace Structured

/-! ### Statements -/

/-- At most `n` rounds of a loop: it ran when its condition fails, unless its body returns. -/
def loop (holds : Run σ Bool) (body : Run σ (Option Value)) : Nat → Run σ Completion
  | 0 => throw .exhausted
  | n + 1 => do
    if ← holds then
      match ← body with
      | some v => return .returned v
      | none => loop holds body n
    else return .ran

mutual

/-- How a statement ends. -/
def exec (env : Env σ) (inner : Inner σ) (n scope : Nat) : Statement → Run σ Completion
  | .expression line e => atLine line do return .normal (some (← e.eval env inner scope))
  | .assignment line name e =>
    atLine line do
      let v ← e.eval env inner scope
      note env fun view => (v.describe view).map fun shown => s!"assign {name} {shown}"
      assign scope name v
      return .normal (some v)
  | .returning line none => atLine line do return .returned .null
  | .returning line (some e) => atLine line do return .returned (← e.eval env inner scope)
  | .importing line target =>
    atLine line do
      guarded (importPath env target)
      return .normal none
  | .conditional line branches otherwise =>
    atLine line do
      match ← execBranches env inner n scope branches with
      | some ending => return ending
      | none => execOtherwise env inner n scope otherwise
  | .loop line holds body =>
    atLine line (loop (do condition env (← holds.eval env inner scope))
      (execBody env inner n scope body) n)
  | .function line name params body =>
    atLine line do
      define env scope name params body
      return .normal none

/-- Run the body of a loop or of a function up to its first return, and give what it returns. -/
def execBody (env : Env σ) (inner : Inner σ) (n scope : Nat) :
    List Statement → Run σ (Option Value)
  | [] => pure none
  | st :: rest => do
    match ← exec env inner n scope st with
    | .returned v => return some v
    | .ran | .normal _ => execBody env inner n scope rest

/-- Run a branch up to its first statement that ran or returned. -/
def execBranch (env : Env σ) (inner : Inner σ) (n scope : Nat) : List Statement → Run σ Completion
  | [] => pure .ran
  | st :: rest => do
    match ← exec env inner n scope st with
    | .returned v => return .returned v
    | .ran => return .ran
    | .normal _ => execBranch env inner n scope rest

/-- Run the first branch whose condition holds, if there is one. -/
def execBranches (env : Env σ) (inner : Inner σ) (n scope : Nat) :
    List Branch → Run σ (Option Completion)
  | [] => pure none
  | .mk _ holds body :: rest => do
    if ← condition env (← holds.eval env inner scope) then
      return some (← execBranch env inner n scope body)
    else execBranches env inner n scope rest

/-- Run the last branch of a conditional, if there is one. -/
def execOtherwise (env : Env σ) (inner : Inner σ) (n scope : Nat) :
    Option (List Statement) → Run σ Completion
  | none => pure (.normal none)
  | some body => execBranch env inner n scope body

end

/-- Run statements to the end, and give the last value. -/
def execAll (env : Env σ) (inner : Inner σ) (n scope : Nat) (last : Option Value) :
    List Statement → Run σ (Option Value)
  | [] => pure last
  | st :: rest => do
    match ← exec env inner n scope st with
    | .normal (some v) | .returned v => execAll env inner n scope (some v) rest
    | .normal none | .ran => execAll env inner n scope last rest

/-! ### Calls -/

/-- Call a function of a script, one step above `inner`. -/
def callWith (env : Env σ) (inner : Inner σ) (n : Nat) (f : ScriptFunction) (args : List Value)
    (site : Option SourceLine) : Run σ Value := do
  if args.length != f.arity then raiseCause (.argumentCount f.name f.arity args.length)
  checkDepth env
  let scope ← pushScope f.closure f.name
  bindParams scope f.params args
  keepingLine (inFrame ⟨f.name, args, site⟩ do
    note env fun view => do
      let shown := String.intercalate ", " (← args.mapM fun v => v.describe view)
      return s!"call {f.name} [{shown}]"
    return (← execBody env inner n scope f.body).getD .null)

mutual

/-- Call a function of a script in at most `n` steps. -/
def callFunction (env : Env σ) : Nat → ScriptFunction → List Value → Option SourceLine → Run σ Value
  | 0, _, _, _ => throw .exhausted
  | n + 1, f, args, site =>
    callWith env ⟨callFunction env n, callHost env n, runScript env n⟩ n f args site

/-- Call something that belongs to the host in at most `n` steps. -/
def callHost (env : Env σ) : Nat → HostValue → List HostValue → Run σ HostValue
  | 0, _, _ => throw .exhausted
  | n + 1, h, args => callHostWith env ⟨callFunction env n, callHost env n, runScript env n⟩ h args

/-- Run a script in at most `n` steps. -/
def runScript (env : Env σ) : Nat → Script → Run σ (Option Value)
  | 0, _ => throw .exhausted
  | n + 1, s =>
    execAll env ⟨callFunction env n, callHost env n, runScript env n⟩ n rootScope none s.body

end

/-- The ways into the machine, with `n` steps. -/
def inner (env : Env σ) (n : Nat) : Inner σ := ⟨callFunction env n, callHost env n, runScript env n⟩

/-! ### What a body returns -/

variable {env : Env σ} {inner : Inner σ} {n scope : Nat}

/-- A body ends with its first statement when that fails or returns, and goes on after it
otherwise. -/
theorem outcome_execBody_cons (st : Statement) (rest : List Statement) (m : Machine σ) :
    outcome (execBody env inner n scope (st :: rest)) m =
      match outcome (exec env inner n scope st) m with
      | (.error e, m₁) => (.error e, m₁)
      | (.ok (.returned v), m₁) => (.ok (some v), m₁)
      | (.ok .ran, m₁) | (.ok (.normal _), m₁) => outcome (execBody env inner n scope rest) m₁ := by
  rw [execBody, outcome_bind]
  rcases outcome (exec env inner n scope st) m with ⟨_ | _ | _ | _, m₁⟩ <;> rfl

/-- Statements that return nothing leave the rest of a body to be run. -/
theorem outcome_execBody_append {before : List Statement} : ∀ {m m₁ : Machine σ},
    outcome (execBody env inner n scope before) m = (.ok none, m₁) → ∀ rest,
      outcome (execBody env inner n scope (before ++ rest)) m =
        outcome (execBody env inner n scope rest) m₁ := by
  induction before with
  | nil =>
    intro m m₁ h rest
    rw [execBody, outcome_pure] at h
    cases h
    rfl
  | cons st before ih =>
    intro m m₁ h rest
    rw [outcome_execBody_cons] at h
    rw [List.cons_append, outcome_execBody_cons]
    rcases hst : outcome (exec env inner n scope st) m with ⟨_ | _ | _ | _, m₂⟩ <;> rw [hst] at h
    · cases h
    · exact ih h rest
    · exact ih h rest
    · cases h

/-- **A body returns what its first returning statement returns**, and nothing of it is run after
that statement. -/
theorem execBody_returns_iff {v : Value} {m' : Machine σ} : ∀ {body : List Statement} {m : Machine σ},
    outcome (execBody env inner n scope body) m = (.ok (some v), m') ↔
      ∃ before st after m₁, body = before ++ st :: after ∧
        outcome (execBody env inner n scope before) m = (.ok none, m₁) ∧
        outcome (exec env inner n scope st) m₁ = (.ok (.returned v), m') := by
  intro body m
  constructor
  · intro h
    induction body generalizing m with
    | nil =>
      rw [execBody, outcome_pure] at h
      cases h
    | cons st rest ih =>
      rw [outcome_execBody_cons] at h
      rcases hst : outcome (exec env inner n scope st) m with ⟨_ | _ | _ | _, m₂⟩ <;> rw [hst] at h
      · cases h
      -- a statement that does not return belongs to those before the first that does
      iterate 2
        · obtain ⟨before, st', after, m₃, hbody, hbefore, hst'⟩ := ih h
          refine ⟨st :: before, st', after, m₃, ?_, ?_, hst'⟩
          · rw [hbody, List.cons_append]
          · rw [outcome_execBody_cons, hst]
            exact hbefore
      · cases h
        exact ⟨[], st, rest, m, rfl, by rw [execBody, outcome_pure], hst⟩
  · rintro ⟨before, st, after, m₁, rfl, hbefore, hst⟩
    rw [outcome_execBody_append hbefore, outcome_execBody_cons, hst]

end Structured

end LineScript
