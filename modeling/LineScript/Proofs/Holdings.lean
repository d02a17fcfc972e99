import LineScript.Proofs.CallBalance
import LineScript.Proofs.ScopeStore
import LineScript.Proofs.Watching

/-!
# What a machine holds

A machine holds values in three places: in the bindings of its scopes, as the arguments of its
active calls, and as the arguments of the calls that were active when a failure was recorded.  A
watch that reports everything else than good machines and good values is silent under a custody
that knows no others, and whatever a host does with a runner from outside keeps to the custody.

## Main definitions

* `Machine.Holds` — the values that a machine holds have a property.
* `Watch.idle`, `Watch.report` — watches that look at nothing, and at everything.
* `Watch.upTo` — a watch that gives up at the result of an operation.

## Main results

* `Watch.silent_idle`, `Watch.silent_report`, `Watch.silent_upTo` — when these watches have nothing to
  say.
* `Custody.kept_useAll` — **a runner keeps to the custody**, whatever the host does with it.
-/

namespace LineScript

open Run

variable {σ : Type}

/-! ### Machines -/

/-- The values that a machine holds have a property: those that are bound, the arguments of the
active calls, and those of the calls that are recorded. -/
structure Machine.Holds (good : Value → Prop) (m : Machine σ) : Prop where
  bound : m.scopes.All good
  calls : ∀ f ∈ m.calls, ∀ v ∈ f.args, good v
  record : ∀ r, m.record = some r → ∀ f ∈ r.stack, ∀ v ∈ f.args, good v

namespace Machine.Holds

variable {good : Value → Prop} {m m' : Machine σ}

section

variable (h : m.Holds good)

include h

/-- A failure is recorded with calls that are active, so with no other arguments. -/
theorem aside {lines : SourceLine → Prop} (ha : m.Aside lines m') :
    m'.Holds good where
  bound := by
    rw [ha.scopes]
    exact h.bound
  calls := by
    rw [ha.calls]
    exact h.calls
  record r hr f hf := by
    obtain hold | ⟨hnew, -⟩ := ha.record r hr
    · exact h.record r hold f hf
    · rw [hnew] at hf
      exact h.calls f hf

theorem enter {frame : Frame} (hframe : ∀ v ∈ frame.args, good v) : (m.enter frame).Holds good := by
  refine ⟨h.bound, fun f hf => ?_, h.record⟩
  rcases List.mem_cons.1 hf with rfl | hf
  · exact hframe
  · exact h.calls f hf

theorem leave : m.leave.Holds good :=
  ⟨h.bound, fun f hf => h.calls f (List.mem_of_mem_tail hf), h.record⟩

theorem assign (c : Nat) (name : String) {v : Value} (hv : good v) :
    Machine.Holds good { m with scopes := m.scopes.assign c name v } :=
  ⟨h.bound.assign c name hv, h.calls, h.record⟩

theorem push (c : Nat) (name : String) :
    Machine.Holds good { m with scopes := (m.scopes.push c name).2 } :=
  ⟨h.bound.push c name, h.calls, h.record⟩

theorem hosted (state : σ) : Machine.Holds good { m with host := state } :=
  ⟨h.bound, h.calls, h.record⟩

theorem imported (ns : Namespaces) : Machine.Holds good { m with namespaces := ns } :=
  ⟨h.bound, h.calls, h.record⟩

end

/-- A new runner holds the function that prints, and nothing else. -/
theorem create (env : Env σ) (state : σ) (h : good (.host .output)) :
    (Runner.create env state).machine.Holds good := by
  have hbare : (Runner.bare env (some env.symbols.globalMark) state).machine.Holds good :=
    ⟨.root _ _, fun _ hf => absurd hf List.not_mem_nil, fun _ hr => by cases hr⟩
  exact hbare.assign rootScope "print" h

end Machine.Holds

/-! ### Watches -/

/-- Whether an element is an operation of arithmetic. -/
def Element.computes : Element → Bool
  | .expr (.operation _ .arithmetic _ _ _) => true
  | _ => false

namespace Watch

/-- A watch that looks at no machine and at no value. -/
def idle (missing : Run σ Value) (unknown : Run σ Value → Run σ Value) : Watch σ where
  before _ := pure ()
  after _ _ := pure ()
  called := pure ()
  missing := missing
  unknown := unknown

open Classical in
/-- Give an alarm at a machine that has not a property. -/
noncomputable def check (good : Machine σ → Prop) (alarm : Run σ Unit) : Run σ Unit := do
  if good (← get) then pure () else alarm

/-- A watch that gives an alarm at every machine and at every value that is not good, and where a
value is missing. -/
noncomputable def report (machine : Machine σ → Prop) (given : Element → Option Value → Prop)
    (alarm : Run σ Unit) : Watch σ where
  before _ := check machine alarm
  after el o := check (fun m => machine m ∧ given el o) alarm
  called := check machine alarm
  missing := do
    alarm
    return .null
  unknown x := x

/-- Give up, with scopes that tell. -/
def giveUp (mark : Scopes) : Run σ Unit := do
  modify fun m => { m with scopes := mark }
  throw .exhausted

open Classical in
/-- A watch that gives up where an operation of arithmetic gives a value that is lost, and does what
another watch does everywhere else. -/
noncomputable def upTo (lost : Value → Prop) (mark : Scopes) (w : Watch σ) : Watch σ :=
  { w with
    after := fun el o => if el.computes ∧ ∃ v ∈ o, lost v then giveUp mark else w.after el o }

theorem outcome_check {good : Machine σ → Prop} (alarm : Run σ Unit) {m : Machine σ} (h : good m) :
    outcome (check good alarm) m = (.ok (), m) := by
  refine (outcome_bind_of_ok _ (rfl : outcome get m = (.ok m, m))).trans ?_
  rw [if_pos h]
  rfl

variable {env : Env σ} {K : Custody env}

theorem silent_idle {missing : Run σ Value} {unknown : Run σ Value → Run σ Value}
    (h : ∀ {line family op left right}, K.expr (.operation line family op left right) →
      family.knows op = true ∨ ∀ x, unknown x = x)
    (hlost : ∀ v, ¬ K.lost v := by exact fun _ h => h) : (idle missing unknown).Silent K where
  before _ _ := rfl
  after _ _ := rfl
  called _ := rfl
  unknown := h
  lost _ hv := absurd hv (hlost _)

variable {machine : Machine σ → Prop} {given : Element → Option Value → Prop}

theorem silent_report (alarm : Run σ Unit) (hmachine : ∀ m, K.inv m → machine m)
    (hgiven : ∀ s el o, K.gives s el o → given el o)
    (hlost : ∀ v, ¬ K.lost v := by exact fun _ h => h) : (report machine given alarm).Silent K where
  before _ hm := outcome_check alarm (hmachine _ hm)
  after hm hgives := outcome_check alarm ⟨hmachine _ hm, hgiven _ _ _ hgives⟩
  called hm := outcome_check alarm (hmachine _ hm)
  unknown _ := .inr fun _ => rfl
  lost _ hv := absurd hv (hlost _)

/-- Values that are lost are no good ones, so the watch gives up at no good value. -/
theorem silent_upTo {mark : Scopes} (alarm : Run σ Unit) (hmachine : ∀ m, K.inv m → machine m)
    (hgiven : ∀ s el o, K.gives s el o → given el o) (hlost : ∀ s v, K.value s v → ¬ K.lost v)
    (hmark : K.quits mark) : ((report machine given alarm).upTo K.lost mark).Silent K where
  before _ hm := outcome_check alarm (hmachine _ hm)
  after {m el o} hm hgives := by
    have hkept : ¬ (el.computes ∧ ∃ v ∈ o, K.lost v) := by
      rintro ⟨hel, v, hv, hv'⟩
      cases el with
      | stmt st => cases hel
      | expr e =>
        obtain ⟨_, rfl, hgood⟩ := hgives
        cases hv
        exact hlost _ _ hgood hv'
    simp only [upTo, if_neg hkept]
    exact outcome_check alarm ⟨hmachine _ hm, hgiven _ _ _ hgives⟩
  called hm := outcome_check alarm (hmachine _ hm)
  unknown _ := .inr fun _ => rfl
  lost {m line op left right v} _ hv := by
    have hgives : ∃ u ∈ some v, K.lost u := ⟨v, rfl, hv⟩
    refine ⟨{ m with scopes := mark }, ?_, hmark⟩
    simp only [upTo, Element.computes, hgives, and_self, if_true]
    rfl

end Watch

/-! ### Runners -/

namespace Custody

variable {env : Env σ} (K : Custody env)

/-- Every way into the machine keeps to the custody. -/
theorem inner_kept (n : Nat) (hlost : ∀ v, ¬ K.lost v) :
    (env.inner n).Alike K.toRegime (Watched.inner (.idle (throw .exhausted) id) env n) :=
  inner_watched (Watch.silent_idle (fun _ => .inr fun _ => rfl) hlost) n

/-- **A runner keeps to the custody**, whatever the host does with it. -/
theorem kept_useAll (uses : List Use) {r : Runner σ} (henv : r.env = env) (hr : K.inv r.machine)
    (huses : ∀ u ∈ uses, ∀ asked ∈ u.request, ∀ s, K.request s asked)
    (hlost : ∀ v, ¬ K.lost v := by exact fun _ h => h)
    (hquits : ∀ s, ¬ K.quits s := by exact fun _ h => h) : K.inv (r.useAll uses).machine := by
  induction uses generalizing r with
  | nil => exact hr
  | cons u rest ih =>
    have hfirst := K.toRegime.kept_use (K.inner_kept stepLimit hlost) henv hr
      (fun asked hasked => huses u List.mem_cons_self asked hasked _) hquits
    exact ih ((r.env_use u).trans henv) hfirst.1 fun v hv => huses v (List.mem_cons_of_mem u hv)

end Custody

end LineScript
