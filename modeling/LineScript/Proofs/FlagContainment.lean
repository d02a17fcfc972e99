import LineScript.Proofs.FlagPassing
import LineScript.Proofs.Holdings

/-!
# Flags do not leak

Conditionals, loops and returns speak to the statements around them by the flags of a value.  No
flag goes further than that: no scope binds a flagged value, no call is given one, and expressions
and assignments give none.  What a conditional, a loop or a return gives carries exactly one flag,
also when it was handed through several blocks.

## Main definitions

* `Element.Yields` — what an element gives, by the flags of it.
* `Machine.Unflagged` — a machine that holds no flagged value.
* `containment` — the custody of evaluation without flagged values.

## Main results

* `flags_contained` — **flags never leak**, at no point of a run.
-/

namespace LineScript

open Run

variable {σ : Type}

/-! ### What elements give -/

theorem Flags.mem_toList {flag : Flag} {f : Flags} : flag ∈ f.toList ↔ f.has flag = true := by
  unfold toList
  rw [List.mem_filter]
  constructor
  · exact fun h => h.2
  · intro h
    refine ⟨?_, h⟩
    cases flag <;> simp

/-- What a statement gives, by the flags of it. -/
def Statement.Yields : Statement → Option Value → Prop
  | .expression .., o | .assignment .., o => ∃ v, o = some v ∧ v.flags = .none
  | .returning .., o => ∃ v, o = some v ∧ v.flags.toList = [.returning]
  | .loop .., o => ∃ v, o = some v ∧ (v.flags.toList = [.loop] ∨ v.flags.toList = [.returning])
  | .conditional .., o => ∀ v ∈ o, ∃ flag, v.flags.toList = [flag]
  | .function .., o | .importing .., o => o = none

/-- What an element gives, by the flags of it. -/
def Element.Yields : Element → Option Value → Prop
  | .expr _, o => ∃ v, o = some v ∧ v.flags = .none
  | .stmt st, o => st.Yields o

/-- A value that a statement gives carries one flag at most. -/
theorem Statement.Yields.flags {st : Statement} {v : Value} (h : st.Yields (some v)) :
    v.flags = .none ∨ ∃ flag, v.flags.toList = [flag] := by
  cases st with
  | expression | assignment =>
    obtain ⟨_, heq, hv⟩ := h
    cases heq
    exact .inl hv
  | returning line e =>
    obtain ⟨_, heq, hv⟩ := h
    cases heq
    exact .inr ⟨_, hv⟩
  | loop line holds body =>
    obtain ⟨_, heq, hv | hv⟩ := h <;> cases heq <;> exact .inr ⟨_, hv⟩
  | conditional line branches otherwise => exact .inr (h v rfl)
  | function | importing => cases h

/-- A value that ends a branch carries exactly one flag. -/
theorem Statement.Yields.single {st : Statement} {v : Value} (h : st.Yields (some v))
    (hany : v.flags.any = true) : ∃ flag, v.flags.toList = [flag] := by
  obtain hv | hv := h.flags
  · rw [hv] at hany
    cases hany
  · exact hv

/-- A value that returns carries no flag but that. -/
theorem Statement.Yields.returns {st : Statement} {v : Value} (h : st.Yields (some v))
    (hreturn : v.isReturn = true) : v.flags.toList = [.returning] := by
  have hmem : Flag.returning ∈ v.flags.toList := Flags.mem_toList.2 hreturn
  obtain hv | ⟨flag, hv⟩ := h.flags
  · rw [Value.isReturn, Value.hasFlag, hv] at hreturn
    cases hreturn
  · rw [hv] at hmem ⊢
    rw [List.mem_singleton.1 hmem]

/-! ### The custody -/

/-- A machine that holds no flagged value. -/
def Machine.Unflagged (m : Machine σ) : Prop := m.Holds fun v => v.flags = .none

/-- The policy of evaluation: machines hold no flagged value. -/
def unflagged : Policy σ where
  inv := Machine.Unflagged
  step _ _ := True
  refl _ := trivial
  trans _ _ := trivial
  frame call := ∀ v ∈ call.args, v.flags = .none
  aside ha hm := ⟨hm.aside ha, trivial⟩
  enter hframe hm := hm.enter hframe
  leave hm _ := ⟨hm.leave, trivial⟩

/-- Host code has no way to flag a value. -/
theorem safe_unflagged (program : HostProgram σ) {m : Machine σ} (hm : m.Unflagged) :
    program.Safe unflagged (fun _ _ => True) (fun _ _ => True) m :=
  HostProgram.safe_of_unrestricted (fun state hm => ⟨Machine.Holds.hosted hm state, trivial⟩) program
    hm

/-- The custody of evaluation without flagged values; nothing is asked of statements or of the
host. -/
def containment (env : Env σ) : Custody env where
  toPolicy := unflagged
  value _ v := v.flags = .none
  arg _ v := v.flags = .none
  host _ _ := True
  request _ _ := True
  code _ _ := True
  value_mono _ hv := hv
  host_mono _ _ := trivial
  plain hv _ := hv.flags
  combined _ _ h := Value.flags_or_of_combine h
  negated _ h := Value.flags_of_negate h
  bare _ := Value.flags_withoutFlags _
  arg_value hv := hv
  arg_bare _ := Value.flags_withoutFlags _
  arg_frame hargs := hargs
  function _ _ := Value.flags_function _
  ofHost _ := Value.flags_ofHost _
  wrap _ := Value.flags_host _
  toHost _ := trivial
  toHostBare _ := trivial
  callable _ := Value.flags_function _
  lookup hm hv := hm.bound.lookup hv
  member _ _ _ := trivial
  module _ _ := trivial
  namespaces _ _ := trivial
  imports hm _ := ⟨hm.imported _, trivial⟩
  call hm _ _ _ := safe_unflagged _ hm
  operate hm _ _ _ := safe_unflagged _ hm
  request_call _ := callee_unrestricted _
  request_invoke _ := fun _ _ => trivial
  request_set hm _ := ⟨hm.assign _ _ (Value.flags_ofHost _), trivial⟩
  load hm _ := ⟨hm.hosted _, trivial⟩
  parsed _ _ := fun _ _ => trivial
  expr _ := True
  yields := Statement.Yields
  free _ _ := trivial
  expr_literal _ := Value.flags_ofLiteral _
  expr_operation _ := ⟨trivial, trivial⟩
  expr_negation _ := trivial
  expr_call _ := fun _ _ => trivial
  code_expr _ := fun _ _ => trivial
  code_loop _ := fun _ _ => trivial
  code_branch _ := fun _ _ _ _ => trivial
  code_otherwise _ := fun _ _ => trivial
  assign c name hm hv := hm.assign c name hv
  define _ _ _ := Value.flags_function _
  push c name hm := hm.push c name
  body _ := fun _ _ => trivial
  yields_expression hv := ⟨_, rfl, hv⟩
  yields_assignment _ := ⟨_, rfl, rfl⟩
  yields_returning {s v line e} hv := by
    refine ⟨_, rfl, ?_⟩
    rw [Value.flags_withFlag, show v.flags = .none from hv]
    rfl
  yields_importing := rfl
  yields_function := rfl
  yields_skipped := fun _ hv => by cases hv
  yields_ran := fun _ hv => by cases hv; exact ⟨.conditional, rfl⟩
  yields_branch h hany := fun _ hv => by cases hv; exact h.single hany
  yields_ended := ⟨_, rfl, .inl rfl⟩
  yields_loop h hreturn := ⟨_, rfl, .inr (h.returns hreturn)⟩

theorem yields_of_gives {env : Env σ} {s : Scopes} {el : Element} {o : Option Value}
    (h : (containment env).gives s el o) : el.Yields o := by
  cases el with
  | expr e => exact h
  | stmt st => exact h.1

/-- A watch for flagged values has nothing to say. -/
theorem silent_containment (env : Env σ) (alarm : Run σ Unit) :
    (Watch.report Machine.Unflagged Element.Yields alarm).Silent (containment env) :=
  Watch.silent_report alarm (fun _ hm => hm) fun _ _ _ => yields_of_gives

/-- **Flags never leak.**  Whatever a host does with a new runner, the runner holds no flagged
value: none is bound in a scope, none is an argument of an active call, and none is an argument of a
recorded one.  From a machine that holds none, with any host and any number of steps, and whatever
the run ends with: expressions give values without flags, statements give what their kind says, and
no flagged value is held afterwards.  That is so also for every element that is run on the way,
before and after it, and for every call: a watch that gives an alarm at any other machine, or at
any other value that an element gives, never gives it. -/
theorem flags_contained (env : Env σ) (n : Nat) (alarm : Run σ Unit) :
    let w := Watch.report Machine.Unflagged Element.Yields alarm
    (∀ state uses, ((Runner.create env state).useAll uses).machine.Unflagged) ∧
    ∀ m : Machine σ, m.Unflagged →
      (∀ e c, (outcome (Expr.eval env (env.inner n) c e) m).2.Unflagged ∧
        ∀ v m', outcome (Expr.eval env (env.inner n) c e) m = (.ok v, m') → v.flags = .none) ∧
      (∀ st k c, (outcome (Statement.exec env (env.inner n) k c st) m).2.Unflagged ∧
        (∀ o m', outcome (Statement.exec env (env.inner n) k c st) m = (.ok o, m') → st.Yields o) ∧
        outcome (Statement.exec env (env.inner n) k c st) m =
          outcome (Watched.exec w env (Watched.inner w env n) k c st) m) ∧
      ∀ asked, (outcome (answer env (env.inner n) asked) m).2.Unflagged ∧
        outcome (answer env (env.inner n) asked) m =
          outcome (answer env (Watched.inner w env n) asked) m := by
  intro w
  have hw : w.Silent (containment env) := silent_containment env alarm
  have hi := inner_watched hw n
  refine ⟨fun state uses => ?_, fun m hm => ⟨fun e c => ?_, fun st k c => ?_, fun asked => ?_⟩⟩
  · exact (containment env).kept_useAll uses rfl (Machine.Holds.create env state rfl)
      fun _ _ _ _ _ => trivial
  · have heval := Custody.required (w := w) (eval_watched hw hi c e trivial hm)
    exact ⟨heval.kept.1, fun v m' h => heval.good_of_outcome h⟩
  · have hexec := exec_watched hw hi k c st trivial hm
    exact ⟨hexec.kept.1, fun o m' h => (hexec.good_of_outcome h).1, hexec.outcome_eq⟩
  · have hasked : (containment env).request m.scopes asked := trivial
    have hanswer := (containment env).answer hi hm hasked
    exact ⟨hanswer.kept.1, hanswer.outcome_eq⟩

/-- The search from five, under a watch that would stop it: it returns three. -/
theorem flags_contained_in_search :
    let asked : Request := .invoke "search" [.integer 5]
    let m := ((Runner.create quietEnv ()).useAll [.set "search" (.function searchDown)]).machine
    let w := Watch.report Machine.Unflagged Element.Yields (throw .exhausted)
    m.Unflagged ∧
      outcome (answer quietEnv (quietEnv.inner 8) asked) m =
        outcome (answer quietEnv (Watched.inner w quietEnv 8) asked) m ∧
      (outcome (answer quietEnv (quietEnv.inner 8) asked) m).1 = .ok (.integer 3) := by
  intro asked m w
  obtain ⟨hrunner, hrun⟩ := flags_contained quietEnv 8 (throw .exhausted)
  have hm : m.Unflagged := hrunner () _
  exact ⟨hm, ((hrun m hm).2.2 asked).2, rfl⟩

end LineScript
