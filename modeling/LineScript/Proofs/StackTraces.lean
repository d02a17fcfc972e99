import LineScript.Proofs.Handling
import LineScript.Proofs.HostEvents

/-!
# The calls that a report lists

A failure that leaves a call is recorded with the calls that were active, and it is recorded once:
the calls that it leaves on its way out make no difference.  So a report lists the calls that were
active where the failure was raised.  But a failure that is raised while no call is active is not
recorded, and then the report lists the calls of a failure before it that left a call and that host
code dealt with, if there was one.

## Main definitions

* `unwinding` — the events of a failure on its way out of calls.
* `recalled` — the calls that are on record after events.

## Main results

* `Comes.unwinding` — a failure comes from where it was raised, by way of all calls active there.
* `lt_of_kept` — what is on record when a failure is raised is an earlier failure.
* `recalled_unwinding` — what is on record when a failure has left all calls.
* `calls_of_reported` — **the calls that the report of a text lists.**
-/

namespace LineScript

open Run

/-- The events of a failure on its way out of calls. -/
def unwinding (id : Nat) : List Frame → List Event
  | [] => []
  | frame :: calls => .left id (frame :: calls) :: unwinding id calls

/-- The calls that are on record after events, when nothing was before. -/
def recalled (events : List Event) : List Frame :=
  ((events.foldl Event.onRecord none).map Prod.snd).getD []

/-- Whether host code raises a failure again. -/
def Event.rethrows : Event → Bool
  | .rethrown _ => true
  | _ => false

theorem Event.ordinary_not_rethrows : Event.Ordinary fun e => e.rethrows = false :=
  ⟨fun _ _ => rfl, fun _ _ => rfl, rfl, fun _ => rfl⟩

/-- Whether a failure leaves a call. -/
def Event.leaves : Event → Bool
  | .left _ _ => true
  | _ => false

/-! ### Failures on their way out -/

/-- **A failure comes from where it was raised**, by way of all calls that were active there, but for
those that it has not left yet. -/
theorem Comes.unwinding {id : Nat} {base : List Frame} {events : List Event}
    (h : Comes id base events) (hfirst : ∀ e ∈ events, e.rethrows = false) :
    ∃ before calls after, events = before ++ .raised id calls :: after ∧
      after ++ LineScript.unwinding id base = LineScript.unwinding id calls := by
  induction h with
  | raised before base => exact ⟨before, base, [], rfl, rfl⟩
  | rethrown before base =>
    have hlast := hfirst (.rethrown id) (List.mem_append_right before List.mem_cons_self)
    cases hlast
  | @left events frame base _ ih =>
    obtain ⟨before, calls, after, rfl, hafter⟩ := ih fun e he => hfirst e (List.mem_append_left _ he)
    refine ⟨before, calls, after ++ [.left id (frame :: base)], ?_, ?_⟩
    · rw [List.append_assoc, List.cons_append]
    · rw [List.append_assoc]
      exact hafter

/-! ### What is on record -/

/-- **What is on record when a failure is raised is an earlier failure:** failures are numbered in
the order in which they are raised, and only the latest one leaves a call. -/
theorem lt_of_kept {hi id : Nat} {calls : List Frame} {after : List Event} :
    ∀ {before : List Event} {lo : Nat} {latest : Option Nat} {kept : Option (Nat × List Frame)},
      Ordered hi lo latest (before ++ .raised id calls :: after) →
      (∀ e ∈ before, e.rethrows = false) → (∀ k ∈ latest, k < lo) → (∀ k ∈ kept, k.1 < lo) →
        ∀ k ∈ before.foldl Event.onRecord kept, k.1 < id := by
  intro before
  induction before with
  | nil =>
    intro lo latest kept ho _ _ hkept k hk
    exact Nat.lt_of_lt_of_le (hkept k hk) ho.1
  | cons e rest ih =>
    intro lo latest kept ho hfirst hlatest hkept
    have hrest : ∀ e ∈ rest, e.rethrows = false := fun e' he' => hfirst e' (List.mem_cons_of_mem e he')
    cases e with
    | raised id' calls' =>
      refine ih ho.2 hrest (fun k hk => ?_) fun k hk => ?_
      · cases hk
        exact Nat.lt_succ_self id'
      · exact Nat.lt_succ_of_lt (Nat.lt_of_lt_of_le (hkept k hk) ho.1)
    | left id' calls' =>
      obtain ⟨hlast, ho⟩ := ho
      refine ih ho hrest hlatest fun k hk => ?_
      rw [Event.onRecord] at hk
      split at hk
      · exact hkept k hk
      · cases hk
        exact hlatest id' hlast
    | rethrown id' => cases hfirst (.rethrown id') List.mem_cons_self
    | forgotten => exact ih ho hrest hlatest fun k hk => by cases hk
    | printed | cleared | reported => exact ih ho hrest hlatest hkept

/-- A failure that is on record stays as it is while it leaves further calls. -/
theorem foldl_unwinding (id : Nat) (stack : List Frame) : ∀ calls : List Frame,
    (unwinding id calls).foldl Event.onRecord (some (id, stack)) = some (id, stack)
  | [] => rfl
  | frame :: calls => by
    have hsame : Event.onRecord (some (id, stack)) (.left id (frame :: calls)) = some (id, stack) :=
      if_pos (beq_self_eq_true id)
    rw [unwinding, List.foldl_cons, hsame, foldl_unwinding id stack calls]

/-- **What is on record when a failure has left all calls:** the calls that were active where it was
raised.  When none was, what was on record before is there still. -/
theorem recalled_unwinding {id : Nat} {before : List Event} {calls : List Frame}
    (h : ∀ k ∈ before.foldl Event.onRecord none, k.1 < id) :
    recalled (before ++ .raised id calls :: unwinding id calls) =
      if calls.isEmpty then recalled before else calls := by
  have hfold : (before ++ .raised id calls :: unwinding id calls).foldl Event.onRecord none =
      (unwinding id calls).foldl Event.onRecord (before.foldl Event.onRecord none) := by
    rw [List.foldl_append, List.foldl_cons]
    rfl
  rw [recalled, hfold]
  cases calls with
  | nil => rfl
  | cons frame calls =>
    have hother : (before.foldl Event.onRecord none).any (fun k => k.1 == id) = false := by
      cases hkept : before.foldl Event.onRecord none with
      | none => rfl
      | some k => exact beq_false_of_ne (Nat.ne_of_lt (h k hkept))
    have hfirst : Event.onRecord (before.foldl Event.onRecord none) (.left id (frame :: calls)) =
        some (id, frame :: calls) := by
      rw [Event.onRecord, hother]
      rfl
    rw [unwinding, List.foldl_cons, hfirst, foldl_unwinding]
    rfl

/-- Nothing is on record where no failure has left a call. -/
theorem recalled_of_not_leaves {events : List Event} (h : ∀ e ∈ events, e.leaves = false) :
    recalled events = [] := by
  have hnone : events.foldl Event.onRecord none = none := by
    induction events with
    | nil => rfl
    | cons e rest ih =>
      have he := h e List.mem_cons_self
      have hsame : Event.onRecord none e = none := by
        cases e with
        | left => cases he
        | _ => rfl
      rw [List.foldl_cons, hsame, ih fun e' he' => h e' (List.mem_cons_of_mem e he')]
  rw [recalled, hnone]
  rfl

/-! ### Reports -/

variable {σ : Type} {env : Env σ} {source : HostValue} {m m' : Machine σ} {n : Nat}

/-- The calls on record are those that the events of a run lead to. -/
theorem recalled_events {α : Type} (x : Chronicle σ α) (hm : m.record = none)
    {r : Except Stop α} (h : outcome x.run m = (r, m')) :
    (m'.record.map FailureRecord.stack).getD [] = recalled (x.events m) := by
  have hkept := (x.accounts m).kept
  have hnone : m.kept = none := by
    rw [Machine.kept, hm]
    rfl
  rw [h, hnone] at hkept
  rw [recalled, ← hkept, Machine.kept]
  cases m'.record <;> rfl

/-- A run that ends with a failure, from a machine without active calls, ends with the failure on
its way out of all calls; and nothing but an earlier failure was on record when it was raised. -/
theorem Chronicle.unwinding_of_error {α : Type} (x : Chronicle σ α) (hm : m.calls = []) {r : Raised}
    (h : outcome x.run m = (.error (.raised r), m'))
    (hfirst : ∀ e ∈ x.events m, e.rethrows = false) :
    ∃ before calls, x.events m = before ++ .raised r.id calls :: unwinding r.id calls ∧
      ∀ k ∈ before.foldl Event.onRecord none, k.1 < r.id := by
  have haccounts := x.accounts m
  rw [h] at haccounts
  have hcomes : Comes r.id m.calls (x.events m) := haccounts.comes r rfl
  rw [hm] at hcomes
  obtain ⟨before, calls, after, hevents, hafter⟩ := hcomes.unwinding hfirst
  have hunwinding : after = unwinding r.id calls := (List.append_nil after).symm.trans hafter
  subst hunwinding
  have hordered : Ordered m'.fresh m.fresh none (x.events m) := haccounts.ordered
  rw [hevents] at hordered hfirst
  have hbefore : ∀ e ∈ before, e.rethrows = false := fun e he => hfirst e (List.mem_append_left _ he)
  exact ⟨before, calls, hevents,
    lt_of_kept hordered hbefore (fun k hk => by cases hk) fun k hk => by cases hk⟩

/-- **The calls that the report of a text lists**, which is handled from outside.  The report lists
what is on record.  Where host code raises no failure again that it had met, the failure came from
where it was raised, through all calls that were active there, and the report lists just those; but
if none was active, it lists the calls of an earlier failure that left a call, if there was one. -/
theorem calls_of_reported (hm : m.calls = []) {report : Report} {effects : List Effect}
    (h : outcome (handleSource env (env.inner n) source) m = (.ok (.failure report effects), m')) :
    let unit := Chronicle.unit env (Chronicle.inner env n) source
    let events := unit.events m.begun
    unit.run = (do (env.inner n).runScript (← parseHost env source)) ∧
      (env.host.Brings (fun e => e.rethrows = false) → ∀ e ∈ events, e.rethrows = false) ∧
      ∃ r m₁, outcome unit.run m.begun = (.error (.raised r), m₁) ∧
        report.Lists env.symbols (env.host.view m₁.host) (sourceText source) r.failure
          (recalled events) ∧
        ((∀ e ∈ events, e.rethrows = false) → ∃ before calls,
          events = before ++ .raised r.id calls :: unwinding r.id calls ∧
          (calls ≠ [] → recalled events = calls) ∧
          (calls = [] → recalled events = recalled before) ∧
          ((∀ e ∈ before, e.leaves = false) → recalled events = calls)) := by
  intro unit events
  have hunit : unit.run = (do (env.inner n).runScript (← parseHost env source)) :=
    Chronicle.run_unit env n source
  refine ⟨hunit, fun hhost => ?_, ?_⟩
  · have hok := Event.ordinary_not_rethrows
    exact Chronicle.only_unit hok (Chronicle.only_inner hok hhost n) source m.begun
  cases handled_of_outcome hm h with
  | @failure r _ m₁ hrun hreport =>
    rw [← hunit] at hrun
    have hlists := (report_lists hreport).2
    rw [recalled_events unit rfl hrun] at hlists
    refine ⟨r, m₁, hrun, hlists, fun hfirst => ?_⟩
    have hidle : m.begun.calls = [] := hm
    obtain ⟨before, calls, hevents, hlt⟩ := unit.unwinding_of_error hidle hrun hfirst
    have hrecalled : recalled events = if calls.isEmpty then recalled before else calls := by
      rw [show events = _ from hevents]
      exact recalled_unwinding hlt
    refine ⟨before, calls, hevents, fun hcalls => ?_, fun hcalls => ?_, fun hleaves => ?_⟩
    · rw [hrecalled, if_neg fun hempty => hcalls (List.isEmpty_iff.1 hempty)]
    · rw [hrecalled, if_pos (List.isEmpty_iff.2 hcalls)]
    · rw [hrecalled, recalled_of_not_leaves hleaves]
      cases calls <;> rfl

/-! ### After a failure that host code dealt with -/

/-- A text whose host deals with a failure of a function, and that then fails in a statement. -/
def afterFailure (statement : String) : HostValue :=
  .text ("f() #\n~ 1 / 0\n#\nhandle('f()')\n" ++ statement)

/-- The report of a failure in the same function, called by the text itself. -/
def secondReport : String :=
  "ArithmeticError: Division by zero\n  1 | f() #\n> 2 | ~ 1 / 0\n  3 | #\n  4 | handle('f()')\n" ++
    "Caju stacktrace:\n  f() at line 5"

/-- It lists this call only. -/
theorem calls_of_second_failure :
    let m := handlerRunner.machine
    let source := afterFailure "f()"
    let events := (Chronicle.unit handlerEnv (Chronicle.inner handlerEnv 9) source).events m.begun
    m.calls = [] ∧ (∀ e ∈ events, e.rethrows = false) ∧ ∃ report effects m',
      outcome (handleSource handlerEnv (handlerEnv.inner 9) source) m =
        (.ok (.failure report effects), m') ∧
      report.message = secondReport ∧
      (∃ before id calls, events = before ++ .raised id calls :: unwinding id calls ∧
        (calls ≠ [] → recalled events = calls)) ∧
      (recalled events).map (fun call => (call.name, call.site.map SourceLine.number)) =
        [("f", some 5)] := by
  intro m source events
  have htold : (outcome (handleSource handlerEnv (handlerEnv.inner 9) source) m).1.map Outcome.told =
      .ok [⟨.stderr, secondReport⟩] := by
    decide +kernel
  have hany : events.any Event.rethrows = false := by decide +kernel
  have hfirst : ∀ e ∈ events, e.rethrows = false := fun e he =>
    Bool.eq_false_iff.2 (List.any_eq_false.1 hany e he)
  have hrecalled : (recalled events).map (fun call => (call.name, call.site.map SourceLine.number)) =
      [("f", some 5)] := by
    decide +kernel
  rcases h : outcome (handleSource handlerEnv (handlerEnv.inner 9) source) m with
    ⟨e | ⟨value, effects⟩ | ⟨report, effects⟩, m'⟩ <;> rw [h] at htold
  · cases htold
  · cases htold
  · have hmessage : report.message = secondReport :=
      congrArg Effect.message (List.cons.inj (Except.ok.inj htold)).1
    obtain ⟨-, -, r, -, -, -, hexact⟩ := calls_of_reported rfl h
    obtain ⟨before, calls, hevents, hcalls, -⟩ := hexact hfirst
    exact ⟨rfl, hfirst, report, effects, m', rfl, hmessage, ⟨before, r.id, calls, hevents, hcalls⟩,
      hrecalled⟩

/-- How many calls are active where a failure is raised. -/
def Event.depth? : Event → Option Nat
  | .raised _ calls => some calls.length
  | _ => none

/-- **A failure that is raised while no call is active gets the calls of another one:** those that
were active when the host had met and dealt with the failure of the function. -/
theorem calls_of_other_failure_listed :
    let m := handlerRunner.machine
    let source := afterFailure "1 / 0"
    let events := (Chronicle.unit handlerEnv (Chronicle.inner handlerEnv 9) source).events m.begun
    events.getLast?.bind Event.depth? = some 0 ∧
      (outcome (handleSource handlerEnv (handlerEnv.inner 9) source) m).1.map Outcome.told =
        .ok [⟨.stderr, "ArithmeticError: Division by zero\n" ++
          "  3 | #\n  4 | handle('f()')\n> 5 | 1 / 0\n" ++
          "Caju stacktrace:\n  f() at line 1\n  handle(\"f()\") at line 4"⟩] := by
  decide +kernel

end LineScript
