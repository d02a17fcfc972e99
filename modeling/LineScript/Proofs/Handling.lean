import LineScript.Proofs.Expansion
import LineScript.Proofs.Isolation

/-!
# Texts that are handled from outside

A text that is handled while no call is active starts afresh: without messages, without the record
of a failure and with no line under way.  What becomes of it is settled by the run of it.  A run
that gives a value is a success, with the messages that it leaves behind.  A run that fails is
reported: the report names the place of the failure and lists the calls on record, and it is the
last of the messages.

## Main definitions

* `Machine.begun` — the machine on which a text is run that is handled from outside.
* `Outcome.effects`, `Outcome.told` — the messages of an outcome, and those of its report.
* `Handled` — what comes of a text, by the run of it.
* `Report.Lists` — a report that lists calls.

## Main results

* `handled_of_outcome` — what a handled text ends with is settled by its run.
* `report_lists` — a report lists the calls on record.
-/

namespace LineScript

open Run

variable {σ : Type} {env : Env σ} {inner : Inner σ} {source : HostValue} {m m' : Machine σ}

/-- The machine on which a text is run that is handled while no call is active. -/
def Machine.begun (m : Machine σ) : Machine σ :=
  { m with effects := #[], record := none, line := none }

/-- The messages of an outcome. -/
def Outcome.effects : Outcome → List Effect
  | .success _ effects | .failure _ effects => effects

/-- The messages of an outcome that its report leaves. -/
def Outcome.told : Outcome → List Effect
  | .success .. => []
  | .failure report _ => [⟨.stderr, report.message⟩]

/-- `Handled env inner source m o`: on the machine `m`, the source is read and run, and the outcome
is what its end and the machine afterwards say. -/
inductive Handled (env : Env σ) (inner : Inner σ) (source : HostValue) (m : Machine σ) :
    Outcome → Prop where
  | success {v : Option Value} {m₁ : Machine σ} :
    outcome (do inner.runScript (← parseHost env source)) m = (.ok v, m₁) →
      Handled env inner source m (.success (hostResult v) m₁.effects.toList)
  | failure {r : Raised} {report : Report} {m₁ : Machine σ} :
    outcome (do inner.runScript (← parseHost env source)) m = (.error (.raised r), m₁) →
      r.failure.report env.symbols (env.host.view m₁.host) m₁.record m₁.line (sourceText source) =
        .ok report →
      Handled env inner source m
        (.failure report (m₁.effects.toList ++ [⟨.stderr, report.message⟩]))

/-- A result that is given in the place of a failure was there. -/
theorem eq_of_orFault {α : Type} {r : Except Fault α} {a : α}
    (h : outcome (orFault r) m = (.ok a, m')) : r = .ok a ∧ m' = m := by
  cases r with
  | ok b =>
    cases h
    exact ⟨rfl, rfl⟩
  | error f => cases h

/-- **What a handled text ends with is settled by its run.** -/
theorem handled_of_outcome (hm : m.calls = []) {o : Outcome}
    (h : outcome (handleSource env inner source) m = (.ok o, m')) :
    Handled env inner source m.begun o := by
  have hempty : m.calls.isEmpty = true := by
    rw [hm]
    rfl
  unfold handleSource at h
  obtain ⟨_, m₁, h₁, h⟩ := exists_of_outcome_bind h
  cases h₁
  obtain ⟨_, m₂, h₂, h⟩ := exists_of_outcome_bind h
  cases h₂
  dsimp only at h
  rw [if_pos hempty] at h
  obtain ⟨_, m₃, h₃, h⟩ := exists_of_outcome_bind h
  cases h₃
  obtain ⟨_, m₄, h₄, h⟩ := exists_of_outcome_bind h
  cases h₄
  obtain ⟨e, m₅, h₅, h⟩ := exists_of_outcome_bind h
  have hrun : outcome (do inner.runScript (← parseHost env source)) m.begun = (e, m₅) := by
    rw [outcome_attempt] at h₅
    obtain ⟨he, hm₅⟩ := Prod.mk.inj h₅
    exact Prod.ext (Except.ok.inj he) hm₅
  rcases e with (r | _) | v
  · obtain ⟨_, m₆, h₆, htell⟩ := exists_of_outcome_bind h
    cases h₆
    obtain ⟨report, m₇, h₇, hend⟩ := exists_of_outcome_bind htell
    obtain ⟨hreport, rfl⟩ := eq_of_orFault h₇
    clear h htell
    cases hend
    have heffects : (m₇.effects.push ⟨.stderr, report.message⟩).toList =
        m₇.effects.toList ++ [⟨.stderr, report.message⟩] := Array.toList_push
    show Handled env inner source m.begun (.failure report (m₇.effects.push _).toList)
    rw [heffects]
    exact .failure hrun hreport
  · cases h
  · cases h
    exact .success hrun

/-! ### Reports -/

/-- A report that tells of a failure and lists calls, the innermost first; no calls are not
mentioned at all. -/
def Report.Lists (s : Symbols) (view : HostView) (source : String) (f : Failure)
    (calls : List Frame) (report : Report) : Prop :=
  ∃ trace, stackTrace s view calls = .ok trace ∧
    report.message = String.intercalate "\n"
      ([f.headline, (report.token.map (Token.context source)).getD "", trace].filter
        fun part => !part.isEmpty)

/-- **A report lists the calls on record.** -/
theorem report_lists {s : Symbols} {view : HostView} {record : Option FailureRecord}
    {line : Option SourceLine} {source : String} {f : Failure} {report : Report}
    (h : f.report s view record line source = .ok report) :
    report.token = f.token? record line ∧
      report.Lists s view source f ((record.map FailureRecord.stack).getD []) := by
  unfold Failure.report at h
  obtain ⟨trace, htrace, h⟩ := exists_of_bind_eq_ok h
  cases h
  exact ⟨rfl, trace, htrace, rfl⟩

/-! ### A host that handles texts -/

/-- A host with objects that have their first argument handled. -/
def handlerHost : Host Unit :=
  { callbackHost with call := fun _ args => match args with
    | [] => .done .null
    | source :: _ => .request (.handle source) }

/-- The standard symbols with the host that handles texts. -/
def handlerEnv : Env Unit := { symbols := standardSymbols, host := handlerHost }

/-- A runner whose host has bound an object that handles texts. -/
def handlerRunner : Runner Unit := (Runner.create handlerEnv ()).set "handle" (.object 0)

end LineScript
