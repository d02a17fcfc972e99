import LineScript.CommandLine
import LineScript.Proofs.CallBalance
import LineScript.Proofs.Handling
import LineScript.Proofs.OneExpression

/-!
# Input that is run once

A session collects lines as long as a block is open, and runs what it has collected after every
line.  A text with an open block cannot be read, so nothing of it is run: it is turned away, and
all but the state of the loader and the number of the next failure is as it was.  Such a session
runs every line of its input once.

Whether a block is open is told by the words of a report, though, and a report has words of all
kinds: those of the script, of its values and of its files.  A session that is misled by them keeps
what it has run, and runs it again.  So a session runs its input once exactly when it is never
misled.

## Main definitions

* `Runner.endsOpen` — texts that end in an open block.
* `Runner.turnedAway` — what is left of a runner by such a text.
* `Repl.after` — a session after lines of input.
* `Repl.Misled`, `Repl.Candid` — a session that takes a report for one of an open block.
* `Repl.executed` — the texts that a session runs.
* `Repl.Enters` — how a session should go.

## Main results

* `handle_of_endsOpen` — a text that ends in an open block is turned away.
* `Repl.step_cases` — **what one line does to a session.**
* `Repl.collects_iff` — when a session keeps collecting.
* `input_runs_once_iff` — **a session runs every line once exactly when it is never misled.**
-/

namespace LineScript

open Run

variable {σ : Type}

/-! ### Texts that end in an open block -/

/-- An error about a block that has no end. -/
def Cause.isUnclosed : Cause → Bool
  | .unclosed _ => true
  | _ => false

namespace Runner

/-- What comes of reading a text, and the state of the loader after it. -/
def reading (r : Runner σ) (text : String) : Except Failure Script × σ :=
  LineScript.parse r.env.symbols r.env.host.load r.env.base none text r.machine.host

/-- Whether a text ends in an open block: it cannot be read, since a block has no end. -/
def endsOpen (r : Runner σ) (text : String) : Bool :=
  match (r.reading text).1 with
  | .error (.script e) => e.cause.isUnclosed
  | _ => false

/-- The runner after a text that could not be read, with the message about it.  Scopes, namespaces,
calls and the trace are as they were. -/
def turnedAway (r : Runner σ) (text message : String) : Runner σ :=
  { r with machine := { r.machine with
      host := (r.reading text).2
      line := none
      record := none
      effects := #[⟨.stderr, message⟩]
      fresh := r.machine.fresh + 1 } }

theorem endsOpen_iff {r : Runner σ} {text : String} : r.endsOpen text = true ↔
    ∃ e kind, (r.reading text).1 = .error (.script e) ∧ e.cause = .unclosed kind := by
  unfold endsOpen
  constructor
  · intro h
    split at h
    next e he =>
      unfold Cause.isUnclosed at h
      split at h
      next kind hcause => exact ⟨e, kind, he, hcause⟩
      next => cases h
    next => cases h
  · rintro ⟨e, kind, he, hcause⟩
    rw [he]
    dsimp only
    rw [hcause]
    rfl

end Runner

/-! ### Words of a report -/

/-- A text occurs in another one when it is a part of it. -/
theorem Repl.occursIn_iff {part s : List Char} : Repl.occursIn part s = true ↔ part <:+: s := by
  induction s with
  | nil => rw [Repl.occursIn, List.isEmpty_iff, List.infix_nil]
  | cons c s ih =>
    rw [Repl.occursIn, Bool.or_eq_true, ih, List.isPrefixOf_iff_prefix, List.infix_cons_iff]

theorem isPrefix_intercalate (sep first : List Char) (rest : List (List Char)) :
    first <+: sep.intercalate (first :: rest) := by
  cases rest with
  | nil => exact List.intercalate_singleton.symm ▸ List.prefix_rfl
  | cons second rest =>
    rw [List.intercalate_cons_cons, List.append_assoc]
    exact List.prefix_append first _

/-- The report of an open block tells of it. -/
theorem report_unclosed (s : Symbols) (view : HostView) (source : String) {e : ScriptError}
    {kind : BlockKind} (h : e.cause = .unclosed kind) :
    ∃ report, (Failure.script e).report s view none none source = .ok report ∧
      Repl.occursIn "Unclosed".toList report.message.toList = true := by
  obtain ⟨cause, line, text, origin⟩ := e
  cases h
  have hheadline : (Failure.script ⟨.unclosed kind, line, text, origin⟩).headline =
      s!"SyntaxError: Unclosed {kind.label}" := rfl
  have htells : Repl.occursIn "Unclosed".toList
        (s!"SyntaxError: Unclosed {kind.label}").toList = true ∧
      (s!"SyntaxError: Unclosed {kind.label}").isEmpty = false := by
    cases kind <;> decide +kernel
  refine ⟨_, rfl, ?_⟩
  rw [Repl.occursIn_iff] at htells ⊢
  simp only [hheadline]
  rw [String.toList_intercalate, List.filter_cons_of_pos (by rw [htells.2]; rfl), List.map_cons]
  exact htells.1.trans (isPrefix_intercalate _ _ _).isInfix

/-! ### Texts that are turned away -/

/-- A text that is no script is turned away where it is read. -/
theorem outcome_unread {env : Env σ} {inner : Inner σ} {text : String} {m : Machine σ}
    {f : Failure} {state : σ}
    (h : parse env.symbols env.host.load env.base none text m.host = (.error f, state)) :
    outcome (do inner.runScript (← parseHost env (.text text))) m =
      (.error (.raised ⟨m.fresh, f⟩), { m with host := state, fresh := m.fresh + 1 }) := by
  rw [parseHost_text]
  exact outcome_bind_of_error _ (outcome_parseSource_of_error h)

/-- A text whose run fails is reported. -/
theorem outcome_handleSource {env : Env σ} {inner : Inner σ} {source : HostValue} {m m₁ : Machine σ}
    {raised : Raised} {report : Report} (hidle : m.calls = [])
    (hrun : outcome (do inner.runScript (← parseHost env source)) m.begun =
      (.error (.raised raised), m₁))
    (hreport : raised.failure.report env.symbols (env.host.view m₁.host) m₁.record m₁.line
      (sourceText source) = .ok report) :
    outcome (handleSource env inner source) m =
      (.ok (.failure report (m₁.effects.push ⟨.stderr, report.message⟩).toList),
        { m₁ with effects := m₁.effects.push ⟨.stderr, report.message⟩ }) := by
  have hidle' : outcome isIdle { m with effects := #[] } =
      (.ok true, { m with effects := #[] }) := by
    rw [show isIdle = (do return (← get).calls.isEmpty : Run σ Bool) from rfl,
      outcome_bind_of_ok _ (show outcome get _ = (.ok _, _) from rfl), outcome_pure]
    dsimp only
    rw [hidle]
    rfl
  unfold handleSource
  refine (outcome_bind_of_ok (a := ()) _ rfl).trans ?_
  refine (outcome_bind_of_ok _ hidle').trans ?_
  dsimp only
  rw [if_pos rfl]
  refine (outcome_bind_of_ok (a := ()) _ rfl).trans ?_
  refine (outcome_bind_of_ok (a := ()) _ rfl).trans ?_
  refine (outcome_attempt_bind _ hrun).trans ?_
  refine (outcome_bind_of_ok (a := m₁) _ rfl).trans ?_
  rw [hreport]
  rfl

/-- **A text that ends in an open block is turned away**: nothing of it is run, and the report tells
of the block. -/
theorem handle_of_endsOpen {r : Runner σ} {text : String} (hidle : r.machine.calls = [])
    (hopen : r.endsOpen text = true) :
    ∃ report effects, r.handle text =
        (.ok (.failure report effects), r.turnedAway text report.message) ∧
      Repl.occursIn "Unclosed".toList report.message.toList = true := by
  obtain ⟨e, kind, hread, hcause⟩ := Runner.endsOpen_iff.1 hopen
  obtain ⟨report, hreport, htells⟩ := report_unclosed r.env.symbols
    (r.env.host.view (r.reading text).2) text hcause
  have hparse : parse r.env.symbols r.env.host.load r.env.base none text r.machine.host =
      (.error (.script e), (r.reading text).2) := Prod.ext hread rfl
  have hhandle := @outcome_handleSource _ _ (r.env.inner stepLimit) _ _ _ _ _ hidle
    (outcome_unread (m := r.machine.begun) hparse) hreport
  exact ⟨report, _, Runner.perform_of_outcome hhandle, htells⟩

/-! ### Sessions -/

namespace Repl

/-- The session after lines of input; none when one of them asks for the end. -/
def after (r : Repl) : List String → Option Repl
  | [] => some r
  | line :: rest =>
    match r.step line with
    | none => none
    | some (next, _) => next.after rest

/-- The text that is run after one more line. -/
def textWith (r : Repl) (line : String) : String := String.intercalate "\n" (r.pending ++ [line])

/-- Whether a block is open after one more line. -/
def opens (r : Repl) (line : String) : Bool := r.runner.endsOpen (r.textWith line)

/-- The text that is run after one more line fails, and its report speaks of an open block. -/
def SpeaksOfOpen (r : Repl) (line : String) : Prop :=
  ∃ report effects, (r.runner.handle (r.textWith line)).1 = .ok (.failure report effects) ∧
    occursIn "Unclosed".toList report.message.toList = true

/-- The session is misled by a line: no block is open, but the report of a failure speaks as if one
were. -/
def Misled (r : Repl) (line : String) : Prop := r.opens line = false ∧ r.SpeaksOfOpen line

/-- The session is not misled by any of the lines. -/
def Candid (r : Repl) : List String → Prop
  | [] => True
  | line :: rest => ¬ r.Misled line ∧
    ∀ next output, r.step line = some (next, output) → next.Candid rest

/-- The texts that are run, by their lines: all that do not end in an open block. -/
def executed (r : Repl) : List String → List (List String)
  | [] => []
  | line :: rest =>
    let more := match r.step line with
      | none => []
      | some (next, _) => next.executed rest
    if r.opens line then more else (r.pending ++ [line]) :: more

/-- How a session should go.  `Enters r lines texts r'`: the lines take the session `r` to `r'`, and
the texts are run, once each and in this order.  A text is complete with the first line that leaves
no block open; before that it is turned away. -/
inductive Enters : Repl → List String → List (List String) → Repl → Prop where
  | nil (r : Repl) : Enters r [] [] r
  | opened {r r' : Repl} {line : String} {rest : List String} {texts : List (List String)}
      (message : String) : r.opens line = true →
      Enters ⟨r.runner.turnedAway (r.textWith line) message, r.pending ++ [line]⟩ rest texts r' →
      Enters r (line :: rest) texts r'
  | run {r r' : Repl} {line : String} {rest : List String} {texts : List (List String)} :
      r.opens line = false →
      Enters ⟨(r.runner.handle (r.textWith line)).2, []⟩ rest texts r' →
      Enters r (line :: rest) ((r.pending ++ [line]) :: texts) r'

variable {r r' next : Repl} {line : String} {lines : List String} {output : Output}

theorem mayGoOn_of_solid (message : String) (hline : strip line.toList ≠ []) :
    mayGoOn message line = occursIn "Unclosed".toList message.toList := by
  rw [mayGoOn, List.isEmpty_eq_false_iff.2 hline, Bool.not_false, Bool.and_true]

/-- A text is kept exactly when its report speaks of an open block. -/
theorem run_cases (hline : strip line.toList ≠ [])
    (h : next = (r.run (r.pending ++ [line]) line).1) :
    next.runner = (r.runner.handle (r.textWith line)).2 ∧
      (r.SpeaksOfOpen line ∧ next.pending = r.pending ++ [line] ∨
        ¬ r.SpeaksOfOpen line ∧ next.pending = []) := by
  unfold SpeaksOfOpen
  rw [run, ← textWith] at h
  rcases hhandle : r.runner.handle (r.textWith line) with ⟨result, runner⟩
  rw [hhandle] at h
  -- only a failure that is reported can speak of an open block
  have hother : (∀ report effects, result ≠ .ok (.failure report effects)) →
      ¬ ∃ report effects, result = .ok (.failure report effects) ∧
        occursIn "Unclosed".toList report.message.toList = true :=
    fun hne ⟨report, effects, heq, _⟩ => hne report effects heq
  rcases result with (raised | _) | (⟨value, effects⟩ | ⟨report, effects⟩)
  iterate 3
    · subst h
      exact ⟨rfl, .inr ⟨hother (by rintro _ _ ⟨⟩), rfl⟩⟩
  · have hgo := mayGoOn_of_solid report.message hline
    dsimp only at h
    by_cases htells : occursIn "Unclosed".toList report.message.toList = true
    · rw [if_pos (hgo.trans htells)] at h
      subst h
      exact ⟨rfl, .inl ⟨⟨report, effects, rfl, htells⟩, rfl⟩⟩
    · rw [if_neg fun h => htells (hgo.symm.trans h)] at h
      subst h
      refine ⟨rfl, .inr ⟨?_, rfl⟩⟩
      rintro ⟨_, _, heq, htells'⟩
      cases heq
      exact htells htells'

/-- A line that is not blank and does not ask for the end is run with those that are collected. -/
theorem run_of_step (hline : strip line.toList ≠ []) (h : r.step line = some (next, output)) :
    next = (r.run (r.pending ++ [line]) line).1 := by
  have hsolid : (strip line.toList).isEmpty = false := List.isEmpty_eq_false_iff.2 hline
  unfold step at h
  dsimp only at h
  rw [hsolid, Bool.and_false, if_neg Bool.noConfusion] at h
  split at h
  · cases h
  · exact (congrArg Prod.fst (Option.some.inj h)).symm

/-- **What one line does to a session.**  A text with an open block is turned away and kept; any
other text is run, and is kept only when its report misleads the session. -/
theorem step_cases (hidle : r.runner.machine.calls = []) (hline : strip line.toList ≠ [])
    (h : r.step line = some (next, output)) :
    (r.opens line = true ∧ ∃ message,
        next = ⟨r.runner.turnedAway (r.textWith line) message, r.pending ++ [line]⟩) ∨
      (r.opens line = false ∧ ¬ r.Misled line ∧
        next = ⟨(r.runner.handle (r.textWith line)).2, []⟩) ∨
      (r.opens line = false ∧ r.Misled line ∧
        next = ⟨(r.runner.handle (r.textWith line)).2, r.pending ++ [line]⟩) := by
  obtain ⟨hrunner, hpending⟩ := run_cases hline (run_of_step hline h)
  obtain ⟨runner, pending⟩ := next
  dsimp only at hrunner hpending
  subst hrunner
  cases hopen : r.opens line with
  | true =>
    obtain ⟨report, effects, hhandle, htells⟩ := handle_of_endsOpen hidle hopen
    -- the report of an open block speaks of it, so the other ways to end are closed
    have hspeaks : r.SpeaksOfOpen line := ⟨report, effects, congrArg Prod.fst hhandle, htells⟩
    obtain ⟨-, rfl⟩ := hpending.resolve_right fun hsilent => hsilent.1 hspeaks
    rw [congrArg Prod.snd hhandle]
    exact .inl ⟨rfl, report.message, rfl⟩
  | false =>
    rcases hpending with ⟨hspeaks, rfl⟩ | ⟨hsilent, rfl⟩
    · exact .inr (.inr ⟨rfl, ⟨hopen, hspeaks⟩, rfl⟩)
    · exact .inr (.inl ⟨rfl, fun hmisled => hsilent hmisled.2, rfl⟩)

/-- No call is active between the lines of a session. -/
theorem calls_step (hidle : r.runner.machine.calls = []) (hline : strip line.toList ≠ [])
    (h : r.step line = some (next, output)) : next.runner.machine.calls = [] := by
  rw [(run_cases hline (run_of_step hline h)).1]
  exact (r.runner.calls_use (.handle (r.textWith line))).trans hidle

theorem after_cons (h : r.after (line :: lines) = some r') :
    ∃ next output, r.step line = some (next, output) ∧ next.after lines = some r' := by
  rw [after] at h
  split at h
  next => cases h
  next next output hstep => exact ⟨next, output, hstep, h⟩

theorem calls_after (hidle : r.runner.machine.calls = [])
    (hlines : ∀ line ∈ lines, strip line.toList ≠ []) (hafter : r.after lines = some r') :
    r'.runner.machine.calls = [] := by
  induction lines generalizing r with
  | nil =>
    cases hafter
    exact hidle
  | cons line rest ih =>
    obtain ⟨next, output, hstep, hnext⟩ := after_cons hafter
    obtain ⟨hline, hrest⟩ := List.forall_mem_cons.1 hlines
    exact ih (calls_step hidle hline hstep) hrest hnext

/-- A session keeps collecting after a line when a block is open, which changes no scope, and when
it is misled. -/
theorem collects_iff (hidle : r.runner.machine.calls = []) (hline : strip line.toList ≠ [])
    (h : r.step line = some (next, output)) :
    (next.pending ≠ [] ↔ r.opens line = true ∨ r.Misled line) ∧
      (r.opens line = true → next.runner.machine.scopes = r.runner.machine.scopes) := by
  have hkept : r.pending ++ [line] ≠ [] := List.append_ne_nil_of_right_ne_nil _ (by simp)
  rcases step_cases hidle hline h with
    ⟨hopen, message, rfl⟩ | ⟨hopen, hnot, rfl⟩ | ⟨hopen, hmisled, rfl⟩
  · exact ⟨iff_of_true hkept (.inl hopen), fun _ => rfl⟩
  · have hneither : ¬ (r.opens line = true ∨ r.Misled line) :=
      not_or.2 ⟨Bool.eq_false_iff.1 hopen, hnot⟩
    exact ⟨iff_of_false (fun hne => hne rfl) hneither, fun h => absurd (.inl h) hneither⟩
  · exact ⟨iff_of_true hkept (.inr hmisled), fun h => Bool.noConfusion (hopen.symm.trans h)⟩

theorem executed_cons (h : r.step line = some (next, output)) : r.executed (line :: lines) =
    if r.opens line then next.executed lines
    else (r.pending ++ [line]) :: next.executed lines := by
  rw [executed, h]

/-! ### Whole sessions -/

/-- The texts that are run and the lines that are still collected make up the input. -/
theorem Enters.flatten {texts : List (List String)} (h : Enters r lines texts r') :
    texts.flatten ++ r'.pending = r.pending ++ lines := by
  induction h with
  | nil r => rw [List.flatten_nil, List.nil_append, List.append_nil]
  | opened message hopen _ ih => rw [ih, List.append_assoc, List.singleton_append]
  | run hopen _ ih =>
    rw [List.flatten_cons, List.append_assoc, ih, List.nil_append, List.append_assoc,
      List.singleton_append]

/-- A session that is not misled goes as it should. -/
theorem enters_of_candid (hidle : r.runner.machine.calls = [])
    (hlines : ∀ line ∈ lines, strip line.toList ≠ []) (hafter : r.after lines = some r')
    (hcandid : r.Candid lines) : Enters r lines (r.executed lines) r' := by
  induction lines generalizing r with
  | nil =>
    cases hafter
    exact .nil _
  | cons line rest ih =>
    obtain ⟨next, output, hstep, hnext⟩ := after_cons hafter
    obtain ⟨hline, hrest⟩ := List.forall_mem_cons.1 hlines
    have henters := ih (calls_step hidle hline hstep) hrest hnext (hcandid.2 next output hstep)
    rw [executed_cons hstep]
    rcases step_cases hidle hline hstep with
      ⟨hopen, message, rfl⟩ | ⟨hopen, -, rfl⟩ | ⟨-, hmisled, -⟩
    · rw [if_pos hopen]
      exact .opened message hopen henters
    · rw [if_neg (Bool.eq_false_iff.1 hopen)]
      exact .run hopen henters
    · exact absurd hmisled hcandid.1

/-- A session runs no fewer lines than it is given, and more of them when it is misled. -/
theorem length_executed (hidle : r.runner.machine.calls = [])
    (hlines : ∀ line ∈ lines, strip line.toList ≠ []) (hafter : r.after lines = some r') :
    (r.pending ++ lines).length ≤ ((r.executed lines).flatten ++ r'.pending).length ∧
      (¬ r.Candid lines →
        (r.pending ++ lines).length < ((r.executed lines).flatten ++ r'.pending).length) := by
  -- a line is either collected or run with those before it; when it misleads, it is both
  induction lines generalizing r with
  | nil =>
    cases hafter
    exact ⟨by simp [executed], fun hnot => absurd trivial hnot⟩
  | cons line rest ih =>
    obtain ⟨next, output, hstep, hnext⟩ := after_cons hafter
    obtain ⟨hline, hrest⟩ := List.forall_mem_cons.1 hlines
    obtain ⟨hle, hlt⟩ := ih (calls_step hidle hline hstep) hrest hnext
    -- only the rest of the session can mislead it when this line does not
    have hlater : ¬ r.Misled line → ¬ r.Candid (line :: rest) → ¬ next.Candid rest := by
      intro hnot hcandid hlater
      refine hcandid ⟨hnot, fun next' output' hstep' => ?_⟩
      rw [hstep] at hstep'
      cases hstep'
      exact hlater
    rw [executed_cons hstep]
    rcases step_cases hidle hline hstep with
      ⟨hopen, message, heq⟩ | ⟨hopen, hnot, heq⟩ | ⟨hopen, hmisled, heq⟩
    · have hnot : ¬ r.Misled line := fun hmisled => Bool.noConfusion (hmisled.1.symm.trans hopen)
      have hpending : next.pending = r.pending ++ [line] := by rw [heq]
      rw [if_pos hopen]
      simp only [hpending, List.append_assoc, List.singleton_append] at hle hlt
      exact ⟨hle, fun hcandid => hlt (hlater hnot hcandid)⟩
    · have hpending : next.pending = [] := by rw [heq]
      rw [if_neg (Bool.eq_false_iff.1 hopen)]
      simp only [hpending, List.flatten_cons, List.length_append, List.length_cons,
        List.length_nil] at hle hlt ⊢
      refine ⟨by omega, fun hcandid => ?_⟩
      have := hlt (hlater hnot hcandid)
      omega
    · have hpending : next.pending = r.pending ++ [line] := by rw [heq]
      rw [if_neg (Bool.eq_false_iff.1 hopen)]
      simp only [hpending, List.flatten_cons, List.length_append, List.length_cons,
        List.length_nil] at hle ⊢
      exact ⟨by omega, fun _ => by omega⟩

end Repl

theorem Output.append_assoc (a b c : Output) : a ++ b ++ c = a ++ (b ++ c) := by
  show Output.mk _ _ = Output.mk _ _
  rw [Output.mk.injEq]
  exact ⟨String.append_assoc, String.append_assoc⟩

theorem Output.empty_append (a : Output) : ({} : Output) ++ a = a := by
  show Output.mk ("" ++ a.out) ("" ++ a.err) = a
  rw [String.empty_append, String.empty_append]

/-- What a session writes for further lines is what the session after these lines writes. -/
theorem Repl.session_append {r r' : Repl} {lines : List String} (h : r.after lines = some r') :
    ∃ output, ∀ rest, r.session (lines ++ rest) = output ++ r'.session rest := by
  induction lines generalizing r with
  | nil =>
    cases h
    exact ⟨{}, fun rest => (Output.empty_append _).symm⟩
  | cons line lines ih =>
    obtain ⟨next, output, hstep, hafter⟩ := Repl.after_cons h
    obtain ⟨more, hmore⟩ := ih hafter
    refine ⟨r.prompt ++ output ++ more, fun rest => ?_⟩
    rw [List.cons_append, Repl.session, hstep]
    dsimp only
    rw [hmore, ← Output.append_assoc]

/-- **A session runs every line once exactly when it is never misled.**  It keeps collecting after a
line exactly when a block is open, which changes no scope, or when it is misled by a report.  The
texts that are run and the lines that are still collected make up the input if and only if this
never happens, and the session then goes as it should: what is complete is run once, in order. -/
theorem input_runs_once_iff {r r' : Repl} {lines : List String}
    (hidle : r.runner.machine.calls = []) (hlines : ∀ line ∈ lines, strip line.toList ≠ [])
    (hafter : r.after lines = some r') :
    (∃ output, ∀ rest, r.session (lines ++ rest) = output ++ r'.session rest) ∧
      (∀ before line rest r₁ next output, lines = before ++ line :: rest →
        r.after before = some r₁ → r₁.step line = some (next, output) →
        (next.pending ≠ [] ↔ r₁.opens line = true ∨ r₁.Misled line) ∧
          (r₁.opens line = true → next.runner.machine.scopes = r₁.runner.machine.scopes)) ∧
      ((r.executed lines).flatten ++ r'.pending = r.pending ++ lines ↔ r.Candid lines) ∧
      (r.Candid lines → Repl.Enters r lines (r.executed lines) r') := by
  refine ⟨Repl.session_append hafter, ?_, ⟨fun honce => ?_, fun hcandid => ?_⟩,
    Repl.enters_of_candid hidle hlines hafter⟩
  · rintro before line rest r₁ next output rfl hbefore hstep
    have hidle₁ := Repl.calls_after hidle
      (fun l hl => hlines l (List.mem_append_left _ hl)) hbefore
    exact Repl.collects_iff hidle₁ (hlines line (by simp)) hstep
  · by_contra hcandid
    have hlt := (Repl.length_executed hidle hlines hafter).2 hcandid
    rw [honce] at hlt
    exact Nat.lt_irrefl _ hlt
  · exact (Repl.enters_of_candid hidle hlines hafter hcandid).flatten

/-- A new session, with nothing around it. -/
def freshSession : Repl := { runner := commandRunner standardSymbols default "/" }

/-- The lines of a function are collected, and run once. -/
theorem input_runs_once_function :
    let lines := ["add(a, b) #", "  ~ a + b", "#", "add(2, 3)"]
    freshSession.runner.machine.calls = [] ∧ (∀ line ∈ lines, strip line.toList ≠ []) ∧
      ∃ r', freshSession.after lines = some r' ∧ freshSession.Candid lines ∧
        Repl.Enters freshSession lines [["add(a, b) #", "  ~ a + b", "#"], ["add(2, 3)"]] r' := by
  intro lines
  have hlines : ∀ line ∈ lines, strip line.toList ≠ [] := by decide +kernel
  have hsession : (freshSession.executed lines, (freshSession.after lines).map Repl.pending) =
      ([["add(a, b) #", "  ~ a + b", "#"], ["add(2, 3)"]], some []) := by decide +kernel
  obtain ⟨hexecuted, hpending⟩ := Prod.mk.inj hsession
  obtain ⟨r', hafter, hr'⟩ := Option.map_eq_some_iff.1 hpending
  obtain ⟨-, -, honce, henters⟩ := input_runs_once_iff (r := freshSession) rfl hlines hafter
  have hcandid : freshSession.Candid lines := by
    rw [← honce, hexecuted, hr']
    rfl
  exact ⟨rfl, hlines, r', hafter, hcandid, hexecuted ▸ henters hcandid⟩

/-- **A report that quotes the word misleads a session**: the line is run again with the one behind
it, and counts twice. -/
theorem input_runs_twice :
    let lines := ["n = 0", "n = n + 1; Unclosed / 0", "n"]
    freshSession.executed lines =
        [["n = 0"], ["n = n + 1; Unclosed / 0"], ["n = n + 1; Unclosed / 0", "n"]] ∧
      ((freshSession.after lines).map fun r' => (r'.runner.print (r'.runner.get "n")).toOption) =
        some (some "2") := by
  decide +kernel

end LineScript
