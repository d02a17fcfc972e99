import LineScript.Proofs.Handling
import LineScript.Proofs.HostEvents

/-!
# The messages of a text

The messages of a text that is handled from outside are those that were printed while it ran, in
the order in which they were printed, and behind them, if the run failed, the report of the failure.
A text that host code has handled in the middle of the run throws the messages away that there were
before; what is left then are the messages since.

## Main definitions

* `Event.message?`, `Event.printed?` — the message that an event leaves, and the one that it prints.
* `Event.handles` — whether an event is that of a text that is handled in the middle of a run.
* `sinceCleared` — the events since messages were thrown away.

## Main results

* `messages_of_handled` — **the messages of a text that is handled from outside.**
-/

namespace LineScript

open Run

variable {σ : Type}

namespace Event

/-- The message that an event leaves behind. -/
def message? : Event → Option Effect
  | .printed message => some ⟨.stdout, message⟩
  | .reported message => some ⟨.stderr, message⟩
  | _ => none

/-- The message that is printed. -/
def printed? : Event → Option String
  | .printed message => some message
  | _ => none

/-- Whether an event throws messages away. -/
def clears : Event → Bool
  | .cleared => true
  | _ => false

/-- Whether an event is that of a text that is handled in the middle of a run. -/
def handles : Event → Bool
  | .cleared | .reported _ => true
  | _ => false

theorem ordinary_not_handles : Ordinary fun e => e.handles = false :=
  ⟨fun _ _ => rfl, fun _ _ => rfl, rfl, fun _ => rfl⟩

/-- An event that throws nothing away adds its message to those that there are. -/
theorem onEffects_of_not_clears {e : Event} (h : e.clears = false) (effects : List Effect) :
    onEffects effects e = effects ++ e.message?.toList := by
  cases e with
  | cleared => cases h
  | printed | reported => rfl
  | raised | left | rethrown | forgotten => exact (List.append_nil effects).symm

end Event

/-- The events since messages were thrown away last; all of them when they never were. -/
def sinceCleared : List Event → List Event
  | [] => []
  | e :: rest => if (e :: rest).any Event.clears then sinceCleared rest else e :: rest

variable {events : List Event}

theorem sinceCleared_of_not_any (h : events.any Event.clears = false) :
    sinceCleared events = events := by
  cases events with
  | nil => rfl
  | cons e rest =>
    rw [sinceCleared, h]
    rfl

/-- Messages that are not thrown away stay, and what events leave comes behind them. -/
theorem foldl_onEffects (h : events.any Event.clears = false) (effects : List Effect) :
    events.foldl Event.onEffects effects = effects ++ events.filterMap Event.message? := by
  induction events generalizing effects with
  | nil => exact (List.append_nil effects).symm
  | cons e rest ih =>
    obtain ⟨he, hrest⟩ := Bool.or_eq_false_iff.1 ((List.any_cons).symm.trans h)
    rw [List.foldl_cons, ih hrest, Event.onEffects_of_not_clears he, List.append_assoc]
    cases hmessage : e.message? <;> simp [hmessage]

/-- Once messages are thrown away, what was there before does not matter. -/
theorem foldl_onEffects_of_any (h : events.any Event.clears = true) (effects : List Effect) :
    events.foldl Event.onEffects effects = (sinceCleared events).filterMap Event.message? := by
  induction events generalizing effects with
  | nil => cases h
  | cons e rest ih =>
    rw [sinceCleared, if_pos h, List.foldl_cons]
    cases hrest : rest.any Event.clears with
    | true => exact ih hrest _
    | false =>
      -- this is the last time, so the messages start here
      have he : e.clears = true := by
        rwa [List.any_cons, hrest, Bool.or_false] at h
      rw [sinceCleared_of_not_any hrest]
      cases e with
      | cleared => exact foldl_onEffects hrest []
      | _ => cases he

/-- The messages that events lead to are those since they were thrown away. -/
theorem foldl_onEffects_nil (events : List Event) :
    events.foldl Event.onEffects [] = (sinceCleared events).filterMap Event.message? := by
  cases h : events.any Event.clears with
  | true => exact foldl_onEffects_of_any h []
  | false =>
    rw [sinceCleared_of_not_any h]
    exact foldl_onEffects h []

/-- Where nothing is handled, the messages are those that are printed. -/
theorem messages_sinceCleared (h : ∀ e ∈ events, e.handles = false) :
    (sinceCleared events).filterMap Event.message? =
      (events.filterMap Event.printed?).map fun message => ⟨.stdout, message⟩ := by
  have hclears : events.any Event.clears = false := by
    rw [List.any_eq_false]
    intro e he hclears
    have hhandles := h e he
    cases e with
    | cleared => cases hhandles
    | _ => cases hclears
  rw [sinceCleared_of_not_any hclears, List.map_filterMap]
  refine List.filterMap_congr fun e he => ?_
  have hhandles := h e he
  cases e with
  | reported message => cases hhandles
  | _ => rfl

variable {env : Env σ} {source : HostValue} {m m' : Machine σ} {n : Nat} {o : Outcome}

/-- The messages of a text are those that the events of its run lead to, and those of its report. -/
theorem effects_of_handled (h : Handled env (env.inner n) source m o) (hm : m.effects = #[]) :
    o.effects = ((Chronicle.unit env (Chronicle.inner env n) source).events m).foldl
      Event.onEffects [] ++ o.told := by
  have haccounts := ((Chronicle.unit env (Chronicle.inner env n) source).accounts m).effects
  rw [hm, Chronicle.run_unit] at haccounts
  cases h with
  | success hrun =>
    rw [hrun] at haccounts
    exact haccounts.trans (List.append_nil _).symm
  | failure hrun _ =>
    rw [hrun] at haccounts
    exact congrArg (· ++ _) haccounts

/-- **The messages of a text that is handled from outside:** those that were printed while it ran, in
order, each of them once, and behind them the report, if it failed.  Where a text is handled in the
middle of the run, which only host code brings about, they are the messages since. -/
theorem messages_of_handled (hm : m.calls = [])
    (h : outcome (handleSource env (env.inner n) source) m = (.ok o, m')) :
    let unit := Chronicle.unit env (Chronicle.inner env n) source
    let events := unit.events m.begun
    unit.run = (do (env.inner n).runScript (← parseHost env source)) ∧
      (env.host.Brings (fun e => e.handles = false) → ∀ e ∈ events, e.handles = false) ∧
      ((∀ e ∈ events, e.handles = false) → o.effects =
        ((events.filterMap Event.printed?).map fun message => ⟨.stdout, message⟩) ++ o.told) ∧
      o.effects = (sinceCleared events).filterMap Event.message? ++ o.told := by
  intro unit events
  have heffects : o.effects = (sinceCleared events).filterMap Event.message? ++ o.told := by
    rw [← foldl_onEffects_nil]
    exact effects_of_handled (handled_of_outcome hm h) rfl
  refine ⟨Chronicle.run_unit env n source, fun hhost => ?_, fun hnone => ?_, heffects⟩
  · have hok := Event.ordinary_not_handles
    exact Chronicle.only_unit hok (Chronicle.only_inner hok hhost n) source m.begun
  · rw [heffects, messages_sinceCleared hnone]

/-- A text that prints, has another one handled that prints, prints again and fails. -/
def interruptedText : HostValue := .text "print('a')\nhandle('print(2)')\nprint('b')\n1 / 0"

/-- The messages of the text. -/
def interruptedEffects : List Effect :=
  [⟨.stdout, "2"⟩, ⟨.stdout, "b"⟩, ⟨.stderr,
    "ArithmeticError: Division by zero\n  2 | handle('print(2)')\n  3 | print('b')\n> 4 | 1 / 0"⟩]

/-- They start with the message of the text that was handled in between, and end with the report. -/
theorem messages_interruptedText :
    let m := handlerRunner.machine
    let events := (Chronicle.unit handlerEnv (Chronicle.inner handlerEnv 9) interruptedText).events m.begun
    m.calls = [] ∧ ∃ o m',
      outcome (handleSource handlerEnv (handlerEnv.inner 9) interruptedText) m = (.ok o, m') ∧
        o.effects = (sinceCleared events).filterMap Event.message? ++ o.told ∧
        o.effects = interruptedEffects := by
  intro m events
  have heffects : (outcome (handleSource handlerEnv (handlerEnv.inner 9) interruptedText) m).1.map
      Outcome.effects = .ok interruptedEffects := by
    decide +kernel
  rcases h : outcome (handleSource handlerEnv (handlerEnv.inner 9) interruptedText) m with ⟨e | o, m'⟩
  · rw [h] at heffects
    cases heffects
  · rw [h] at heffects
    obtain ⟨-, -, -, hsince⟩ := messages_of_handled rfl h
    exact ⟨rfl, o, m', rfl, hsince, Except.ok.inj heffects⟩

/-- **A text that is handled in the middle of a run takes messages with it:** the first message of
the text was printed by its own first statement, and it is lost. -/
theorem printed_message_lost :
    let m := handlerRunner.machine
    let source : HostValue := .text "print('a')\nhandle('1')\nprint('b')"
    ((Chronicle.unit handlerEnv (Chronicle.inner handlerEnv 9) source).events m.begun).filterMap
        Event.printed? = ["a", "b"] ∧
      (outcome (handleSource handlerEnv (handlerEnv.inner 9) source) m).1.map Outcome.effects =
        .ok [⟨.stdout, "b"⟩] := by
  decide +kernel

end LineScript
