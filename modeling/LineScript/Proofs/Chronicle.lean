import LineScript.Evaluator
import LineScript.Proofs.Lines

/-!
# Runs with a chronicle

A chronicle is a run together with what happens in it, in order, as far as failures and messages
go: a failure is raised while calls are active, a failure leaves a call, a message is printed, and
so on.  The events account for what the run does to the machine: the record of a failure and the
messages that it leaves behind are those that the events lead to, and a failure that ends the run
is the one that the last events are about.  Every chronicle carries the proof of this, so what is
put together from chronicles accounts for itself.

## Main definitions

* `Event` — what happens in a run.
* `Event.onRecord`, `Event.onEffects` — what an event does to the record and to the messages.
* `Comes` — events that end with a failure on its way out.
* `Accounts` — what events say about a run.
* `Chronicle` — a run with its events.

## Main results

* `Ordered.append` — failures are numbered in the order in which they are raised.
* `Accounts.next` — runs one after the other.
-/

namespace LineScript

open Run

variable {σ α β : Type}

/-! ### Events -/

/-- What happens in a run. -/
inductive Event where
  /-- A failure is raised, while calls are active. -/
  | raised (id : Nat) (calls : List Frame)
  /-- A failure leaves the innermost of the active calls. -/
  | left (id : Nat) (calls : List Frame)
  /-- Host code raises a failure again that it had met and dealt with. -/
  | rethrown (id : Nat)
  /-- What was kept of a failure is forgotten. -/
  | forgotten
  /-- A message is printed. -/
  | printed (message : String)
  /-- The messages are thrown away, since a text is handled. -/
  | cleared
  /-- The failure of a text that is handled is reported. -/
  | reported (message : String)

namespace Event

/-- What is kept of a failure after an event: its number, and the calls that were active. -/
def onRecord (kept : Option (Nat × List Frame)) : Event → Option (Nat × List Frame)
  | .left id calls => if kept.any fun k => k.1 == id then kept else some (id, calls)
  | .forgotten => none
  | _ => kept

/-- The messages after an event. -/
def onEffects (effects : List Effect) : Event → List Effect
  | .printed message => effects ++ [⟨.stdout, message⟩]
  | .reported message => effects ++ [⟨.stderr, message⟩]
  | .cleared => []
  | _ => effects

end Event

/-- What a machine keeps of a failure: its number, and the calls that were active. -/
def Machine.kept (m : Machine σ) : Option (Nat × List Frame) :=
  m.record.map fun r => (r.id, r.stack)

theorem Machine.kept_congr {m m' : Machine σ} (h : m'.record = m.record) : m'.kept = m.kept := by
  rw [kept, kept, h]

/-! ### The order of failures -/

/-- Events whose failures are numbered from `lo` up to `hi`, in the order in which they are raised,
and in which no failure leaves a call but the latest; up to the point where host code raises one
again. -/
def Ordered (hi : Nat) : Nat → Option Nat → List Event → Prop
  | lo, _, [] => lo ≤ hi
  | lo, _, .raised id _ :: rest => lo ≤ id ∧ Ordered hi (id + 1) (some id) rest
  | lo, latest, .left id _ :: rest => latest = some id ∧ Ordered hi lo latest rest
  | _, _, .rethrown _ :: _ => True
  | lo, latest, .forgotten :: rest | lo, latest, .printed _ :: rest | lo, latest, .cleared :: rest
  | lo, latest, .reported _ :: rest => Ordered hi lo latest rest

/-- Events in which no failure from before leaves a call are in order after any others. -/
theorem Ordered.weaken {hi lo lo' : Nat} {events : List Event} (h : Ordered hi lo none events)
    (hle : lo' ≤ lo) (latest : Option Nat) : Ordered hi lo' latest events := by
  induction events with
  | nil => exact Nat.le_trans hle h
  | cons e rest ih =>
    cases e with
    | raised id calls => exact ⟨Nat.le_trans hle h.1, h.2⟩
    | left id calls => cases h.1
    | rethrown id => trivial
    | forgotten | printed | cleared | reported => exact ih h

theorem Ordered.append {hi mid lo : Nat} {latest : Option Nat} {xs ys : List Event}
    (hx : Ordered mid lo latest xs) (hy : Ordered hi mid none ys) :
    Ordered hi lo latest (xs ++ ys) := by
  induction xs generalizing lo latest with
  | nil => exact hy.weaken hx latest
  | cons e rest ih =>
    cases e with
    | raised | left => exact ⟨hx.1, ih hx.2⟩
    | rethrown id => trivial
    | forgotten | printed | cleared | reported => exact ih hx

/-! ### Failures on their way out -/

/-- `Comes id base events`: the events end with the failure `id` on its way out, when all calls are
left but those of `base`. -/
inductive Comes (id : Nat) : List Frame → List Event → Prop where
  | raised (before : List Event) (base : List Frame) : Comes id base (before ++ [.raised id base])
  | rethrown (before : List Event) (base : List Frame) : Comes id base (before ++ [.rethrown id])
  | left {events : List Event} {frame : Frame} {base : List Frame} :
    Comes id (frame :: base) events → Comes id base (events ++ [.left id (frame :: base)])

namespace Comes

variable {id : Nat} {base : List Frame} {events : List Event}

theorem after (h : Comes id base events) (before : List Event) : Comes id base (before ++ events) := by
  induction h with
  | raised xs base =>
    rw [← List.append_assoc]
    exact .raised (before ++ xs) base
  | rethrown xs base =>
    rw [← List.append_assoc]
    exact .rethrown (before ++ xs) base
  | left _ ih =>
    rw [← List.append_assoc]
    exact .left ih

/-- The last of the events is about the failure. -/
theorem last (h : Comes id base events) : ∃ before e, events = before ++ [e] ∧
    (e = .rethrown id ∨ (∃ calls, e = .raised id calls) ∨ ∃ calls, e = .left id calls) := by
  cases h with
  | raised before => exact ⟨before, _, rfl, .inr (.inl ⟨_, rfl⟩)⟩
  | rethrown before => exact ⟨before, _, rfl, .inl rfl⟩
  | left => exact ⟨_, _, rfl, .inr (.inr ⟨_, rfl⟩)⟩

/-- A failure on its way out may leave a further call. -/
theorem ordered {hi lo : Nat} {latest : Option Nat} (h : Comes id base events)
    (ho : Ordered hi lo latest events) (calls : List Frame) :
    Ordered hi lo latest (events ++ [.left id calls]) := by
  obtain ⟨before, e, rfl, he⟩ := h.last
  clear h
  induction before generalizing lo latest with
  | nil =>
    obtain rfl | ⟨cs, rfl⟩ | ⟨cs, rfl⟩ := he
    · trivial
    · exact ⟨ho.1, rfl, ho.2⟩
    · exact ⟨ho.1, ho.1, ho.2⟩
  | cons e' rest ih =>
    cases e' with
    | raised | left => exact ⟨ho.1, ih ho.2⟩
    | rethrown id' => trivial
    | forgotten | printed | cleared | reported => exact ih ho

end Comes

/-! ### Accounts -/

/-- What events say about a run from a machine: which calls are active afterwards, what is kept of a
failure, which messages there are, how failures are numbered, and which failure ends the run. -/
structure Accounts (m : Machine σ) (events : List Event) (out : Except Stop α × Machine σ) : Prop where
  calls : out.2.calls = m.calls
  kept : out.2.kept = events.foldl Event.onRecord m.kept
  effects : out.2.effects.toList = events.foldl Event.onEffects m.effects.toList
  ordered : Ordered out.2.fresh m.fresh none events
  comes : ∀ r, out.1 = .error (.raised r) → Comes r.id m.calls events

namespace Accounts

variable {m m₁ : Machine σ} {xs ys : List Event} {out : Except Stop α × Machine σ} {r : Except Stop β}

/-- Runs one after the other: the end is that of the second one. -/
theorem next (hx : Accounts m xs (r, m₁)) (hy : Accounts m₁ ys out) : Accounts m (xs ++ ys) out where
  calls := hy.calls.trans hx.calls
  kept := by
    rw [List.foldl_append, hy.kept, hx.kept]
  effects := by
    rw [List.foldl_append, hy.effects, hx.effects]
  ordered := hx.ordered.append hy.ordered
  comes e he := by
    have hcalls : m₁.calls = m.calls := hx.calls
    have hcomes := hy.comes e he
    rw [hcalls] at hcomes
    exact hcomes.after xs

/-- A run that ends otherwise, but with no other failure, has the same events. -/
theorem ending {e : Except Stop α} (hx : Accounts m xs (r, m₁))
    (h : ∀ r', e = .error (.raised r') → ∃ r'', r = .error (.raised r'') ∧ r''.id = r'.id) :
    Accounts m xs (e, m₁) where
  calls := hx.calls
  kept := hx.kept
  effects := hx.effects
  ordered := hx.ordered
  comes r' hr' := by
    obtain ⟨r'', hr'', hid⟩ := h r' hr'
    rw [← hid]
    exact hx.comes r'' hr''

/-- Nothing happens in a run that leaves all of this alone. -/
theorem idle (hcalls : m₁.calls = m.calls) (hrecord : m₁.record = m.record)
    (heffects : m₁.effects = m.effects) (hfresh : m.fresh ≤ m₁.fresh) {e : Except Stop α}
    (h : ∀ r', e ≠ .error (.raised r')) : Accounts m [] (e, m₁) where
  calls := hcalls
  kept := Machine.kept_congr hrecord
  effects := congrArg Array.toList heffects
  ordered := hfresh
  comes r' hr' := absurd hr' (h r')

end Accounts

/-! ### Leaves -/

/-- What a leaf does from a machine: it leaves calls, record and messages alone, and fails, if at
all, with a failure of its own. -/
structure Apart (m : Machine σ) (out : Except Stop α × Machine σ) : Prop where
  calls : out.2.calls = m.calls
  record : out.2.record = m.record
  effects : out.2.effects = m.effects
  fresh : m.fresh ≤ out.2.fresh
  own : ∀ r, out.1 = .error (.raised r) → m.fresh ≤ r.id ∧ r.id < out.2.fresh

/-- A run in which at most one thing happens: it fails. -/
def Run.Leaf (x : Run σ α) : Prop := ∀ m, Apart m (outcome x m)

/-- The events of a leaf. -/
def failing (m : Machine σ) : Except Stop α → List Event
  | .error (.raised r) => [.raised r.id m.calls]
  | _ => []

theorem Apart.accounts {m : Machine σ} {out : Except Stop α × Machine σ} (h : Apart m out) :
    Accounts m (failing m out.1) out := by
  obtain ⟨(r | _) | a, m₁⟩ := out
  · obtain ⟨hlo, hhi⟩ := h.own r rfl
    refine ⟨h.calls, Machine.kept_congr h.record, congrArg Array.toList h.effects, ⟨hlo, hhi⟩, ?_⟩
    intro r' hr'
    cases hr'
    exact .raised [] _
  all_goals exact .idle h.calls h.record h.effects h.fresh fun r' hr' => by cases hr'

namespace Run.Leaf

variable {x : Run σ α} {f : α → Run σ β}

theorem pure (a : α) : Leaf (Pure.pure a : Run σ α) := fun _ =>
  ⟨rfl, rfl, rfl, Nat.le_refl _, fun _ h => by cases h⟩

theorem exhausted : Leaf (throw .exhausted : Run σ α) := fun _ =>
  ⟨rfl, rfl, rfl, Nat.le_refl _, fun _ h => by cases h⟩

theorem bind (hx : Leaf x) (hf : ∀ a, Leaf (f a)) : Leaf (x >>= f) := by
  intro m
  have hm := hx m
  rcases h : outcome x m with ⟨e | a, m₁⟩ <;> rw [h] at hm
  · rw [outcome_bind_of_error f h]
    exact ⟨hm.calls, hm.record, hm.effects, hm.fresh, fun r hr => hm.own r (by cases hr; rfl)⟩
  · rw [outcome_bind_of_ok f h]
    have hm₁ := hf a m₁
    refine ⟨hm₁.calls.trans hm.calls, hm₁.record.trans hm.record, hm₁.effects.trans hm.effects,
      Nat.le_trans hm.fresh hm₁.fresh, fun r hr => ?_⟩
    obtain ⟨hlo, hhi⟩ := hm₁.own r hr
    exact ⟨Nat.le_trans hm.fresh hlo, hhi⟩

/-- Looking at the machine is a leaf. -/
theorem get : Leaf (MonadState.get : Run σ (Machine σ)) := fun _ =>
  ⟨rfl, rfl, rfl, Nat.le_refl _, fun _ h => by cases h⟩

/-- So is changing what is beside the point. -/
theorem change {f : Machine σ → Machine σ} (hcalls : ∀ m, (f m).calls = m.calls)
    (hrecord : ∀ m, (f m).record = m.record) (heffects : ∀ m, (f m).effects = m.effects)
    (hfresh : ∀ m, m.fresh ≤ (f m).fresh) : Leaf (modify f : Run σ Unit) := fun m =>
  ⟨hcalls m, hrecord m, heffects m, hfresh m, fun _ h => by cases h⟩

/-- A failure is raised with the next number. -/
theorem raise (e : Failure) : Leaf (Run.raise e : Run σ α) := fun m =>
  ⟨rfl, rfl, rfl, Nat.le_succ m.fresh, fun _ h => by cases h; exact ⟨Nat.le_refl _, Nat.lt_succ_self _⟩⟩

theorem orRaise (r : Except Failure α) : Leaf (Run.orRaise r : Run σ α) := by
  cases r with
  | ok a => exact pure a
  | error e => exact raise e

theorem orFault (r : Except Fault α) : Leaf (Run.orFault r : Run σ α) := orRaise _

/-- A failure of host code that becomes an error of the script is a later one. -/
theorem guarded (hx : Leaf x) : Leaf (Run.guarded x) := by
  intro m
  have hm := hx m
  rcases h : outcome x m with ⟨e, m₁⟩
  rw [h] at hm
  have hpass : ∀ e', e' = e → Apart m (outcome (resume e' : Run σ α) m₁) := by
    rintro _ rfl
    exact hm
  rw [Run.guarded, outcome_attempt_bind _ h]
  rcases e with (⟨id, e | f⟩ | _) | a
  · exact hpass _ rfl
  · by_cases hr : (f.cls == FaultClass.recursion) = true
    · simp only [hr, if_true]
      exact hm
    · simp only [hr]
      have hraise := raise (σ := σ) (α := α) (.ofCause f.toCause) m₁
      refine ⟨hraise.calls.trans hm.calls, hraise.record.trans hm.record,
        hraise.effects.trans hm.effects, Nat.le_trans hm.fresh hraise.fresh, fun r hr' => ?_⟩
      obtain ⟨hlo, hhi⟩ := hraise.own r hr'
      exact ⟨Nat.le_trans hm.fresh hlo, hhi⟩
  · exact hpass _ rfl
  · exact hpass _ rfl

section Machine

variable {env : Env σ}

theorem view : Leaf (Run.view env) := get.bind fun _ => pure _

theorem lookup (scope : Nat) (name : String) : Leaf (Run.lookup scope name : Run σ _) :=
  get.bind fun _ => pure _

theorem isIdle : Leaf (Run.isIdle : Run σ Bool) := get.bind fun _ => pure _

theorem assign (scope : Nat) (name : String) (v : Value) :
    Leaf (Run.assign scope name v : Run σ Unit) :=
  change (fun _ => rfl) (fun _ => rfl) (fun _ => rfl) fun _ => Nat.le_refl _

theorem pushScope (scope : Nat) (name : String) : Leaf (Run.pushScope scope name : Run σ Nat) :=
  fun _ => ⟨rfl, rfl, rfl, Nat.le_refl _, fun _ h => by cases h⟩

theorem freshId : Leaf (Run.freshId : Run σ Nat) :=
  fun m => ⟨rfl, rfl, rfl, Nat.le_succ m.fresh, fun _ h => by cases h⟩

theorem setLine (line : Option SourceLine) :
    Leaf (modify fun m => { m with line := line } : Run σ Unit) :=
  change (fun _ => rfl) (fun _ => rfl) (fun _ => rfl) fun _ => Nat.le_refl _

theorem setHost (state : σ) : Leaf (modify fun m => { m with host := state } : Run σ Unit) :=
  change (fun _ => rfl) (fun _ => rfl) (fun _ => rfl) fun _ => Nat.le_refl _

theorem note (line : HostView → Except Fault String) : Leaf (Run.note env line) := by
  intro m
  show Apart m (Except.ok (), if env.tracing then _ else m)
  split
  · split <;> exact ⟨rfl, rfl, rfl, Nat.le_refl _, fun _ h => by cases h⟩
  · exact ⟨rfl, rfl, rfl, Nat.le_refl _, fun _ h => by cases h⟩

theorem parseSource (source : String) : Leaf (Run.parseSource env source) := by
  refine bind (fun m => ?_) fun r => orRaise r
  rcases h : parse env.symbols env.host.load env.base none source m.host with ⟨r, state⟩
  rw [outcome_parse h]
  exact ⟨rfl, rfl, rfl, Nat.le_refl _, fun _ h => by cases h⟩

theorem parseHost (source : HostValue) : Leaf (LineScript.parseHost env source) :=
  view.bind fun _ => (orFault _).bind fun _ => parseSource _

/-! The evaluator fails in leaves, and in host code. -/

theorem memberOf (holder : Value) (path : String) : Leaf (LineScript.memberOf env holder path) := by
  unfold LineScript.memberOf
  split
  · exact raise _
  · exact raise _
  · exact view.bind fun _ => orRaise _

theorem resolveName (name : String) : Leaf (LineScript.resolveName env name) :=
  view.bind fun _ => get.bind fun _ => orRaise _

/-- Names are looked up in leaves. -/
def names (env : Env σ) : NameClass env where
  has := Leaf
  pure := pure
  bind := bind
  get := get
  raiseCause _ := raise _
  member holder path := (memberOf holder path).guarded
  named name := (resolveName name).guarded

theorem reference (scope : Nat) (name : String) : Leaf (LineScript.reference env scope name) :=
  (names env).reference scope name

theorem callee (scope : Nat) (name : String) : Leaf (LineScript.callee env scope name) :=
  (names env).callee scope name

theorem condition (v : Value) : Leaf (LineScript.condition env v) := view.bind fun _ => orFault _

theorem checkDepth : Leaf (LineScript.checkDepth env) := by
  refine get.bind fun m => ?_
  split
  · exact raise _
  · exact pure _

theorem define (scope : Nat) (name : String) (params : List String) (body : List Statement) :
    Leaf (LineScript.define env scope name params body) :=
  freshId.bind fun _ => assign _ _ _

theorem importPath (path : String) : Leaf (LineScript.importPath env path) :=
  get.bind fun _ => (orRaise _).bind fun _ =>
    change (fun _ => rfl) (fun _ => rfl) (fun _ => rfl) fun _ => Nat.le_refl _

theorem bindParams (scope : Nat) : ∀ (params : List String) (args : List Value),
    Leaf (LineScript.bindParams scope params args : Run σ Unit)
  | [], _ => pure ()
  | _ :: _, [] => pure ()
  | _ :: ps, _ :: vs => (assign _ _ _).bind fun _ => bindParams scope ps vs

end Machine

end Run.Leaf

/-! ### Chronicles -/

/-- A run with the events of it, which account for it. -/
structure Chronicle (σ α : Type) where
  /-- The run. -/
  run : Run σ α
  /-- What happens in the run from a machine. -/
  events : Machine σ → List Event
  accounts : ∀ m, Accounts m (events m) (outcome run m)

namespace Chronicle

/-- A leaf with its events. -/
def leaf (x : Run σ α) (h : Leaf x) : Chronicle σ α where
  run := x
  events m := failing m (outcome x m).1
  accounts m := (h m).accounts

/-- The events of what follows a run, if it gave a result. -/
def following (f : α → Chronicle σ β) : Except Stop α × Machine σ → List Event
  | (.ok a, m) => (f a).events m
  | (.error _, _) => []

theorem accounts_bind (x : Chronicle σ α) (f : α → Chronicle σ β) (m : Machine σ) :
    Accounts m (x.events m ++ following f (outcome x.run m))
      (outcome (x.run >>= fun a => (f a).run) m) := by
  have hx := x.accounts m
  rcases h : outcome x.run m with ⟨e | a, m₁⟩ <;> rw [h] at hx
  · rw [outcome_bind_of_error _ h, following, List.append_nil]
    exact hx.ending fun r hr => by cases hr; exact ⟨r, rfl, rfl⟩
  · rw [outcome_bind_of_ok _ h]
    exact hx.next ((f a).accounts m₁)

instance : Monad (Chronicle σ) where
  pure a := leaf (pure a) (.pure a)
  bind x f := ⟨x.run >>= fun a => (f a).run, fun m => x.events m ++ following f (outcome x.run m),
    accounts_bind x f⟩

/-- A run that is attempted: its failure is met. -/
def attempt (x : Chronicle σ α) : Chronicle σ (Except Stop α) where
  run := Run.attempt x.run
  events := x.events
  accounts m := (x.accounts m).ending fun _ h => by cases h

/-! ### Failures that are met -/

/-- Run, and go on with the result, or with what is done about a failure; a failure about which
nothing is done goes on. -/
def meetRun (x : Run σ α) (onOk : α → Run σ β) (onFail : Raised → Option (Run σ β)) : Run σ β := do
  match ← Run.attempt x with
  | .ok a => onOk a
  | .error (.raised r) => (onFail r).getD (throw (.raised r))
  | .error .exhausted => throw .exhausted

/-- The events of what follows a run, whatever it ended with. -/
def meeting (onOk : α → Chronicle σ β) (onFail : Raised → Option (Chronicle σ β)) :
    Except Stop α × Machine σ → List Event
  | (.ok a, m) => (onOk a).events m
  | (.error (.raised r), m) => ((onFail r).map fun y => y.events m).getD []
  | (.error .exhausted, _) => []

theorem accounts_meet (x : Chronicle σ α) (onOk : α → Chronicle σ β)
    (onFail : Raised → Option (Chronicle σ β)) (m : Machine σ) :
    Accounts m (x.events m ++ meeting onOk onFail (outcome x.run m))
      (outcome (meetRun x.run (fun a => (onOk a).run) fun r => (onFail r).map run) m) := by
  have hx := x.accounts m
  rcases h : outcome x.run m with ⟨e, m₁⟩
  rw [h] at hx
  rw [meetRun, outcome_attempt_bind _ h]
  rcases e with (r | _) | a
  · cases hr : onFail r with
    | some y =>
      simp only [meeting, hr, Option.map_some, Option.getD_some]
      exact hx.next (y.accounts m₁)
    | none =>
      simp only [meeting, hr, Option.map_none, Option.getD_none, List.append_nil]
      exact hx.ending fun r' hr' => by cases hr'; exact ⟨r, rfl, rfl⟩
  · simp only [meeting, List.append_nil]
    exact hx.ending fun r' hr' => by cases hr'
  · exact hx.next ((onOk a).accounts m₁)

/-- Run, and meet a failure. -/
def meet (x : Chronicle σ α) (onOk : α → Chronicle σ β) (onFail : Raised → Option (Chronicle σ β)) :
    Chronicle σ β where
  run := meetRun x.run (fun a => (onOk a).run) fun r => (onFail r).map run
  events m := x.events m ++ meeting onOk onFail (outcome x.run m)
  accounts := accounts_meet x onOk onFail

/-- Run host code: its failures become errors of the script, raised here. -/
def guarded (x : Chronicle σ α) : Chronicle σ α :=
  x.meet pure fun
    | ⟨_, .fault f⟩ =>
      if f.cls == .recursion then none else some (leaf (raiseCause f.toCause) (.raise _))
    | ⟨_, .script _⟩ => none

theorem run_guarded (x : Chronicle σ α) : x.guarded.run = Run.guarded x.run := by
  refine congrArg (Run.attempt x.run >>= ·) (funext fun e => ?_)
  rcases e with (⟨id, e | f⟩ | _) | a
  · rfl
  · by_cases hr : (f.cls == FaultClass.recursion) = true
    · simp only [hr, if_true, Option.map_none, Option.getD_none]
    · simp only [hr]
      rfl
  · rfl
  · rfl

/-! ### Lines and calls -/

theorem accounts_atLine (line : SourceLine) (x : Chronicle σ α) (m : Machine σ) :
    Accounts m (x.events { m with line := some line }) (outcome (Run.atLine line x.run) m) := by
  have hx := x.accounts { m with line := some line }
  rcases h : outcome x.run { m with line := some line } with ⟨e, m₁⟩
  rw [h] at hx
  rw [outcome_atLine h]
  have hm : Accounts m (x.events { m with line := some line }) (e, m₁) :=
    ⟨hx.calls, hx.kept, hx.effects, hx.ordered, hx.comes⟩
  refine hm.ending fun r hr => ?_
  rcases e with (r' | _) | a <;> cases hr
  exact ⟨r', rfl, rfl⟩

/-- Run on a line. -/
def atLine (line : SourceLine) (x : Chronicle σ α) : Chronicle σ α where
  run := Run.atLine line x.run
  events m := x.events { m with line := some line }
  accounts := accounts_atLine line x

theorem accounts_keepingLine (x : Chronicle σ α) (m : Machine σ) :
    Accounts m (x.events m) (outcome (Run.keepingLine x.run) m) := by
  have hx := x.accounts m
  rcases h : outcome x.run m with ⟨e, m₁⟩
  rw [h] at hx
  rw [outcome_keepingLine h]
  exact ⟨hx.calls, hx.kept, hx.effects, hx.ordered, hx.comes⟩

/-- Run, and go back to the line under way before. -/
def keepingLine (x : Chronicle σ α) : Chronicle σ α where
  run := Run.keepingLine x.run
  events := x.events
  accounts := accounts_keepingLine x

/-- The event of the end of a call. -/
def leaving : Except Stop α × Machine σ → List Event
  | (.error (.raised r), m) => [.left r.id m.calls]
  | _ => []

/-- A failure that leaves a call is recorded with the calls that are active. -/
theorem kept_recorded (r : Raised) (m : Machine σ) :
    (recorded (.error (.raised r) : Except Stop α) m).kept =
      Event.onRecord m.kept (.left r.id m.calls) := by
  have hany : (m.record.any fun kept => kept.id == r.id) = m.kept.any fun k => k.1 == r.id := by
    rw [Machine.kept]
    cases m.record <;> rfl
  show (if m.record.any fun kept => kept.id == r.id then m else _ : Machine σ).kept = _
  rw [hany, Event.onRecord]
  split <;> rfl

theorem recorded_same (r : Except Stop α) (m : Machine σ) :
    (recorded r m).effects = m.effects ∧ (recorded r m).fresh = m.fresh := by
  unfold recorded
  split
  · show (if _ then m else _ : Machine σ).effects = _ ∧ (if _ then m else _ : Machine σ).fresh = _
    split <;> exact ⟨rfl, rfl⟩
  · exact ⟨rfl, rfl⟩

theorem accounts_inFrame (frame : Frame) (x : Chronicle σ α) (m : Machine σ) :
    Accounts m (x.events (m.enter frame) ++ leaving (outcome x.run (m.enter frame)))
      (outcome (Run.inFrame frame x.run) m) := by
  have hx := x.accounts (m.enter frame)
  rcases h : outcome x.run (m.enter frame) with ⟨e, m₁⟩
  rw [h] at hx
  rw [outcome_inFrame h]
  have hcalls : m₁.calls = frame :: m.calls := hx.calls
  rcases e with (r | _) | a
  · -- the failure leaves the call, and it is recorded before the frame is taken away
    have hcomes : Comes r.id (frame :: m.calls) (x.events (m.enter frame)) := hx.comes r rfl
    have hrec : m₁.Aside (fun _ => True) _ :=
      m₁.aside_recorded (.error (.raised r) : Except Stop α)
    obtain ⟨heffects, hfresh⟩ := recorded_same (.error (.raised r) : Except Stop α) m₁
    refine ⟨?_, ?_, ?_, ?_, fun r' hr' => ?_⟩
    · exact congrArg List.tail (hrec.calls.trans hcalls)
    · rw [leaving, List.foldl_append]
      exact (kept_recorded r m₁).trans (congrArg (Event.onRecord · _) hx.kept)
    · rw [leaving, List.foldl_append]
      exact (congrArg Array.toList heffects).trans hx.effects
    · rw [leaving]
      refine Eq.mp ?_ (hcomes.ordered hx.ordered m₁.calls)
      exact congrArg (Ordered · _ _ _) hfresh.symm
    · cases hr'
      rw [leaving, hcalls]
      exact hcomes.left
  all_goals
    rw [leaving, List.append_nil]
    · exact ⟨congrArg List.tail hcalls, hx.kept, hx.effects, hx.ordered, fun r' hr' => by cases hr'⟩
    · exact fun _ _ hr' => by cases hr'

/-- Run with one more active call. -/
def inFrame (frame : Frame) (x : Chronicle σ α) : Chronicle σ α where
  run := Run.inFrame frame x.run
  events m := x.events (m.enter frame) ++ leaving (outcome x.run (m.enter frame))
  accounts := accounts_inFrame frame x

/-! ### Single events -/

/-- Raise a failure again. -/
def rethrow (r : Raised) : Chronicle σ α where
  run := throw (.raised r)
  events _ := [.rethrown r.id]
  accounts m := ⟨rfl, rfl, rfl, trivial, fun r' h => by cases h; exact .rethrown [] _⟩

/-- Forget the record of a failure. -/
def forget : Chronicle σ Unit where
  run := forgetRecord
  events _ := [.forgotten]
  accounts m := ⟨rfl, rfl, rfl, Nat.le_refl m.fresh, fun _ h => by cases h⟩

/-- Print a message. -/
def print (message : String) : Chronicle σ Unit where
  run := emit .stdout message
  events _ := [.printed message]
  accounts m := ⟨rfl, rfl, Array.toList_push, Nat.le_refl m.fresh, fun _ h => by cases h⟩

/-- Report a failure. -/
def report (message : String) : Chronicle σ Unit where
  run := emit .stderr message
  events _ := [.reported message]
  accounts m := ⟨rfl, rfl, Array.toList_push, Nat.le_refl m.fresh, fun _ h => by cases h⟩

theorem accounts_clear (m : Machine σ) : Accounts m [.cleared]
    (outcome (modify fun m => { m with effects := #[] } : Run σ Unit) m) :=
  ⟨rfl, rfl, rfl, Nat.le_refl m.fresh, fun _ h => by cases h⟩

/-- Throw the messages away. -/
def clear : Chronicle σ Unit where
  run := (modify fun m => { m with effects := #[] } : Run σ Unit)
  events _ := [.cleared]
  accounts := accounts_clear

end Chronicle

end LineScript
