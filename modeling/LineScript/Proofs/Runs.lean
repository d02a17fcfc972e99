import LineScript.Machine

/-!
# What runs respect

A run takes a machine to a machine, whatever it ends with.  A policy says what has to hold of
the machine between two steps and how a run may change it, which lines may come under way and which
failures a run may end with; what is beside the point (the records, the messages) is left free, and
calls are entered and left in pairs.
Two runs are alike under a policy when, from the same machine, they keep to the policy, leave
the same machine behind and end in related ways.  One run that is alike to itself is a run that
keeps to the policy.  A policy may also let the second run be given up on its way; nothing is said
of the first run then.

## Main definitions

* `Run.outcome` — the end of a run from a machine, and the machine it leaves behind.
* `Policy` — an invariant of machines, and the changes, lines and failures that are allowed.
* `Delivers` — a result with a property, or a failure that is allowed.
* `Alike` — two runs that keep to a policy and end in related ways.

## Main results

* `Alike.bind`, `Alike.next` — runs one after the other.
* `Alike.handled` — runs whose ends are looked at.
* `Alike.guarded`, `Alike.atLine`, `Alike.inFrame`, `Alike.keepingLine` — runs that look at failures.
-/

namespace LineScript

variable {σ α β γ δ : Type}

/-! ### Outcomes -/

/-- The machine with one more active call. -/
def Machine.enter (frame : Frame) (m : Machine σ) : Machine σ := { m with calls := frame :: m.calls }

/-- The machine without its innermost call. -/
def Machine.leave (m : Machine σ) : Machine σ := { m with calls := m.calls.tail }

variable {x : Run σ α} {a : α} {b : β} {s : Except Stop β}

variable {r : Except Stop α}

namespace Run

/-- The end of a run from a machine, and the machine it leaves behind. -/
def outcome (x : Run σ α) (m : Machine σ) : Except Stop α × Machine σ := x.run.run m

/-- Runs with the same outcomes are the same. -/
theorem ext {y : Run σ α} (h : ∀ m, outcome x m = outcome y m) : x = y := funext h

@[simp] theorem outcome_pure (a : α) (m : Machine σ) : outcome (pure a) m = (.ok a, m) := rfl

@[simp] theorem outcome_throw (e : Stop) (m : Machine σ) :
    outcome (throw e : Run σ α) m = (.error e, m) := rfl

@[simp] theorem outcome_attempt (x : Run σ α) (m : Machine σ) :
    outcome (attempt x) m = (.ok (outcome x m).1, (outcome x m).2) := rfl

@[simp] theorem outcome_resume (r : Except Stop α) (m : Machine σ) :
    outcome (resume r) m = (r, m) := rfl

theorem outcome_bind (x : Run σ α) (f : α → Run σ β) (m : Machine σ) :
    outcome (x >>= f) m = match outcome x m with
      | (.ok a, m') => outcome (f a) m'
      | (.error e, m') => (.error e, m') := by
  simp only [outcome, ExceptT.run, bind, ExceptT.bind, ExceptT.mk, StateT.bind, StateT.run,
    ExceptT.bindCont]
  rcases x m with ⟨_ | _, _⟩ <;> rfl

variable {m m' : Machine σ}

theorem outcome_bind_of_ok (f : α → Run σ β) (h : outcome x m = (.ok a, m')) :
    outcome (x >>= f) m = outcome (f a) m' := by
  rw [outcome_bind, h]

theorem outcome_bind_of_error {e : Stop} (f : α → Run σ β)
    (h : outcome x m = (.error e, m')) : outcome (x >>= f) m = (.error e, m') := by
  rw [outcome_bind, h]

theorem outcome_attempt_bind (f : Except Stop α → Run σ β) (h : outcome x m = (r, m')) :
    outcome (attempt x >>= f) m = outcome (f r) m' :=
  outcome_bind_of_ok f (by rw [outcome_attempt, h])

theorem outcome_keepingLine (h : outcome x m = (r, m')) :
    outcome (keepingLine x) m = (r, { m' with line := m.line }) :=
  (outcome_bind_of_ok _ rfl).trans ((outcome_attempt_bind _ h).trans rfl)

/-- A run that gives a result gave one at every step. -/
theorem exists_of_outcome_bind {f : α → Run σ β} (h : outcome (x >>= f) m = (.ok b, m')) :
    ∃ a m₁, outcome x m = (.ok a, m₁) ∧ outcome (f a) m₁ = (.ok b, m') := by
  rcases hx : outcome x m with ⟨e | a, m₁⟩
  · rw [outcome_bind_of_error f hx] at h
    cases h
  · rw [outcome_bind_of_ok f hx] at h
    exact ⟨a, m₁, rfl, h⟩

/-- Reading a text changes the state of the host only. -/
theorem outcome_parse {env : Env σ} {source : String} {m : Machine σ} {r : Except Failure Script}
    {state : σ} (h : parse env.symbols env.host.load env.base none source m.host = (r, state)) :
    outcome (modifyGet fun m =>
      let (r, host) := LineScript.parse env.symbols env.host.load env.base none source m.host
      (r, { m with host := host }) : Run σ _) m = (.ok r, { m with host := state }) := by
  have hgo : ∀ p : Except Failure Script × σ, p = (r, state) →
      (Except.ok (match p with | (r, host) => (r, { m with host := host })).1,
        (match p with | (r, host) => (r, { m with host := host })).2) =
          ((Except.ok r : Except Stop _), { m with host := state }) := by
    rintro _ rfl
    rfl
  exact hgo _ h

/-- The machine after the failure that a run ended with, if any, is recorded. -/
def recorded (r : Except Stop α) (m : Machine σ) : Machine σ :=
  match r with
  | .error (.raised e) => (outcome (keepRecord e) m).2
  | _ => m

/-- A call ends as what is run in it does, and takes its frame away again. -/
theorem outcome_inFrame {frame : Frame} (h : outcome x (m.enter frame) = (r, m')) :
    outcome (inFrame frame x) m = (r, (recorded r m').leave) := by
  unfold inFrame
  refine (outcome_bind_of_ok _ rfl).trans ((outcome_attempt_bind _ h).trans ?_)
  rcases r with (_ | _) | _ <;> rfl

end Run

open Run

/-! ### Policies -/

/-- A machine that differs from another one only in what is beside the point: the line under
way, which is one of some lines if it is new, the record of a failure, messages, numbers and the
trace.  A failure is recorded with the calls that are active and the line under way. -/
structure Machine.Aside (lines : SourceLine → Prop) (m m' : Machine σ) : Prop where
  scopes : m'.scopes = m.scopes
  host : m'.host = m.host
  calls : m'.calls = m.calls
  namespaces : m'.namespaces = m.namespaces
  record : ∀ r, m'.record = some r → m.record = some r ∨ r.stack = m.calls ∧ r.line = m.line
  line : ∀ l, m'.line = some l → m.line = some l ∨ lines l

/-- What runs have to respect: an invariant of the machine, and the changes of it that are
allowed. -/
structure Policy (σ : Type) where
  /-- What holds of the machine between two steps. -/
  inv : Machine σ → Prop
  /-- The changes that are allowed. -/
  step : Machine σ → Machine σ → Prop
  refl : ∀ m, step m m
  trans : ∀ {a b c : Machine σ}, step a b → step b c → step a c
  /-- The calls that may be entered. -/
  frame : Frame → Prop
  /-- The lines that may come under way: all of them, as a rule. -/
  line : SourceLine → Prop := fun _ => True
  /-- The failures that runs may end with: all of them, as a rule. -/
  fails : Failure → Prop := fun _ => True
  aside : ∀ {m m' : Machine σ}, m.Aside line m' → inv m → inv m' ∧ step m m'
  enter : ∀ {m : Machine σ} {call : Frame}, frame call → inv m → inv (m.enter call)
  leave : ∀ {m m' : Machine σ} {frame : Frame}, inv m' → step (m.enter frame) m' →
    inv m'.leave ∧ step m m'.leave
  under : ∀ {m : Machine σ} {l}, inv m → m.line = some l → line l := by exact fun _ _ => trivial
  cause : ∀ c, fails (.ofCause c) := by exact fun _ => trivial
  fault : ∀ f, fails (.fault f) := by exact fun _ => trivial
  stamp : ∀ {m : Machine σ} {f}, inv m → fails f → fails (f.stamp m.line) := by
    exact fun _ _ => trivial
  /-- The scopes with which the second of two runs may be given up: none, as a rule. -/
  quits : Scopes → Prop := fun _ => False

variable {lines : SourceLine → Prop}

/-- Keeping a record of a failure is beside the point. -/
theorem Machine.aside_recorded (r : Except Stop α) (m : Machine σ) : m.Aside lines (recorded r m) := by
  unfold recorded
  split
  · show m.Aside lines (if _ then m else _)
    split
    · exact ⟨rfl, rfl, rfl, rfl, fun _ => .inl, fun _ => .inl⟩
    · exact ⟨rfl, rfl, rfl, rfl, fun _ h => .inr (by cases h; exact ⟨rfl, rfl⟩), fun _ => .inl⟩
  · exact ⟨rfl, rfl, rfl, rfl, fun _ => .inl, fun _ => .inl⟩

theorem Machine.aside_note (env : Env σ) (line : HostView → Except Fault String) (m : Machine σ) :
    m.Aside lines (outcome (note env line) m).2 := by
  show m.Aside lines (if _ then _ else m)
  split
  · split <;> exact ⟨rfl, rfl, rfl, rfl, fun _ => .inl, fun _ => .inl⟩
  · exact ⟨rfl, rfl, rfl, rfl, fun _ => .inl, fun _ => .inl⟩

/-- A reason to stop that is no failure, or one with a property. -/
def Stop.Within (fails : Failure → Prop) : Stop → Prop
  | .raised r => fails r.failure
  | .exhausted => True

/-- Ends of two runs: related results, or the same reason to stop. -/
inductive Ends (fails : Failure → Prop) (R : α → β → Prop) : Except Stop α → Except Stop β → Prop where
  | ok {a : α} {b : β} : R a b → Ends fails R (.ok a) (.ok b)
  | error {e : Stop} : e.Within fails → Ends fails R (.error e) (.error e)

variable {fails fails' : Failure → Prop}

theorem Ends.mono {R S : α → β → Prop} (hfails : ∀ f, fails f → fails' f)
    (h : ∀ a b, R a b → S a b) : Ends fails R r s → Ends fails' S r s
  | .ok hab => .ok (h _ _ hab)
  | .error (e := .raised _) he => .error (hfails _ he)
  | .error (e := .exhausted) _ => .error trivial

theorem Ends.recorded_eq {R : α → β → Prop} (h : Ends fails R r s)
    (m : Machine σ) : recorded r m = recorded s m := by
  cases h with
  | ok _ => rfl
  | @error e _ => cases e <;> rfl

/-- A result with a property, or a failure with another one. -/
def Delivers (fails : Failure → Prop) (good : α → Prop) : Except Failure α → Prop
  | .ok a => good a
  | .error f => fails f

namespace Delivers

variable {good : α → Prop} {good' : β → Prop} {x : Except Failure α}

section

variable (h : Delivers fails good x)

include h

theorem bind {f : α → Except Failure β} (hf : ∀ a, good a → Delivers fails good' (f a)) :
    Delivers fails good' (x >>= f) := by
  cases x with
  | error e => exact h
  | ok a => exact hf a h

theorem map {f : α → β} (hf : ∀ a, good a → good' (f a)) : Delivers fails good' (x.map f) := by
  cases x with
  | error e => exact h
  | ok a => exact hf a h

theorem imp {fails' : Failure → Prop} {good' : α → Prop} (hfails : ∀ f, fails f → fails' f)
    (hgood : ∀ a, good a → good' a) : Delivers fails' good' x := by
  cases x with
  | error e => exact hfails e h
  | ok a => exact hgood a h

theorem of_ok (hx : x = .ok a) : good a := by
  rw [hx] at h
  exact h

theorem of_error {f : Failure} (hx : x = .error f) : fails f := by
  rw [hx] at h
  exact h

end

/-- What is known of every result, and of every failure, is enough. -/
theorem of_eq (hok : ∀ a, x = .ok a → good a) (herror : ∀ f, x = .error f → fails f) :
    Delivers fails good x := by
  cases x with
  | error e => exact herror e rfl
  | ok a => exact hok a rfl

/-- What is known of every result, where failures are known. -/
theorem known {good' : α → Prop} (h : Delivers fails good x) (hok : ∀ a, x = .ok a → good' a) :
    Delivers fails good' x :=
  of_eq hok fun _ => h.of_error

end Delivers

/-- A failure that has no line yet: the cause of an error, or a fault. -/
inductive Failure.Bare : Failure → Prop where
  | cause (c : Cause) : Bare (.ofCause c)
  | fault (f : Fault) : Bare (.fault f)

theorem Policy.fails_of_bare (P : Policy σ) {f : Failure} : f.Bare → P.fails f
  | .cause c => P.cause c
  | .fault f => P.fault f

/-- A failure of host code has no line. -/
theorem Delivers.mapFault {ε : Type} (x : Except ε α) (f : ε → Fault) :
    Delivers Failure.Bare (fun _ => True) (x.mapError fun e => .fault (f e)) := by
  cases x with
  | error e => exact .fault _
  | ok a => trivial

/-- Two runs that, from a machine, keep to a policy, leave the same machine behind and end in
related ways, unless the second one is given up. -/
inductive Alike (P : Policy σ) (m : Machine σ) (R : Scopes → α → β → Prop) (x : Run σ α)
    (y : Run σ β) : Prop where
  | intro {r : Except Stop α} {s : Except Stop β} {m' : Machine σ} (left : outcome x m = (r, m'))
    (right : outcome y m = (s, m')) (inv : P.inv m') (step : P.step m m')
    (ends : Ends P.fails (R m'.scopes) r s)
  | quit {m' : Machine σ} (right : outcome y m = (.error .exhausted, m')) (given : P.quits m'.scopes)

/-- The relation of equal results that have a property. -/
def Both (good : Scopes → α → Prop) (s : Scopes) (a b : α) : Prop := a = b ∧ good s a

namespace Alike

variable {P Q : Policy σ} {m m' : Machine σ} {R : Scopes → α → β → Prop} {S : Scopes → γ → δ → Prop}
variable {x : Run σ α} {y : Run σ β} {f : α → Run σ γ} {g : β → Run σ δ}

theorem pure (hm : P.inv m) (h : R m.scopes a b) : Alike P m R (Pure.pure a) (Pure.pure b) :=
  .intro rfl rfl hm (P.refl m) (.ok h)

theorem throw {e : Stop} (hm : P.inv m) (he : e.Within P.fails) :
    Alike P m R (MonadExcept.throw e) (MonadExcept.throw e) :=
  .intro rfl rfl hm (P.refl m) (.error he)

/-- A first step that is the same change of the machine in both runs. -/
theorem next (hx : outcome x m = (.ok a, m')) (hy : outcome y m = (.ok b, m')) (hstep : P.step m m')
    (hk : Alike P m' S (f a) (g b)) : Alike P m S (x >>= f) (y >>= g) := by
  cases hk with
  | intro hleft hright hinv hstep' hends =>
    exact .intro ((outcome_bind_of_ok f hx).trans hleft) ((outcome_bind_of_ok g hy).trans hright) hinv
      (P.trans hstep hstep') hends
  | quit hright hgiven => exact .quit ((outcome_bind_of_ok g hy).trans hright) hgiven

/-- Runs one after the other. -/
theorem bind (h : Alike P m R x y)
    (hf : ∀ m' a b, P.inv m' → P.step m m' → R m'.scopes a b → Alike P m' S (f a) (g b)) :
    Alike P m S (x >>= f) (y >>= g) := by
  cases h with
  | intro hx hy hinv hstep hends =>
    cases hends with
    | ok hab => exact next hx hy hstep (hf _ _ _ hinv hstep hab)
    | error he =>
      exact .intro (outcome_bind_of_error f hx) (outcome_bind_of_error g hy) hinv hstep (.error he)
  | quit hy hgiven => exact .quit (outcome_bind_of_error g hy) hgiven

/-- Runs one after the other, the first of them to equal results. -/
theorem both {y : Run σ α} {g : α → Run σ δ} {T : Scopes → α → Prop} (h : Alike P m (Both T) x y)
    (hf : ∀ m' a, P.inv m' → P.step m m' → T m'.scopes a → Alike P m' S (f a) (g a)) :
    Alike P m S (x >>= f) (y >>= g) := by
  refine h.bind ?_
  rintro m' a _ hm' hstep ⟨rfl, ha⟩
  exact hf m' a hm' hstep ha

/-- A first step that only looks at the machine. -/
theorem look (hx : outcome x m = (.ok a, m)) (hy : outcome y m = (.ok b, m))
    (hk : Alike P m S (f a) (g b)) : Alike P m S (x >>= f) (y >>= g) :=
  next hx hy (P.refl m) hk

/-- A first step that changes what is beside the point. -/
theorem aside (hm : P.inv m) (hx : outcome x m = (.ok a, m')) (hy : outcome y m = (.ok b, m'))
    (h : m.Aside P.line m') (hk : P.inv m' → Alike P m' S (f a) (g b)) :
    Alike P m S (x >>= f) (y >>= g) :=
  next hx hy (P.aside h hm).2 (hk (P.aside h hm).1)

section

variable (h : Alike P m R x y)

include h

/-- What is respected under one policy is respected under a wider one, with a wider relation. -/
theorem widen {R' : Scopes → α → β → Prop} (hinv : ∀ m, P.inv m → Q.inv m)
    (hstep : ∀ m', P.inv m' → P.step m m' → Q.step m m')
    (hR : ∀ m' a b, P.inv m' → P.step m m' → R m'.scopes a b → R' m'.scopes a b)
    (hfails : ∀ f, P.fails f → Q.fails f := by exact fun _ h => h)
    (hquits : ∀ s, P.quits s → Q.quits s := by exact fun _ h => h) : Alike Q m R' x y := by
  cases h with
  | intro hx hy hinv' hstep' hends =>
    exact .intro hx hy (hinv _ hinv') (hstep _ hinv' hstep')
      (hends.mono hfails fun a b => hR _ a b hinv' hstep')
  | quit hy hgiven => exact .quit hy (hquits _ hgiven)

/-- A result that only one of the runs goes on to change. -/
theorem map_left {c : α → γ} {R' : Scopes → γ → β → Prop} (hR : ∀ s a b, R s a b → R' s (c a) b) :
    Alike P m R' (do return c (← x)) y := by
  cases h with
  | intro hx hy hinv hstep hends =>
    cases hends with
    | ok hab => exact .intro (outcome_bind_of_ok _ hx) hy hinv hstep (.ok (hR _ _ _ hab))
    | error he => exact .intro (outcome_bind_of_error _ hx) hy hinv hstep (.error he)
  | quit hy hgiven => exact .quit hy hgiven

/-- A result that only the other run goes on to change. -/
theorem map_right {c : β → γ} {R' : Scopes → α → γ → Prop} (hR : ∀ s a b, R s a b → R' s a (c b)) :
    Alike P m R' x (do return c (← y)) := by
  cases h with
  | intro hx hy hinv hstep hends =>
    cases hends with
    | ok hab => exact .intro hx (outcome_bind_of_ok _ hy) hinv hstep (.ok (hR _ _ _ hab))
    | error he => exact .intro hx (outcome_bind_of_error _ hy) hinv hstep (.error he)
  | quit hy hgiven => exact .quit (outcome_bind_of_error _ hy) hgiven

/-- Where no run may be given up, both come to an end. -/
theorem settled (hquits : ∀ s, ¬ P.quits s := by exact fun _ h => h) :
    ∃ r s m', outcome x m = (r, m') ∧ outcome y m = (s, m') ∧ P.inv m' ∧ P.step m m' ∧
      Ends P.fails (R m'.scopes) r s := by
  cases h with
  | intro hx hy hinv hstep hends => exact ⟨_, _, _, hx, hy, hinv, hstep, hends⟩
  | quit _ hgiven => exact absurd hgiven (hquits _)

/-- The invariant holds of the machine that is left behind, and the change is allowed. -/
theorem kept (hquits : ∀ s, ¬ P.quits s := by exact fun _ h => h) :
    P.inv (outcome x m).2 ∧ P.step m (outcome x m).2 := by
  obtain ⟨_, _, _, hx, -, hinv, hstep, -⟩ := h.settled hquits
  rw [hx]
  exact ⟨hinv, hstep⟩

end

variable {good T : Scopes → α → Prop}

theorem good_of_outcome {y : Run σ α} (h : Alike P m (Both good) x y)
    (ha : outcome x m = (.ok a, m')) (hquits : ∀ s, ¬ P.quits s := by exact fun _ h => h) :
    good m'.scopes a := by
  obtain ⟨_, _, _, hx, -, -, -, hends⟩ := h.settled hquits
  rw [ha] at hx
  cases hx
  cases hends with
  | ok hab => exact hab.2

theorem fails_of_outcome {e : Raised} (h : Alike P m R x y)
    (he : outcome x m = (.error (.raised e), m'))
    (hquits : ∀ s, ¬ P.quits s := by exact fun _ h => h) : P.fails e.failure := by
  obtain ⟨_, _, _, hx, -, -, -, hends⟩ := h.settled hquits
  rw [he] at hx
  cases hx
  cases hends with
  | error hfails => exact hfails

/-- Runs that are alike to equal results have the same outcome. -/
theorem outcome_eq {y : Run σ α} (h : Alike P m (Both good) x y)
    (hquits : ∀ s, ¬ P.quits s := by exact fun _ h => h) : outcome x m = outcome y m := by
  obtain ⟨_, _, _, hx, hy, -, -, hends⟩ := h.settled hquits
  rw [hx, hy]
  cases hends with
  | ok hab => rw [hab.1]
  | error e => rfl

/-! ### Failures -/

/-- Runs whose ends are looked at; one that was given up has to stay so. -/
theorem handled {f : Except Stop α → Run σ γ} {g : Except Stop β → Run σ δ} (h : Alike P m R x y)
    (hquit : ∀ m, ∃ m', outcome (g (.error .exhausted)) m = (.error .exhausted, m') ∧
      m'.scopes = m.scopes)
    (hf : ∀ m' r s, P.inv m' → P.step m m' → Ends P.fails (R m'.scopes) r s → Alike P m' S (f r) (g s)) :
    Alike P m S (Run.attempt x >>= f) (Run.attempt y >>= g) := by
  cases h with
  | intro hx hy hinv hstep hends =>
    refine next ?_ ?_ hstep (hf _ _ _ hinv hstep hends)
    · rw [outcome_attempt, hx]
    · rw [outcome_attempt, hy]
  | @quit m₁ hy hgiven =>
    obtain ⟨m₂, hg, hscopes⟩ := hquit m₁
    exact .quit ((outcome_attempt_bind _ hy).trans hg) (hscopes ▸ hgiven)

theorem resume (hm : P.inv m) (h : Ends P.fails (R m.scopes) r s) :
    Alike P m R (Run.resume r) (Run.resume s) :=
  .intro rfl rfl hm (P.refl m) h

theorem raise {e : Failure} (hm : P.inv m) (he : P.fails e) :
    Alike P m R (Run.raise e) (Run.raise e) :=
  aside hm rfl rfl ⟨rfl, rfl, rfl, rfl, fun _ => .inl, fun _ => .inl⟩ fun hm' => throw hm' he

theorem raiseCause (hm : P.inv m) (c : Cause) : Alike P m R (Run.raiseCause c) (Run.raiseCause c) :=
  raise hm (P.cause c)

theorem orRaise {r : Except Failure α} (hm : P.inv m) (h : Delivers P.fails (T m.scopes) r) :
    Alike P m (Both T) (Run.orRaise r) (Run.orRaise r) := by
  cases r with
  | ok a => exact pure hm ⟨rfl, h⟩
  | error e => exact raise hm h

theorem orFault {r : Except Fault α} (hm : P.inv m) (h : ∀ a, r = .ok a → T m.scopes a) :
    Alike P m (Both T) (Run.orFault r) (Run.orFault r) := by
  cases r with
  | ok a => exact pure hm ⟨rfl, h a rfl⟩
  | error e => exact raise hm (P.fault e)

theorem guarded (h : Alike P m R x y) : Alike P m R (Run.guarded x) (Run.guarded y) := by
  refine h.handled (fun _ => ⟨_, rfl, rfl⟩) ?_
  rintro m' _ _ hm' _ (hab | @⟨e, he⟩)
  · exact resume hm' (.ok hab)
  · rcases e with ⟨id, _ | f⟩ | _
    · exact resume hm' (.error he)
    · by_cases hr : (f.cls == FaultClass.recursion) = true
      · simp only [hr, if_true]
        exact throw hm' he
      · simp only [hr]
        exact raiseCause hm' _
    · exact resume hm' (.error he)

section Line

variable {line : SourceLine} (hline : P.line line) (hm : P.inv m)
  (h : P.inv { m with line := some line } → Alike P { m with line := some line } R x y)

include hline hm h

theorem toLine : Alike P m R (do modify fun m => { m with line := some line }; x)
    (do modify fun m => { m with line := some line }; y) := by
  have ha : m.Aside P.line { m with line := some line } :=
    ⟨rfl, rfl, rfl, rfl, fun _ => .inl, fun _ hl => by cases hl; exact .inr hline⟩
  exact aside hm rfl rfl ha h

theorem atLine : Alike P m R (Run.atLine line x) (Run.atLine line y) := by
  refine toLine hline hm fun hm₁ => (h hm₁).handled (fun _ => ⟨_, rfl, rfl⟩) ?_
  rintro m' _ _ hm' _ (hab | @⟨e, he⟩)
  · exact resume hm' (.ok hab)
  · cases e with
    | raised r => exact look rfl rfl (throw hm' (P.stamp hm' he))
    | exhausted => exact resume hm' (.error he)

end Line

theorem keepingLine (hm : P.inv m) (h : Alike P m R x y) :
    Alike P m R (Run.keepingLine x) (Run.keepingLine y) := by
  refine look rfl rfl (h.handled (fun _ => ⟨_, rfl, rfl⟩) ?_)
  intro m' r s hm' _ hrs
  exact aside hm' rfl rfl ⟨rfl, rfl, rfl, rfl, fun _ => .inl, fun _ hl => .inr (P.under hm hl)⟩
    fun hm₁ => resume hm₁ hrs

theorem inFrame {frame : Frame} (hframe : P.frame frame) (hm : P.inv m)
    (h : P.inv (m.enter frame) → Alike P (m.enter frame) R x y) :
    Alike P m R (Run.inFrame frame x) (Run.inFrame frame y) := by
  cases h (P.enter hframe hm) with
  | @intro r s m₁ hx hy hinv hstep hends =>
    -- the record is kept inside the call, so it is part of what the call did
    have hrec : m₁.Aside P.line (recorded r m₁) := Machine.aside_recorded r m₁
    obtain ⟨hinv', hstep'⟩ := P.aside hrec hinv
    obtain ⟨hout, hall⟩ := P.leave hinv' (P.trans hstep hstep')
    refine .intro (outcome_inFrame hx) (s := s) ?_ hout hall ?_
    · rw [hends.recorded_eq]
      exact outcome_inFrame hy
    · show Ends P.fails (R (recorded r m₁).scopes) r s
      rw [hrec.scopes]
      exact hends
  | quit hy hgiven => exact .quit (outcome_inFrame hy) hgiven

/-- A note in the trace is beside the point. -/
theorem note (env : Env σ) (line : HostView → Except Fault String) (hm : P.inv m)
    {f : Unit → Run σ γ} {g : Unit → Run σ δ}
    (hk : ∀ m', m.Aside P.line m' → P.inv m' → Alike P m' S (f ()) (g ())) :
    Alike P m S (Run.note env line >>= f) (Run.note env line >>= g) := by
  have ha : m.Aside P.line _ := Machine.aside_note env line m
  exact aside hm rfl rfl ha (hk _ ha)

end Alike

end LineScript
