import LineScript.Proofs.CallBalance
import LineScript.Proofs.Isolation

/-!
# Where functions come from

A function is made by running its definition, and a definition is a statement of a text that was
read.  So, where the host hands out no functions but those it was given, every function that a
machine holds, in a scope, in a namespace or with the host, is the function of a text; and that
stays so, whatever is run and whatever the host asks for.

## Main definitions

* `ScriptFunction.OfText` — the statements of a function were read from a text.
* `HostValue.OfTexts`, `Value.OfTexts`, `Machine.OfTexts` — values and machines that hold no other
  functions.
* `FaithfulHost` — a host that hands out no other functions.
* `provenance` — the conduct of evaluation under a faithful host.

## Main results

* `Runner.ofTexts_create`, `Runner.ofTexts_useAll` — **a runner holds functions of texts only**,
  whatever the host does with it.
-/

namespace LineScript

open Run

variable {σ : Type} {env : Env σ}

/-! ### Functions, values and scopes -/

/-- The statements of a function were read from a text. -/
def ScriptFunction.OfText (env : Env σ) (f : ScriptFunction) : Prop := ∀ st ∈ f.body, IsRead env st

/-- A host value that is no function, or one of a text. -/
def HostValue.OfTexts (env : Env σ) (h : HostValue) : Prop :=
  ∀ f, h = .function f ∨ h = .callable f → f.OfText env

/-- A value that is no function, or one of a text. -/
structure Value.OfTexts (env : Env σ) (v : Value) : Prop where
  function : ∀ f, v.payload = .function f → f.OfText env
  host : ∀ h, v.payload = .host h → h.OfTexts env

theorem HostValue.ofTexts_callable {f : ScriptFunction} :
    (HostValue.callable f).OfTexts env ↔ f.OfText env := by
  constructor
  · intro h
    exact h f (.inr rfl)
  · intro h g hg
    rcases hg with hg | hg <;> cases hg
    exact h

variable {v : Value}

namespace Value

theorem Plain.ofTexts (h : v.Plain) : v.OfTexts env :=
  ⟨fun f hf => absurd hf (h.function f), fun h' hh => absurd hh (h.host h')⟩

theorem ofTexts_ofLiteral (l : Literal) : (Value.ofLiteral l).OfTexts env := by
  cases l <;> exact ⟨nofun, nofun⟩

theorem ofTexts_function {f : ScriptFunction} : (Value.function f).OfTexts env ↔ f.OfText env := by
  constructor
  · intro h
    exact h.function f rfl
  · intro h
    exact ⟨fun g hg => by cases hg; exact h, nofun⟩

theorem ofTexts_host {h : HostValue} (hh : h.OfTexts env) : (Value.host h).OfTexts env :=
  ⟨nofun, fun g hg => by cases hg; exact hh⟩

theorem ofTexts_ofHost {h : HostValue} (hh : h.OfTexts env) : (Value.ofHost h).OfTexts env := by
  cases h with
  | function f => exact ofTexts_function.2 (hh f (.inl rfl))
  | callable f => exact ofTexts_function.2 (hh f (.inr rfl))
  | integer k => exact (plain_ofInt k).ofTexts
  | object | method | output => exact ofTexts_host hh
  | _ => exact ⟨nofun, nofun⟩

theorem ofTexts_toHostBare (hv : v.OfTexts env) : v.toHostBare.OfTexts env := by
  obtain ⟨payload, flags⟩ := v
  cases payload with
  | host h => exact hv.host h rfl
  | function f =>
    intro g hg
    rcases hg with hg | hg <;> cases hg
    exact hv.function f rfl
  | _ =>
    intro g hg
    rcases hg with hg | hg <;> cases hg

theorem ofTexts_toHost (hv : v.OfTexts env) : v.toHost.OfTexts env := by
  unfold toHost
  split
  next f hp => exact HostValue.ofTexts_callable.2 (hv.function f hp)
  next => exact ofTexts_toHostBare hv

end Value

/-- No scope binds a function that is not of a text. -/
def Scopes.OfTexts (env : Env σ) (s : Scopes) : Prop :=
  ∀ i, ∀ p ∈ (s.get i).bindings, p.2.OfTexts env

namespace Scopes.OfTexts

variable {s : Scopes}

theorem all (h : s.OfTexts env) : s.All fun v => v.OfTexts env := h

theorem assign (h : s.OfTexts env) (id : Nat) (name : String) (hv : v.OfTexts env) :
    (s.assign id name v).OfTexts env :=
  h.all.assign id name hv

theorem push (h : s.OfTexts env) (id : Nat) (name : String) : (s.push id name).2.OfTexts env :=
  h.all.push id name

theorem lookup (h : s.OfTexts env) {id : Nat} {name : String} (hv : s.lookup id name = some v) :
    v.OfTexts env :=
  h.all.lookup hv

theorem root (mark : Option String) (name : String) : (Scopes.root mark name).OfTexts env :=
  show (Scopes.root mark name).All fun v => v.OfTexts env from .root mark name

end Scopes.OfTexts

/-! ### Hosts -/

section Hosts

variable (env : Env σ)

/-- A request in which the host hands over functions of texts only. -/
def Request.OfTexts : Request → Prop
  | .call h args => h.OfTexts env ∧ ∀ a ∈ args, a.OfTexts env
  | .invoke _ args => ∀ a ∈ args, a.OfTexts env
  | .set _ h => h.OfTexts env
  | .eval _ | .handle _ | .get _ => True

/-- Host code that hands out functions of texts only, and leaves states behind that `holds` of. -/
def HostProgram.OfTexts (holds : σ → Prop) : HostProgram σ → σ → Prop
  | .done value, _ => value.OfTexts env
  | .fail _, _ | .rethrow _, _ => True
  | .read next, state => (next state).OfTexts holds state
  | .write state next, _ => holds state ∧ next.OfTexts holds state
  | .ask asked next, _ => asked.OfTexts env ∧ ∀ state reply, holds state →
      (∀ value, reply = .ok value → value.OfTexts env) → (next reply).OfTexts holds state

/-- A host whose states hold functions of texts only, as `holds` says, and that hands out no
others. -/
structure FaithfulHost (holds : σ → Prop) : Prop where
  member : ∀ {state name} {h h' : HostValue}, holds state → h.OfTexts env →
    h.member (env.host.view state) name = .found h' → h'.OfTexts env
  module : ∀ {state name} {h : HostValue}, holds state →
    env.host.importModule state name = .found h → h.OfTexts env
  call : ∀ {state} {h : HostValue} {args : List HostValue}, holds state → h.OfTexts env →
    (∀ a ∈ args, a.OfTexts env) → (env.host.call h args).OfTexts env holds state
  operate : ∀ {state op} {h a : HostValue}, holds state → h.OfTexts env → a.OfTexts env →
    (env.host.operate op h a).OfTexts env holds state
  load : ∀ {locator base state}, holds state → holds (env.host.load locator base state).2

/-- A machine that holds functions of texts only. -/
structure Machine.OfTexts (holds : σ → Prop) (m : Machine σ) : Prop where
  scopes : m.scopes.OfTexts env
  namespaces : ∀ n ∈ m.namespaces, n.object.OfTexts env
  host : holds m.host

end Hosts

variable {holds : σ → Prop}

theorem Machine.OfTexts.assign {m : Machine σ} (hm : m.OfTexts env holds) (c : Nat) (name : String)
    (hv : v.OfTexts env) :
    Machine.OfTexts env holds { m with scopes := m.scopes.assign c name v } :=
  ⟨hm.scopes.assign c name hv, hm.namespaces, hm.host⟩

/-! ### The conduct of evaluation -/

/-- The policy of evaluation: machines hold functions of texts only. -/
def ofTexts (env : Env σ) (holds : σ → Prop) : Policy σ where
  inv := Machine.OfTexts env holds
  step _ _ := True
  refl _ := trivial
  trans _ _ := trivial
  frame _ := True
  aside ha hm := by
    refine ⟨⟨?_, ?_, ?_⟩, trivial⟩
    · rw [ha.scopes]
      exact hm.scopes
    · rw [ha.namespaces]
      exact hm.namespaces
    · rw [ha.host]
      exact hm.host
  enter _ hm := ⟨hm.scopes, hm.namespaces, hm.host⟩
  leave hm _ := ⟨⟨hm.scopes, hm.namespaces, hm.host⟩, trivial⟩

/-- Host code that hands out functions of texts only is safe, under every policy whose machines hold
no others and that leaves the state to the host. -/
theorem HostProgram.OfTexts.safe {P : Policy σ} (hmachine : ∀ {m}, P.inv m → m.OfTexts env holds)
    (hwrite : ∀ {m : Machine σ} {state}, P.inv m → holds state →
      P.inv { m with host := state } ∧ P.step m { m with host := state })
    {program : HostProgram σ} {m : Machine σ} (hm : P.inv m) (h : program.OfTexts env holds m.host)
    (hfails : ∀ f, P.fails f := by exact fun _ => trivial) :
    program.Safe P (fun _ h => h.OfTexts env) (fun _ asked => asked.OfTexts env) m := by
  induction program generalizing m with
  | done _ => exact h
  | fail f => exact hfails f
  | rethrow r => exact hfails r.failure
  | read next ih => exact ih m.host hm h
  | write state next ih =>
    obtain ⟨hm', hstep⟩ := hwrite hm h.1
    exact ⟨hm', hstep, ih hm' h.2⟩
  | ask asked next ih =>
    refine ⟨h.1, fun m' reply hm' _ hreply _ => ih reply hm' ?_⟩
    exact h.2 _ reply (hmachine hm').host hreply

/-- So it is where nothing more is said of machines. -/
theorem HostProgram.OfTexts.safe_ofTexts {program : HostProgram σ} {m : Machine σ}
    (hm : m.OfTexts env holds) (h : program.OfTexts env holds m.host) :
    program.Safe (LineScript.ofTexts env holds) (fun _ h => h.OfTexts env)
      (fun _ asked => asked.OfTexts env) m :=
  safe (P := LineScript.ofTexts env holds) (fun hm => hm)
    (fun hm hstate => ⟨⟨hm.scopes, hm.namespaces, hstate⟩, trivial⟩) hm h

/-- What stands in a statement that was read was read, too. -/
theorem IsRead.inside {st x : Statement} (h : IsRead env st) (hx : Occurs true x [st]) :
    IsRead env x := by
  obtain ⟨base, origin, source, state, script, state', hparse, hst⟩ := h
  exact ⟨base, origin, source, state, script, state', hparse, hst.trans hx⟩

/-- What a runner is given as a text is read. -/
theorem isRead_of_parse {source : String} {state state' : σ} {script : Script}
    (h : parse env.symbols env.host.load env.base none source state = (.ok script, state')) :
    ∀ st ∈ script.body, IsRead env st :=
  fun _ hst => ⟨_, _, _, _, _, _, h, .here hst⟩

namespace IsRead

variable {line l : SourceLine} {holds : Expr} {body : List Statement} {branches : List Branch}

theorem loop (h : IsRead env (.loop line holds body)) : ∀ st ∈ body, IsRead env st :=
  fun _ hst => h.inside (.loop List.mem_cons_self (.here hst))

theorem branch {otherwise : Option (List Statement)}
    (h : IsRead env (.conditional line branches otherwise)) (hb : .mk l holds body ∈ branches) :
    ∀ st ∈ body, IsRead env st :=
  fun _ hst => h.inside (.branch List.mem_cons_self hb (.here hst))

theorem branchBodies {otherwise : Option (List Statement)}
    (h : IsRead env (.conditional line branches otherwise)) :
    ∀ b ∈ branches, ∀ st ∈ b.body, IsRead env st := by
  rintro ⟨l, holds, body⟩ hb
  exact h.branch hb

theorem otherwise (h : IsRead env (.conditional line branches (some body))) :
    ∀ st ∈ body, IsRead env st :=
  fun _ hst => h.inside (.otherwise List.mem_cons_self (.here hst))

theorem function {name : String} {params : List String}
    (h : IsRead env (.function line name params body)) : ∀ st ∈ body, IsRead env st :=
  fun _ hst => h.inside (.function rfl List.mem_cons_self (.here hst))

end IsRead

/-- **The conduct of evaluation** under a faithful host: what is run was read from a text, and so
were the functions that it defines, hands over or finds. -/
def provenance (env : Env σ) (holds : σ → Prop) (h : FaithfulHost env holds) : Conduct env where
  toPolicy := ofTexts env holds
  value _ v := v.OfTexts env
  arg _ v := v.withoutFlags.OfTexts env
  host _ v := v.OfTexts env
  request _ asked := asked.OfTexts env
  code _ st := IsRead env st
  value_mono _ hv := hv
  host_mono _ hv := hv
  plain hv _ := hv.ofTexts
  combined _ _ h := .inl (Value.plain_of_combine h).ofTexts
  negated _ h := (Value.plain_of_negate h).ofTexts
  bare hv := ⟨hv.function, hv.host⟩
  arg_value hv := ⟨hv.function, hv.host⟩
  arg_bare hv := hv
  arg_frame _ := trivial
  function hv hf := Value.ofTexts_function.2 (hv.function _ hf)
  ofHost := Value.ofTexts_ofHost
  wrap := Value.ofTexts_host
  toHost := Value.ofTexts_toHost
  toHostBare := Value.ofTexts_toHostBare
  callable hf := Value.ofTexts_function.2 (HostValue.ofTexts_callable.1 hf)
  lookup hm hv := hm.scopes.lookup hv
  member hm hh := h.member hm.host hh
  module hm := h.module hm.host
  namespaces hm := hm.namespaces _
  imports hm hns := ⟨⟨hm.scopes, hns, hm.host⟩, trivial⟩
  call hm _ hh ha := (h.call hm.host hh ha).safe_ofTexts hm
  operate hm _ hh ha := (h.operate hm.host hh ha).safe_ofTexts hm
  request_call hr := hr
  request_invoke hr := hr
  request_set hm hr := ⟨hm.assign _ _ (Value.ofTexts_ofHost hr), trivial⟩
  load hm hparse := by
    refine ⟨⟨hm.scopes, hm.namespaces, ?_⟩, trivial⟩
    exact (parse_keeps (fun _ _ _ hstate => h.load hstate) hparse hm.host).1
  parsed _ hparse := isRead_of_parse hparse
  literal l := Value.ofTexts_ofLiteral l
  scope _ _ := True
  own _ _ := True
  within _ _ _ := True
  step_within _ := trivial
  within_trans _ _ := trivial
  within_leave hm _ := ⟨⟨hm.scopes, hm.namespaces, hm.host⟩, trivial⟩
  within_root _ _ _ := trivial
  value_within _ hv := hv
  scope_within _ _ := trivial
  own_scope _ := trivial
  own_within _ _ := trivial
  scope_root _ := trivial
  flagged _ hv := ⟨hv.function, hv.host⟩
  code_loop hcode := hcode.loop
  code_branch hcode _ _ _ hb := hcode.branch hb
  code_otherwise hcode := hcode.otherwise
  assign hm _ _ hv := ⟨hm.assign _ _ hv, trivial⟩
  define _ _ hm _ hcode :=
    ⟨hm.assign _ _ (Value.ofTexts_function.2 (IsRead.function hcode)), trivial⟩
  push hm hf := ⟨⟨hm.scopes.push _ _, hm.namespaces, hm.host⟩, trivial, fun _ hv => hv,
    Value.ofTexts_function.1 hf, fun _ _ _ => trivial⟩
  param hm _ _ _ hv := ⟨hm.assign _ _ hv, trivial⟩

/-! ### Runners -/

/-- A use of a runner in which the host hands over functions of texts only. -/
def Use.OfTexts (env : Env σ) : Use → Prop
  | .set _ h => h.OfTexts env
  | .invoke _ args => ∀ a ∈ args, a.OfTexts env
  | .call h args => h.OfTexts env ∧ ∀ a ∈ args, a.OfTexts env
  | .get _ | .parse _ | .eval _ | .handle _ => True

namespace Runner

theorem ofTexts_create (env : Env σ) {state : σ} (hstate : holds state) :
    (create env state).machine.OfTexts env holds := by
  have hbare : (bare env (some env.symbols.globalMark) state).machine.OfTexts env holds :=
    ⟨.root _ _, fun n hn => absurd hn List.not_mem_nil, hstate⟩
  refine hbare.assign rootScope "print" (Value.ofTexts_host ?_)
  rintro f (hf | hf) <;> cases hf

theorem ofTexts_use {r : Runner σ} (h : FaithfulHost r.env holds)
    (hr : r.machine.OfTexts r.env holds) {u : Use} (hu : u.OfTexts r.env) :
    (r.use u).machine.OfTexts r.env holds := by
  let D := provenance r.env holds h
  refine (D.kept_use (D.inner_alike stepLimit) rfl hr fun asked hasked => ?_).1
  cases u <;> cases hasked <;> exact hu

/-- **A runner holds functions of texts only**, whatever the host does with it. -/
theorem ofTexts_useAll (uses : List Use) : ∀ {r : Runner σ}, FaithfulHost r.env holds →
    r.machine.OfTexts r.env holds → (∀ u ∈ uses, u.OfTexts r.env) →
      (r.useAll uses).machine.OfTexts r.env holds := by
  induction uses with
  | nil => exact fun _ hr _ => hr
  | cons u rest ih =>
    intro r h hr huses
    have henv := r.env_use u
    have hfirst := ofTexts_use h hr (huses u List.mem_cons_self)
    have hrest := fun v hv => huses v (List.mem_cons_of_mem u hv)
    rw [← henv] at h hfirst hrest ⊢
    exact ih h hfirst hrest

end Runner

end LineScript
