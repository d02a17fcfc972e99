import LineScript.Proofs.Holdings
import LineScript.Proofs.TreeLines

/-!
# Runs that keep to lines

A machine knows lines in three ways: the line under way, the line of the failure on record, and the
lines of the functions that it holds.  A failure knows the line that it is given.  Where all of these
have a property, they still have it after every run of code whose lines have it: a failure is given
the line under way, and nothing comes under way but a line of the code.

The host has its part in this.  It hands out no functions on other lines, puts its own failures on no
other lines, and asks for no texts with other lines.

## Main definitions

* `HostValue.LinesIn`, `Value.LinesIn`, `Machine.LinesIn` — values and machines whose lines have a
  property.
* `LinedHost` — a host that brings in no other lines.
* `Use.LinesIn` — uses of a runner that bring in no other lines.
* `keepingLines` — the custody of evaluation on lines with a property.

## Main results

* `HostProgram.LinesIn.safe` — host code that brings in no other lines keeps to the lines.
* `placed_runSource` — **a text that is run keeps to the lines**, and so does its failure.
* `Runner.linesIn_useAll` — **whatever a host does with a runner keeps to the lines.**
-/

namespace LineScript

open Run

variable {σ : Type}

/-! ### Values and machines -/

section Lines

variable (P : SourceLine → Prop)

/-- A host value that is no function, or one whose lines have a property. -/
def HostValue.LinesIn : HostValue → Prop
  | .function f | .callable f => BodyLinesIn P f.body
  | _ => True

/-- A value that is no function, or one whose lines have a property. -/
def Value.LinesIn (v : Value) : Prop := v.toHostBare.LinesIn P

/-- A source whose lines have a property; one that is no text has none. -/
def HostValue.TextIn (source : HostValue) : Prop :=
  ∀ l : SourceLine, l.IsLineOf none (sourceText source).toList → P l

/-- What was looked for: a value whose lines have a property, or a failure that is placed. -/
def Lookup.LinesIn : Lookup → Prop
  | .found h => h.LinesIn P
  | .missing => True
  | .broken f => f.PlacedIn P

/-- A request in which all lines have a property. -/
def Request.LinesIn : Request → Prop
  | .call h args => h.LinesIn P ∧ ∀ a ∈ args, a.LinesIn P
  | .invoke _ args => ∀ a ∈ args, a.LinesIn P
  | .set _ h => h.LinesIn P
  | .eval source | .handle source => source.TextIn P
  | .get _ => True

/-- Host code that brings in no lines but those with a property, and leaves states behind that
`holds` of. -/
def HostProgram.LinesIn (holds : σ → Prop) : HostProgram σ → σ → Prop
  | .done value, _ => value.LinesIn P
  | .fail f, _ => f.PlacedIn P
  | .rethrow r, _ => r.failure.PlacedIn P
  | .read next, state => (next state).LinesIn holds state
  | .write state next, _ => holds state ∧ next.LinesIn holds state
  | .ask asked next, _ => asked.LinesIn P ∧ ∀ state reply, holds state →
      (∀ value, reply = .ok value → value.LinesIn P) →
        (∀ r, reply = .error r → r.failure.PlacedIn P) → (next reply).LinesIn holds state

/-- A host that brings in no lines but those with a property; lines of the texts that it loads name
where they come from, and have it. -/
structure LinedHost (env : Env σ) (holds : σ → Prop) : Prop where
  member : ∀ {state} {h : HostValue} (name : String), holds state → h.LinesIn P →
    (h.member (env.host.view state) name).LinesIn P
  module : ∀ {state} (name : String), holds state → (env.host.importModule state name).LinesIn P
  call : ∀ {state} {h : HostValue} {args : List HostValue}, holds state → h.LinesIn P →
    (∀ a ∈ args, a.LinesIn P) → (env.host.call h args).LinesIn P holds state
  operate : ∀ {state op} {h a : HostValue}, holds state → h.LinesIn P → a.LinesIn P →
    (env.host.operate op h a).LinesIn P holds state
  load : ∀ {locator base state}, holds state → holds (env.host.load locator base state).2
  loaded : ∀ l : SourceLine, l.origin ≠ none → P l

/-- A machine all of whose lines have a property: the line under way, that of the failure on record,
and those of the functions that it holds. -/
structure Machine.LinesIn (holds : σ → Prop) (m : Machine σ) : Prop where
  line : ∀ l ∈ m.line, P l
  record : ∀ r ∈ m.record, ∀ l ∈ r.line, P l
  scopes : m.scopes.All (Value.LinesIn P)
  namespaces : ∀ n ∈ m.namespaces, n.object.LinesIn P
  host : holds m.host

end Lines

variable {P : SourceLine → Prop} {holds : σ → Prop}

namespace Lookup.LinesIn

variable {l : Lookup}

theorem found {h : HostValue} (hl : l.LinesIn P) (heq : l = .found h) : h.LinesIn P := by
  subst heq
  exact hl

theorem broken {f : Failure} (hl : l.LinesIn P) (heq : l = .broken f) : f.PlacedIn P := by
  subst heq
  exact hl

end Lookup.LinesIn

namespace Value

theorem Plain.linesIn {v : Value} (h : v.Plain) : v.LinesIn P := by
  obtain ⟨payload, flags⟩ := v
  cases payload with
  | host h' => exact absurd rfl (h.host h')
  | function f => exact absurd rfl (h.function f)
  | null | boolean | integer | decimal | string => trivial

theorem linesIn_ofLiteral (l : Literal) : (Value.ofLiteral l).LinesIn P := by
  cases l <;> trivial

theorem linesIn_ofHost {h : HostValue} (hh : h.LinesIn P) : (Value.ofHost h).LinesIn P := by
  cases h with
  | integer n => exact (plain_ofInt n).linesIn
  | function | callable | object | method | output => exact hh
  | null | boolean | decimal | float | text => trivial

theorem linesIn_toHost {v : Value} (hv : v.LinesIn P) : v.toHost.LinesIn P := by
  obtain ⟨payload, flags⟩ := v
  cases payload with
  | function f => exact hv
  | null | boolean | integer | decimal | string | host => exact hv

end Value

/-! ### The custody of evaluation -/

variable (P holds) in
/-- The policy of evaluation on lines with a property. -/
def onLines : Policy σ where
  inv := Machine.LinesIn P holds
  step _ _ := True
  refl _ := trivial
  trans _ _ := trivial
  frame _ := True
  line := P
  fails := Failure.PlacedIn P
  aside {m m'} ha hm := by
    refine ⟨⟨fun l hl => (ha.line l hl).elim (hm.line l) id, fun r hr l hl => ?_, ?_, ?_, ?_⟩, trivial⟩
    · -- a failure is recorded with the line under way
      obtain hold | ⟨-, hnew⟩ := ha.record r hr
      · exact hm.record r hold l hl
      · exact hm.line l (hnew ▸ hl)
    · rw [ha.scopes]
      exact hm.scopes
    · rw [ha.namespaces]
      exact hm.namespaces
    · rw [ha.host]
      exact hm.host
  enter _ hm := ⟨hm.line, hm.record, hm.scopes, hm.namespaces, hm.host⟩
  leave hm _ := ⟨⟨hm.line, hm.record, hm.scopes, hm.namespaces, hm.host⟩, trivial⟩
  under hm hl := hm.line _ hl
  cause := Failure.placedIn_ofCause
  fault _ := trivial
  stamp hm hf := hf.stamp hm.line

theorem Machine.LinesIn.setHost {m : Machine σ} (hm : m.LinesIn P holds) {state : σ}
    (h : holds state) : Machine.LinesIn P holds { m with host := state } :=
  ⟨hm.line, hm.record, hm.scopes, hm.namespaces, h⟩

theorem Machine.LinesIn.assign {m : Machine σ} (hm : m.LinesIn P holds) (c : Nat) (name : String)
    {v : Value} (hv : v.LinesIn P) :
    Machine.LinesIn P holds { m with scopes := m.scopes.assign c name v } :=
  ⟨hm.line, hm.record, hm.scopes.assign c name hv, hm.namespaces, hm.host⟩

/-- Host code that brings in no other lines keeps to the lines; from each point on, in the state that
it finds there. -/
theorem HostProgram.LinesIn.safe {program : HostProgram σ} {m : Machine σ} (hm : m.LinesIn P holds)
    (h : program.LinesIn P holds m.host) : program.Safe (onLines P holds)
      (fun _ h => h.LinesIn P) (fun _ asked => asked.LinesIn P) m := by
  induction program generalizing m with
  | done _ | fail _ | rethrow _ => exact h
  | read next ih => exact ih m.host hm h
  | write state next ih => exact ⟨hm.setHost h.1, trivial, ih (hm.setHost h.1) h.2⟩
  | ask asked next ih =>
    exact ⟨h.1, fun m' reply hm' _ hvalue hraised =>
      ih reply hm' (h.2 m'.host reply hm'.host hvalue hraised)⟩

variable {env : Env σ}

/-- **The custody of evaluation on lines with a property**, under a host that brings in no others. -/
def keepingLines (hhost : LinedHost P env holds) : Custody env where
  toPolicy := onLines P holds
  value _ v := v.LinesIn P
  arg _ v := v.LinesIn P
  host _ h := h.LinesIn P
  request _ asked := asked.LinesIn P
  code _ st := st.LinesIn P
  value_mono _ hv := hv
  host_mono _ hv := hv
  plain hv _ := hv.linesIn
  combined _ _ h := .inl (Value.plain_of_combine h).linesIn
  negated _ h := (Value.plain_of_negate h).linesIn
  bare hv := hv
  arg_value hv := hv
  arg_bare hv := hv
  arg_frame _ := trivial
  function {_ v _} hv hf := by
    rwa [Value.LinesIn, Value.toHostBare, hf] at hv
  ofHost hh := Value.linesIn_ofHost hh
  wrap hh := hh
  toHost hv := Value.linesIn_toHost hv
  toHostBare hv := hv
  callable hf := hf
  lookup hm hv := hm.scopes.lookup hv
  member hm hh hfound := (hhost.member _ hm.host hh).found hfound
  broken hm hh hbroken := (hhost.member _ hm.host hh).broken hbroken
  module hm hfound := (hhost.module _ hm.host).found hfound
  unimported hm hbroken := (hhost.module _ hm.host).broken hbroken
  namespaces hm := hm.namespaces _
  imports hm hns := ⟨⟨hm.line, hm.record, hm.scopes, hns, hm.host⟩, trivial⟩
  call hm _ hh ha := (hhost.call hm.host hh ha).safe hm
  operate hm _ hh ha := (hhost.operate hm.host hh ha).safe hm
  request_call hr := hr
  request_invoke hr := hr
  request_set hm hr := ⟨hm.assign _ _ (Value.linesIn_ofHost hr), trivial⟩
  load hm hparse :=
    ⟨hm.setHost (parse_keeps (fun _ _ _ hstate => hhost.load hstate) hparse hm.host).1, trivial⟩
  parsed hsource hparse :=
    bodyLinesIn_iff.1 ((placed_parse hhost.loaded _ (or_self_iff.1 hsource)).of_ok
      (congrArg Prod.fst hparse))
  unread hsource hparse :=
    (placed_parse hhost.loaded _ (or_self_iff.1 hsource)).of_error (congrArg Prod.fst hparse)
  expr e := e.LineIn P
  expr_line he := he.line
  free _ _ := trivial
  expr_literal _ := Value.linesIn_ofLiteral _
  expr_operation := fun ⟨l, hl, he⟩ => ⟨⟨l, hl, he.2.1⟩, l, hl, he.2.2⟩
  expr_negation := fun ⟨l, hl, he⟩ => ⟨l, hl, he.2⟩
  expr_call := fun ⟨l, hl, he⟩ e hmem => ⟨l, hl, allOnLine_iff.1 he.2 e hmem⟩
  code_line hcode := hcode.line
  code_expr hcode := hcode.exprs
  code_loop hcode := bodyLinesIn_iff.1 hcode.2.2
  code_branch hcode b hb := bodyLinesIn_iff.1 (branchesLinesIn_iff.1 hcode.2.1 b hb).2
  code_otherwise hcode := bodyLinesIn_iff.1 hcode.2.2
  assign c name hm hv := hm.assign c name hv
  define _ _ hcode := hcode.2
  push c name hm := ⟨hm.line, hm.record, hm.scopes.push c name, hm.namespaces, hm.host⟩
  body hf := bodyLinesIn_iff.1 hf

/-- **A text that is run keeps to the lines**, and so does the failure that it ends with. -/
theorem placed_runSource (hhost : LinedHost P env holds) {n : Nat} {m m' : Machine σ}
    {source : HostValue} {r : Raised} (hm : m.LinesIn P holds) (hsource : source.TextIn P)
    (h : outcome (do (env.inner n).runScript (← parseHost env source)) m = (.error (.raised r), m')) :
    m'.LinesIn P holds ∧ r.failure.PlacedIn P := by
  have hrun := (keepingLines hhost).runSource ((keepingLines hhost).inner_kept n fun _ h => h) hm hsource
  have hkept := hrun.kept.1
  rw [h] at hkept
  exact ⟨hkept, hrun.fails_of_outcome h⟩

/-! ### Runners -/

variable (P) in
/-- A use of a runner in which all lines have a property. -/
def Use.LinesIn : Use → Prop
  | .set _ h => h.LinesIn P
  | .eval source | .handle source => (HostValue.text source).TextIn P
  | .invoke _ args => ∀ a ∈ args, a.LinesIn P
  | .call h args => h.LinesIn P ∧ ∀ a ∈ args, a.LinesIn P
  | .get _ | .parse _ => True

namespace Runner

theorem linesIn_create (env : Env σ) {state : σ} (hstate : holds state) :
    (create env state).machine.LinesIn P holds := by
  have hbare : (bare env (some env.symbols.globalMark) state).machine.LinesIn P holds :=
    ⟨fun _ hl => (by cases hl), fun _ hr => (by cases hr), .root _ _,
      fun _ hn => absurd hn List.not_mem_nil, hstate⟩
  exact hbare.assign rootScope "print" (v := .host .output) trivial

/-- **Whatever a host does with a runner keeps to the lines.** -/
theorem linesIn_useAll (uses : List Use) {r : Runner σ} (hhost : LinedHost P r.env holds)
    (hr : r.machine.LinesIn P holds) (huses : ∀ u ∈ uses, u.LinesIn P) :
    (r.useAll uses).machine.LinesIn P holds := by
  refine (keepingLines hhost).kept_useAll uses rfl hr fun u hu asked hasked _ => ?_
  have hlines := huses u hu
  cases u with
  | parse source => cases hasked
  | set | get | eval | handle | invoke | call =>
    cases hasked
    exact hlines

end Runner

end LineScript
