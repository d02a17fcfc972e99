import LineScript.Proofs.Holdings
import LineScript.Proofs.Provenance
import LineScript.Proofs.WellFormed

/-!
# The custody of scripts that are read

What is run was read from a text, so it is well formed, and so is every function that it defines,
hands over or finds.  A property that values are made with, whichever way they are made, then holds
of all values that are ever bound, handed over or given.

## Main definitions

* `Lasting` — a property that values are made with.
* `keeping` — the custody of evaluation under a faithful host, for a property that lasts and for the
  names that the table gives to operators.

## Main results

* `keeping_create` — a new runner keeps to the custody.
* `kept_useAll` — so does a runner that is used with functions of texts only.
-/

namespace LineScript

open Run

variable {σ : Type} {env : Env σ} {holds : σ → Prop} {good : Value → Prop}
  {known : Family → Option Key → Prop}

/-- A property that values are made with: plain values, functions and what belongs to the host have
it, and flags do not matter. -/
structure Lasting (good : Value → Prop) : Prop where
  plain : ∀ {v : Value}, v.Plain → good v
  function : ∀ f, good (.function f)
  host : ∀ h, good (.host h)
  bare : ∀ {v : Value}, good v → good v.withoutFlags

/-- What comes from the host has it. -/
theorem Lasting.ofHost (hgood : Lasting good) (h : HostValue) : good (.ofHost h) := by
  cases h with
  | null => exact hgood.plain Value.plain_null
  | boolean b => exact hgood.plain (Value.plain_boolean b)
  | integer n => exact hgood.plain (Value.plain_ofInt n)
  | decimal | float => exact hgood.plain (Value.plain_decimal _)
  | text s => exact hgood.plain (Value.plain_string s)
  | function f | callable f => exact hgood.function f
  | object | method | output => exact hgood.host _

/-- The expressions of a statement that was read are well formed. -/
theorem IsRead.wellFormed (hknown : env.symbols.Names known) {st : Statement} (h : IsRead env st) :
    ∀ e ∈ st.exprs, e.WellFormed known := by
  obtain ⟨base, origin, source, state, script, state', hparse, hst⟩ := h
  obtain ⟨inside, hwell⟩ := wellFormed_of_occurs hst (parse_wellFormed hknown hparse)
  exact hwell.exprs

/-- The policy of evaluation: machines hold functions of texts only, and values with the property. -/
def kept (env : Env σ) (holds : σ → Prop) (good : Value → Prop) : Policy σ where
  inv m := m.OfTexts env holds ∧ m.Holds good
  step _ _ := True
  refl _ := trivial
  trans _ _ := trivial
  frame call := ∀ v ∈ call.args, good v
  aside ha hm := ⟨⟨((ofTexts env holds).aside ha hm.1).1, hm.2.aside ha⟩, trivial⟩
  enter hframe hm := ⟨(ofTexts env holds).enter trivial hm.1, hm.2.enter hframe⟩
  leave hm _ := ⟨⟨⟨hm.1.scopes, hm.1.namespaces, hm.1.host⟩, hm.2.leave⟩, trivial⟩

variable {m : Machine σ} {state : σ}

theorem kept_hosted (hm : (kept env holds good).inv m) (hstate : holds state) :
    (kept env holds good).inv { m with host := state } :=
  ⟨⟨hm.1.scopes, hm.1.namespaces, hstate⟩, hm.2.hosted state⟩

theorem kept_assign (hm : (kept env holds good).inv m) (c : Nat) (name : String) {v : Value}
    (hv : v.OfTexts env ∧ good v) :
    (kept env holds good).inv { m with scopes := m.scopes.assign c name v } :=
  ⟨hm.1.assign c name hv.1, hm.2.assign c name hv.2⟩

/-- Host code that hands out functions of texts only keeps to the policy. -/
theorem HostProgram.OfTexts.safe_kept {program : HostProgram σ} (hm : (kept env holds good).inv m)
    (h : program.OfTexts env holds m.host) :
    program.Safe (kept env holds good) (fun _ h => h.OfTexts env)
      (fun _ asked => asked.OfTexts env) m :=
  safe (P := kept env holds good) (fun hm => hm.1)
    (fun hm hstate => ⟨kept_hosted hm hstate, trivial⟩) hm h

/-- **The custody of evaluation** under a faithful host: what is run was read from a text and is
well formed, and values have the property. -/
def keeping (env : Env σ) (holds : σ → Prop) (h : FaithfulHost env holds) (hgood : Lasting good)
    (hknown : env.symbols.Names known) : Custody env where
  toPolicy := kept env holds good
  value _ v := v.OfTexts env ∧ good v
  arg _ v := v.OfTexts env ∧ good v
  host _ v := v.OfTexts env
  request _ asked := asked.OfTexts env
  code _ st := IsRead env st
  value_mono _ hv := hv
  host_mono _ hv := hv
  plain hv _ := ⟨hv.ofTexts, hgood.plain hv⟩
  combined _ _ h := .inl ⟨(Value.plain_of_combine h).ofTexts, hgood.plain (Value.plain_of_combine h)⟩
  negated _ h := ⟨(Value.plain_of_negate h).ofTexts, hgood.plain (Value.plain_of_negate h)⟩
  bare hv := ⟨⟨hv.1.function, hv.1.host⟩, hgood.bare hv.2⟩
  arg_value hv := hv
  arg_bare hv := ⟨⟨hv.1.function, hv.1.host⟩, hgood.bare hv.2⟩
  arg_frame hargs := fun v hv => (hargs v hv).2
  function hv hf := ⟨Value.ofTexts_function.2 (hv.1.function _ hf), hgood.function _⟩
  ofHost hh := ⟨Value.ofTexts_ofHost hh, hgood.ofHost _⟩
  wrap hh := ⟨Value.ofTexts_host hh, hgood.host _⟩
  toHost hv := Value.ofTexts_toHost hv.1
  toHostBare hv := Value.ofTexts_toHostBare hv.1
  callable hf := ⟨Value.ofTexts_function.2 (HostValue.ofTexts_callable.1 hf), hgood.function _⟩
  lookup hm hv := ⟨hm.1.scopes.lookup hv, hm.2.bound.lookup hv⟩
  member hm hh := h.member hm.1.host hh
  module hm := h.module hm.1.host
  namespaces hm := hm.1.namespaces _
  imports hm hns := ⟨⟨⟨hm.1.scopes, hns, hm.1.host⟩, hm.2.imported _⟩, trivial⟩
  call hm _ hh ha := (h.call hm.1.host hh ha).safe_kept hm
  operate hm _ hh ha := (h.operate hm.1.host hh ha).safe_kept hm
  request_call hr := hr
  request_invoke hr := hr
  request_set hm hr := ⟨kept_assign hm _ _ ⟨Value.ofTexts_ofHost hr, hgood.ofHost _⟩, trivial⟩
  load hm hparse :=
    ⟨kept_hosted hm (parse_keeps (fun _ _ _ hstate => h.load hstate) hparse hm.1.host).1, trivial⟩
  parsed _ hparse := isRead_of_parse hparse
  expr := Expr.WellFormed known
  free _ _ := trivial
  expr_literal he := ⟨Value.Plain.ofTexts he, hgood.plain he⟩
  expr_operation he := he.2
  expr_negation he := he
  expr_call he := allWellFormed_iff.1 he
  code_expr hcode := hcode.wellFormed hknown
  code_loop hcode := hcode.loop
  code_branch hcode := hcode.branchBodies
  code_otherwise hcode := hcode.otherwise
  assign c name hm hv := kept_assign hm c name hv
  define _ _ hcode := ⟨Value.ofTexts_function.2 (IsRead.function hcode), hgood.function _⟩
  push c name hm := ⟨⟨hm.1.scopes.push c name, hm.1.namespaces, hm.1.host⟩, hm.2.push c name⟩
  body hf := Value.ofTexts_function.1 hf.1

/-! ### Runners -/

/-- A new runner keeps to the custody. -/
theorem keeping_create (env : Env σ) (hgood : Lasting good) (hstate : holds state) :
    (kept env holds good).inv (Runner.create env state).machine :=
  ⟨Runner.ofTexts_create env hstate, .create env state (hgood.host _)⟩

/-- A use of a runner asks for what is permitted. -/
theorem request_of_use {u : Use} (hu : u.OfTexts env) : ∀ asked ∈ u.request, asked.OfTexts env := by
  intro asked hasked
  cases u with
  | parse source => cases hasked
  | _ =>
    cases hasked
    exact hu

/-- **A runner keeps to the custody** when the functions that it is used with are of texts. -/
theorem kept_useAll (h : FaithfulHost env holds) (hgood : Lasting good)
    (hknown : env.symbols.Names known) (hstate : holds state) {uses : List Use}
    (huses : ∀ u ∈ uses, u.OfTexts env) :
    (kept env holds good).inv ((Runner.create env state).useAll uses).machine :=
  (keeping env holds h hgood hknown).kept_useAll uses rfl (keeping_create env hgood hstate)
    fun u hu asked hasked _ => request_of_use (huses u hu) asked hasked

end LineScript
