import LineScript.Runner
import LineScript.Proofs.Conduct
import LineScript.Proofs.NodeLines
import LineScript.Proofs.ScopeShape
import LineScript.Proofs.StandardSymbols

/-!
# Scopes are isolated

Whatever runs in a scope changes that scope and the root, and no other scope that was there
before; and no scope ever gets another parent.  Calls run in scopes of their own, so a call
changes neither the scope it is called from nor the one its function closes over.  The root in
turn changes only where a name with the global mark is bound, where statements are run in the
root itself, and where the host binds a name.

What the host does is unknown.  It is honest when the script functions that it hands out are
sound ones, such as those it was given, and when it asks for permitted changes of the root only.

## Main definitions

* `Isolated` — scopes that changed in one place, and in the root under permitted names.
* `Permitted` — what the host may ask for.
* `HonestHost` — a host that hands out sound functions and asks for what is permitted.
* `isolation` — the conduct of evaluation under which scopes are isolated.
* `Reachable` — the machines that a runner comes to.

## Main results

* `Reachable.shaped` — the scopes of every machine that is reached are sound.
* `scopes_isolated` — expressions, statements and calls isolate scopes.
-/

namespace LineScript

open Run

variable {σ : Type}

/-! ### Changes of the scopes -/

/-- Scopes that came from others by changes in the scope `c`, in the root under writable names,
and in new scopes. -/
structure Isolated (writable : String → Prop) (c : Nat) (s s' : Scopes) : Prop where
  /-- No scope is lost. -/
  size : s.size ≤ s'.size
  /-- The other scopes are what they were. -/
  others : ∀ i, i < s.size → i ≠ c → i ≠ rootScope → s'.get i = s.get i
  /-- No scope has other scopes around it than before. -/
  parents : ∀ i, i < s.size → (s'.get i).ancestors = (s.get i).ancestors
  /-- The root binds every name that is not writable as before. -/
  root : ∀ key, ¬ writable key →
    (s'.get rootScope).bindings.get? key = (s.get rootScope).bindings.get? key

variable {mark : String} {v : Value}

namespace Isolated

variable {writable : String → Prop} {c : Nat} {s s' s'' : Scopes}

theorem refl (writable : String → Prop) (c : Nat) (s : Scopes) : Isolated writable c s s :=
  ⟨Nat.le_refl _, fun _ _ _ _ => rfl, fun _ _ => rfl, fun _ _ => rfl⟩

theorem trans (h : Isolated writable c s s') (h' : Isolated writable c s' s'') :
    Isolated writable c s s'' where
  size := Nat.le_trans h.size h'.size
  others i hi hc hroot :=
    (h'.others i (Nat.lt_of_lt_of_le hi h.size) hc hroot).trans (h.others i hi hc hroot)
  parents i hi := (h'.parents i (Nat.lt_of_lt_of_le hi h.size)).trans (h.parents i hi)
  root key hkey := (h'.root key hkey).trans (h.root key hkey)

/-- What changes nothing but the root changes nothing but the root and another scope. -/
theorem at_scope (h : Isolated writable rootScope s s') : Isolated writable c s s' :=
  ⟨h.size, fun i hi _ hroot => h.others i hi hroot hroot, h.parents, h.root⟩

theorem assign {name : String} (hmark : s.mark = some mark) (hroot : s.rootOf c = rootScope)
    (hname : match Symbols.bareName? mark name with
      | some bare => writable bare
      | none => c = rootScope → writable name) :
    Isolated writable c s (s.assign c name v) := by
  -- the scope that is changed is the root or `c`, and the key is writable in the root
  have htarget : (s.route c name).1 = rootScope ∧ writable (s.route c name).2 ∨
      (s.route c name).1 = c ∧ c ≠ rootScope := by
    rw [Scopes.route, hmark, hroot, Option.bind_some]
    cases hb : Symbols.bareName? mark name <;> rw [hb] at hname
    case some => exact .inl ⟨rfl, hname⟩
    case none =>
      by_cases hc : c = rootScope
      · exact .inl ⟨hc, hname hc⟩
      · exact .inr ⟨rfl, hc⟩
  refine ⟨by simp, fun i hi hc hr => ?_, fun i hi => ?_, fun key hkey => ?_⟩
  · rw [Scopes.get_assign, if_neg]
    rintro ⟨ht, -⟩
    rcases htarget with ⟨h, -⟩ | ⟨h, -⟩
    · exact hr (ht.symm.trans h)
    · exact hc (ht.symm.trans h)
  · rw [Scopes.get_assign]
    split <;> rfl
  · rw [Scopes.get_assign]
    split
    next ht =>
      rcases htarget with ⟨-, hw⟩ | ⟨h, hc⟩
      · refine Bindings.get?_put_of_ne ?_ _ _
        rintro rfl
        exact hkey hw
      · exact absurd (h.symm.trans ht.1) hc
    next => rfl

theorem push (id : Nat) (name : String) (hs : 0 < s.size) :
    Isolated writable c s (s.push id name).2 := by
  have hget : ∀ i, i < s.size → (s.push id name).2.get i = s.get i := by
    intro i hi
    rw [Scopes.get_push, if_neg (Nat.ne_of_lt hi)]
  refine ⟨by simp, fun i hi _ _ => hget i hi, fun i hi => ?_, fun key _ => ?_⟩
  · rw [hget i hi]
  · rw [hget rootScope hs]

/-- What is done in a new scope is, seen from outside, done in the root alone. -/
theorem of_pushed {id : Nat} {name : String} (hs : 0 < s.size)
    (h : Isolated writable s.size (s.push id name).2 s') : Isolated writable rootScope s s' := by
  have hpush : Isolated writable rootScope s (s.push id name).2 := push id name hs
  refine ⟨Nat.le_trans hpush.size h.size, fun i hi hc hr => ?_, fun i hi => ?_, fun key hkey => ?_⟩
  · rw [h.others i (Nat.lt_of_lt_of_le hi hpush.size) (Nat.ne_of_lt hi) hr, hpush.others i hi hc hr]
  · rw [h.parents i (Nat.lt_of_lt_of_le hi hpush.size), hpush.parents i hi]
  · rw [h.root key hkey, hpush.root key hkey]

end Isolated

/-! ### Hosts -/

section Hosts

variable (env : Env σ) (globals writable : String → Prop)

/-- What the host may ask for, when there are `n` scopes: it hands over sound values, and what
it binds or runs in the root binds permitted names. -/
def Permitted (n : Nat) : Request → Prop
  | .call h args => h.Sound env.symbols.globalMark globals n ∧
      ∀ a ∈ args, a.Sound env.symbols.globalMark globals n
  | .eval source | .handle source => ∀ text, source = .text text → ∀ state script state',
      parse env.symbols env.host.load env.base none text state = (.ok script, state') →
        BodiesIn env.symbols.globalMark globals script.body ∧
          OwnIn env.symbols.globalMark writable rootScope script.body
  | .invoke _ args => ∀ a ∈ args, a.Sound env.symbols.globalMark globals n
  | .set name h => h.Sound env.symbols.globalMark globals n ∧
      writable ((Symbols.bareName? env.symbols.globalMark name).getD name)
  | .get _ => True

/-- Host code that hands out sound values, asks for what is permitted and leaves states behind
that `holds` of; whatever it asks for, it may find more scopes and another state then. -/
def HostProgram.Keeps (holds : Nat → σ → Prop) : HostProgram σ → Nat → σ → Prop
  | .done value, n, _ => value.Sound env.symbols.globalMark globals n
  | .fail _, _, _ => True
  | .rethrow _, _, _ => True
  | .read next, n, state => (next state).Keeps holds n state
  | .write state next, n, _ => holds n state ∧ next.Keeps holds n state
  | .ask asked next, n, _ => Permitted env globals writable n asked ∧
      ∀ n' state reply, n ≤ n' → holds n' state →
        (∀ value, reply = .ok value → value.Sound env.symbols.globalMark globals n') →
          (next reply).Keeps holds n' state

/-- A host whose states hold sound functions only, as `holds` says, and that hands out no
others. -/
structure HonestHost (holds : Nat → σ → Prop) : Prop where
  /-- A function is still sound when there are more scopes. -/
  mono : ∀ {n n' state}, n ≤ n' → holds n state → holds n' state
  member : ∀ {n state name} {h h' : HostValue}, holds n state →
    h.Sound env.symbols.globalMark globals n →
    h.member (env.host.view state) name = .found h' → h'.Sound env.symbols.globalMark globals n
  module : ∀ {n state name} {h : HostValue}, holds n state →
    env.host.importModule state name = .found h →
    h.Sound env.symbols.globalMark globals n
  call : ∀ {n state} {h : HostValue} {args : List HostValue}, holds n state →
    h.Sound env.symbols.globalMark globals n →
    (∀ a ∈ args, a.Sound env.symbols.globalMark globals n) →
      (env.host.call h args).Keeps env globals writable holds n state
  operate : ∀ {n state op} {h a : HostValue}, holds n state →
    h.Sound env.symbols.globalMark globals n →
    a.Sound env.symbols.globalMark globals n →
      (env.host.operate op h a).Keeps env globals writable holds n state
  load : ∀ {n locator base state}, holds n state → holds n (env.host.load locator base state).2

end Hosts

variable {env : Env σ} {globals writable : String → Prop} {holds : Nat → σ → Prop}

/-- Where every name may be bound in the root, the host may ask for more. -/
theorem Permitted.relax {n : Nat} : ∀ {request : Request}, Permitted env globals writable n request →
    Permitted env globals (fun _ => True) n request
  | .call _ _, h | .invoke _ _, h => h
  | .eval _, h | .handle _, h => fun text htext state script state' hparse =>
    ⟨(h text htext state script state' hparse).1, fun _ _ _ _ => by split <;> simp⟩
  | .set _ _, h => ⟨h.1, trivial⟩
  | .get _, _ => trivial

theorem HostProgram.Keeps.relax : ∀ {program : HostProgram σ} {n : Nat} {state : σ},
    program.Keeps env globals writable holds n state →
      program.Keeps env globals (fun _ => True) holds n state := by
  intro program
  induction program with
  | done _ => exact fun h => h
  | fail _ | rethrow _ => exact fun _ => trivial
  | read next ih =>
    intro n state h
    exact ih state h
  | write state next ih =>
    intro n _ h
    exact ⟨h.1, ih h.2⟩
  | ask asked next ih =>
    intro n _ h
    exact ⟨h.1.relax, fun n' state reply hn hstate hreply =>
      ih reply (h.2 n' state reply hn hstate hreply)⟩

theorem HonestHost.relax (h : HonestHost env globals writable holds) :
    HonestHost env globals (fun _ => True) holds :=
  ⟨h.mono, h.member, h.module, fun hs hh ha => (h.call hs hh ha).relax,
    fun hs hh ha => (h.operate hs hh ha).relax, h.load⟩

/-! ### The conduct of evaluation -/

/-- The machine: its scopes have their shape, and the namespaces and the host hold sound
functions only. -/
structure Shaped (env : Env σ) (globals : String → Prop) (holds : Nat → σ → Prop)
    (m : Machine σ) : Prop where
  scopes : m.scopes.Sound env.symbols.globalMark globals
  namespaces : ∀ n ∈ m.namespaces, n.object.Sound env.symbols.globalMark globals m.scopes.size
  host : holds m.scopes.size m.host

namespace Shaped

variable {m : Machine σ}

/-- Lines, calls, messages and records are of no account. -/
theorem of_eq (hm : Shaped env globals holds m) {m' : Machine σ} (hscopes : m'.scopes = m.scopes)
    (hhost : m'.host = m.host) (hnamespaces : m'.namespaces = m.namespaces) :
    Shaped env globals holds m' := by
  refine ⟨?_, ?_, ?_⟩ <;> rw [hscopes]
  · exact hm.scopes
  · rw [hnamespaces]
    exact hm.namespaces
  · rw [hhost]
    exact hm.host

/-- The shape is kept when scopes get sound, and no fewer. -/
theorem of_scopes (h : HonestHost env globals writable holds) (hm : Shaped env globals holds m)
    {s : Scopes} (hs : s.Sound env.symbols.globalMark globals) (hsize : m.scopes.size ≤ s.size) :
    Shaped env globals holds { m with scopes := s } :=
  ⟨hs, fun n hn => (hm.namespaces n hn).mono hsize, h.mono hsize hm.host⟩

theorem assign (h : HonestHost env globals writable holds) (hm : Shaped env globals holds m)
    (c : Nat) (name : String) (hv : v.Sound env.symbols.globalMark globals m.scopes.size) :
    Shaped env globals holds { m with scopes := m.scopes.assign c name v } :=
  hm.of_scopes h (hm.scopes.assign c name hv) (by simp)

/-- An assignment changes the scope it is made in, or the root. -/
theorem isolated_assign (hm : Shaped env globals holds m) {c : Nat} (hc : c < m.scopes.size)
    {name : String} (hname : match Symbols.bareName? env.symbols.globalMark name with
      | some bare => writable bare
      | none => c = rootScope → writable name) :
    Isolated writable c m.scopes (m.scopes.assign c name v) :=
  .assign hm.scopes.mark_eq (hm.scopes.rooted c hc) hname

end Shaped

/-- The policy of evaluation: machines keep their shape, and the scopes are isolated. -/
def isolating (env : Env σ) (globals writable : String → Prop) (holds : Nat → σ → Prop) :
    Policy σ where
  inv := Shaped env globals holds
  step m m' := Isolated writable rootScope m.scopes m'.scopes
  refl m := .refl writable rootScope m.scopes
  trans := .trans
  frame _ := True
  aside ha hm := by
    rw [ha.scopes]
    exact ⟨hm.of_eq ha.scopes ha.host ha.namespaces, .refl ..⟩
  enter _ hm := ⟨hm.scopes, hm.namespaces, hm.host⟩
  leave hm hstep := ⟨⟨hm.scopes, hm.namespaces, hm.host⟩, hstep⟩

/-- Honest host code is safe on the machine. -/
theorem HostProgram.Keeps.safe {program : HostProgram σ} {m : Machine σ}
    (hm : Shaped env globals holds m)
    (h : program.Keeps env globals writable holds m.scopes.size m.host) :
    program.Safe (isolating env globals writable holds)
      (fun s h => h.Sound env.symbols.globalMark globals s.size)
      (fun s request => Permitted env globals writable s.size request) m := by
  induction program generalizing m with
  | done _ => exact h
  | fail _ | rethrow _ => trivial
  | read next ih => exact ih m.host hm h
  | write state next ih =>
    have hm' : Shaped env globals holds { m with host := state } := ⟨hm.scopes, hm.namespaces, h.1⟩
    exact ⟨hm', .refl .., ih hm' h.2⟩
  | ask asked next ih =>
    refine ⟨h.1, fun m' reply hm' hstep hreply _ => ih reply hm' ?_⟩
    exact h.2 _ _ reply hstep.size hm'.host hreply

/-- A parameter that is an identifier carries no global mark, where the mark does not begin an
identifier. -/
theorem ParamsRead.plain {body : List Statement}
    (hmark : ∀ rest, isIdentifier (mark.toList ++ rest) = false) (h : ParamsRead body) :
    ParamsPlain mark body := by
  intro st hst p hp
  have hid := h st hst p hp
  unfold Symbols.bareName? Symbols.afterMark?
  split
  next c rest heq =>
    split at heq
    next hprefix =>
      obtain ⟨rest', hrest⟩ := List.isPrefixOf_iff_prefix.1 hprefix
      rw [← hrest, hmark rest'] at hid
      cases hid
    next => cases heq
  next => rfl

/-- **The conduct of evaluation** under an honest host: machines keep their shape, a statement
changes its own scope and the root, and a call the root alone. -/
def isolation (env : Env σ) (globals writable : String → Prop) (holds : Nat → σ → Prop)
    (hmark : ∀ rest, isIdentifier (env.symbols.globalMark.toList ++ rest) = false)
    (hsub : ∀ name, globals name → writable name) (h : HonestHost env globals writable holds) :
    Conduct env where
  toPolicy := isolating env globals writable holds
  value s v := v.Sound env.symbols.globalMark globals s.size
  arg s v := v.withoutFlags.Sound env.symbols.globalMark globals s.size
  host s v := v.Sound env.symbols.globalMark globals s.size
  request s request := Permitted env globals writable s.size request
  code c st := Admissible env.symbols.globalMark globals writable c [st]
  value_mono hstep hv := hv.mono hstep.size
  host_mono hstep hv := hv.mono hstep.size
  plain hv _ := hv.sound
  combined _ _ h := .inl (Value.plain_of_combine h).sound
  negated _ h := (Value.plain_of_negate h).sound
  bare hv := ⟨hv.function, hv.host⟩
  arg_value hv := ⟨hv.function, hv.host⟩
  arg_bare hv := hv
  arg_frame _ := trivial
  function hv hf := Value.sound_function.2 (hv.function _ hf)
  ofHost := Value.sound_ofHost
  wrap := Value.sound_host
  toHost := Value.sound_toHost
  toHostBare := Value.sound_toHostBare
  callable hf := Value.sound_function.2 (HostValue.sound_callable.1 hf)
  lookup hm hv := hm.scopes.lookup hv
  member hm hh := h.member hm.host hh
  module hm := h.module hm.host
  namespaces hm := hm.namespaces _
  imports hm hns := ⟨⟨hm.scopes, hns, hm.host⟩, .refl ..⟩
  call hm _ hh ha := (h.call hm.host hh ha).safe hm
  operate hm _ hh ha := (h.operate hm.host hh ha).safe hm
  request_call hr := hr
  request_invoke hr := hr
  request_set {m name value} hm hr := by
    refine ⟨hm.assign h _ _ (Value.sound_ofHost hr.1), hm.isolated_assign hm.scopes.pos ?_⟩
    have hw := hr.2
    cases hb : Symbols.bareName? env.symbols.globalMark name with
    | some bare => rwa [hb] at hw
    | none =>
      rw [hb] at hw
      exact fun _ => hw
  load hm hparse := by
    refine ⟨⟨hm.scopes, hm.namespaces, ?_⟩, .refl ..⟩
    exact (parse_keeps (fun _ _ _ hstate => h.load hstate) hparse hm.host).1
  parsed {s source state script state'} hr hparse st hst := by
    have hin : BodiesIn env.symbols.globalMark globals script.body ∧
        OwnIn env.symbols.globalMark writable rootScope script.body := by
      rcases hr with hr | hr <;> exact hr source rfl state script state' hparse
    have hparams := (parse_keeps (I := fun _ => True) (fun _ _ _ _ => trivial) hparse trivial).2
      script rfl
    exact (Admissible.mk (hparams.plain hmark) hin.1 hin.2).of_mem hst
  literal l := Value.sound_ofLiteral l
  scope s c := c < s.size
  own s c := c ≠ rootScope ∧ c < s.size
  within c m m' := Isolated writable c m.scopes m'.scopes
  step_within hstep := hstep.at_scope
  within_trans := .trans
  within_leave hm hstep := ⟨⟨hm.scopes, hm.namespaces, hm.host⟩, hstep⟩
  within_root _ _ hstep := hstep
  value_within hstep hv := hv.mono hstep.size
  scope_within hstep hd := Nat.lt_of_lt_of_le hd hstep.size
  own_scope hown := hown.2
  own_within hstep hown := ⟨hown.1, Nat.lt_of_lt_of_le hown.2 hstep.size⟩
  scope_root hm := hm.scopes.pos
  flagged _ hv := ⟨hv.function, hv.host⟩
  code_loop hcode st hst := hcode.inside fun _ _ hocc =>
    .loop List.mem_cons_self (hocc.of_mem hst)
  code_branch hcode l holds body hb st hst := hcode.inside fun _ _ hocc =>
    .branch List.mem_cons_self hb (hocc.of_mem hst)
  code_otherwise hcode st hst := hcode.inside fun _ _ hocc =>
    .otherwise List.mem_cons_self (hocc.of_mem hst)
  assign hm hc hcode hv := ⟨hm.assign h _ _ hv,
    hm.isolated_assign hc (hcode.own _ (.here List.mem_cons_self) _ rfl)⟩
  define _ _ hm hc hcode := ⟨hm.assign h _ _ (Value.sound_function.2 (hcode.sound hc)),
    hm.isolated_assign hc (hcode.own _ (.here List.mem_cons_self) _ rfl)⟩
  push {m f} hm hf := by
    have hsound : f.Sound env.symbols.globalMark globals m.scopes.size := Value.sound_function.1 hf
    have hne : m.scopes.size ≠ rootScope := Nat.pos_iff_ne_zero.1 hm.scopes.pos
    refine ⟨hm.of_scopes h (hm.scopes.push f.name hsound.closure) (by simp), ⟨hne, by simp⟩,
      fun v hv => hv.mono (by simp), fun st hst => (hsound.admissible hsub hne).of_mem hst, ?_⟩
    -- the scope of the call is new, so what happens in it happens in no scope from before
    intro m₂ _ hin
    exact .of_pushed hm.scopes.pos hin
  param hm hown hf hp hv := by
    -- a parameter carries no mark, so it is bound in the scope of the call and not in the root
    refine ⟨hm.assign h _ _ hv, hm.isolated_assign hown.2 ?_⟩
    rw [(Value.sound_function.1 hf).params _ hp]
    exact fun hroot => absurd hroot hown.1

/-! ### Machines that are reached -/

/-- A statement of some text that can be read, at any depth. -/
def IsRead (env : Env σ) (st : Statement) : Prop :=
  ∃ base origin source state script state',
    parse env.symbols env.host.load base origin source state = (.ok script, state') ∧
      Occurs true st script.body

section

variable (hmark : ∀ rest, isIdentifier (env.symbols.globalMark.toList ++ rest) = false)

include hmark

theorem IsRead.params {st : Statement} (h : IsRead env st) :
    ParamsPlain env.symbols.globalMark [st] := by
  obtain ⟨base, origin, source, state, script, state', hparse, hst⟩ := h
  have hread := (parse_keeps (I := fun _ => True) (fun _ _ _ _ => trivial) hparse trivial).2
    script rfl
  intro x hx
  exact hread.plain hmark x (hst.trans hx)

/-- The machines that a runner comes to, also in the middle of a run: functions that are defined
bind, by the global mark, names in `globals` only; statements that are run in the root may bind
any name, and so may the host. -/
inductive Reachable (env : Env σ) (globals : String → Prop) (holds : Nat → σ → Prop) :
    Machine σ → Prop where
  /-- A new runner. -/
  | create {state : σ} : holds 1 state → Reachable env globals holds (Runner.create env state).machine
  /-- Lines, calls, messages and records are of no account. -/
  | beside {m m' : Machine σ} : Reachable env globals holds m → m'.scopes = m.scopes →
      m'.host = m.host → m'.namespaces = m.namespaces → Reachable env globals holds m'
  /-- The host goes on. -/
  | write {m : Machine σ} {state : σ} : Reachable env globals holds m →
      holds m.scopes.size state → Reachable env globals holds { m with host := state }
  /-- A call begins. -/
  | enter {m : Machine σ} {f : ScriptFunction} {args : List Value} :
      Reachable env globals holds m → f.Sound env.symbols.globalMark globals m.scopes.size →
      (∀ v ∈ args, Value.Sound env.symbols.globalMark globals m.scopes.size v) →
      Reachable env globals holds
        (outcome (do bindParams (← pushScope f.closure f.name) f.params args) m).2
  /-- An expression is evaluated in a scope. -/
  | eval {m : Machine σ} (n c : Nat) (e : Expr) : Reachable env globals holds m →
      Reachable env globals holds (outcome (e.eval env (env.inner n) c) m).2
  /-- A statement is run in a scope. -/
  | exec {m : Machine σ} (n k : Nat) {c : Nat} {st : Statement} : Reachable env globals holds m →
      c < m.scopes.size → IsRead env st → BodiesIn env.symbols.globalMark globals [st] →
      Reachable env globals holds (outcome (st.exec env (env.inner n) k c) m).2
  /-- The host asks for something. -/
  | answer {m : Machine σ} (n : Nat) {request : Request} : Reachable env globals holds m →
      Permitted env globals (fun _ => True) m.scopes.size request →
      Reachable env globals holds (outcome (answer env (env.inner n) request) m).2

/-- **The scopes of every machine that is reached have their shape.** -/
theorem Reachable.shaped (h : HonestHost env globals writable holds) {m : Machine σ}
    (hm : Reachable env globals holds m) : Shaped env globals holds m := by
  -- for the shape alone, any name may be bound in the root
  let D := isolation env globals (fun _ => True) holds hmark (fun _ _ => trivial) h.relax
  induction hm with
  | @create state hstate =>
    have hbare : Shaped env globals holds
        (Runner.bare env (some env.symbols.globalMark) state).machine :=
      ⟨.root "root", fun n hn => absurd hn List.not_mem_nil, hstate⟩
    refine hbare.assign h rootScope "print" (Value.sound_host ?_)
    rintro f (hf | hf) <;> cases hf
  | beside _ hscopes hhost hnamespaces ih => exact ih.of_eq hscopes hhost hnamespaces
  | write _ hstate ih => exact ⟨ih.scopes, ih.namespaces, hstate⟩
  | enter _ hf hargs ih =>
    have hf' := Value.sound_function.2 hf
    have hentered := D.inScope ih hf' fun c m₁ hm₁ hc hvalues _ =>
      D.bindParams _ _ hm₁ hc (hvalues _ hf') (fun _ hp => hp) fun v hv =>
        hvalues _ (D.bare (hargs v hv))
    exact hentered.kept.1
  | eval n c e _ ih => exact (D.eval (D.inner_alike n) c e ih).kept.1
  | @exec m n k c st _ hc hread hbodies ih =>
    have hcode : Admissible env.symbols.globalMark globals (fun _ => True) c [st] :=
      ⟨hread.params hmark, hbodies, fun _ _ _ _ => by split <;> simp⟩
    exact (D.exec (D.inner_alike n) k _ ih hc hcode).kept.1
  | answer n _ hrequest ih => exact (D.answer (D.inner_alike n) ih hrequest).kept.1

end

/-- **Scopes are isolated.**  From every machine that is reached, whatever is called and however
it ends, an expression and a call change no scope but the root and new ones, and a statement
changes besides the scope that it is run in; no scope gets other scopes around it.  In the root
they bind only names that are writable: those that the statement itself and the functions bind
by the global mark, those that the statement binds when it is run in the root, and those that
the host binds and runs texts for. -/
theorem scopes_isolated
    (hmark : ∀ rest, isIdentifier (env.symbols.globalMark.toList ++ rest) = false)
    (h : HonestHost env writable writable holds) {m : Machine σ} (hm : Reachable env writable holds m)
    (n : Nat) :
    (∀ e c, Isolated writable rootScope m.scopes
      (outcome (Expr.eval env (env.inner n) c e) m).2.scopes) ∧
    (∀ st k c, c < m.scopes.size → IsRead env st → BodiesIn env.symbols.globalMark writable [st] →
      OwnIn env.symbols.globalMark writable c [st] →
        Isolated writable c m.scopes (outcome (st.exec env (env.inner n) k c) m).2.scopes) ∧
    ∀ f args site, f.Sound env.symbols.globalMark writable m.scopes.size →
      (∀ v ∈ args, Value.Sound env.symbols.globalMark writable m.scopes.size v) →
        Isolated writable rootScope m.scopes
          (outcome (callFunction env n f args site) m).2.scopes := by
  let D := isolation env writable writable holds hmark (fun _ hw => hw) h
  have hi := D.inner_alike n
  have hshaped : Shaped env writable holds m := hm.shaped hmark h
  refine ⟨fun e c => ?_, fun st k c hc hread hbodies hown => ?_, fun f args site hf hargs => ?_⟩
  · exact (D.eval hi c e hshaped).kept.2
  · have hcode : Admissible env.symbols.globalMark writable writable c [st] :=
      ⟨hread.params hmark, hbodies, hown⟩
    exact (D.exec hi k st hshaped hc hcode).kept.2
  · have hcall := hi.call site hshaped (Value.sound_function.2 hf) fun v hv => D.bare (hargs v hv)
    exact hcall.kept.2

/-! ### A host that calls back -/

/-- A host with objects that call their first argument with the other ones. -/
def callbackHost : Host Unit where
  view _ := { (default : HostView) with isCallable := fun _ => true }
  call _ args := match args with
    | [] => .done .null
    | f :: rest => .request (.call f rest)
  operate _ _ _ := .done .null
  importModule _ _ := .missing
  load := Loader.ofTexts []

/-- The standard symbols with the host that calls back. -/
def callbackEnv : Env Unit := { symbols := standardSymbols, host := callbackHost }

/-- The host that calls back hands out what it gets, and nothing else. -/
theorem honest_callbackHost (writable : String → Prop) :
    HonestHost callbackEnv writable writable fun _ _ => True where
  mono _ _ := trivial
  member {n state name h h'} _ _ hfound := by
    cases h <;> cases hfound
  module _ hfound := by cases hfound
  call {n state h args} _ _ hargs := by
    cases args with
    | nil => rintro f (hf | hf) <;> cases hf
    | cons f rest =>
      refine ⟨⟨hargs f List.mem_cons_self, fun a ha => hargs a (List.mem_cons_of_mem f ha)⟩, ?_⟩
      rintro n' state' (e | value) _ _ hreply
      · trivial
      · exact hreply value rfl
  operate _ _ _ := by rintro f (hf | hf) <;> cases hf
  load _ := trivial

/-- The text of a definition, and the definition. -/
def identityText : String := "f n #\n~ n\n#"

@[inherit_doc identityText]
def identity : Statement :=
  .function ⟨1, "f n #", none⟩ "f" ["n"]
    [.returning ⟨2, "~ n", none⟩ (some (.reference ⟨2, "~ n", none⟩ "n"))]

/-- A function with one parameter that does nothing. -/
def outer : ScriptFunction := ⟨0, "outer", ["t"], [], rootScope⟩

/-- A function in the scope of a call of `outer`: it binds the name `t` of that scope, and
the sum in the root. -/
def keepTotal : ScriptFunction :=
  let line : SourceLine := ⟨1, "", none⟩
  ⟨1, "keepTotal", [], [.assignment line "t" (.literal line (.integer 3)),
    .assignment line "root.total" (.reference line "t")], 1⟩

/-- A function in the same scope: it binds `t` too, and has the host call its argument. -/
def delegate : ScriptFunction :=
  let line : SourceLine := ⟨1, "", none⟩
  ⟨2, "delegate", ["step"], [.assignment line "t" (.literal line (.integer 2)),
    .expression line (.call line "apply" [.reference line "step"])], 1⟩

/-- A runner whose host has bound an object and run a definition. -/
def prepared : Machine Unit :=
  (outcome (identity.exec callbackEnv (callbackEnv.inner 1) 1 rootScope)
    (outcome (answer callbackEnv (callbackEnv.inner 1) (.set "apply" (.object 0)))
      (Runner.create callbackEnv ()).machine).2).2

/-- The same runner in a call of `outer` with one. -/
def insideOuter : Machine Unit :=
  (outcome (do bindParams (← pushScope outer.closure outer.name) outer.params [⟨.integer 1, .none⟩])
    prepared).2

theorem isRead_identity : IsRead callbackEnv identity :=
  ⟨none, none, identityText, (), ⟨⟨1, "f n #", none⟩, [identity]⟩, (), rfl, .here List.mem_cons_self⟩

/-- A function is sound by its own assignments when its body holds nothing else but expressions. -/
theorem ScriptFunction.Sound.of_simple {n : Nat} {f : ScriptFunction} (hclosure : f.closure < n)
    (hparams : ∀ p ∈ f.params, Symbols.bareName? mark p = none)
    (hbody : ∀ st ∈ f.body, (∃ line e, st = .expression line e) ∨ ∃ line name e,
      st = .assignment line name e ∧ ∀ bare, Symbols.bareName? mark name = some bare → globals bare) :
    f.Sound mark globals n := by
  have hin : ∀ st, Occurs true st f.body → st ∈ f.body := by
    intro st hst
    cases hst with
    | here hmem => exact hmem
    | loop hmem | branch hmem | otherwise hmem | function _ hmem =>
       rcases hbody _ hmem with ⟨_, _, h⟩ | ⟨_, _, _, h, -⟩ <;> cases h
  refine ⟨hclosure, hparams, fun st hst p hp => ?_, fun st hst name bare hname hbare => ?_⟩
  · rcases hbody st (hin st hst) with ⟨_, _, rfl⟩ | ⟨_, _, _, rfl, -⟩ <;> cases hp
  · rcases hbody st (hin st hst) with ⟨_, _, rfl⟩ | ⟨_, _, _, rfl, hmarked⟩ <;> cases hname
    exact hmarked bare hbare

theorem marked_identity (globals : String → Prop) : MarkedIn "root." globals [identity] := by
  intro st hst name bare hname hbare
  cases hst with
  | here hmem =>
    rw [List.mem_singleton.1 hmem] at hname
    cases hname
    cases hbare
  | function _ hmem hin =>
    cases List.mem_singleton.1 hmem
    obtain ⟨x, hx, hin⟩ := hin.exists_mem
    cases List.mem_singleton.1 hx
    cases hin with
    | here hmem =>
      cases List.mem_singleton.1 hmem
      cases hname
    | _ => simp_all
  | _ => simp_all [identity]

theorem sound_outer (globals : String → Prop) : outer.Sound "root." globals 1 :=
  .of_simple (by decide) (fun p hp => by cases List.mem_singleton.1 hp; rfl) nofun

theorem sound_keepTotal : keepTotal.Sound "root." (· = "total") 2 := by
  refine .of_simple (by decide) nofun fun st hst => .inr ?_
  simp only [keepTotal, List.mem_cons, List.not_mem_nil, or_false] at hst
  rcases hst with rfl | rfl
  · exact ⟨_, _, _, rfl, nofun⟩
  · exact ⟨_, _, _, rfl, fun bare hbare => by cases hbare; rfl⟩

theorem sound_delegate : delegate.Sound "root." (· = "total") 2 := by
  refine .of_simple (by decide) (fun p hp => by cases List.mem_singleton.1 hp; rfl) ?_
  intro st hst
  simp only [delegate, List.mem_cons, List.not_mem_nil, or_false] at hst
  rcases hst with rfl | rfl
  · exact .inr ⟨_, _, _, rfl, nofun⟩
  · exact .inl ⟨_, _, rfl⟩

theorem reachable_insideOuter :
    Reachable callbackEnv (· = "total") (fun _ _ => True) insideOuter := by
  have hset : Reachable callbackEnv (· = "total") (fun _ _ => True)
      (outcome (answer callbackEnv (callbackEnv.inner 1) (.set "apply" (.object 0)))
        (Runner.create callbackEnv ()).machine).2 := by
    refine .answer 1 (.create trivial) ⟨?_, trivial⟩
    rintro f (hf | hf) <;> cases hf
  have hprepared : Reachable callbackEnv (· = "total") (fun _ _ => True) prepared :=
    .exec 1 1 hset Nat.one_pos isRead_identity (marked_identity _).bodies
  refine .enter hprepared (sound_outer _) fun v hv => ?_
  cases List.mem_singleton.1 hv
  exact ⟨nofun, nofun⟩

/-- In a call of `outer` the name `t` stays what it is, though `delegate` and, called back by the
host, `keepTotal` bind it too; and in the root the sum is new. -/
theorem delegate_isolated :
    Reachable callbackEnv (· = "total") (fun _ _ => True) insideOuter ∧
      let m := (outcome (callFunction callbackEnv 9 delegate [.function keepTotal] none) insideOuter).2
      m.scopes.get 1 = insideOuter.scopes.get 1 ∧
        (m.scopes.get rootScope).bindings.names = ["print", "apply", "f", "total"] := by
  obtain ⟨-, -, hcall⟩ :=
    scopes_isolated (fun _ => rfl) (honest_callbackHost _) reachable_insideOuter 9
  have hisolated := hcall delegate [.function keepTotal] none sound_delegate fun v hv => by
    rw [List.mem_singleton.1 hv]
    exact Value.sound_function.2 sound_keepTotal
  exact ⟨reachable_insideOuter, hisolated.others 1 (by decide +kernel) (by decide) (by decide),
    by decide +kernel⟩

end LineScript
