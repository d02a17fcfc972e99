import LineScript.Evaluator
import LineScript.Proofs.Runs

/-!
# Disciplines of evaluation

A regime is a policy together with what may be said of the values, the host values and the
statements that take part in a run: values that are computed, looked up or handed over by the
host are good ones, and everything that the host asks for is permitted.  Under a regime host code
and requests of the host are run alike by any two evaluators whose calls are alike.  A discipline
is a regime in which every value that can be written down is good, so that expressions are
evaluated alike, too, whatever stands in them.

## Main definitions

* `HostProgram.Safe` — host code that keeps to a policy and hands out good values only.
* `Regime` — a policy with good values, good statements and permitted requests.
* `Discipline` — a regime in which every literal is good.
* `Inner.Alike` — two ways back into the machine that are alike.

## Main results

* `Regime.program` — what safe host code does, on the machine.
* `Discipline.eval` — expressions are evaluated alike.
-/

namespace LineScript

open Run

variable {σ : Type}

/-! ### Values that scripts compute -/

/-- A value that carries no flag and belongs neither to the host nor to a script; a whole number
has 64 bits. -/
structure Value.Plain (v : Value) : Prop where
  flags : v.flags = .none
  host : ∀ h, v.payload ≠ .host h
  function : ∀ f, v.payload ≠ .function f
  integer : ∀ n, v.payload = .integer n → inIntegerRange n = true

variable {v left right : Value} {view : HostView} {out : Value → HostValue}

variable {name : Option Key}

namespace Value

theorem plain_null : Value.null.Plain := ⟨rfl, nofun, nofun, nofun⟩

theorem plain_boolean (b : Bool) : (Value.boolean b).Plain := ⟨rfl, nofun, nofun, nofun⟩

theorem plain_decimal (d : Decimal) : (Value.decimal d).Plain := ⟨rfl, nofun, nofun, nofun⟩

theorem plain_string (s : String) : (Value.string s).Plain := ⟨rfl, nofun, nofun, nofun⟩

/-- A whole number is taken for one of 64 bits only where it is. -/
theorem plain_ofInt (n : Int) : (Value.ofInt n).Plain := by
  by_cases h : inIntegerRange n = true
  · have heq : Value.ofInt n = ⟨.integer n, .none⟩ := by rw [ofInt, if_pos h]
    rw [heq]
    exact ⟨rfl, nofun, nofun, fun k hk => by cases hk; exact h⟩
  · have heq : Value.ofInt n = .decimal (.ofInt n) := by
      rw [ofInt, if_neg h]
      rfl
    rw [heq]
    exact plain_decimal _

variable {op : Arithmetic}

theorem delivers_combineDecimals (a b : Decimal) :
    Delivers Failure.Bare Value.Plain (combineDecimals op a b) := by
  unfold combineDecimals
  split
  · exact plain_decimal _
  · exact .fault _

theorem delivers_combineIntegers (a b : Int) :
    Delivers Failure.Bare Value.Plain (combineIntegers op a b) := by
  cases op <;> simp only [combineIntegers]
  case divide =>
    split
    · exact plain_ofInt _
    · exact delivers_combineDecimals _ _
  all_goals exact plain_ofInt _

theorem delivers_isZero : Delivers Failure.Bare (fun _ => True) v.isZero := by
  unfold isZero
  split
  · trivial
  · exact .mapFault _ _
  · trivial

/-- Numbers are combined as whole numbers, if both are whole, and as decimals otherwise. -/
theorem delivers_combineNumbers : Delivers Failure.Bare (fun v =>
    (∃ a b, combineIntegers op a b = .ok v) ∨ ∃ a b, left.asDecimal? = some a ∧
      right.asDecimal? = some b ∧ combineDecimals op a b = .ok v) (combineNumbers op left right) := by
  unfold combineNumbers
  extract_lets combined
  have hnumbers : Delivers Failure.Bare (fun v =>
      (∃ a b, combineIntegers op a b = .ok v) ∨ ∃ a b, left.asDecimal? = some a ∧
        right.asDecimal? = some b ∧ combineDecimals op a b = .ok v) (combined ()) := by
    simp only [combined]
    split
    · exact (delivers_combineIntegers _ _).known fun v h => .inl ⟨_, _, h⟩
    · split
      next ha hb => exact (delivers_combineDecimals _ _).known fun v h => .inr ⟨_, _, ha, hb, h⟩
      next => exact .cause _
  -- a zero divisor fails, and otherwise the numbers are combined
  cases zeroDivisor op with
  | none => exact hnumbers
  | some cause =>
    refine delivers_isZero.bind fun zero _ => ?_
    cases zero with
    | false => exact hnumbers
    | true => exact .cause cause

theorem plain_of_combineNumbers (h : combineNumbers op left right = .ok v) : v.Plain := by
  obtain ⟨_, _, h⟩ | ⟨_, _, -, -, h⟩ := delivers_combineNumbers.of_ok h
  · exact (delivers_combineIntegers _ _).of_ok h
  · exact (delivers_combineDecimals _ _).of_ok h

/-- An operation gives a number or a text, or is left to the object of the host on its left. -/
theorem delivers_combine : Delivers Failure.Bare (fun c =>
    (∃ v, c = .value v ∧ combineNumbers op left right = .ok v) ∨
    (∃ text, c = .value (string text)) ∨
      ∃ receiver, c = .delegated receiver ∧ left.payload = .host receiver ∧
        receiver.isOperable view = true) (combine view op left right) := by
  unfold combine
  split
  · have hnumbers := @delivers_combineNumbers left right op
    cases hn : combineNumbers op left right with
    | error e => exact (hn ▸ hnumbers :)
    | ok v => exact .inl ⟨v, rfl, rfl⟩
  · split
    · split
      · cases joinTexts view left right with
        | error e => exact .fault e
        | ok text => exact .inr (.inl ⟨text, rfl⟩)
      · exact .cause _
    · split
      next receiver hp =>
        split
        next hoperable => exact .inr (.inr ⟨receiver, rfl, hp, hoperable⟩)
        next => exact .cause _
      next => exact .cause _

theorem plain_of_combine (h : combine view op left right = .ok (.value v)) : v.Plain := by
  obtain ⟨_, heq, hv⟩ | ⟨text, heq⟩ | ⟨_, heq, -⟩ := delivers_combine.of_ok h
  · cases heq
    exact plain_of_combineNumbers hv
  · cases heq
    exact plain_string text
  · cases heq

/-- An operation gives a value without flags, whatever else might be. -/
theorem flags_or_of_combine {p : Prop} (h : combine view op left right = .ok (.value v)) :
    v.flags = .none ∨ p :=
  .inl (plain_of_combine h).flags

theorem delivers_equal : Delivers Failure.Bare (fun _ => True) (equal view left right) := by
  unfold equal
  split
  case h_2 | h_3 | h_4 | h_14 => exact .mapFault _ _
  all_goals trivial

theorem delivers_order : Delivers Failure.Bare (fun _ => True) (order left right) := by
  unfold order
  split
  · trivial
  · trivial
  · split
    · split
      · trivial
      · exact .fault _
    · exact .cause _

theorem delivers_compare :
    Delivers Failure.Bare (fun v => ∃ b, v = .boolean b) (Value.compare view name left right) := by
  unfold Value.compare
  split
  · exact delivers_equal.map fun b _ => ⟨b, rfl⟩
  · exact delivers_equal.map fun b _ => ⟨!b, rfl⟩
  · exact delivers_order.map fun o _ => ⟨_, rfl⟩
  · split
    · exact .fault _
    · exact .cause _

theorem delivers_negate : Delivers Failure.Bare Value.Plain v.negate := by
  unfold negate
  split
  · exact plain_ofInt _
  · next d _ =>
    cases d.neg with
    | error e => exact .fault _
    | ok d' => exact plain_decimal d'
  · exact .cause _

theorem plain_of_negate {w : Value} (h : v.negate = .ok w) : w.Plain := delivers_negate.of_ok h

theorem flags_of_negate {w : Value} (h : v.negate = .ok w) : w.flags = .none :=
  (plain_of_negate h).flags

end Value

/-! ### Disciplines -/

/-- An object of the host or a method of one: what runs host code when it is used. -/
def HostValue.IsForeign : HostValue → Prop
  | .object _ | .method .. => True
  | _ => False

theorem HostValue.isForeign_of_isOperable {h : HostValue} (hoperable : h.isOperable view = true) :
    h.IsForeign := by
  cases h with
  | object ref => trivial
  | _ => cases hoperable

/-- Host code that, from a machine, keeps to a policy, asks for what is permitted and hands out
good values; whatever it asks for, it may find the machine changed when it goes on. -/
def HostProgram.Safe (P : Policy σ) (host : Scopes → HostValue → Prop)
    (request : Scopes → Request → Prop) : HostProgram σ → Machine σ → Prop
  | .done value, m => host m.scopes value
  | .fail f, _ => P.fails f
  | .rethrow r, _ => P.fails r.failure
  | .read next, m => (next m.host).Safe P host request m
  | .write state next, m =>
    P.inv { m with host := state } ∧ P.step m { m with host := state } ∧
      next.Safe P host request { m with host := state }
  | .ask asked next, m =>
    request m.scopes asked ∧ ∀ m' reply, P.inv m' → P.step m m' →
      (∀ value, reply = .ok value → host m'.scopes value) →
        (∀ r, reply = .error r → P.fails r.failure) → (next reply).Safe P host request m'

/-- Host code is safe where nothing is said of its state, of what it hands out and of how it fails. -/
theorem HostProgram.safe_of_unrestricted {P : Policy σ}
    (hwrite : ∀ {m : Machine σ} (state), P.inv m →
      P.inv { m with host := state } ∧ P.step m { m with host := state })
    (program : HostProgram σ) {m : Machine σ} (hm : P.inv m)
    (hfails : ∀ f, P.fails f := by exact fun _ => trivial) :
    program.Safe P (fun _ _ => True) (fun _ _ => True) m := by
  induction program generalizing m with
  | done _ => trivial
  | fail f => exact hfails f
  | rethrow r => exact hfails r.failure
  | read next ih => exact ih m.host hm
  | write state next ih =>
    exact ⟨(hwrite state hm).1, (hwrite state hm).2, ih (hwrite state hm).1⟩
  | ask asked next ih => exact ⟨trivial, fun m' reply hm' _ _ _ => ih reply hm'⟩

/-- A policy with what may be said of the values and the statements that take part in a run,
and of what the host may ask for. -/
structure Regime (env : Env σ) extends Policy σ where
  /-- The good values. -/
  value : Scopes → Value → Prop
  /-- The good arguments of a call. -/
  arg : Scopes → Value → Prop
  /-- The good host values. -/
  host : Scopes → HostValue → Prop
  /-- What the host may ask for. -/
  request : Scopes → Request → Prop
  /-- The statements that are good to be run in a scope. -/
  code : Nat → Statement → Prop
  value_mono : ∀ {m m' : Machine σ} {v}, step m m' → value m.scopes v → value m'.scopes v
  host_mono : ∀ {m m' : Machine σ} {h}, step m m' → host m.scopes h → host m'.scopes h
  plain : ∀ {s v}, v.Plain → v.kind ≠ .decimal → value s v
  /-- The values, good or not, at which a run is given up when an operation gives them. -/
  lost : Value → Prop := fun _ => False
  combined : ∀ {s view op left right v}, value s left → value s right →
    Value.combine view op left right = .ok (.value v) → value s v ∨ lost v
  negated : ∀ {s v w}, value s v → v.negate = .ok w → value s w
  bare : ∀ {s v}, value s v → value s v.withoutFlags
  arg_value : ∀ {s v}, value s v → arg s v
  arg_bare : ∀ {s v}, arg s v → value s v.withoutFlags
  arg_frame : ∀ {s name args site}, (∀ v ∈ args, arg s v) → frame ⟨name, args, site⟩
  function : ∀ {s v f}, value s v → v.payload = .function f → value s (.function f)
  ofHost : ∀ {s h}, host s h → value s (.ofHost h)
  wrap : ∀ {s h}, host s h → value s (.host h)
  toHost : ∀ {s v}, value s v → host s v.toHost
  toHostBare : ∀ {s v}, value s v → host s v.toHostBare
  callable : ∀ {s f}, host s (.callable f) → value s (.function f)
  lookup : ∀ {m : Machine σ} {scope name v}, inv m → m.scopes.lookup scope name = some v →
    value m.scopes v
  member : ∀ {m : Machine σ} {h name h'}, inv m → host m.scopes h →
    h.member (env.host.view m.host) name = .found h' → host m.scopes h'
  broken : ∀ {m : Machine σ} {h name f}, inv m → host m.scopes h →
    h.member (env.host.view m.host) name = .broken f → fails f := by exact fun _ _ _ => trivial
  module : ∀ {m : Machine σ} {name h}, inv m → env.host.importModule m.host name = .found h →
    host m.scopes h
  unimported : ∀ {m : Machine σ} {name f}, inv m → env.host.importModule m.host name = .broken f →
    fails f := by exact fun _ _ => trivial
  namespaces : ∀ {m : Machine σ} {n}, inv m → n ∈ m.namespaces → host m.scopes n.object
  imports : ∀ {m : Machine σ} {ns : Namespaces}, inv m → (∀ n ∈ ns, host m.scopes n.object) →
    inv { m with namespaces := ns } ∧ step m { m with namespaces := ns }
  call : ∀ {m : Machine σ} {h args}, inv m → h.IsForeign → host m.scopes h →
    (∀ a ∈ args, host m.scopes a) → (env.host.call h args).Safe toPolicy host request m
  operate : ∀ {m : Machine σ} {op h a}, inv m → h.IsForeign → host m.scopes h → host m.scopes a →
    (env.host.operate op h a).Safe toPolicy host request m
  request_call : ∀ {s h args}, request s (.call h args) → host s h ∧ ∀ a ∈ args, host s a
  request_invoke : ∀ {s name args}, request s (.invoke name args) → ∀ a ∈ args, host s a
  request_set : ∀ {m : Machine σ} {name h}, inv m → request m.scopes (.set name h) →
    inv { m with scopes := m.scopes.assign rootScope name (.ofHost h) } ∧
      step m { m with scopes := m.scopes.assign rootScope name (.ofHost h) }
  load : ∀ {m : Machine σ} {source r state}, inv m →
    parse env.symbols env.host.load env.base none source m.host = (r, state) →
      inv { m with host := state } ∧ step m { m with host := state }
  parsed : ∀ {s source state script state'},
    request s (.eval (.text source)) ∨ request s (.handle (.text source)) →
      parse env.symbols env.host.load env.base none source state = (.ok script, state') →
        ∀ st ∈ script.body, code rootScope st
  unread : ∀ {s source state f state'},
    request s (.eval (.text source)) ∨ request s (.handle (.text source)) →
      parse env.symbols env.host.load env.base none source state = (.error f, state') →
        fails f := by exact fun _ _ => trivial

/-- A regime in which every value that can be written down is good, and every one that an operation
gives, on any line. -/
structure Discipline (env : Env σ) extends Regime env where
  literal : ∀ {s} (l : Literal), value s (.ofLiteral l)
  anyLine : ∀ l, line l := by exact fun _ => trivial
  lossless : ∀ v, ¬ lost v := by exact fun _ h => h

/-- Two ways back into the machine that are alike under a regime. -/
structure Inner.Alike {env : Env σ} (D : Regime env) (inner inner' : Inner σ) : Prop where
  call : ∀ {m : Machine σ} {f args} (site), D.inv m → D.value m.scopes (.function f) →
    (∀ v ∈ args, D.arg m.scopes v) →
      LineScript.Alike D.toPolicy m (Both D.value) (inner.call f args site) (inner'.call f args site)
  callHost : ∀ {m : Machine σ} {h args}, D.inv m → D.host m.scopes h →
    (∀ a ∈ args, D.host m.scopes a) →
      LineScript.Alike D.toPolicy m (Both D.host) (inner.callHost h args) (inner'.callHost h args)
  runScript : ∀ {m : Machine σ} {script : Script}, D.inv m → (∀ st ∈ script.body, D.code rootScope st) →
    LineScript.Alike D.toPolicy m (Both fun s o => ∀ v ∈ o, D.value s v) (inner.runScript script)
      (inner'.runScript script)

namespace Regime

variable {env : Env σ} (D : Regime env) {inner inner' : Inner σ} {m : Machine σ}

/-! ### Values -/

section Values

variable {s : Scopes}

theorem value_null : D.value s .null := D.plain Value.plain_null (by decide)

theorem value_boolean (b : Bool) : D.value s (.boolean b) :=
  D.plain (Value.plain_boolean b) fun h => by cases h

theorem value_string (t : String) : D.value s (.string t) :=
  D.plain (Value.plain_string t) fun h => by cases h

/-- A comparison gives a truth value. -/
theorem compared :
    Delivers D.fails (D.value s) (Value.compare view name left right) :=
  Value.delivers_compare.imp (fun _ => D.fails_of_bare) fun v hv => by
    obtain ⟨b, rfl⟩ := hv
    exact D.value_boolean b

theorem opposite (hv : D.value s v) : Delivers D.fails (D.value s) v.negate :=
  .of_eq (fun _ => D.negated hv) fun _ h => D.fails_of_bare (Value.delivers_negate.of_error h)

end Values

/-! ### Names -/

theorem memberAt (hm : D.inv m) : ∀ {names : List String} {h : HostValue}, D.host m.scopes h →
    Delivers D.fails (D.host m.scopes) (LineScript.memberAt (env.host.view m.host) h names) := by
  intro names
  induction names with
  | nil => exact fun hh => hh
  | cons name rest ih =>
    intro h hh
    rw [LineScript.memberAt]
    split
    next found hfound => exact ih (D.member hm hh hfound)
    next => exact D.cause _
    next f hbroken => exact D.broken hm hh hbroken

variable {h source : HostValue} {s : Scopes}

section

variable (hm : D.inv m)

include hm

theorem lookIn {name : String} {n : Namespace} (hn : D.host m.scopes n.object) :
    Delivers D.fails (fun o => ∀ h ∈ o, D.host m.scopes h)
      (Namespaces.lookIn (env.host.view m.host) name n) := by
  have hmap : ∀ {start names}, D.host m.scopes start →
      Delivers D.fails (fun o => ∀ h ∈ o, D.host m.scopes h)
        ((LineScript.memberAt (env.host.view m.host) start names).map some) :=
    fun hstart => (D.memberAt hm hstart).map fun h hh h' hh' => by cases hh'; exact hh
  unfold Namespaces.lookIn
  -- by its path, by the beginning of the name, by its last name, or by a member
  split
  split
  · exact fun h hh => by cases hh; exact hn
  · split
    · exact hmap hn
    · split
      · exact hmap hn
      · split
        next found hfound => exact hmap (D.member hm hn hfound)
        next => exact fun h hh => by cases hh
        next f hbroken => exact D.broken hm hn hbroken

theorem resolve {name : String} : ∀ {ns : Namespaces},
    (∀ n ∈ ns, D.host m.scopes n.object) → Delivers D.fails (fun o => ∀ h ∈ o, D.host m.scopes h)
      (Namespaces.resolve (env.host.view m.host) name ns) := by
  intro ns
  induction ns with
  | nil => exact fun _ h hh => by cases hh
  | cons n rest ih =>
    intro hns
    rw [Namespaces.resolve]
    split
    · exact ih fun n' hn' => hns n' (List.mem_cons_of_mem n hn')
    · exact D.lookIn hm (hns n List.mem_cons_self)

theorem memberOf {holder : Value} (path : String) (hv : D.value m.scopes holder) :
    Alike D.toPolicy m (Both D.host) (memberOf env holder path)
      (LineScript.memberOf env holder path) := by
  unfold LineScript.memberOf
  split
  · exact .raiseCause hm _
  · exact .raiseCause hm _
  · exact .look rfl rfl (.orRaise hm (D.memberAt hm (D.toHostBare hv)))

theorem resolveName (name : String) :
    Alike D.toPolicy m (Both fun s o => ∀ h ∈ o, D.host s h) (resolveName env name)
      (LineScript.resolveName env name) :=
  .look rfl rfl (.look rfl rfl (.orRaise hm (D.resolve hm fun _ hn => D.namespaces hm hn)))

theorem resolveUnbound (scope : Nat) (name : String) :
    Alike D.toPolicy m (Both fun s p => ∀ h ∈ p.2, D.host s h) (resolveUnbound env scope name)
      (LineScript.resolveUnbound env scope name) := by
  unfold LineScript.resolveUnbound
  rcases env.symbols.stripGlobal name with ⟨isGlobal, bare⟩
  dsimp only
  rcases splitHead bare with ⟨head, rest⟩
  have hnone := (D.resolveName hm bare).guarded.bind (S := Both fun s p => ∀ h ∈ p.2, D.host s h)
    (f := fun o => Pure.pure (bare, o)) (g := fun o => Pure.pure (bare, o)) (by
      rintro m' o _ hm' _ ⟨rfl, ho⟩
      exact .pure hm' ⟨rfl, ho⟩)
  refine .look rfl rfl ?_
  dsimp only
  split
  · exact .look rfl rfl hnone
  · refine .look rfl rfl ?_
    split
    next holder hl =>
      refine (D.memberOf hm rest (D.lookup hm hl)).guarded.both fun m' h hm' _ hh => ?_
      exact .pure hm' ⟨rfl, fun h' hh' => by cases hh'; exact hh⟩
    next => exact hnone

theorem importFrom {path : String} {names : List String} :
    ∀ {n : Nat}, Delivers D.fails (D.host m.scopes) (Namespaces.importFrom
      (env.host.importModule m.host) (env.host.view m.host) path names n) := by
  intro n
  induction n with
  | zero => exact D.cause _
  | succ n ih =>
    rw [Namespaces.importFrom]
    split
    next found hfound => exact D.memberAt hm (D.module hm hfound)
    next => exact ih
    next f hbroken => exact D.unimported hm hbroken

theorem importPath (path : String) :
    Alike D.toPolicy m (fun _ _ _ => True) (importPath env path)
    (LineScript.importPath env path) := by
  refine .look rfl rfl
    ((Alike.orRaise (T := fun s ns => ∀ n ∈ ns, D.host s n.object) hm ?_).bind ?_)
  · refine (D.importFrom hm).bind fun object hobject n hn => ?_
    cases hn with
    | head => exact hobject
    | tail _ hn => exact D.namespaces hm (List.mem_filter.1 hn).1
  · rintro m' ns _ hm' _ ⟨rfl, hns⟩
    obtain ⟨hm₁, hstep⟩ := D.imports hm' hns
    exact .intro rfl rfl hm₁ hstep (.ok trivial)

theorem reference (scope : Nat) (name : String) :
    Alike D.toPolicy m (Both D.value) (reference env scope name)
      (LineScript.reference env scope name) := by
  unfold LineScript.reference
  refine .look rfl rfl ?_
  split
  next v hl => exact .pure hm ⟨rfl, D.lookup hm hl⟩
  next =>
    refine (D.resolveUnbound hm scope name).bind ?_
    rintro m' ⟨_, o⟩ _ hm' _ ⟨rfl, ho⟩
    cases o with
    | none => exact .pure hm' ⟨rfl, D.value_null⟩
    | some h => exact .pure hm' ⟨rfl, D.ofHost (ho h rfl)⟩

end

/-- What a call of a name calls is good. -/
def callee (s : Scopes) : Callee → Prop
  | .script f => D.value s (.function f)
  | .host h => D.host s h

theorem callee_mono {m' : Machine σ} (hstep : D.step m m') : ∀ {target : Callee},
    D.callee m.scopes target → D.callee m'.scopes target
  | .script _, h => D.value_mono hstep h
  | .host _, h => D.host_mono hstep h

theorem alike_callee (hm : D.inv m) (scope : Nat) (name : String) :
    Alike D.toPolicy m (Both D.callee) (LineScript.callee env scope name)
      (LineScript.callee env scope name) := by
  unfold LineScript.callee
  refine .look rfl rfl ?_
  split
  next v hl =>
    have hv := D.lookup hm hl
    split
    next f hp => exact .pure hm ⟨rfl, D.function hv hp⟩
    next h hp =>
      refine .look rfl rfl ?_
      split
      · refine .pure hm ⟨rfl, ?_⟩
        have := D.toHostBare hv
        rwa [Value.toHostBare, hp] at this
      · exact .raiseCause hm _
    next => exact .raiseCause hm _
  next =>
    refine (D.resolveUnbound hm scope name).bind ?_
    rintro m' ⟨bare, o⟩ _ hm' _ ⟨rfl, ho⟩
    cases o with
    | none => exact .raiseCause hm' _
    | some h =>
      refine .look rfl rfl ?_
      split
      · exact .pure hm' ⟨rfl, ho h rfl⟩
      · exact .raiseCause hm' _

/-! ### Requests of the host -/

/-- What is done about the record before the host starts something is beside the point. -/
theorem forgetIfIdle {α β : Type} {R : Scopes → α → β → Prop} {x : Run σ α} {y : Run σ β}
    (hm : D.inv m)
    (hk : ∀ m', m.Aside D.line m' → D.inv m' → Alike D.toPolicy m' R x y) :
    Alike D.toPolicy m R
      (do
        if ← isIdle then forgetRecord
        x)
      (do
        if ← isIdle then forgetRecord
        y) := by
  refine .look rfl rfl ?_
  split
  · have hforgotten : m.Aside D.line { m with record := none } :=
      ⟨rfl, rfl, rfl, rfl, fun _ h => (by cases h), fun _ => .inl⟩
    exact .aside hm rfl rfl hforgotten (hk _ hforgotten)
  · exact hk m ⟨rfl, rfl, rfl, rfl, fun _ => .inl, fun _ => .inl⟩ hm

theorem invokeFunction (hi : inner.Alike D inner') (hm : D.inv m) {f : ScriptFunction}
    {args : List HostValue} (hf : D.value m.scopes (.function f))
    (hargs : ∀ a ∈ args, D.host m.scopes a) :
    Alike D.toPolicy m (Both D.host) (invokeFunction inner f args)
      (LineScript.invokeFunction inner' f args) := by
  refine D.forgetIfIdle hm fun m₁ ha hm₁ => ?_
  rw [← ha.scopes] at hf hargs
  have hvalues : ∀ v ∈ args.map Value.ofHost, D.arg m₁.scopes v := by
    intro v hv
    obtain ⟨a, ha', rfl⟩ := List.mem_map.1 hv
    exact D.arg_value (D.ofHost (hargs a ha'))
  refine (hi.call none hm₁ hf hvalues).both fun m' v hm' _ hv => ?_
  exact .pure hm' ⟨rfl, D.toHost hv⟩

theorem invokeName (hi : inner.Alike D inner') (hm : D.inv m) (name : String)
    {args : List HostValue} (hargs : ∀ a ∈ args, D.host m.scopes a) :
    Alike D.toPolicy m (Both D.host) (invokeName inner name args)
      (LineScript.invokeName inner' name args) := by
  refine .look rfl rfl ?_
  split
  next f hl =>
    obtain ⟨v, hv, hp⟩ := Option.map_eq_some_iff.1 hl
    exact D.invokeFunction hi hm (D.function (D.lookup hm hv) hp) hargs
  next => exact .raiseCause hm _

theorem host_null : D.host s .null := D.toHostBare D.value_null

theorem host_text (t : String) : D.host s (.text t) :=
  D.toHostBare (D.value_string t)

theorem hostResult {o : Option Value} (ho : ∀ v ∈ o, D.value s v) : D.host s (hostResult o) := by
  cases o with
  | none => exact D.host_null
  | some v => exact D.toHost (ho v rfl)

/-- A source that the host may run is read to good statements. -/
theorem parseHost (hm : D.inv m)
    (hsource : D.request m.scopes (.eval source) ∨ D.request m.scopes (.handle source)) :
    Alike D.toPolicy m (Both fun _ script => ∀ st ∈ script.body, D.code rootScope st)
      (parseHost env source)
      (LineScript.parseHost env source) := by
  have htext : ∀ text, source.asText (env.host.view m.host) "strip" = .ok text →
      source = .text text := by
    intro text h
    cases source <;> cases h
    rfl
  refine .look rfl rfl ((Alike.orFault (T := fun _ text => source = .text text) hm htext).both
    fun m' text hm' _ heq => ?_)
  subst heq
  rcases hp : parse env.symbols env.host.load env.base none text m'.host with ⟨r, state⟩
  obtain ⟨hm₁, hstep⟩ := D.load hm' hp
  refine .next (a := r) (b := r) (outcome_parse hp) (outcome_parse hp) hstep (.orRaise hm₁ ?_)
  cases r with
  | ok script => exact D.parsed hsource hp
  | error f => exact D.unread hsource hp

section

variable (hi : inner.Alike D inner')

include hi

theorem evalSource (hm : D.inv m) (hsource : D.request m.scopes (.eval source)) :
    Alike D.toPolicy m (Both D.host) (evalSource env inner source)
      (LineScript.evalSource env inner' source) := by
  refine D.forgetIfIdle hm fun m₁ ha hm₁ => ?_
  rw [← ha.scopes] at hsource
  refine (D.parseHost hm₁ (.inl hsource)).both fun m₂ script hm₂ _ hscript => ?_
  refine (hi.runScript hm₂ hscript).both fun m₃ o hm₃ _ ho => ?_
  exact .pure hm₃ ⟨rfl, D.hostResult ho⟩

/-- A source that is handled is run alike. -/
theorem runSource (hm : D.inv m) (hsource : D.request m.scopes (.handle source)) :
    Alike D.toPolicy m (Both fun s o => ∀ v ∈ o, D.value s v)
      (do inner.runScript (← LineScript.parseHost env source))
      (do inner'.runScript (← LineScript.parseHost env source)) := by
  refine (D.parseHost hm (.inr hsource)).both fun m₁ script hm₁ _ hscript => ?_
  exact hi.runScript hm₁ hscript

theorem handleSource (hm : D.inv m) (hsource : D.request m.scopes (.handle source)) :
    Alike D.toPolicy m (Both fun _ _ => True) (handleSource env inner source)
      (LineScript.handleSource env inner' source) := by
  refine .aside hm rfl rfl ⟨rfl, rfl, rfl, rfl, fun _ => .inl, fun _ => .inl⟩ fun hm₁ =>
    .look rfl rfl ?_
  split
  -- a record and a line that are left from before are forgotten, or not; the rest is the same
  refine .aside hm₁ rfl rfl ⟨rfl, rfl, rfl, rfl, fun _ h => (by cases h), fun _ => .inl⟩ fun hm₂ =>
    .aside hm₂ rfl rfl ⟨rfl, rfl, rfl, rfl, fun _ => .inl, fun _ h => by cases h⟩ fun hm₃ =>
      (D.runSource hi hm₃ hsource).handled (fun _ => ⟨_, rfl, rfl⟩) ?_
  rotate_left
  refine (D.runSource hi hm₁ hsource).handled (fun _ => ⟨_, rfl, rfl⟩) ?_
  all_goals
    rintro m' _ _ hm' _ (⟨rfl, ho⟩ | @⟨e, he⟩)
    · exact .look rfl rfl (.pure hm' ⟨rfl, trivial⟩)
    · cases e with
      | exhausted => exact .throw hm' trivial
      | raised r =>
        refine .look rfl rfl ((Alike.orFault (T := fun _ _ => True) hm' fun _ _ => trivial).both
          fun m₂ report hm₂ _ _ => ?_)
        exact .aside hm₂ rfl rfl ⟨rfl, rfl, rfl, rfl, fun _ => .inl, fun _ => .inl⟩ fun hm₃ =>
          .look rfl rfl (.pure hm₃ ⟨rfl, trivial⟩)

/-- A request that is permitted is answered alike. -/
theorem answer (hm : D.inv m) {asked : Request} (hasked : D.request m.scopes asked) :
    Alike D.toPolicy m (Both D.host) (answer env inner asked)
    (LineScript.answer env inner' asked) := by
  cases asked with
  | call h args =>
    obtain ⟨hh, hargs⟩ := D.request_call hasked
    exact hi.callHost hm hh hargs
  | eval source => exact D.evalSource hi hm hasked
  | handle source =>
    refine (D.handleSource hi hm hasked).both fun m' result hm' _ _ => ?_
    exact .pure hm' ⟨rfl, D.host_text _⟩
  | invoke name args => exact D.invokeName hi hm name (D.request_invoke hasked)
  | set name h =>
    obtain ⟨hm', hstep⟩ := D.request_set hm hasked
    exact .next rfl rfl hstep (.pure hm' ⟨rfl, D.host_null⟩)
  | get name =>
    exact .look rfl rfl (.pure hm ⟨rfl, D.hostResult fun v hv => D.lookup hm hv⟩)

/-- **Safe host code keeps to the discipline**, whatever it asks for on its way. -/
theorem program : ∀ (program : HostProgram σ) {m : Machine σ}, D.inv m →
    program.Safe D.toPolicy D.host D.request m →
      Alike D.toPolicy m (Both D.host) (program.run (LineScript.answer env inner))
        (program.run (LineScript.answer env inner')) := by
  intro program
  induction program with
  | done value =>
    intro m hm hsafe
    exact .pure hm ⟨rfl, hsafe⟩
  | fail failure =>
    intro m hm hsafe
    have hfails : D.fails failure := hsafe
    exact .raise hm hfails
  | rethrow raised =>
    intro m hm hsafe
    have hfails : D.fails raised.failure := hsafe
    exact .throw (e := .raised raised) hm hfails
  | read next ih =>
    intro m hm hsafe
    exact .look rfl rfl (ih m.host hm hsafe)
  | write state next ih =>
    intro m hm ⟨hm', hstep, hsafe⟩
    exact .next rfl rfl hstep (ih hm' hsafe)
  | ask asked next ih =>
    intro m hm ⟨hasked, hnext⟩
    simp only [HostProgram.run]
    refine (D.answer hi hm hasked).handled (fun _ => ⟨_, rfl, rfl⟩) ?_
    rintro m' _ _ hm' hstep (⟨rfl, hh⟩ | @⟨e, he⟩)
    · exact ih _ hm' (hnext m' _ hm' hstep (fun _ heq => by cases heq; exact hh)
        fun _ heq => nomatch heq)
    · cases e with
      | raised r =>
        exact ih _ hm' (hnext m' _ hm' hstep (fun _ heq => nomatch heq)
          fun _ heq => by cases heq; exact he)
      | exhausted => exact .throw hm' trivial

end

/-! ### Conditions, operations and calls -/

theorem condition (hm : D.inv m) (v : Value) :
    Alike D.toPolicy m (Both fun _ _ => True) (condition env v) (LineScript.condition env v) :=
  .look rfl rfl (.orFault hm fun _ _ => trivial)

/-- An operation on good values gives a good one, or one at which the run is given up. -/
theorem arithmetic (hi : inner.Alike D inner') (hm : D.inv m) (hleft : D.value m.scopes left)
    (hright : D.value m.scopes right)
    (hout : D.host m.scopes (out right)) :
    Alike D.toPolicy m (Both fun s v => D.value s v ∨ D.lost v)
      (arithmetic env inner out name left right)
      (LineScript.arithmetic env inner' out name left right) := by
  unfold LineScript.arithmetic
  split
  · exact .raise hm (D.fault _)
  next op _ =>
    refine .look rfl rfl ?_
    cases hc : Value.combine (env.host.view m.host) op left right with
    | error e =>
      have he : D.fails e := D.fails_of_bare (Value.delivers_combine.of_error hc)
      exact (Alike.raise (R := fun _ _ _ => False) hm he).bind fun _ _ _ _ _ h => h.elim
    | ok c =>
      refine .look rfl rfl ?_
      obtain ⟨v, rfl, -⟩ | ⟨text, rfl⟩ | ⟨receiver, rfl, hp, hoperable⟩ :=
        Value.delivers_combine.of_ok hc
      iterate 2 exact .pure hm ⟨rfl, D.combined hleft hright hc⟩
      · have hreceiver : D.host m.scopes receiver := by
          have := D.toHostBare hleft
          rwa [Value.toHostBare, hp] at this
        have hforeign := HostValue.isForeign_of_isOperable hoperable
        refine (D.program hi _ hm (D.operate hm hforeign hreceiver hout)).both
          fun m' h hm' _ hh => ?_
        exact .pure hm' ⟨rfl, .inl (D.wrap hh)⟩

theorem checkDepth (hm : D.inv m) :
    Alike D.toPolicy m (fun _ _ _ => True) (checkDepth env) (LineScript.checkDepth env) := by
  refine .look rfl rfl ?_
  split
  · exact .raise hm (D.fault _)
  · exact .pure hm trivial

/-- Host code that is called by a name gets values of the host, and what it gives is a value. -/
theorem callNamed_host {line : SourceLine} {name : String} {h : HostValue} {args : List Value}
    {x y : Run σ HostValue} (hm : D.inv m) (hh : D.host m.scopes h)
    (hargs : ∀ v ∈ args, D.value m.scopes v)
    (hcall : ∀ {m' : Machine σ}, D.inv m' → D.host m'.scopes h →
      (∀ a ∈ args.map Value.toHost, D.host m'.scopes a) → Alike D.toPolicy m' (Both D.host) x y) :
    Alike D.toPolicy m (Both D.value)
      (do LineScript.checkDepth env; return .ofHost (← inFrame ⟨name, args, some line⟩ x))
      (do LineScript.checkDepth env; return .ofHost (← inFrame ⟨name, args, some line⟩ y)) := by
  refine (D.checkDepth hm).bind ?_
  intro m₁ _ _ hm₁ hstep _
  have hvalues : ∀ a ∈ args.map Value.toHost, D.host m₁.scopes a := by
    intro a ha
    obtain ⟨v, hv, rfl⟩ := List.mem_map.1 ha
    exact D.host_mono hstep (D.toHost (hargs v hv))
  have hh₁ : D.host m₁.scopes h := D.host_mono hstep hh
  have hframe : D.frame ⟨name, args, some line⟩ :=
    D.arg_frame fun v hv => D.arg_value (hargs v hv)
  refine (Alike.inFrame hframe hm₁ fun hm₂ => hcall hm₂ hh₁ hvalues).both fun m₃ h' hm₃ _ hh' => ?_
  exact .pure hm₃ ⟨rfl, D.ofHost hh'⟩

theorem callNamed (hi : inner.Alike D inner') (hm : D.inv m) {line : SourceLine}
    (hline : D.line line) (name : String) {target : Callee} {args : List Value}
    (htarget : D.callee m.scopes target)
    (hargs : ∀ v ∈ args, D.value m.scopes v) :
    Alike D.toPolicy m (Both D.value) (callNamed env inner line name target args)
      (LineScript.callNamed env inner' line name target args) := by
  refine .toLine hline hm fun hm₁ => ?_
  cases target with
  | script f => exact hi.call (some line) hm₁ htarget fun v hv => D.arg_value (hargs v hv)
  | host h => exact D.callNamed_host hm₁ htarget hargs fun hm₂ hh hvalues =>
      (hi.callHost hm₂ hh hvalues).guarded

/-! ### Calls of the host -/

theorem printLine (hm : D.inv m) (args : List HostValue) :
    Alike D.toPolicy m (fun _ _ _ => True) (printLine env args)
    (LineScript.printLine env args) := by
  refine .look rfl rfl ((Alike.orFault (T := fun _ _ => True) hm fun _ _ => trivial).both
    fun m' texts hm' _ _ => ?_)
  have ha : m'.Aside D.line (outcome (emit .stdout (String.intercalate " " texts)) m').2 :=
    ⟨rfl, rfl, rfl, rfl, fun _ => .inl, fun _ => .inl⟩
  exact .intro rfl rfl (D.aside ha hm').1 (D.aside ha hm').2 (.ok trivial)

theorem callHostWith (hi : inner.Alike D inner') (hm : D.inv m) {args : List HostValue}
    (hh : D.host m.scopes h) (hargs : ∀ a ∈ args, D.host m.scopes a) :
    Alike D.toPolicy m (Both D.host) (callHostWith env inner h args)
      (LineScript.callHostWith env inner' h args) := by
  cases h with
  | callable f => exact D.invokeFunction hi hm (D.callable hh) hargs
  | output =>
    refine (D.printLine hm args).bind ?_
    intro m' _ _ hm' _ _
    exact .pure hm' ⟨rfl, D.host_null⟩
  | object | method => exact D.program hi _ hm (D.call hm trivial hh hargs)
  | _ => exact .look rfl rfl (.raise hm (D.fault _))

end Regime

/-! ### Expressions -/

namespace Discipline

variable {env : Env σ} (D : Discipline env) {inner inner' : Inner σ}

theorem arithmetic (hi : inner.Alike D.toRegime inner') {m : Machine σ} (hm : D.inv m)
    (hleft : D.value m.scopes left) (hright : D.value m.scopes right)
    (hout : D.host m.scopes (out right)) :
    Alike D.toPolicy m (Both D.value) (arithmetic env inner out name left right)
      (LineScript.arithmetic env inner' out name left right) := by
  refine (D.toRegime.arithmetic hi hm hleft hright hout).widen (fun _ h => h) (fun _ _ h => h) ?_
  rintro m' v _ _ _ ⟨rfl, hv | hlost⟩
  · exact ⟨rfl, hv⟩
  · exact absurd hlost (D.lossless v)

section

set_option linter.unusedSectionVars false

variable (hi : inner.Alike D.toRegime inner') (scope : Nat)

include hi scope

mutual

/-- **Expressions are evaluated alike**, to good values. -/
theorem eval : ∀ (e : Expr) {m : Machine σ}, D.inv m →
    Alike D.toPolicy m (Both D.value) (e.eval env inner scope) (e.eval env inner' scope)
  | .literal line l, m, hm => by
    rw [Expr.eval, Expr.eval]
    exact .atLine (D.anyLine line) hm fun hm₁ => .pure hm₁ ⟨rfl, D.literal l⟩
  | .reference line name, m, hm => by
    rw [Expr.eval, Expr.eval]
    exact .atLine (D.anyLine line) hm fun hm₁ => D.reference hm₁ scope name
  | .operation line .logical op left right, m, hm => by
    rw [Expr.eval, Expr.eval]
    refine .atLine (D.anyLine line) hm fun hm₁ => (eval left hm₁).both fun m₂ a hm₂ _ _ => ?_
    refine (D.condition hm₂ a).both fun m₃ first hm₃ _ _ => ?_
    -- the right operand is needed only when the left one does not decide
    split
    · exact .pure hm₃ ⟨rfl, D.value_boolean _⟩
    · split
      · exact .pure hm₃ ⟨rfl, D.value_boolean _⟩
      · refine (eval right hm₃).both fun m₄ b hm₄ _ _ => ?_
        refine (D.condition hm₄ b).both fun m₅ second hm₅ _ _ => ?_
        exact .pure hm₅ ⟨rfl, D.value_boolean _⟩
  | .operation line .comparison op left right, m, hm => by
    rw [Expr.eval, Expr.eval]
    refine .atLine (D.anyLine line) hm fun hm₁ => (eval left hm₁).both fun m₂ a hm₂ _ _ => ?_
    refine (eval right hm₂).both fun m₃ b hm₃ _ _ => ?_
    exact .look rfl rfl (.orRaise hm₃ D.compared)
  | .operation line .arithmetic op left right, m, hm => by
    rw [Expr.eval, Expr.eval]
    refine .atLine (D.anyLine line) hm fun hm₁ => (eval left hm₁).both fun m₂ a hm₂ _ ha => ?_
    refine (eval right hm₂).both fun m₃ b hm₃ hstep hb => ?_
    exact (D.arithmetic hi hm₃ (D.value_mono hstep ha) hb (D.toHost hb)).guarded
  | .negation line operand, m, hm => by
    rw [Expr.eval, Expr.eval]
    refine .atLine (D.anyLine line) hm fun hm₁ => (eval operand hm₁).both fun m' v hm' _ hv => ?_
    exact .orRaise hm' (D.opposite hv)
  | .call line name args, m, hm => by
    rw [Expr.eval, Expr.eval]
    refine .atLine (D.anyLine line) hm fun hm₁ => (D.alike_callee hm₁ scope name).both
      fun m₂ target hm₂ _ htarget => ?_
    refine (evalAll args hm₂).both fun m₃ values hm₃ hstep hvalues => ?_
    exact D.callNamed hi hm₃ (D.anyLine line) name (D.callee_mono hstep htarget) hvalues

/-- Arguments are evaluated alike, to good values. -/
theorem evalAll : ∀ (es : List Expr) {m : Machine σ},
    D.inv m → Alike D.toPolicy m (Both fun s vs => ∀ v ∈ vs, D.value s v)
      (LineScript.evalAll env inner scope es) (LineScript.evalAll env inner' scope es)
  | [], m, hm => by
    rw [LineScript.evalAll, LineScript.evalAll]
    exact .pure hm ⟨rfl, nofun⟩
  | e :: es, m, hm => by
    rw [LineScript.evalAll, LineScript.evalAll]
    refine (eval e hm).both fun m₁ v hm₁ _ hv => ?_
    refine (evalAll es hm₁).both fun m₂ vs hm₂ hstep hvs => ?_
    refine .pure hm₂ ⟨rfl, fun w hw => ?_⟩
    cases hw with
    | head => exact D.bare (D.value_mono hstep hv)
    | tail _ hw => exact hvs w hw

end

end

end Discipline

end LineScript
