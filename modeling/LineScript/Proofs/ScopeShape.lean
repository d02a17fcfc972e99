import LineScript.Proofs.Discipline
import LineScript.Proofs.Reading
import LineScript.Proofs.ScopeStore

/-!
# The shape of the scopes

Every chain of scopes ends in the root, and every function that is bound somewhere closes over a
scope that exists.  A function is sound when it keeps that up: its parameters are bound in the
scope of the call, and its body binds in the root, by the global mark, permitted names only.

## Main definitions

* `Statement.target?` — the name that a statement binds.
* `MarkedIn`, `BodiesIn`, `OwnIn` — the names that statements bind in the root are permitted.
* `Admissible` — statements that may be run in a scope.
* `ScriptFunction.Sound`, `HostValue.Sound`, `Value.Sound` — functions, and values that hold them.
* `Scopes.Sound` — the shape of the scopes.

## Main results

* `Admissible.sound` — an admissible definition gives a sound function.
* `ScriptFunction.Sound.admissible` — the body of a sound function is admissible in its scope.
* `Scopes.Sound.assign`, `Scopes.Sound.push` — what happens to scopes keeps their shape.
-/

namespace LineScript

/-- The name that a statement binds. -/
def Statement.target? : Statement → Option String
  | .assignment _ name _ => some name
  | .function _ name _ _ => some name
  | _ => none

section Definitions

variable (mark : String) (globals writable : String → Prop)

/-- No parameter of a function in a body carries the global mark. -/
def ParamsPlain (body : List Statement) : Prop :=
  ∀ st, Occurs true st body → ∀ p ∈ st.params, Symbols.bareName? mark p = none

/-- The names with the global mark that are bound anywhere in a body, also in functions that it
defines, are permitted ones. -/
def MarkedIn (body : List Statement) : Prop :=
  ∀ st, Occurs true st body → ∀ name bare, st.target? = some name →
    Symbols.bareName? mark name = some bare → globals bare

/-- The names with the global mark that are bound in the functions of a body are permitted. -/
def BodiesIn (body : List Statement) : Prop :=
  ∀ line name params inner, Occurs true (.function line name params inner) body →
    MarkedIn mark globals inner

/-- The names that a body itself binds in the root, when it is run in the scope `c`, are
permitted: those with the global mark, and all of them when `c` is the root. -/
def OwnIn (c : Nat) (body : List Statement) : Prop :=
  ∀ st, Occurs false st body → ∀ name, st.target? = some name →
    match Symbols.bareName? mark name with
    | some bare => writable bare
    | none => c = rootScope → writable name

/-- Statements that may be run in the scope `c`. -/
structure Admissible (c : Nat) (body : List Statement) : Prop where
  params : ParamsPlain mark body
  bodies : BodiesIn mark globals body
  own : OwnIn mark writable c body

/-- A function that closes over one of `n` scopes. -/
structure ScriptFunction.Sound (n : Nat) (f : ScriptFunction) : Prop where
  closure : f.closure < n
  params : ∀ p ∈ f.params, Symbols.bareName? mark p = none
  inner : ParamsPlain mark f.body
  marked : MarkedIn mark globals f.body

/-- A host value that is no function, or a sound one. -/
def HostValue.Sound (n : Nat) (h : HostValue) : Prop :=
  ∀ f, h = .function f ∨ h = .callable f → f.Sound mark globals n

/-- A value that is no function, or a sound one. -/
structure Value.Sound (n : Nat) (v : Value) : Prop where
  function : ∀ f, v.payload = .function f → f.Sound mark globals n
  host : ∀ h, v.payload = .host h → h.Sound mark globals n

/-- There is a root, every chain of scopes ends in it, and what is bound is sound. -/
structure Scopes.Sound (s : Scopes) : Prop where
  mark_eq : s.mark = some mark
  pos : 0 < s.size
  rooted : ∀ i, i < s.size → s.rootOf i = rootScope
  values : ∀ i, ∀ p ∈ (s.get i).bindings, p.2.Sound mark globals s.size

end Definitions

variable {mark : String} {globals writable : String → Prop} {n n' c : Nat}

/-! ### Statements -/

variable {st : Statement} {body : List Statement} {id : Nat} {f : ScriptFunction} {v : Value}

/-- What stands in a statement of a body stands in the body. -/
theorem Occurs.trans {x : Statement} (h : Occurs true x body) (hst : Occurs true st [x]) :
    Occurs true st body := by
  induction h with
  | here hmem => exact hst.of_mem hmem
  | loop hmem _ ih => exact .loop hmem ih
  | branch hmem hb _ ih => exact .branch hmem hb ih
  | otherwise hmem _ ih => exact .otherwise hmem ih
  | function hd hmem _ ih => exact .function hd hmem ih

theorem MarkedIn.bodies (h : MarkedIn mark globals body) : BodiesIn mark globals body :=
  fun _ _ _ _ hf st hst => h st (hf.trans (.function rfl List.mem_cons_self hst))

theorem Occurs.deepen (h : Occurs false st body) : Occurs true st body := by
  induction h with
  | here hmem => exact .here hmem
  | loop hmem _ ih => exact .loop hmem ih
  | branch hmem hb _ ih => exact .branch hmem hb ih
  | otherwise hmem _ ih => exact .otherwise hmem ih
  | function hd => cases hd

/-- Outside the root a body binds nothing in the root but names with the global mark. -/
theorem MarkedIn.own (h : MarkedIn mark writable body)
    (hc : c = rootScope → ∀ st, Occurs false st body → ∀ name, st.target? = some name →
      Symbols.bareName? mark name = none → writable name) : OwnIn mark writable c body := by
  intro st hst name hname
  cases hb : Symbols.bareName? mark name with
  | some bare => exact h st hst.deepen name bare hname hb
  | none => exact fun hroot => hc hroot st hst name hname hb

namespace Admissible

/-- A body is admissible with every body that has its statements inside. -/
theorem inside {body' : List Statement} (h : Admissible mark globals writable c body)
    (hin : ∀ deep st, Occurs deep st body' → Occurs deep st body) :
    Admissible mark globals writable c body' :=
  ⟨fun st hst => h.params st (hin true st hst),
    fun line name params inner hst => h.bodies line name params inner (hin true _ hst),
    fun st hst => h.own st (hin false st hst)⟩

theorem of_mem (h : Admissible mark globals writable c body) (hst : st ∈ body) :
    Admissible mark globals writable c [st] :=
  h.inside fun _ _ hocc => hocc.of_mem hst

/-- An admissible definition gives a sound function. -/
theorem sound {line : SourceLine} {name bare : String} {params : List String}
    (h : Admissible mark globals writable c [.function line name params body]) (hc : c < n) :
    (⟨id, bare, params, body, c⟩ : ScriptFunction).Sound mark globals n where
  closure := hc
  params := h.params _ (.here List.mem_cons_self)
  inner st hst := h.params st (.function rfl List.mem_cons_self hst)
  marked := h.bodies line name params body (.here List.mem_cons_self)

end Admissible

/-! ### Functions and values -/

/-- The body of a sound function is admissible in every scope but the root. -/
theorem ScriptFunction.Sound.admissible (h : f.Sound mark globals n)
    (hsub : ∀ name, globals name → writable name) (hc : c ≠ rootScope) :
    Admissible mark globals writable c f.body where
  params := h.inner
  bodies := h.marked.bodies
  own := by
    have hmarked : MarkedIn mark writable f.body :=
      fun st hst name bare hname hbare => hsub bare (h.marked st hst name bare hname hbare)
    exact hmarked.own fun hroot => absurd hroot hc

theorem ScriptFunction.Sound.mono (h : f.Sound mark globals n) (hn : n ≤ n') :
    f.Sound mark globals n' :=
  ⟨Nat.lt_of_lt_of_le h.closure hn, h.params, h.inner, h.marked⟩

theorem HostValue.Sound.mono {h : HostValue} (hh : h.Sound mark globals n) (hn : n ≤ n') :
    h.Sound mark globals n' :=
  fun f hf => (hh f hf).mono hn

theorem HostValue.sound_callable :
    (HostValue.callable f).Sound mark globals n ↔ f.Sound mark globals n := by
  constructor
  · intro h
    exact h f (.inr rfl)
  · intro h g hg
    rcases hg with hg | hg <;> cases hg
    exact h

namespace Value

theorem Sound.mono (hv : v.Sound mark globals n) (hn : n ≤ n') : v.Sound mark globals n' :=
  ⟨fun f hf => (hv.function f hf).mono hn, fun h hh => (hv.host h hh).mono hn⟩

theorem Plain.sound (h : v.Plain) : v.Sound mark globals n :=
  ⟨fun f hf => absurd hf (h.function f), fun h' hh => absurd hh (h.host h')⟩

theorem sound_ofLiteral (l : Literal) : (Value.ofLiteral l).Sound mark globals n := by
  cases l <;> exact ⟨nofun, nofun⟩

theorem sound_function : (Value.function f).Sound mark globals n ↔ f.Sound mark globals n := by
  constructor
  · intro h
    exact h.function f rfl
  · intro h
    exact ⟨fun g hg => by cases hg; exact h, nofun⟩

theorem sound_host {h : HostValue} (hh : h.Sound mark globals n) :
    (Value.host h).Sound mark globals n :=
  ⟨nofun, fun g hg => by cases hg; exact hh⟩

theorem sound_ofHost {h : HostValue} (hh : h.Sound mark globals n) :
    (Value.ofHost h).Sound mark globals n := by
  cases h with
  | function f => exact sound_function.2 (hh f (.inl rfl))
  | callable f => exact sound_function.2 (hh f (.inr rfl))
  | integer k => exact (plain_ofInt k).sound
  | object | method | output => exact sound_host hh
  | _ => exact ⟨nofun, nofun⟩

theorem sound_toHostBare (hv : v.Sound mark globals n) : v.toHostBare.Sound mark globals n := by
  obtain ⟨payload, flags⟩ := v
  cases payload with
  | host h => exact hv.host h rfl
  | function f =>
    intro g hg
    rcases hg with hg | hg <;> cases hg
    exact hv.function f rfl
  | _ =>
    intro g hg
    rcases hg with hg | hg <;> cases hg

theorem sound_toHost (hv : v.Sound mark globals n) : v.toHost.Sound mark globals n := by
  unfold toHost
  split
  next f hp => exact HostValue.sound_callable.2 (hv.function f hp)
  next => exact sound_toHostBare hv

end Value

/-! ### Scopes -/

namespace Scopes

variable {s : Scopes}

namespace Sound

theorem lookup (h : s.Sound mark globals) {name : String} (hv : s.lookup id name = some v) :
    v.Sound mark globals s.size := by
  obtain ⟨i, key, hmem⟩ := s.exists_of_lookup id name hv
  exact h.values i _ hmem

theorem assign (h : s.Sound mark globals) (id : Nat) (name : String)
    (hv : v.Sound mark globals s.size) : (s.assign id name v).Sound mark globals where
  mark_eq := h.mark_eq
  pos := by
    rw [size_assign]
    exact h.pos
  rooted i hi := by
    rw [rootOf_assign]
    exact h.rooted i (by rwa [size_assign] at hi)
  values i p hp := by
    rw [size_assign]
    rw [get_assign] at hp
    split at hp
    · obtain rfl | hp := Bindings.mem_put hp
      · exact hv
      · exact h.values i p hp
    · exact h.values i p hp

theorem push (h : s.Sound mark globals) (name : String) (hid : id < s.size) :
    (s.push id name).2.Sound mark globals where
  mark_eq := h.mark_eq
  pos := by
    rw [size_push]
    exact Nat.succ_pos _
  rooted i hi := by
    rw [size_push] at hi
    rw [rootOf_push]
    split
    next => exact h.rooted id hid
    next hne => exact h.rooted i (Nat.lt_of_le_of_ne (Nat.lt_succ_iff.1 hi) hne)
  values i p hp := by
    rw [size_push]
    rw [get_push] at hp
    split at hp
    · cases hp
    · exact (h.values i p hp).mono (Nat.le_succ _)

/-- A root scope on its own has the shape. -/
theorem root (name : String) : (Scopes.root (some mark) name).Sound mark globals where
  mark_eq := rfl
  pos := Nat.one_pos
  rooted i hi := by
    obtain rfl : i = 0 := Nat.lt_one_iff.1 hi
    rfl
  values i p hp := by
    by_cases hi : (Scopes.root (some mark) name).size ≤ i
    · rw [get_of_size_le _ hi] at hp
      cases hp
    · obtain rfl : i = 0 := Nat.lt_one_iff.1 (Nat.not_le.1 hi)
      cases hp

end Sound

end Scopes

end LineScript
