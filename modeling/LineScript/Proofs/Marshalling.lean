import LineScript.Proofs.CallBalance
import LineScript.Proofs.ChainedStore
import LineScript.Proofs.Isolation

/-!
# Values on their way in and out

A value of the host that enters a script is changed at most once: it leaves in a form that comes back
as the same value, however often it goes to and fro.  The names of the root scope are the places where
the host leaves values.  A name has its place whether it is written with the global mark or without it,
and nothing that runs in between moves the place: the root stays alone, and the mark stays the same.

## Main definitions

* `Value.hop` — a value after it went to the host and came back.
* `HostValue.Native` — the host values that leave as they came.
* `Scopes.Steady` — scopes that came from others by assignments and new scopes.
* `Scopes.Rooted` — scopes with a mark, and a root that stands alone.
* `Runner.Spares` — uses that leave a binding of the root as it is.

## Main results

* `Value.hop_iterate` — values that came from the host stay the same.
* `Runner.steady_useAll` — uses of a runner change bindings and bring new scopes, and nothing else.
* `Runner.spares_of_permitted` — uses that bind other names only leave a binding of the root as it is.
* `marshalling_stable` — **values come back the same, and names hold what they were set to.**
-/

namespace LineScript

open Run

variable {σ : Type}

/-! ### Values -/

namespace Value

/-- A value after it went to the host and came back. -/
def hop (v : Value) : Value := ofHost v.toHost

/-- A whole number enters as it is, or, beyond 64 bits, as a decimal. -/
theorem ofHost_integer (n : Int) :
    inIntegerRange n = true ∧ ofHost (.integer n) = ⟨.integer n, .none⟩ ∨
      inIntegerRange n = false ∧ ofHost (.integer n) = decimal (.ofInt n) := by
  cases hn : inIntegerRange n
  · exact .inr ⟨rfl, by rw [ofHost, ofInt, hn]; rfl⟩
  · exact .inl ⟨rfl, by rw [ofHost, ofInt, hn]; rfl⟩

theorem hop_ofHost (x : HostValue) : hop (ofHost x) = ofHost x := by
  cases x with
  | integer n =>
    rcases ofHost_integer n with ⟨-, hn⟩ | ⟨-, hn⟩ <;> rw [hop, hn]
    exacts [hn, rfl]
  | _ => rfl

theorem ofHost_toHostBare_ofHost (x : HostValue) : ofHost (ofHost x).toHostBare = ofHost x := by
  cases x with
  | integer n =>
    rcases ofHost_integer n with ⟨-, hn⟩ | ⟨-, hn⟩ <;> rw [hn]
    exacts [hn, rfl]
  | _ => rfl

/-- **Values that came from the host stay the same**, through any number of hops. -/
theorem hop_iterate (x : HostValue) (k : Nat) : hop^[k] (ofHost x) = ofHost x :=
  Function.iterate_fixed (hop_ofHost x) k

end Value

/-- The host values that leave as they came: no binary number, no whole number beyond 64 bits, and no
function of a script. -/
def HostValue.Native : HostValue → Prop
  | .integer n => integerMin ≤ n ∧ n ≤ integerMax
  | .float _ | .function _ | .callable _ => False
  | _ => True

theorem Value.toHost_ofHost {x : HostValue} (h : x.Native) : (ofHost x).toHost = x := by
  cases x with
  | integer n =>
    obtain ⟨-, hn⟩ | ⟨hbeyond, -⟩ := ofHost_integer n
    · rw [hn]
      rfl
    · have hrange : integerMin ≤ n ∧ n ≤ integerMax := h
      simp [inIntegerRange, hrange] at hbeyond
  | float | function | callable => exact h.elim
  | _ => rfl

/-! ### Scopes -/

namespace Scopes

variable {s s' s'' : Scopes} {mark n : String}

/-- Scopes that came from others by assignments and new scopes: the mark is the same, no scope is lost,
and no scope has other scopes around it than before. -/
structure Steady (s s' : Scopes) : Prop where
  mark : s'.mark = s.mark
  size : s.size ≤ s'.size
  parents : ∀ i < s.size, (s'.get i).ancestors = (s.get i).ancestors

theorem Steady.refl (s : Scopes) : Steady s s := ⟨rfl, Nat.le_refl _, fun _ _ => rfl⟩

theorem Steady.trans (h : Steady s s') (h' : Steady s' s'') : Steady s s'' :=
  ⟨h'.mark.trans h.mark, Nat.le_trans h.size h'.size,
    fun i hi => (h'.parents i (Nat.lt_of_lt_of_le hi h.size)).trans (h.parents i hi)⟩

theorem steady_assign (s : Scopes) (c : Nat) (name : String) (v : Value) :
    Steady s (s.assign c name v) := by
  refine ⟨rfl, by simp, fun i _ => ?_⟩
  rw [get_assign]
  split <;> rfl

theorem steady_push (s : Scopes) (c : Nat) (name : String) : Steady s (s.push c name).2 := by
  refine ⟨rfl, by simp, fun i hi => ?_⟩
  rw [get_push, if_neg (Nat.ne_of_lt hi)]

/-- Scopes with a mark of global names and a root with nothing around it. -/
structure Rooted (mark : String) (s : Scopes) : Prop where
  mark_eq : s.mark = some mark
  pos : rootScope < s.size
  alone : s.chain rootScope = [rootScope]

variable (h : Rooted mark s)

include h

theorem Rooted.steady (hs : Steady s s') : Rooted mark s' := by
  refine ⟨hs.mark.trans h.mark_eq, Nat.lt_of_lt_of_le h.pos hs.size, ?_⟩
  rw [chain, hs.parents rootScope h.pos]
  exact h.alone

/-- A name that does not carry the mark means the same place of the root with the mark and without. -/
theorem Rooted.route (hn : n ≠ "") (hplain : Symbols.bareName? mark n = none) {name : String}
    (hname : name = n ∨ name = mark ++ n) : s.route rootScope name = (rootScope, n) := by
  rcases hname with rfl | rfl
  · refine route_unmarked (fun mark' bare hmark hbare heq => ?_) rootScope
    cases h.mark_eq.symm.trans hmark
    rw [bareName?_eq_some.2 ⟨heq, hbare⟩] at hplain
    cases hplain
  · rw [route_marked h.mark_eq hn, rootOf_of_alone h.alone]

theorem Rooted.lookup (hn : n ≠ "") (hplain : Symbols.bareName? mark n = none) {name : String}
    (hname : name = n ∨ name = mark ++ n) : s.lookup rootScope name = s.bound rootScope n := by
  rw [lookup_eq_findSome, h.route hn hplain hname, h.alone, List.findSome?_singleton]

theorem Rooted.bound_assign (hn : n ≠ "") (hplain : Symbols.bareName? mark n = none) {name : String}
    (hname : name = n ∨ name = mark ++ n) (v : Value) :
    (s.assign rootScope name v).bound rootScope n = some v := by
  rw [bound, get_assign, h.route hn hplain hname, if_pos ⟨rfl, h.pos⟩]
  exact Bindings.get?_put_self n v _

end Scopes

/-! ### Runners -/

/-- The conduct of evaluation under which scopes are steady. -/
def steadiness (env : Env σ) : Conduct env :=
  unrestricted env (fun m m' => m.scopes.Steady m'.scopes)
    { refl := fun m => .refl m.scopes
      trans := .trans
      aside := fun ha => by rw [ha.scopes]; exact .refl _
      leave := fun h => h
      host := fun m _ => .refl m.scopes
      imports := fun m _ => .refl m.scopes
      assign := fun m => m.scopes.steady_assign
      push := fun m => m.scopes.steady_push }

namespace Runner

variable {r : Runner σ} {n : String}

/-- **Uses of a runner change bindings and bring new scopes, and nothing else**, whatever the host is. -/
theorem steady_useAll (uses : List Use) :
    ∀ r : Runner σ, r.machine.scopes.Steady (r.useAll uses).machine.scopes := by
  induction uses with
  | nil => exact fun r => .refl _
  | cons u rest ih =>
    intro r
    have hfirst : r.machine.scopes.Steady (r.use u).machine.scopes :=
      ((steadiness r.env).kept_use ((steadiness r.env).inner_alike stepLimit) rfl trivial
        fun _ _ => trivial).2
    exact hfirst.trans (ih (r.use u))

theorem rooted_create (env : Env σ) (state : σ) (uses : List Use) :
    ((create env state).useAll uses).machine.scopes.Rooted env.symbols.globalMark := by
  have hnew : (create env state).machine.scopes.Rooted env.symbols.globalMark :=
    Scopes.Rooted.steady (s := .root (some env.symbols.globalMark) "root") ⟨rfl, Nat.one_pos, rfl⟩
      (Scopes.steady_assign ..)
  exact hnew.steady (steady_useAll uses _)

/-- Uses that leave what the root binds a name to as it is. -/
def Spares (n : String) : Runner σ → List Use → Prop
  | _, [] => True
  | r, u :: rest =>
    (r.use u).machine.scopes.bound rootScope n = r.machine.scopes.bound rootScope n ∧
      (r.use u).Spares n rest

theorem Spares.bound_eq : ∀ {uses : List Use} {r : Runner σ}, r.Spares n uses →
    (r.useAll uses).machine.scopes.bound rootScope n = r.machine.scopes.bound rootScope n
  | [], _, _ => rfl
  | _ :: _, _, h => h.2.bound_eq.trans h.1

end Runner

theorem Permitted.mono {env : Env σ} {globals writable : String → Prop} {k k' : Nat} (hk : k ≤ k') :
    ∀ {asked : Request}, Permitted env globals writable k asked →
      Permitted env globals writable k' asked
  | .call _ _, h => ⟨h.1.mono hk, fun a ha => (h.2 a ha).mono hk⟩
  | .eval _, h | .handle _, h => h
  | .invoke _ _, h => fun a ha => (h a ha).mono hk
  | .set _ _, h => ⟨h.1.mono hk, h.2⟩
  | .get _, _ => trivial

/-- **Uses that bind other names only leave a binding of the root as it is**, under a host that binds
other names only, and when the functions that there are do so, too. -/
theorem Runner.spares_of_permitted {env : Env σ} {n : String} {holds : Nat → σ → Prop}
    (hmark : ∀ rest, isIdentifier (env.symbols.globalMark.toList ++ rest) = false)
    (h : HonestHost env (· ≠ n) (· ≠ n) holds) :
    ∀ {uses : List Use} {r : Runner σ}, r.env = env → Shaped env (· ≠ n) holds r.machine →
      (∀ u ∈ uses, ∀ asked ∈ u.request,
        Permitted env (· ≠ n) (· ≠ n) r.machine.scopes.size asked) → r.Spares n uses
  | [], _, _, _, _ => trivial
  | u :: rest, r, henv, hr, huses => by
    let D := isolation env (· ≠ n) (· ≠ n) holds hmark (fun _ hw => hw) h
    obtain ⟨hshaped, hisolated⟩ :=
      D.kept_use (D.inner_alike stepLimit) henv hr (huses u List.mem_cons_self)
    refine ⟨hisolated.root n (not_not_intro rfl),
      spares_of_permitted hmark h ((r.env_use u).trans henv) hshaped fun u' hu' asked hasked => ?_⟩
    exact (huses u' (List.mem_cons_of_mem u hu') asked hasked).mono hisolated.size

/-! ### To and fro -/

/-- **Values come back the same, and names hold what they were set to.**  A value that came from the
host stays the same when it goes to the host, with the function in it wrapped or bare, and comes back,
however often it does; so a function of a script that the host got comes back as that function.  What
is no binary number, no whole number beyond 64 bits and no function leaves as it came.  A name of the
root that was set, with the global mark or without it, whatever was done with the runner before, reads
in both spellings as what it was set to, in the form that the host gets, as long as its binding is left
as it is; and it is, by all uses that bind other names only, when the functions that there are and the
host do so. -/
theorem marshalling_stable (env : Env σ) :
    (∀ x : HostValue, Value.ofHost (Value.ofHost x).toHost = Value.ofHost x ∧
      Value.ofHost (Value.ofHost x).toHostBare = Value.ofHost x) ∧
    (∀ (x : HostValue) k, Value.hop^[k] (Value.ofHost x) = Value.ofHost x) ∧
    (∀ f : ScriptFunction, (Value.function f).toHost = .callable f ∧
      ∀ k, Value.hop^[k] (.function f) = .function f ∧
        Value.hop^[k] (.ofHost (.callable f)) = .function f) ∧
    (∀ x : HostValue, x.Native → (Value.ofHost x).toHost = x) ∧
    ∀ state before n name x, n ≠ "" → Symbols.bareName? env.symbols.globalMark n = none →
      name = n ∨ name = env.symbols.globalMark ++ n →
        let r := ((Runner.create env state).useAll before).set name x
        (∀ later, r.Spares n later → (r.useAll later).get n = (Value.ofHost x).toHost ∧
          (r.useAll later).get (env.symbols.globalMark ++ n) = (Value.ofHost x).toHost) ∧
        ∀ holds, (∀ rest, isIdentifier (env.symbols.globalMark.toList ++ rest) = false) →
          HonestHost env (· ≠ n) (· ≠ n) holds → Reachable env (· ≠ n) holds r.machine →
            ∀ later, (∀ u ∈ later, ∀ asked ∈ u.request,
              Permitted env (· ≠ n) (· ≠ n) r.machine.scopes.size asked) → r.Spares n later := by
  refine ⟨fun x => ⟨Value.hop_ofHost x, Value.ofHost_toHostBare_ofHost x⟩, Value.hop_iterate,
    fun f => ⟨rfl, fun k => ⟨Value.hop_iterate (.function f) k, Value.hop_iterate (.callable f) k⟩⟩,
    fun x => Value.toHost_ofHost, fun state before n name x hn hplain hname => ?_⟩
  intro r
  have hrooted := Runner.rooted_create env state before
  have hset : r.machine.scopes.bound rootScope n = some (.ofHost x) :=
    hrooted.bound_assign hn hplain hname _
  refine ⟨fun later hspares => ?_, fun holds hmark hhost hreach later hlater => ?_⟩
  · have hlast : (r.useAll later).machine.scopes.Rooted env.symbols.globalMark :=
      (hrooted.steady (Scopes.steady_assign ..)).steady (Runner.steady_useAll later r)
    have hget : ∀ spelling, spelling = n ∨ spelling = env.symbols.globalMark ++ n →
        (r.useAll later).get spelling = (Value.ofHost x).toHost := by
      intro spelling hspelling
      rw [Runner.get, Runner.lookup, hlast.lookup hn hplain hspelling, hspares.bound_eq, hset]
      rfl
    exact ⟨hget n (.inl rfl), hget _ (.inr rfl)⟩
  · have henv : r.env = env := Runner.env_useAll before _
    exact Runner.spares_of_permitted hmark hhost henv (hreach.shaped hmark hhost) hlater

/-- A runner whose name `total` the host has set, by its mark, to a function of a script. -/
def totalSet : Runner Unit :=
  ((Runner.create callbackEnv ()).useAll [.set "apply" (.object 0)]).set "root.total" (.callable outer)

/-- A text is run, and the host has the function called. -/
def otherUses : List Use := [.eval identityText, .call (.object 0) [.callable outer, .integer 1]]

theorem reachable_totalSet : Reachable callbackEnv (· ≠ "total") (fun _ _ => True) totalSet.machine := by
  have hset : ∀ {m : Machine Unit} {name : String} {x : HostValue},
      Reachable callbackEnv (· ≠ "total") (fun _ _ => True) m →
      x.Sound "root." (· ≠ "total") m.scopes.size → Reachable callbackEnv (· ≠ "total") (fun _ _ => True)
        (outcome (answer callbackEnv (callbackEnv.inner 1) (.set name x)) m).2 :=
    fun hm hx => .answer 1 hm ⟨hx, trivial⟩
  refine hset (hset (.create trivial) ?_) (HostValue.sound_callable.2 (sound_outer _))
  rintro f (hf | hf) <;> cases hf

theorem permitted_otherUses : ∀ u ∈ otherUses, ∀ asked ∈ u.request,
    Permitted callbackEnv (· ≠ "total") (· ≠ "total") totalSet.machine.scopes.size asked := by
  intro u hu asked hasked
  simp only [otherUses, List.mem_cons, List.not_mem_nil, or_false] at hu
  rcases hu with rfl | rfl <;> cases hasked
  · rintro text ⟨⟩ state script state' hparse
    have hread : parse standardSymbols callbackHost.load none none identityText () =
      (.ok ⟨⟨1, "f n #", none⟩, [identity]⟩, ()) := rfl
    cases hread.symm.trans hparse
    refine ⟨(marked_identity _).bodies, (marked_identity _).own fun _ st hst name hname _ => ?_⟩
    obtain ⟨x, hx, hin⟩ := hst.exists_mem
    cases List.mem_singleton.1 hx
    cases hin with
    | here hmem =>
      cases List.mem_singleton.1 hmem
      cases hname
      decide
    | _ => simp_all [identity]
  · refine ⟨?_, fun a ha => ?_⟩
    · rintro f (hf | hf) <;> cases hf
    · simp only [List.mem_cons, List.not_mem_nil, or_false] at ha
      rcases ha with rfl | rfl
      · exact HostValue.sound_callable.2 (sound_outer _)
      · rintro f (hf | hf) <;> cases hf

/-- After both the name reads as the function, in either spelling. -/
theorem totalSet_reads_back :
    Reachable callbackEnv (· ≠ "total") (fun _ _ => True) totalSet.machine ∧
      totalSet.Spares "total" otherUses ∧
      (totalSet.useAll otherUses).get "total" = .callable outer ∧
      (totalSet.useAll otherUses).get "root.total" = .callable outer ∧
      (Value.ofHost (.integer integerMax)).toHost = .integer integerMax := by
  obtain ⟨-, -, -, hnative, hnames⟩ := marshalling_stable callbackEnv
  obtain ⟨hget, hspares⟩ := hnames () [.set "apply" (.object 0)] "total" "root.total"
    (.callable outer) (by decide) rfl (.inr rfl)
  have hspared : totalSet.Spares "total" otherUses :=
    hspares _ (fun _ => rfl) (honest_callbackHost _) reachable_totalSet _ permitted_otherUses
  obtain ⟨hplain, hmarked⟩ := hget _ hspared
  exact ⟨reachable_totalSet, hspared, hplain, hmarked, hnative _ ⟨by decide, Int.le_refl _⟩⟩

end LineScript
