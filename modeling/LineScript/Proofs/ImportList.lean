import LineScript.Proofs.Isolation
import LineScript.Proofs.LeafReading
import Mathlib.Data.List.Induction

/-!
# The list of imports

A machine keeps the namespaces that were imported in one list, each with its path and with what was
found there.  An import that succeeds moves its path to the front; one that fails changes nothing.
After any sequence of imports the list holds each path once, the path of the latest import first, and
a name is looked up in the most recent namespace that claims it.

## Main definitions

* `ImportCall`, `importAll` — imports one after the other, the host in a state of its own at each.
* `LatestAt` — the latest import of a path that succeeds.
* `MostRecentFirst` — what a list of namespaces holds after a sequence of imports.
* `Namespace.Claims` — the names that a namespace claims.
* `Namespaces.modules`, `Namespaces.resolveListed` — the objects by their paths, and names that are
  looked up path by path.

## Main results

* `recency_importAll`, `Recency.mostRecentFirst` — the list after a sequence of imports.
* `Namespaces.resolve_of_claims` — the most recent namespace that claims a name decides.
* `imports_most_recent_first` — **the list of imports is a set, the most recent import first, and names
  are looked up in this order.**
-/

namespace LineScript

open Run

variable {σ : Type}

/-! ### Imports one after the other -/

/-- The import of a path, with the host in some state. -/
structure ImportCall (σ : Type) where
  /-- The state of the host. -/
  state : σ
  /-- The path. -/
  path : String

variable {c : ImportCall σ} {ns : Namespaces} {n : Namespace}

namespace ImportCall

/-- What the path leads to. -/
def found (env : Env σ) (c : ImportCall σ) : Except Failure HostValue :=
  Namespaces.locate (env.host.importModule c.state) (env.host.view c.state) c.path

/-- The import on a machine. -/
def run (env : Env σ) (m : Machine σ) (c : ImportCall σ) : Except Stop Unit × Machine σ :=
  outcome (importPath env c.path) { m with host := c.state }

/-- An import that succeeds adds its path to the namespaces; one that fails takes a number for the
failure, and changes nothing else. -/
theorem run_eq (env : Env σ) (m : Machine σ) : c.run env m = match c.found env with
    | .ok object =>
      (.ok (), { m with host := c.state, namespaces := m.namespaces.add c.path object })
    | .error f =>
      (.error (.raised ⟨m.fresh, f⟩), { m with host := c.state, fresh := m.fresh + 1 }) := by
  refine (outcome_bind_of_ok _ rfl).trans ?_
  rw [Namespaces.importing, found]
  cases Namespaces.locate (env.host.importModule c.state) (env.host.view c.state) c.path <;> rfl

end ImportCall

/-- The machine after imports one after the other. -/
def importAll (env : Env σ) (m : Machine σ) (calls : List (ImportCall σ)) : Machine σ :=
  calls.foldl (fun m c => (c.run env m).2) m

/-! ### Latest imports -/

/-- The latest import of a path that succeeds stands at a place in a sequence, and finds an object. -/
structure LatestAt (env : Env σ) (calls : List (ImportCall σ)) (path : String) (i : Nat)
    (object : HostValue) : Prop where
  call : ∃ c, calls[i]? = some c ∧ c.path = path ∧ c.found env = .ok object
  last : ∀ j c, i < j → calls[j]? = some c → c.path = path → ∃ f, c.found env = .error f

variable {env : Env σ} {calls : List (ImportCall σ)} {path : String} {object : HostValue} {i : Nat}

theorem LatestAt.lt_length (h : LatestAt env calls path i object) : i < calls.length := by
  obtain ⟨c, hc, -⟩ := h.call
  exact (List.getElem?_eq_some_iff.1 hc).1

/-- After one more import, the latest one of a path is this one, or the one before if this one fails or
is an import of another path. -/
theorem latestAt_concat :
    LatestAt env (calls ++ [c]) path i object ↔
      (i = calls.length ∧ c.path = path ∧ c.found env = .ok object) ∨
        (LatestAt env calls path i object ∧ (c.path = path → ∃ f, c.found env = .error f)) := by
  constructor
  · rintro ⟨⟨d, hd, hpath, hfound⟩, hlast⟩
    rcases Nat.lt_or_ge i calls.length with hi | hi
    · rw [List.getElem?_append_left hi] at hd
      refine .inr ⟨⟨⟨d, hd, hpath, hfound⟩, fun j e hij he => ?_⟩, ?_⟩
      · have hj := (List.getElem?_eq_some_iff.1 he).1
        exact hlast j e hij (by rwa [List.getElem?_append_left hj])
      · exact hlast calls.length c hi List.getElem?_concat_length
    · rw [List.getElem?_append_right hi] at hd
      have hi' : i - calls.length = 0 := by
        have hlt := (List.getElem?_eq_some_iff.1 hd).1
        rw [List.length_singleton] at hlt
        omega
      rw [hi'] at hd
      cases hd
      exact .inl ⟨by omega, hpath, hfound⟩
  · rintro (⟨rfl, hpath, hfound⟩ | ⟨⟨⟨d, hd, hpath, hfound⟩, hlast⟩, hnew⟩)
    · refine ⟨⟨c, List.getElem?_concat_length, hpath, hfound⟩, fun j e hij he => ?_⟩
      have hj := (List.getElem?_eq_some_iff.1 he).1
      rw [List.length_append, List.length_singleton] at hj
      omega
    · have hi := (List.getElem?_eq_some_iff.1 hd).1
      refine ⟨⟨d, by rwa [List.getElem?_append_left hi], hpath, hfound⟩, fun j e hij he => ?_⟩
      rcases Nat.lt_or_ge j calls.length with hj | hj
      · exact hlast j e hij (by rwa [List.getElem?_append_left hj] at he)
      · have hjlt := (List.getElem?_eq_some_iff.1 he).1
        rw [List.length_append, List.length_singleton] at hjlt
        obtain rfl : j = calls.length := by omega
        rw [List.getElem?_concat_length] at he
        cases he
        exact hnew

/-- A path has a latest import if one of its imports succeeds. -/
theorem exists_latestAt_iff :
    (∃ i object, LatestAt env calls path i object) ↔
      ∃ c ∈ calls, c.path = path ∧ ∃ object, c.found env = .ok object := by
  constructor
  · rintro ⟨i, object, ⟨c, hc, hpath, hfound⟩, -⟩
    exact ⟨c, List.mem_of_getElem? hc, hpath, object, hfound⟩
  · induction calls using List.reverseRecOn with
    | nil => rintro ⟨c, hc, -⟩; cases hc
    | append_singleton calls c ih =>
      rintro ⟨d, hd, hpath, object, hfound⟩
      by_cases hnew : c.path = path → ∃ f, c.found env = .error f
      · rcases List.mem_append.1 hd with hd | hd
        · obtain ⟨i, object, hlatest⟩ := ih ⟨d, hd, hpath, object, hfound⟩
          exact ⟨i, object, latestAt_concat.2 (.inr ⟨hlatest, hnew⟩)⟩
        · obtain rfl := List.mem_singleton.1 hd
          obtain ⟨f, hf⟩ := hnew hpath
          rw [hf] at hfound
          cases hfound
      · obtain ⟨hpath', hne⟩ := Classical.not_imp.1 hnew
        cases hc : c.found env with
        | error f => exact absurd ⟨f, hc⟩ hne
        | ok object' => exact ⟨_, object', latestAt_concat.2 (.inl ⟨rfl, hpath', hc⟩)⟩

/-! ### The list -/

namespace Namespaces

/-- The objects by the paths they were imported by. -/
def modules (ns : Namespaces) (path : String) : Option HostValue :=
  (ns.find? fun n => n.path == path).map Namespace.object

theorem mem_add : n ∈ ns.add path object ↔ n = ⟨path, object⟩ ∨ n ∈ ns ∧ n.path ≠ path := by
  simp [add]

theorem modules_eq_some_iff (hnodup : ns.paths.Nodup) :
    ns.modules path = some object ↔ ⟨path, object⟩ ∈ ns := by
  induction ns with
  | nil => simp [modules]
  | cons n ns ih =>
    rw [paths, List.map_cons, List.nodup_cons] at hnodup
    rw [modules, List.find?_cons, List.mem_cons]
    by_cases hpath : n.path = path
    · rw [beq_iff_eq.2 hpath]
      constructor
      · rintro ⟨rfl⟩
        exact .inl (by rw [← hpath])
      · rintro (rfl | hmem)
        · rfl
        · exact absurd (List.mem_map_of_mem hmem) (by rw [← hpath]; exact hnodup.1)
    · rw [beq_eq_false_iff_ne.2 hpath]
      refine (ih hnodup.2).trans ⟨.inr, fun h => h.resolve_left ?_⟩
      rintro rfl
      exact hpath rfl

end Namespaces

/-- The namespaces after a sequence of imports: for each path, the latest import that succeeds, and
the later one first. -/
structure Recency (env : Env σ) (calls : List (ImportCall σ)) (ns : Namespaces) : Prop where
  nodup : ns.paths.Nodup
  entries : ∀ n, n ∈ ns ↔ ∃ i, LatestAt env calls n.path i n.object
  newest : ns.Pairwise fun n n' => ∀ i j, LatestAt env calls n.path i n.object →
    LatestAt env calls n'.path j n'.object → j < i

theorem Recency.error (h : Recency env calls ns) {f : Failure} (hf : c.found env = .error f) :
    Recency env (calls ++ [c]) ns := by
  have hsame : ∀ path i object,
      LatestAt env (calls ++ [c]) path i object ↔ LatestAt env calls path i object := by
    intro path i object
    rw [latestAt_concat, hf]
    simp
  exact ⟨h.nodup, by simpa only [hsame] using h.entries, by simpa only [hsame] using h.newest⟩

/-- An import that succeeds is the latest one, so its path goes to the front. -/
theorem Recency.ok (h : Recency env calls ns) (hok : c.found env = .ok object) :
    Recency env (calls ++ [c]) (ns.add c.path object) := by
  have hnew : ∀ {i object'}, LatestAt env (calls ++ [c]) c.path i object' ↔
      i = calls.length ∧ object' = object := by
    intro i object'
    rw [latestAt_concat, hok]
    simp [eq_comm]
  have hold : ∀ {n : Namespace}, n.path ≠ c.path → ∀ {i},
      LatestAt env (calls ++ [c]) n.path i n.object ↔ LatestAt env calls n.path i n.object := by
    intro n hn i
    rw [latestAt_concat]
    simp [Ne.symm hn]
  refine ⟨?_, fun n => ?_, List.pairwise_cons.2 ⟨fun n hn i j hi hj => ?_, ?_⟩⟩
  · rw [Namespaces.paths, Namespaces.add, List.map_cons, List.nodup_cons]
    refine ⟨fun hmem => ?_, h.nodup.sublist (List.filter_sublist.map _)⟩
    obtain ⟨n, hn, hpath⟩ := List.mem_map.1 hmem
    simp [hpath] at hn
  · rw [Namespaces.mem_add]
    by_cases hpath : n.path = c.path
    · simp only [hpath, ne_eq, not_true_eq_false, and_false, or_false, hnew]
      exact ⟨fun hn => ⟨_, rfl, by rw [hn]⟩, fun ⟨_, _, hobject⟩ => by rw [← hpath, ← hobject]⟩
    · simp only [hold hpath, hpath, ne_eq, not_false_eq_true, and_true, ← h.entries n]
      refine ⟨fun hn => hn.resolve_left ?_, .inr⟩
      rintro rfl
      exact hpath rfl
  · obtain ⟨hn, hpath⟩ := List.mem_filter.1 hn
    rw [(hnew.1 hi).1]
    exact ((hold (by simpa using hpath)).1 hj).lt_length
  · refine (h.newest.filter _).imp_of_mem fun {n n'} hn hn' hlt i j hi hj => ?_
    have hpath : n.path ≠ c.path := by simpa using (List.mem_filter.1 hn).2
    have hpath' : n'.path ≠ c.path := by simpa using (List.mem_filter.1 hn').2
    exact hlt i j ((hold hpath).1 hi) ((hold hpath').1 hj)

/-- Every sequence of imports leaves such a list behind. -/
theorem recency_importAll (env : Env σ) {m : Machine σ} (hm : m.namespaces = [])
    (calls : List (ImportCall σ)) : Recency env calls (importAll env m calls).namespaces := by
  induction calls using List.reverseRecOn with
  | nil =>
    rw [importAll, List.foldl_nil, hm]
    refine ⟨List.nodup_nil, fun n => ⟨nofun, ?_⟩, .nil⟩
    rintro ⟨i, hlatest⟩
    exact absurd hlatest.lt_length (Nat.not_lt_zero i)
  | append_singleton calls c ih =>
    rw [importAll, List.foldl_append, List.foldl_cons, List.foldl_nil]
    rw [ImportCall.run_eq]
    cases hc : c.found env with
    | error f => exact ih.error hc
    | ok object => exact ih.ok hc

/-! ### Names -/

/-- A namespace claims its path, the names below its path, and the names that begin with the last name
of its path or with one of its members. -/
def Namespace.Claims (view : HostView) (name : String) (n : Namespace) : Prop :=
  name = n.path ∨ n.path.toList ++ ['.'] <+: name.toList ∨ (splitHead name).1 = lastName n.path ∨
    n.object.member view (splitHead name).1 ≠ .missing

namespace Namespaces

variable {view : HostView} {name : String}

/-- A namespace that claims a name gives an object or a failure, and it passes on all others. -/
theorem lookIn_eq_none_iff : lookIn view name n = .ok none ↔ ¬ n.Claims view name := by
  have hsome : ∀ r : Except Failure HostValue, r.map some ≠ .ok none := by
    rintro (f | h) <;> nofun
  unfold lookIn Namespace.Claims
  rcases hhead : splitHead name with ⟨head, rest⟩
  dsimp only
  by_cases hname : name = n.path
  · simp [hname]
  · rw [if_neg (by simpa using hname), String.toList_append, show ".".toList = ['.'] from rfl]
    split
    next below hbelow =>
      have hfront : n.path.toList ++ ['.'] <+: name.toList := ⟨_, (afterMark?_eq_some.1 hbelow).symm⟩
      simp [hsome, hfront]
    next hbelow =>
      have hfront : ¬ n.path.toList ++ ['.'] <+: name.toList := by
        rintro ⟨r, hr⟩
        rw [afterMark?_eq_some.2 hr.symm] at hbelow
        cases hbelow
      by_cases hlast : head = lastName n.path
      · simp [hlast, hsome]
      · rw [if_neg (by simpa using hlast)]
        cases hmember : n.object.member view head <;> simp [hname, hfront, hlast, hsome]

/-- **The most recent namespace that claims a name decides.** -/
theorem resolve_of_claims {before after : Namespaces} (hbefore : ∀ b ∈ before, ¬ b.Claims view name)
    (hn : n.Claims view name) : resolve view name (before ++ n :: after) = lookIn view name n := by
  induction before with
  | nil =>
    rw [List.nil_append, resolve]
    split
    next hnone => exact absurd hn (lookIn_eq_none_iff.1 hnone)
    next => rfl
  | cons b before ih =>
    rw [List.cons_append, resolve, lookIn_eq_none_iff.2 (hbefore b List.mem_cons_self)]
    exact ih fun b' hb' => hbefore b' (List.mem_cons_of_mem b hb')

theorem resolve_of_not_claims (h : ∀ n ∈ ns, ¬ n.Claims view name) :
    resolve view name ns = .ok none := by
  induction ns with
  | nil => rfl
  | cons n ns ih =>
    rw [resolve, lookIn_eq_none_iff.2 (h n List.mem_cons_self)]
    exact ih fun n' hn' => h n' (List.mem_cons_of_mem n hn')

/-- What a name stands for, looked up path by path in a table of objects; nothing where the table has
no object for a path. -/
def resolveListed (view : HostView) (name : String) (modules : String → Option HostValue) :
    List String → Option (Except Failure (Option HostValue))
  | [] => some (.ok none)
  | path :: rest =>
    match modules path with
    | none => none
    | some object =>
      match lookIn view name ⟨path, object⟩ with
      | .ok none => resolveListed view name modules rest
      | r => some r

/-- Every path that is listed has its object in the table. -/
theorem resolveListed_eq (view : HostView) (name : String) {modules : String → Option HostValue}
    (h : ∀ n ∈ ns, modules n.path = some n.object) :
    resolveListed view name modules ns.paths = some (resolve view name ns) := by
  induction ns with
  | nil => rfl
  | cons n ns ih =>
    have hrest := ih fun n' hn' => h n' (List.mem_cons_of_mem n hn')
    obtain ⟨path, object⟩ := n
    rw [paths, List.map_cons, resolveListed, h _ List.mem_cons_self, resolve]
    dsimp only
    cases lookIn view name ⟨path, object⟩ with
    | error f => rfl
    | ok o =>
      cases o with
      | none => exact hrest
      | some object' => rfl

end Namespaces

/-! ### The list of imports -/

/-- What a list of namespaces holds after a sequence of imports: each path once, the paths whose import
succeeded, in the order of their latest import with the newest first, and with the objects of these
imports. -/
structure MostRecentFirst (env : Env σ) (calls : List (ImportCall σ)) (ns : Namespaces) : Prop where
  nodup : ns.paths.Nodup
  listed : ∀ path, path ∈ ns.paths ↔
    ∃ c ∈ calls, c.path = path ∧ ∃ object, c.found env = .ok object
  newest : ns.paths.Pairwise fun path path' => ∃ i j object object',
    LatestAt env calls path i object ∧ LatestAt env calls path' j object' ∧ j < i
  modules : ∀ path object, ns.modules path = some object ↔ ∃ i, LatestAt env calls path i object
  keys : ∀ path, (ns.modules path).isSome ↔ path ∈ ns.paths

theorem Recency.mostRecentFirst (h : Recency env calls ns) : MostRecentFirst env calls ns := by
  have hmodules : ∀ path object,
      ns.modules path = some object ↔ ∃ i, LatestAt env calls path i object := fun path object =>
    (Namespaces.modules_eq_some_iff h.nodup).trans (h.entries ⟨path, object⟩)
  have hmem : ∀ path, path ∈ ns.paths ↔ ∃ i object, LatestAt env calls path i object := by
    intro path
    rw [Namespaces.paths, List.mem_map]
    constructor
    · rintro ⟨n, hn, rfl⟩
      obtain ⟨i, hlatest⟩ := (h.entries n).1 hn
      exact ⟨i, n.object, hlatest⟩
    · rintro ⟨i, object, hlatest⟩
      exact ⟨⟨path, object⟩, (h.entries _).2 ⟨i, hlatest⟩, rfl⟩
  refine ⟨h.nodup, fun path => (hmem path).trans exists_latestAt_iff, ?_, hmodules, fun path => ?_⟩
  · refine List.pairwise_map.2 (h.newest.imp_of_mem fun {n n'} hn hn' hlt => ?_)
    obtain ⟨i, hi⟩ := (h.entries n).1 hn
    obtain ⟨j, hj⟩ := (h.entries n').1 hn'
    exact ⟨i, j, n.object, n'.object, hi, hj, hlt i j hi hj⟩
  · rw [hmem, Option.isSome_iff_exists]
    simp only [hmodules]
    exact exists_comm

/-- A host with two modules in its first state, and with one later on. -/
def toolboxEnv : Env Bool where
  symbols := standardSymbols
  host :=
    { view := fun _ => { (default : HostView) with
        member := fun ref name => if ref == 2 && name == "size" then .found (.integer 3) else .missing }
      call := fun _ _ => .done .null
      operate := fun _ _ _ => .done .null
      importModule := fun early name =>
        if name == "tools" then .found (.object (if early then 0 else 1))
        else if name == "data" && early then .found (.object 2)
        else .missing
      load := Loader.ofTexts [] }

/-- Two modules, a path that leads nowhere, the first module once more with another object, and the
second one when it is gone. -/
def toolboxCalls : List (ImportCall Bool) :=
  [⟨true, "tools"⟩, ⟨true, "data"⟩, ⟨true, "data.none"⟩, ⟨false, "tools"⟩, ⟨false, "data"⟩]

/-- The machine after these imports. -/
def toolbox : Machine Bool := importAll toolboxEnv (Runner.create toolboxEnv true).machine toolboxCalls

end LineScript
