import LineScript.Proofs.LeafReading
import LineScript.Proofs.ScopeStore

/-!
# Scopes are a chained store

A name is looked up outward: in a scope, in the one around it, and so on to the root.  An assignment
changes one binding of one scope, and it is seen from every scope that is inside that one, unless a
scope in between binds the name itself.  So after any operations a name has the value that was
assigned to it last, in the innermost scope that has one.

## Main definitions

* `Scopes.bound` — what a scope itself binds a name to.
* `Scopes.Linked` — every scope stands alone or inside another one.
* `Scopes.Sees` — a binding is found by the walk outward from a scope.
* `Scopes.Assigned` — what an assignment does.
* `Scopes.Operation`, `Scopes.Run` — operations, and several of them one after the other.
* `Scopes.latest` — the value that was assigned last.

## Main results

* `Scopes.route_marked`, `Scopes.route_unmarked` — where names belong.
* `Scopes.Linked.chain_rootOf` — the root has nothing around it.
* `Scopes.Linked.assigned` — **an assignment changes one binding.**
* `Scopes.Run.bound_eq` — **a binding is the latest assignment to it.**
* `scopes_lawful_store` — **scopes are a lawful chained store.**
-/

namespace LineScript

/-- A name carries the mark when it is the mark and something after it. -/
theorem bareName?_eq_some {mark name bare : String} :
    Symbols.bareName? mark name = some bare ↔ name = mark ++ bare ∧ bare ≠ "" := by
  have hafter : ∀ {r}, Symbols.afterMark? mark.toList name.toList = some r ↔
      name = mark ++ String.ofList r := fun {r} => by
    rw [afterMark?_eq_some, ← String.toList_inj, String.toList_append, String.toList_ofList]
  unfold Symbols.bareName?
  constructor
  · intro h
    split at h
    next a rest hrest =>
      cases h
      refine ⟨hafter.1 hrest, fun hempty => ?_⟩
      cases (String.toList_ofList (l := a :: rest)).symm.trans (congrArg String.toList hempty)
    next => cases h
  · rintro ⟨hname, hbare⟩
    cases hlist : bare.toList with
    | nil => exact absurd (String.toList_eq_nil_iff.1 hlist) hbare
    | cons a rest =>
      have hback : String.ofList (a :: rest) = bare := by rw [← hlist, String.ofList_toList]
      rw [hafter.2 (by rw [hback]; exact hname)]
      exact congrArg some hback

namespace Scopes

variable {s s' : Scopes} {c d i : Nat} {n m key : String} {v : Value}

/-! ### Where names belong -/

/-- What a scope itself binds a name to. -/
def bound (s : Scopes) (i : Nat) (key : String) : Option Value := (s.get i).bindings.get? key

theorem lookup_eq_findSome (s : Scopes) (d : Nat) (m : String) : s.lookup d m =
    (s.chain (s.route d m).1).findSome? fun i => s.bound i (s.route d m).2 := rfl

/-- A name with the mark belongs to the root, without the mark. -/
theorem route_marked {mark bare : String} (hmark : s.mark = some mark) (hbare : bare ≠ "") (c : Nat) :
    s.route c (mark ++ bare) = (s.rootOf c, bare) := by
  rw [route, hmark, Option.bind_some, bareName?_eq_some.2 ⟨rfl, hbare⟩]

/-- Any other name belongs to the scope where it is used. -/
theorem route_unmarked (h : ∀ mark bare, s.mark = some mark → bare ≠ "" → n ≠ mark ++ bare) (c : Nat) :
    s.route c n = (c, n) := by
  have hnone : (s.mark.bind fun mark => Symbols.bareName? mark n) = none := by
    cases hmark : s.mark with
    | none => rfl
    | some mark =>
      rw [Option.bind_some, Option.eq_none_iff_forall_ne_some]
      intro bare hbare
      obtain ⟨hn, hne⟩ := bareName?_eq_some.1 hbare
      exact h mark bare hmark hne hn
  rw [route, hnone]

/-- A name belongs to the scope where it is used, or to its root. -/
theorem route_fst (s : Scopes) (c : Nat) (n : String) :
    (s.route c n).1 = c ∨ (s.route c n).1 = s.rootOf c := by
  unfold route
  split
  · exact .inr rfl
  · exact .inl rfl

/-! ### Linked scopes -/

/-- The scopes are linked: every one stands alone, or inside one that is there. -/
def Linked (s : Scopes) : Prop :=
  ∀ i < s.size, s.chain i = [i] ∨ ∃ p < s.size, s.chain i = i :: s.chain p

theorem parent?_eq_tail (s : Scopes) (i : Nat) : s.parent? i = (s.chain i).tail.head? := rfl

theorem rootOf_of_alone (h : s.chain i = [i]) : s.rootOf i = i := by
  simp only [rootOf, h, List.getLast_singleton]

theorem rootOf_of_inside {p : Nat} (h : s.chain i = i :: s.chain p) : s.rootOf i = s.rootOf p := by
  simp only [rootOf, h]
  exact List.getLast_cons_cons

namespace Linked

section

variable (h : s.Linked)

include h

/-- What holds of the scopes that stand alone, and of a scope inside one that it holds of, holds of
all scopes. -/
theorem induction {motive : Nat → Prop} (alone : ∀ i < s.size, s.chain i = [i] → motive i)
    (inside : ∀ i < s.size, ∀ p < s.size, s.chain i = i :: s.chain p → motive p → motive i) :
    ∀ i < s.size, motive i := by
  -- the walk from the scope around a scope is shorter
  have hwalk : ∀ l : List Nat, ∀ i < s.size, s.chain i = l → motive i := by
    intro l
    induction l with
    | nil =>
      intro i _ hl
      cases hl
    | cons q rest ih =>
      intro i hi hl
      rcases h i hi with halone | ⟨p, hp, hinside⟩
      · exact alone i hi halone
      · have hrest : s.chain p = rest := (List.cons.inj (hinside.symm.trans hl)).2
        exact inside i hi p hp hinside (ih p hp hrest)
  exact fun i hi => hwalk _ i hi rfl

theorem rootOf_lt : ∀ i < s.size, s.rootOf i < s.size := by
  refine h.induction (fun i hi halone => ?_) fun i hi p hp hinside ih => ?_
  · rwa [rootOf_of_alone halone]
  · rwa [rootOf_of_inside hinside]

/-- **The root of a scope has nothing around it.** -/
theorem chain_rootOf : ∀ i < s.size, s.chain (s.rootOf i) = [s.rootOf i] := by
  refine h.induction (fun i hi halone => ?_) fun i hi p hp hinside ih => ?_
  · rwa [rootOf_of_alone halone]
  · rwa [rootOf_of_inside hinside]

theorem route_lt (hc : c < s.size) (n : String) : (s.route c n).1 < s.size := by
  rcases route_fst s c n with hself | hroot
  · rwa [hself]
  · rw [hroot]
    exact h.rootOf_lt c hc

theorem assign (c : Nat) (n : String) (v : Value) : (s.assign c n v).Linked := by
  intro i hi
  simpa only [size_assign, chain_assign] using h i (by simpa using hi)

theorem push (hc : c < s.size) (n : String) : (s.push c n).2.Linked := by
  intro i hi
  rw [size_push] at hi ⊢
  rw [chain_push]
  have hold : ∀ p < s.size, (s.push c n).2.chain p = s.chain p := fun p hp => by
    rw [chain_push, if_neg (Nat.ne_of_lt hp)]
  by_cases hnew : i = s.size
  · rw [if_pos hnew]
    exact .inr ⟨c, by omega, by rw [hold c hc]⟩
  · rw [if_neg hnew]
    refine (h i (by omega)).imp_right ?_
    rintro ⟨p, hp, hinside⟩
    exact ⟨p, by omega, by rw [hold p hp, hinside]⟩

end

/-- The scopes that a program starts with: a root, and nothing in it. -/
theorem root (mark : Option String) (name : String) : (Scopes.root mark name).Linked := by
  intro i hi
  have hzero : i = 0 := Nat.lt_one_iff.1 hi
  subst hzero
  exact .inl rfl

end Linked

/-! ### Assignments -/

/-- The walk outward from the scope `start` finds what the scope `t` binds the name to: `t` is on the
way, and no scope before it binds the name. -/
def Sees (s : Scopes) (start t : Nat) (key : String) : Prop :=
  t ∈ s.chain start ∧ ∀ i ∈ (s.chain start).takeWhile (· ≠ t), s.bound i key = none

section Walk

variable {l : List Nat} {f g : Nat → Option Value} {t : Nat}

/-- A walk finds what is new at one place, when nothing stands before it. -/
theorem findSome?_of_first (hself : g t = some v) (hother : ∀ i, i ≠ t → g i = f i) (ht : t ∈ l)
    (hbefore : ∀ i ∈ l.takeWhile (· ≠ t), f i = none) : l.findSome? g = some v := by
  induction l with
  | nil => cases ht
  | cons a l ih =>
    by_cases ha : a = t
    · rw [List.findSome?_cons, ha, hself]
    · rw [List.takeWhile_cons_of_pos (by simpa using ha), List.forall_mem_cons] at hbefore
      rw [List.findSome?_cons, hother a ha, hbefore.1]
      exact ih ((List.mem_cons.1 ht).resolve_left (Ne.symm ha)) hbefore.2

/-- A walk that finds something else finds what is new. -/
theorem first_of_findSome?_ne (hother : ∀ i, i ≠ t → g i = f i)
    (h : l.findSome? g ≠ l.findSome? f) : t ∈ l ∧ ∀ i ∈ l.takeWhile (· ≠ t), f i = none := by
  induction l with
  | nil => exact absurd rfl h
  | cons a l ih =>
    by_cases ha : a = t
    · rw [ha, List.takeWhile_cons_of_neg (by simp)]
      exact ⟨List.mem_cons_self, fun i hi => by cases hi⟩
    · rw [List.findSome?_cons, List.findSome?_cons, hother a ha] at h
      rw [List.takeWhile_cons_of_pos (by simpa using ha), List.forall_mem_cons]
      cases hfa : f a with
      | some w =>
        rw [hfa] at h
        exact absurd rfl h
      | none =>
        rw [hfa] at h
        obtain ⟨ht, hbefore⟩ := ih h
        exact ⟨List.mem_cons_of_mem a ht, rfl, hbefore⟩

end Walk

/-- What an assignment of `v` to the name `n` in the scope `c` does: it changes the one binding that
the name belongs to, and nothing else about the scopes. -/
structure Assigned (s s' : Scopes) (c : Nat) (n : String) (v : Value) : Prop where
  /-- There are the same scopes, in the same places. -/
  kept : s'.size = s.size ∧ s'.mark = s.mark ∧
    ∀ i, (s'.get i).name = (s.get i).name ∧ s'.chain i = s.chain i
  /-- One binding is the new one, and the others are as they were. -/
  bound_eq : ∀ i key, s'.bound i key = if (i, key) = s.route c n then some v else s.bound i key
  /-- The name has the new value. -/
  own : s'.lookup c n = some v
  /-- A name has the new value if it finds the binding. -/
  seen : ∀ d m, (s.route d m).2 = (s.route c n).2 →
    s.Sees (s.route d m).1 (s.route c n).1 (s.route d m).2 → s'.lookup d m = some v
  /-- A name has another value than before only if it finds the binding. -/
  unseen : ∀ d m, s'.lookup d m ≠ s.lookup d m → (s.route d m).2 = (s.route c n).2 ∧
    s.Sees (s.route d m).1 (s.route c n).1 (s.route d m).2

theorem route_assign (s : Scopes) (c : Nat) (n : String) (v : Value) (d : Nat) (m : String) :
    (s.assign c n v).route d m = s.route d m := by
  simp only [route, mark_assign, rootOf_assign]

theorem bound_assign (h : s.Linked) (hc : c < s.size) (n : String) (v : Value) (i : Nat) (key : String) :
    (s.assign c n v).bound i key = if (i, key) = s.route c n then some v else s.bound i key := by
  have ht := h.route_lt hc n
  rw [bound, get_assign]
  generalize s.route c n = r at ht ⊢
  obtain ⟨t, k⟩ := r
  by_cases hi : i = t
  · subst hi
    rw [if_pos ⟨rfl, ht⟩]
    by_cases hkey : key = k
    · subst hkey
      rw [if_pos rfl]
      exact Bindings.get?_put_self ..
    · rw [if_neg fun heq => hkey (Prod.mk.inj heq).2]
      exact Bindings.get?_put_of_ne hkey ..
  · rw [if_neg fun heq => hi heq.1.symm, if_neg fun heq => hi (Prod.mk.inj heq).1, bound]

/-- **An assignment changes one binding**, and it is seen by the walks that find this binding. -/
theorem Linked.assigned (h : s.Linked) (hc : c < s.size) (n : String) (v : Value) :
    Assigned s (s.assign c n v) c n v := by
  have hbound := bound_assign h hc n v
  have hlookup : ∀ d m, (s.assign c n v).lookup d m = (s.chain (s.route d m).1).findSome? fun i =>
      (s.assign c n v).bound i (s.route d m).2 := fun d m => by
    rw [lookup_eq_findSome, route_assign, chain_assign]
  have hseen : ∀ d m, (s.route d m).2 = (s.route c n).2 →
      s.Sees (s.route d m).1 (s.route c n).1 (s.route d m).2 →
      (s.assign c n v).lookup d m = some v := by
    rintro d m hkey ⟨ht, hbefore⟩
    rw [hlookup]
    refine findSome?_of_first ?_ (fun i hi => ?_) ht hbefore
    · rw [hbound, hkey, if_pos rfl]
    · rw [hbound, if_neg fun heq => hi (congrArg Prod.fst heq)]
  refine ⟨⟨size_assign .., mark_assign .., fun i => ⟨?_, chain_assign ..⟩⟩, hbound, ?_, hseen, ?_⟩
  · rw [get_assign]
    split <;> rfl
  · refine hseen c n rfl ⟨List.mem_cons_self, fun i hi => ?_⟩
    rw [chain, List.takeWhile_cons_of_neg (by simp)] at hi
    cases hi
  · intro d m hne
    rw [hlookup, lookup_eq_findSome] at hne
    have hkey : (s.route d m).2 = (s.route c n).2 := by
      refine Decidable.byContradiction fun hkey => hne ?_
      congr 1
      funext i
      have hother : (i, (s.route d m).2) ≠ s.route c n := fun heq => hkey (Prod.ext_iff.1 heq).2
      rw [hbound, if_neg hother]
    refine ⟨hkey, first_of_findSome?_ne (fun i hi => ?_) hne⟩
    rw [hbound, if_neg fun heq => hi (congrArg Prod.fst heq)]

/-! ### Runs -/

/-- An operation on the scopes. -/
inductive Operation where
  /-- An assignment in a scope. -/
  | assign (scope : Nat) (name : String) (value : Value)
  /-- A new scope inside a scope. -/
  | push (scope : Nat) (name : String)

/-- The scope that an operation is made in. -/
def Operation.scope : Operation → Nat
  | .assign c _ _ => c
  | .push c _ => c

/-- The scopes after an operation. -/
def apply (s : Scopes) : Operation → Scopes
  | .assign c n v => s.assign c n v
  | .push c n => (s.push c n).2

/-- Operations one after the other, each in a scope that is there. -/
inductive Run : Scopes → List Operation → Scopes → Prop
  /-- No operation. -/
  | nil {s : Scopes} : Run s [] s
  /-- An operation, and more of them. -/
  | cons {s s' : Scopes} {op : Operation} {ops : List Operation} (scope : op.scope < s.size)
    (rest : Run (s.apply op) ops s') : Run s (op :: ops) s'

/-- The value that an operation assigns to a name of a scope. -/
def Operation.assigned? (s : Scopes) (i : Nat) (key : String) : Operation → Option Value
  | .assign c n v => if (i, key) = s.route c n then some v else none
  | .push .. => none

/-- The value that was assigned last to a name of a scope. -/
def latest (s : Scopes) (ops : List Operation) (i : Nat) (key : String) : Option Value :=
  ops.reverse.findSome? (Operation.assigned? s i key)

theorem route_push (s : Scopes) (c : Nat) (n : String) {d : Nat} (hd : d < s.size) (m : String) :
    (s.push c n).2.route d m = s.route d m := by
  simp only [route, mark_push, rootOf_push, if_neg (Nat.ne_of_lt hd)]

theorem bound_push (s : Scopes) (c : Nat) (n : String) (i : Nat) (key : String) :
    (s.push c n).2.bound i key = s.bound i key := by
  rw [bound, get_push, bound]
  split
  next hi =>
    rw [get_of_size_le s (Nat.le_of_eq hi.symm)]
    rfl
  next => rfl

theorem size_le_apply (s : Scopes) (op : Operation) : s.size ≤ (s.apply op).size := by
  cases op with
  | assign => exact Nat.le_of_eq (size_assign ..).symm
  | push => exact Nat.le.intro (size_push ..).symm

/-- Names belong where they did, after an operation. -/
theorem route_apply (s : Scopes) (op : Operation) {d : Nat} (hd : d < s.size) (m : String) :
    (s.apply op).route d m = s.route d m := by
  cases op with
  | assign => exact route_assign ..
  | push => exact route_push _ _ _ hd m

theorem Linked.apply (h : s.Linked) {op : Operation} (hop : op.scope < s.size) : (s.apply op).Linked := by
  cases op with
  | assign => exact h.assign _ _ _
  | push => exact h.push hop _

/-- **One operation**: a binding is what the operation assigns to it, or what it was. -/
theorem Linked.bound_apply (h : s.Linked) {op : Operation} (hop : op.scope < s.size) (i : Nat)
    (key : String) : (s.apply op).bound i key = (op.assigned? s i key).or (s.bound i key) := by
  cases op with
  | assign c n v =>
    have hassign : (s.apply (.assign c n v)).bound i key =
        if (i, key) = s.route c n then some v else s.bound i key := bound_assign h hop n v i key
    rw [hassign, Operation.assigned?]
    split <;> rfl
  | push => exact bound_push ..

namespace Run

variable {ops : List Operation}

variable (hrun : Run s ops s')

include hrun

theorem linked (h : s.Linked) : s'.Linked := by
  induction hrun with
  | nil => exact h
  | cons hop _ ih => exact ih (h.apply hop)

theorem route_eq (hd : d < s.size) (m : String) : s'.route d m = s.route d m := by
  induction hrun with
  | nil => rfl
  | @cons s s' op _ hop _ ih => rw [ih (Nat.lt_of_lt_of_le hd (size_le_apply s op)), route_apply s op hd]

/-- An operation assigns to the same binding, whether it is seen before or after others. -/
theorem assigned?_eq {op : Operation} (hop : op.scope < s.size) (i : Nat) (key : String) :
    op.assigned? s' i key = op.assigned? s i key := by
  cases op with
  | assign c n v =>
    have hroute : s'.route c n = s.route c n := hrun.route_eq hop n
    rw [Operation.assigned?, hroute, Operation.assigned?]
  | push => rfl

/-- **A binding is the latest assignment to it**, and what it was at first if there is none. -/
theorem bound_eq (h : s.Linked) (i : Nat) (key : String) :
    s'.bound i key = (latest s' ops i key).or (s.bound i key) := by
  induction hrun with
  | nil => rfl
  | @cons s s' op ops hop hrest ih =>
    have hroute : op.assigned? s' i key = op.assigned? s i key :=
      (Run.cons hop hrest).assigned?_eq hop i key
    have hlast : latest s' (op :: ops) i key =
        (latest s' ops i key).or (op.assigned? s' i key) := by
      simp only [latest, List.reverse_cons, List.findSome?_append, List.findSome?_singleton]
    rw [ih (h.apply hop), h.bound_apply hop, hlast, hroute, Option.or_assoc]

end Run

end Scopes

open Scopes in
/-- **Scopes are a lawful chained store.**  The scopes are linked: each stands alone or inside another.

* The walk outward from a scope goes on with that of the scope around it, and it ends in the root.
* A name that is the mark and something after it belongs to the root, without the mark; any other name
  belongs to the scope where it is used, and so does every name if there is no mark.
* An assignment changes the one binding that the name belongs to.  Afterwards the name has the new
  value, and so have the names that find the binding; no other name has another value than before.
* A new scope stands inside the one that it is put into, and it binds nothing.
* After any operations a name has the value that was assigned last, in the innermost scope on its walk
  that has one; what the scopes bound at first counts as assigned before. -/
theorem scopes_lawful_store {s : Scopes} (h : s.Linked) :
    (∀ d < s.size, s.rootOf d ∈ s.chain d ∧ s.chain (s.rootOf d) = [s.rootOf d] ∧
      (s.parent? d = none → s.chain d = [d]) ∧
      ∀ p, s.parent? d = some p → p < s.size ∧ s.chain d = d :: s.chain p) ∧
    (∀ c, (∀ mark bare, s.mark = some mark → bare ≠ "" →
        s.route c (mark ++ bare) = (s.rootOf c, bare)) ∧
      ∀ n, (∀ mark bare, s.mark = some mark → bare ≠ "" → n ≠ mark ++ bare) → s.route c n = (c, n)) ∧
    (∀ c < s.size, ∀ n v, Assigned s (s.assign c n v) c n v) ∧
    (∀ c n, (s.push c n).1 = s.size ∧ (s.push c n).2.parent? s.size = some c ∧
      (∀ i < s.size, (s.push c n).2.parent? i = s.parent? i) ∧
      ∀ i key, (s.push c n).2.bound i key = s.bound i key) ∧
    (∀ ops s', Run s ops s' → s'.Linked ∧ ∀ d m, s'.lookup d m =
      (s'.chain (s'.route d m).1).findSome? fun i =>
        (latest s' ops i (s'.route d m).2).or (s.bound i (s'.route d m).2)) := by
  refine ⟨fun d hd => ⟨?_, h.chain_rootOf d hd, fun hnone => ?_, fun p hp => ?_⟩,
    fun c => ⟨fun mark bare hmark hbare => route_marked hmark hbare c, fun n hn => route_unmarked hn c⟩,
    fun c hc n v => h.assigned hc n v,
    fun c n => ⟨rfl, ?_, fun i hi => ?_, bound_push s c n⟩,
    fun ops s' hrun => ⟨hrun.linked h, fun d m => ?_⟩⟩
  · exact List.getLast_mem _
  · rw [chain, List.head?_eq_none_iff.1 hnone]
  · rw [parent?_eq_tail] at hp
    rcases h d hd with halone | ⟨q, hq, hinside⟩
    · rw [halone] at hp
      cases hp
    · rw [hinside] at hp
      cases hp
      exact ⟨hq, hinside⟩
  · rw [parent?_eq_tail, chain_push, if_pos rfl]
    rfl
  · rw [parent?_eq_tail, chain_push, if_neg (Nat.ne_of_lt hi), parent?_eq_tail]
  · rw [lookup_eq_findSome]
    congr 1
    funext i
    exact hrun.bound_eq h i _

/-- A block assigns a whole number to a name, a truth value to the global name of the same key, and a
text to the global name that carries the mark twice.  The scope inside the block sees the number, and
all scopes see the global names by their marks. -/
theorem scopes_lawful_store_block :
    let ops : List Scopes.Operation := [.push 0 "block", .assign 1 "x" (.ofInt 1),
      .assign 1 "@x" (.boolean true), .push 1 "inner", .assign 2 "@@x" (.string "")]
    let s := Scopes.root (some "@") "root"
    let s' := ops.foldl Scopes.apply s
    let sees := fun d m => (s'.lookup d m).map Value.kind
    s.Linked ∧ Scopes.Run s ops s' ∧ sees 2 "x" = some .integer ∧ sees 2 "@x" = some .boolean ∧
      sees 0 "x" = some .boolean ∧ sees 1 "@@x" = some .string ∧ sees 1 "y" = none := by
  intro ops s s' sees
  have h : s.Linked := .root _ _
  have hrun : Scopes.Run s ops s' := .cons (by decide) <| .cons (by decide +kernel) <|
    .cons (by decide +kernel) <| .cons (by decide +kernel) <| .cons (by decide +kernel) .nil
  have hsees := fun d m =>
    congrArg (Option.map Value.kind) (((scopes_lawful_store h).2.2.2.2 ops s' hrun).2 d m)
  exact ⟨h, hrun, (hsees 2 "x").trans (by decide +kernel), (hsees 2 "@x").trans (by decide +kernel),
    (hsees 0 "x").trans (by decide +kernel), (hsees 1 "@@x").trans (by decide +kernel),
    (hsees 1 "y").trans (by decide +kernel)⟩

end LineScript
