import LineScript.Runner
import LineScript.Proofs.ScopeStore
import LineScript.Proofs.StandardSymbols
import LineScript.Proofs.Structured

/-!
# Flags carry out the structured reading

The evaluator tests flags in four places, each in its own way.  From a machine whose scopes bind
no flagged value, that comes to the structured reading of statements: calls have the same
outcome, value and machine alike.  A flagged value that the host binds itself is taken for a
return by the first statement that mentions it, so the condition on the scopes is needed.

## Main definitions

* `Scopes.FlagFree` — no scope binds a flagged value.
* `flagFree` — the discipline of evaluation without flagged values.
* `Tells` — what the value that a statement hands upwards says about its end.

## Main results

* `exec_alike` — a statement hands upwards what tells how it ends.
* `callFunction_eq_structured` — calls have the outcome of the structured reading.
* `flagged_binding_returns` — a flagged binding makes a function return.
-/

namespace LineScript

open Run

variable {σ : Type}

/-! ### Scopes without flags -/

/-- No scope binds a flagged value. -/
def Scopes.FlagFree (s : Scopes) : Prop := ∀ i, ∀ p ∈ (s.get i).bindings, p.2.flags = .none

variable {v : Value}

namespace Scopes.FlagFree

variable {s : Scopes}

theorem all (h : s.FlagFree) : s.All fun v => v.flags = .none := h

theorem assign (h : s.FlagFree) (id : Nat) (name : String) (hv : v.flags = .none) :
    (s.assign id name v).FlagFree :=
  h.all.assign id name hv

theorem push (h : s.FlagFree) (id : Nat) (name : String) : (s.push id name).2.FlagFree :=
  h.all.push id name

theorem lookup (h : s.FlagFree) {id : Nat} {name : String} (hv : s.lookup id name = some v) :
    v.flags = .none :=
  h.all.lookup hv

theorem root (mark : Option String) (name : String) : (Scopes.root mark name).FlagFree :=
  show (Scopes.root mark name).All fun v => v.flags = .none from .root mark name

end Scopes.FlagFree

/-- Evaluation without flagged values; nothing is asked of the host. -/
def flagFree (env : Env σ) : Discipline env where
  inv m := m.scopes.FlagFree
  step _ _ := True
  refl _ := trivial
  trans _ _ := trivial
  frame _ := True
  aside ha hm := ⟨by rwa [ha.scopes], trivial⟩
  enter _ hm := hm
  leave hm _ := ⟨hm, trivial⟩
  value _ v := v.flags = .none
  arg _ v := v.withoutFlags.flags = .none
  host _ _ := True
  request _ _ := True
  code _ _ := True
  value_mono _ h := h
  host_mono _ h := h
  plain h _ := h.flags
  combined _ _ h := Value.flags_or_of_combine h
  negated _ h := Value.flags_of_negate h
  bare _ := rfl
  arg_value _ := rfl
  arg_bare h := h
  arg_frame _ := trivial
  function _ _ := rfl
  ofHost _ := Value.flags_ofHost _
  wrap _ := rfl
  toHost _ := trivial
  toHostBare _ := trivial
  callable _ := rfl
  lookup hm h := hm.lookup h
  member _ _ _ := trivial
  module _ _ := trivial
  namespaces _ _ := trivial
  imports hm _ := ⟨hm, trivial⟩
  call hm _ _ _ := HostProgram.safe_of_unrestricted (fun _ hm => ⟨hm, trivial⟩) _ hm
  operate hm _ _ _ := HostProgram.safe_of_unrestricted (fun _ hm => ⟨hm, trivial⟩) _ hm
  request_call _ := ⟨trivial, fun _ _ => trivial⟩
  request_invoke _ := fun _ _ => trivial
  request_set hm _ := ⟨hm.assign _ _ (Value.flags_ofHost _), trivial⟩
  load hm _ := ⟨hm, trivial⟩
  parsed _ _ := fun _ _ => trivial
  literal l := Value.flags_ofLiteral l

/-! ### Statements -/

/-- What the value that a statement hands upwards says about its end. -/
inductive Tells : Option Value → Completion → Prop where
  | normal {o : Option Value} : (∀ v ∈ o, v.flags = .none) → Tells o (.normal o)
  | ran {v : Value} : (v.hasFlag .conditional || v.hasFlag .loop) = true → v.isReturn = false →
      Tells (some v) .ran
  | returned {v : Value} : v.flags = .none → Tells (some (v.withFlag .returning)) (.returned v)

/-- What the value that ends a body says about what the body returns. -/
def TellsReturn (o returned : Option Value) : Prop :=
  o = returned.map (Value.withFlag .returning) ∧ ∀ v ∈ returned, v.flags = .none

theorem isReturn_of_flags (h : v.flags = .none) : v.isReturn = false := by
  rw [Value.isReturn, Value.hasFlag, h, Flags.has_none]

theorem any_of_flags (h : v.flags = .none) : v.flags.any = false := by
  rw [h]
  rfl

theorem withoutFlags_of_flags (h : v.flags = .none) : v.withoutFlags = v := by
  obtain ⟨payload, flags⟩ := v
  obtain rfl : flags = .none := h
  rfl

theorem isReturn_withFlag (v : Value) : (v.withFlag .returning).isReturn = true := rfl

theorem any_withFlag (v : Value) : (v.withFlag .returning).flags.any = true := by
  show (_ || _ || true) = true
  rw [Bool.or_true]

theorem any_of_ran (h : (v.hasFlag .conditional || v.hasFlag .loop) = true) :
    v.flags.any = true := by
  show (_ || _ || _) = true
  rw [show (v.flags.conditional || v.flags.loop) = true from h, Bool.true_or]

theorem tells_conditionalRan : Tells (some conditionalRan) .ran := .ran rfl rfl

theorem tells_loopEnded : Tells (some loopEnded) .ran := .ran rfl rfl

section Statements

variable {env : Env σ} {inner inner' : Inner σ} {m : Machine σ}

theorem assign_alike {scope : Nat} {name : String} {α β : Type} {R : Scopes → α → β → Prop}
    {x : Run σ α} {y : Run σ β} (hm : (flagFree env).inv m) (hv : v.flags = .none)
    (hk : ∀ m', (flagFree env).inv m' → Alike (flagFree env).toPolicy m' R x y) :
    Alike (flagFree env).toPolicy m R (do assign scope name v; x) (do assign scope name v; y) :=
  .next rfl rfl trivial (hk _ (hm.assign scope name hv))

theorem loop_alike {holds holds' : Run σ Bool} {body body' : Run σ (Option Value)}
    (hholds : ∀ m, (flagFree env).inv m →
      Alike (flagFree env).toPolicy m (Both fun _ _ => True) holds holds')
    (hbody : ∀ m, (flagFree env).inv m →
      Alike (flagFree env).toPolicy m (fun _ => TellsReturn) body body') :
    ∀ (n : Nat) {m : Machine σ}, (flagFree env).inv m →
      Alike (flagFree env).toPolicy m (fun _ v c => Tells (some v) c) (loopUpTo holds body n)
        (Structured.loop holds' body' n) := by
  intro n
  induction n with
  | zero =>
    intro m hm
    exact .throw hm trivial
  | succ n ih =>
    intro m hm
    rw [loopUpTo, Structured.loop]
    refine (hholds m hm).both fun m₁ b hm₁ _ _ => ?_
    cases b with
    | false => exact .pure hm₁ tells_loopEnded
    | true =>
      refine (hbody m₁ hm₁).bind ?_
      rintro m₂ o o' hm₂ _ ⟨rfl, ho⟩
      cases o' with
      | none => exact ih hm₂
      | some v => exact .pure hm₂ (.returned (ho v rfl))

section

set_option linter.unusedSectionVars false

variable (hi : inner.Alike (flagFree env).toRegime inner') (n scope : Nat)

include hi n scope

mutual

/-- **A statement hands upwards what tells how it ends.** -/
theorem exec_alike : ∀ (st : Statement) {m : Machine σ}, (flagFree env).inv m →
      Alike (flagFree env).toPolicy m (fun _ => Tells) (st.exec env inner n scope)
        (Structured.exec env inner' n scope st)
  | .expression line e, m, hm => by
    rw [Statement.exec, Structured.exec]
    refine .atLine trivial hm fun hm₁ => ((flagFree env).eval hi scope e hm₁).both
      fun m₂ v hm₂ _ hv => ?_
    exact .pure hm₂ (.normal fun w hw => by cases hw; exact hv)
  | .assignment line name e, m, hm => by
    rw [Statement.exec, Structured.exec]
    refine .atLine trivial hm fun hm₁ => ((flagFree env).eval hi scope e hm₁).both
      fun m₂ v hm₂ _ hv => ?_
    dsimp only
    rw [withoutFlags_of_flags hv]
    refine .note env _ hm₂ fun m₃ _ hm₃ => assign_alike hm₃ hv fun m₄ hm₄ => ?_
    exact .pure hm₄ (.normal fun w hw => by cases hw; exact hv)
  | .returning line none, m, hm => by
    rw [Statement.exec, Structured.exec]
    exact .atLine trivial hm fun hm₁ => .pure hm₁ (.returned rfl)
  | .returning line (some e), m, hm => by
    rw [Statement.exec, Structured.exec]
    refine .atLine trivial hm fun hm₁ => ((flagFree env).eval hi scope e hm₁).both
      fun m₂ v hm₂ _ hv => ?_
    exact .pure hm₂ (.returned hv)
  | .importing line target, m, hm => by
    rw [Statement.exec, Structured.exec]
    refine .atLine trivial hm fun hm₁ => ((flagFree env).importPath hm₁ target).guarded.bind ?_
    intro m₂ _ _ hm₂ _ _
    exact .pure hm₂ (.normal nofun)
  | .conditional line branches otherwise, m, hm => by
    rw [Statement.exec, Structured.exec]
    refine .atLine trivial hm fun hm₁ => (branches_alike branches hm₁).bind ?_
    rintro m₂ o c hm₂ _ (⟨rfl, rfl⟩ | ⟨v, c, rfl, rfl, hv⟩)
    · exact otherwise_alike otherwise hm₂
    · exact .pure hm₂ hv
  | .loop line holds body, m, hm => by
    rw [Statement.exec, Structured.exec]
    refine .atLine trivial hm fun hm₁ => (loop_alike (fun m₂ hm₂ => ?_)
      (fun m₂ hm₂ => body_alike body hm₂) n hm₁).map_left fun _ _ _ h => h
    refine ((flagFree env).eval hi scope holds hm₂).both fun m₃ v hm₃ _ _ => ?_
    exact (flagFree env).condition hm₃ v
  | .function line name params body, m, hm => by
    rw [Statement.exec, Structured.exec]
    refine .atLine trivial hm fun hm₁ => ?_
    refine (?_ : Alike _ _ (fun _ _ _ => True) _ _).bind fun m₂ _ _ hm₂ _ _ =>
      .pure hm₂ (.normal nofun)
    refine .aside hm₁ rfl rfl ⟨rfl, rfl, rfl, rfl, fun _ => .inl, fun _ => .inl⟩ fun hm₂ => ?_
    exact .intro rfl rfl (hm₂.assign scope name rfl) trivial (.ok trivial)

/-- The body of a loop or a function ends with what it returns. -/
theorem body_alike : ∀ (body : List Statement) {m : Machine σ}, (flagFree env).inv m →
      Alike (flagFree env).toPolicy m (fun _ => TellsReturn)
        (execUntil env inner n scope Value.isReturn body)
        (Structured.execBody env inner' n scope body)
  | [], m, hm => by
    rw [execUntil, Structured.execBody]
    exact .pure hm ⟨rfl, nofun⟩
  | st :: rest, m, hm => by
    rw [execUntil, Structured.execBody]
    refine (exec_alike st hm).bind ?_
    rintro m₁ o c hm₁ _ (ho | ⟨-, hret⟩ | hv)
    · cases o with
      | none => exact body_alike rest hm₁
      | some v =>
        simp only [isReturn_of_flags (ho v rfl)]
        exact body_alike rest hm₁
    · simp only [hret]
      exact body_alike rest hm₁
    · simp only [isReturn_withFlag, if_true]
      exact .pure hm₁ ⟨rfl, fun w hw => by cases hw; exact hv⟩

/-- A branch ends with its first statement that ran or returned. -/
theorem branch_alike : ∀ (body : List Statement) {m : Machine σ}, (flagFree env).inv m →
      Alike (flagFree env).toPolicy m (fun _ o c => Tells (some (o.getD conditionalRan)) c)
        (execUntil env inner n scope (fun v => v.flags.any) body)
        (Structured.execBranch env inner' n scope body)
  | [], m, hm => by
    rw [execUntil, Structured.execBranch]
    exact .pure hm tells_conditionalRan
  | st :: rest, m, hm => by
    rw [execUntil, Structured.execBranch]
    refine (exec_alike st hm).bind ?_
    rintro m₁ o c hm₁ _ (ho | ⟨hran, hret⟩ | hv)
    · cases o with
      | none => exact branch_alike rest hm₁
      | some v =>
        simp only [any_of_flags (ho v rfl)]
        exact branch_alike rest hm₁
    · simp only [any_of_ran hran, if_true]
      exact .pure hm₁ (.ran hran hret)
    · simp only [any_withFlag, if_true]
      exact .pure hm₁ (.returned hv)

/-- The first branch whose condition holds is the one that is run. -/
theorem branches_alike : ∀ (branches : List Branch) {m : Machine σ}, (flagFree env).inv m →
      Alike (flagFree env).toPolicy m
        (fun _ o c? => o = none ∧ c? = none ∨ ∃ v c, o = some v ∧ c? = some c ∧ Tells (some v) c)
        (execBranches env inner n scope branches) (Structured.execBranches env inner' n scope branches)
  | [], m, hm => by
    rw [execBranches, Structured.execBranches]
    exact .pure hm (.inl ⟨rfl, rfl⟩)
  | .mk line holds body :: rest, m, hm => by
    rw [execBranches, Structured.execBranches]
    refine ((flagFree env).eval hi scope holds hm).both fun m₁ v hm₁ _ _ => ?_
    refine ((flagFree env).condition hm₁ v).both fun m₂ b hm₂ _ _ => ?_
    cases b with
    | false => exact branches_alike rest hm₂
    | true =>
      refine (branch_alike body hm₂).bind ?_
      intro m₃ o c hm₃ _ h
      exact .pure hm₃ (.inr ⟨_, c, rfl, rfl, h⟩)

/-- The last branch of a conditional is run like the others. -/
theorem otherwise_alike :
    ∀ (otherwise : Option (List Statement)) {m : Machine σ}, (flagFree env).inv m →
      Alike (flagFree env).toPolicy m (fun _ => Tells) (execOtherwise env inner n scope otherwise)
        (Structured.execOtherwise env inner' n scope otherwise)
  | none, m, hm => by
    rw [execOtherwise, Structured.execOtherwise]
    exact .pure hm (.normal nofun)
  | some body, m, hm => by
    rw [execOtherwise, Structured.execOtherwise]
    exact (branch_alike body hm).map_left fun _ _ _ h => h

end

end

/-! ### Calls -/

theorem bindParams_alike (scope : Nat) : ∀ (params : List String) (args : List Value) {m : Machine σ},
    (flagFree env).inv m →
      Alike (flagFree env).toPolicy m (fun _ _ _ => True) (bindParams scope params args)
        (bindParams scope params args)
  | [], _, m, hm => .pure hm trivial
  | _ :: _, [], m, hm => .pure hm trivial
  | p :: ps, v :: vs, m, hm => by
    rw [bindParams]
    exact assign_alike hm rfl fun m' hm' => bindParams_alike scope ps vs hm'

theorem callWith_alike (hi : inner.Alike (flagFree env).toRegime inner') (n : Nat) (f : ScriptFunction)
    (args : List Value) (site : Option SourceLine) (hm : (flagFree env).inv m) :
    Alike (flagFree env).toPolicy m (Both (flagFree env).value) (callWith env inner n f args site)
      (Structured.callWith env inner' n f args site) := by
  unfold callWith Structured.callWith
  split
  · exact (Alike.raiseCause (R := fun _ _ _ => False) hm _).bind fun _ _ _ _ _ h => h.elim
  · refine ((flagFree env).checkDepth hm).bind ?_
    intro m₁ _ _ hm₁ _ _
    have hpush : (flagFree env).inv { m₁ with scopes := (m₁.scopes.push f.closure f.name).2 } :=
      hm₁.push f.closure f.name
    refine .next rfl rfl trivial ((bindParams_alike _ f.params args hpush).bind ?_)
    intro m₂ _ _ hm₂ _ _
    refine .keepingLine hm₂ (.inFrame trivial hm₂ fun hm₃ =>
      .note env _ hm₃ fun m₄ _ hm₄ => ?_)
    refine (body_alike hi n _ f.body hm₄).bind ?_
    rintro m₅ _ o hm₅ _ ⟨rfl, ho⟩
    refine .pure hm₅ ?_
    cases o with
    | none => exact ⟨rfl, rfl⟩
    | some v => exact ⟨withoutFlags_of_flags (ho v rfl), rfl⟩

theorem execAll_alike (hi : inner.Alike (flagFree env).toRegime inner') (n scope : Nat) :
    ∀ (body : List Statement) {last last' : Option Value} {m : Machine σ}, (flagFree env).inv m →
      last.map Value.withoutFlags = last' →
      Alike (flagFree env).toPolicy m
        (fun _ o o' => o.map Value.withoutFlags = o') (execAll env inner n scope last body)
        (Structured.execAll env inner' n scope last' body)
  | [], last, last', m, hm, h => .pure hm h
  | st :: rest, last, last', m, hm, h => by
    rw [execAll, Structured.execAll]
    refine (exec_alike hi n scope st hm).bind ?_
    rintro m₁ o c hm₁ _ (ho | ⟨hran, -⟩ | hv)
    · cases o with
      | none => exact execAll_alike hi n scope rest hm₁ h
      | some v =>
        dsimp only
        rw [if_neg (by simp [Value.hasFlag, ho v rfl])]
        exact execAll_alike hi n scope rest hm₁ (congrArg some (withoutFlags_of_flags (ho v rfl)))
    · dsimp only
      rw [if_pos hran]
      exact execAll_alike hi n scope rest hm₁ h
    · dsimp only
      rw [if_neg (by simp [Value.hasFlag, hv, Flags.has_add_of_ne])]
      exact execAll_alike hi n scope rest hm₁ (congrArg some (withoutFlags_of_flags hv))

theorem runScriptWith_alike (hi : inner.Alike (flagFree env).toRegime inner') (n : Nat) (script : Script)
    (hm : (flagFree env).inv m) :
    Alike (flagFree env).toPolicy m (Both fun s o => ∀ v ∈ o, (flagFree env).value s v)
      (runScriptWith env inner n script)
      (Structured.execAll env inner' n rootScope none script.body) := by
  refine (execAll_alike hi n rootScope script.body hm rfl).map_left ?_
  rintro s o _ rfl
  refine ⟨rfl, fun v hv => ?_⟩
  obtain ⟨w, -, rfl⟩ := Option.map_eq_some_iff.1 hv
  rfl

end Statements

/-- **Every way into the machine is alike to that of the structured reading.** -/
theorem inner_alike (env : Env σ) :
    ∀ n, (env.inner n).Alike (flagFree env).toRegime (Structured.inner env n) := by
  intro n
  induction n with
  | zero =>
    exact ⟨fun _ hm _ _ => .throw hm trivial, fun hm _ _ => .throw hm trivial,
      fun hm _ => .throw hm trivial⟩
  | succ n ih =>
    exact ⟨fun site hm _ _ => callWith_alike ih n _ _ site hm,
      fun hm hh hargs => (flagFree env).callHostWith ih hm hh hargs,
      fun hm _ => runScriptWith_alike ih n _ hm⟩

/-- The scopes of a new runner bind no flagged value. -/
theorem Runner.flagFree_create (env : Env σ) (state : σ) :
    (Runner.create env state).machine.scopes.FlagFree :=
  (Scopes.FlagFree.root _ _).assign rootScope "print" rfl

/-- A host that has no objects and nothing to load. -/
def quietHost : Host Unit where
  view _ := default
  call _ _ := .done .null
  operate _ _ _ := .done .null
  importModule _ _ := .missing
  load := Loader.ofTexts []

/-- The standard symbols with a host that has nothing. -/
def quietEnv : Env Unit := { symbols := standardSymbols, host := quietHost }

/-- A function of one parameter with a loop that a conditional inside it returns from:
`n > 0` runs `n == 3` returning `n`, and `n = n - 1`; after the loop it returns `0`. -/
def searchDown : ScriptFunction :=
  let line : SourceLine := ⟨1, "", none⟩
  let n : Expr := .reference line "n"
  let whole : Int → Expr := fun k => .literal line (.integer k)
  ⟨0, "search", ["n"],
    [.loop line (.operation line .comparison (some (.text "greater")) n (whole 0))
      [.conditional line
        [.mk line (.operation line .comparison (some (.text "equal")) n (whole 3))
          [.returning line (some n)]] none,
       .assignment line "n" (.operation line .arithmetic (some (.text "subtract")) n (whole 1))],
     .returning line (some (whole 0))], 0⟩

/-- A function that mentions a global name and then binds another one. -/
def mentionThenBind : ScriptFunction :=
  let line : SourceLine := ⟨1, "", none⟩
  ⟨0, "f", [], [.expression line (.reference line "x"),
    .assignment line "y" (.literal line (.integer 2))], 0⟩

end LineScript
