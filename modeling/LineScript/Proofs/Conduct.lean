import LineScript.Proofs.Discipline

/-!
# Conduct of statements and calls

A conduct is a discipline that says more: in which scopes statements may be run, and how the
statements run in a scope may change the machine.  A call runs its body in a scope of its own;
what the body does there, seen from outside, is a step of the discipline.  Under a conduct every
way into the machine keeps to the discipline, for any number of steps.

## Main definitions

* `Conduct` — a discipline with what statements and calls may do.
* `Conduct.policyAt` — the policy of the statements run in a scope.

## Main results

* `Conduct.exec` — a good statement keeps to the policy of its scope.
* `Conduct.callWith` — a call keeps to the discipline.
* `Conduct.inner_alike` — so does every way into the machine.
-/

namespace LineScript

open Run

variable {σ : Type}

/-- A discipline with what statements and calls may do. -/
structure Conduct (env : Env σ) extends Discipline env where
  /-- The scopes that statements may be run in. -/
  scope : Scopes → Nat → Prop
  /-- The scopes that calls have for their own. -/
  own : Scopes → Nat → Prop
  /-- How statements that are run in a scope may change the machine. -/
  within : Nat → Machine σ → Machine σ → Prop
  step_within : ∀ {c} {m m' : Machine σ}, step m m' → within c m m'
  within_trans : ∀ {c} {m₁ m₂ m₃ : Machine σ}, within c m₁ m₂ → within c m₂ m₃ → within c m₁ m₃
  within_leave : ∀ {c} {m m' : Machine σ} {frame}, inv m' → within c (m.enter frame) m' →
    inv m'.leave ∧ within c m m'.leave
  within_root : ∀ {m m' : Machine σ}, inv m → inv m' → within rootScope m m' → step m m'
  value_within : ∀ {c} {m m' : Machine σ} {v}, within c m m' → value m.scopes v → value m'.scopes v
  scope_within : ∀ {c d} {m m' : Machine σ}, within c m m' → scope m.scopes d → scope m'.scopes d
  own_scope : ∀ {s c}, own s c → scope s c
  own_within : ∀ {c d} {m m' : Machine σ}, within c m m' → own m.scopes d → own m'.scopes d
  scope_root : ∀ {m : Machine σ}, inv m → scope m.scopes rootScope
  flagged : ∀ {s v} (flag), value s v → value s (v.withFlag flag)
  code_loop : ∀ {c line holds body}, code c (.loop line holds body) → ∀ st ∈ body, code c st
  code_branch : ∀ {c line branches otherwise}, code c (.conditional line branches otherwise) →
    ∀ l holds body, .mk l holds body ∈ branches → ∀ st ∈ body, code c st
  code_otherwise : ∀ {c line branches body}, code c (.conditional line branches (some body)) →
    ∀ st ∈ body, code c st
  assign : ∀ {c} {m : Machine σ} {line name e v}, inv m → scope m.scopes c →
    code c (.assignment line name e) → value m.scopes v →
      inv { m with scopes := m.scopes.assign c name v } ∧
        within c m { m with scopes := m.scopes.assign c name v }
  define : ∀ {c} {m : Machine σ} {line name params body} (id bare), inv m → scope m.scopes c →
    code c (.function line name params body) →
      let f : ScriptFunction := ⟨id, bare, params, body, c⟩
      inv { m with scopes := m.scopes.assign c name (.function f) } ∧
        within c m { m with scopes := m.scopes.assign c name (.function f) }
  push : ∀ {m : Machine σ} {f}, inv m → value m.scopes (.function f) →
    let m₁ := { m with scopes := (m.scopes.push f.closure f.name).2 }
    inv m₁ ∧ own m₁.scopes (m.scopes.push f.closure f.name).1 ∧
      (∀ v, value m.scopes v → value m₁.scopes v) ∧
      (∀ st ∈ f.body, code (m.scopes.push f.closure f.name).1 st) ∧
      ∀ m₂, inv m₂ → within (m.scopes.push f.closure f.name).1 m₁ m₂ → step m m₂
  param : ∀ {c} {m : Machine σ} {f p v}, inv m → own m.scopes c → value m.scopes (.function f) →
    p ∈ f.params → value m.scopes v →
      inv { m with scopes := m.scopes.assign c p v } ∧
        within c m { m with scopes := m.scopes.assign c p v }

namespace Conduct

variable {env : Env σ} (D : Conduct env) {inner inner' : Inner σ} {m : Machine σ} {c : Nat}

/-- The policy of the statements that are run in a scope. -/
def policyAt (c : Nat) : Policy σ where
  inv := D.inv
  step := D.within c
  refl m := D.step_within (D.refl m)
  trans := D.within_trans
  frame := D.frame
  line := D.line
  fails := D.fails
  aside ha hm := ⟨(D.aside ha hm).1, D.step_within (D.aside ha hm).2⟩
  enter := D.enter
  leave := D.within_leave
  under := D.under
  cause := D.cause
  fault := D.fault
  stamp := D.stamp
  quits := D.quits

variable {D} in
/-- What keeps to the discipline keeps to the policy of any scope. -/
theorem alikeAt {α β : Type} {R : Scopes → α → β → Prop} {x : Run σ α} {y : Run σ β}
    (h : Alike D.toPolicy m R x y) : Alike (D.policyAt c) m R x y :=
  h.widen (fun _ hm => hm) (fun _ _ hstep => D.step_within hstep) fun _ _ _ _ _ hR => hR

/-- The values that statements give. -/
def outcomes (s : Scopes) (o : Option Value) : Prop := ∀ v ∈ o, D.value s v

variable {s : Scopes} {f : ScriptFunction}

variable {D} in
theorem outcomes_some {v : Value} (hv : D.value s v) : D.outcomes s (some v) :=
  fun w hw => by cases hw; exact hv

theorem outcomes_none : D.outcomes s none := nofun

theorem value_conditionalRan : D.value s conditionalRan :=
  D.flagged _ (D.value_boolean true)

theorem value_loopEnded : D.value s loopEnded :=
  D.flagged _ (D.value_boolean true)

variable {D} in
theorem outcomes_getD {o : Option Value} (ho : D.outcomes s o) :
    D.outcomes s (some (o.getD conditionalRan)) := by
  cases o with
  | none => exact outcomes_some D.value_conditionalRan
  | some v => exact ho

/-! ### Statements -/

theorem loopUpTo {holds holds' : Run σ Bool} {body body' : Run σ (Option Value)}
    (hholds : ∀ m, D.inv m → D.scope m.scopes c →
      Alike (D.policyAt c) m (Both fun _ _ => True) holds holds')
    (hbody : ∀ m, D.inv m → D.scope m.scopes c →
      Alike (D.policyAt c) m (Both D.outcomes) body body') :
    ∀ (n : Nat) {m : Machine σ}, D.inv m → D.scope m.scopes c →
      Alike (D.policyAt c) m (Both D.value) (loopUpTo holds body n)
        (LineScript.loopUpTo holds' body' n) := by
  intro n
  induction n with
  | zero =>
    intro m hm _
    exact Alike.throw (P := D.policyAt c) hm trivial
  | succ n ih =>
    intro m hm hc
    rw [LineScript.loopUpTo, LineScript.loopUpTo]
    refine (hholds m hm hc).both fun m₁ b hm₁ hstep₁ _ => ?_
    have hc₁ := D.scope_within hstep₁ hc
    cases b with
    | false => exact .pure hm₁ ⟨rfl, D.value_loopEnded⟩
    | true =>
      refine (hbody m₁ hm₁ hc₁).both fun m₂ o hm₂ hstep₂ ho => ?_
      cases o with
      | none => exact ih hm₂ (D.scope_within hstep₂ hc₁)
      | some v => exact .pure hm₂ ⟨rfl, ho v rfl⟩

variable {D} in
theorem holds (hi : inner.Alike D.toRegime inner') (e : Expr) (hm : D.inv m) :
    Alike D.toPolicy m (Both fun _ _ => True) (do condition env (← e.eval env inner c))
      (do condition env (← e.eval env inner' c)) := by
  refine (D.eval hi c e hm).both fun m₁ v hm₁ _ _ => ?_
  exact D.condition hm₁ v

section

set_option linter.unusedSectionVars false

variable (hi : inner.Alike D.toRegime inner') (n : Nat)

include hi n

mutual

/-- **A good statement keeps to the policy of its scope.** -/
theorem exec : ∀ (st : Statement) {m : Machine σ},
    D.inv m → D.scope m.scopes c → D.code c st →
      Alike (D.policyAt c) m (Both D.outcomes) (st.exec env inner n c) (st.exec env inner' n c)
  | .expression line e, m, hm, _, _ => by
    rw [Statement.exec, Statement.exec]
    refine .atLine (D.anyLine line) hm fun hm₁ => (alikeAt (D.eval hi c e hm₁)).both
      fun m₂ v hm₂ _ hv => ?_
    exact .pure hm₂ ⟨rfl, outcomes_some hv⟩
  | .assignment line name e, m, hm, hc, hcode => by
    rw [Statement.exec, Statement.exec]
    refine .atLine (D.anyLine line) hm fun hm₁ => (alikeAt (D.eval hi c e hm₁)).both
      fun m₂ v hm₂ hstep hv => ?_
    refine .note env _ hm₂ fun m₃ ha hm₃ => ?_
    have hc₃ : D.scope m₃.scopes c := by
      rw [ha.scopes]
      exact D.scope_within hstep hc
    have hv₃ : D.value m₃.scopes v.withoutFlags := by
      rw [ha.scopes]
      exact D.bare hv
    obtain ⟨hm₄, hstep₄⟩ := D.assign hm₃ hc₃ hcode hv₃
    exact .next rfl rfl hstep₄ (.pure hm₄ ⟨rfl, outcomes_some (D.value_within hstep₄ hv₃)⟩)
  | .returning line none, m, hm, _, _ => by
    rw [Statement.exec, Statement.exec]
    exact .atLine (D.anyLine line) hm fun hm₁ =>
      .pure hm₁ ⟨rfl, outcomes_some (D.flagged _ D.value_null)⟩
  | .returning line (some e), m, hm, _, _ => by
    rw [Statement.exec, Statement.exec]
    refine .atLine (D.anyLine line) hm fun hm₁ => (alikeAt (D.eval hi c e hm₁)).both
      fun m₂ v hm₂ _ hv => ?_
    exact .pure hm₂ ⟨rfl, outcomes_some (D.flagged _ hv)⟩
  | .importing line target, m, hm, _, _ => by
    rw [Statement.exec, Statement.exec]
    refine .atLine (D.anyLine line) hm fun hm₁ => (alikeAt (D.importPath hm₁ target)).guarded.bind ?_
    intro m₂ _ _ hm₂ _ _
    exact .pure hm₂ ⟨rfl, D.outcomes_none⟩
  | .conditional line branches otherwise, m, hm, hc, hcode => by
    rw [Statement.exec, Statement.exec]
    refine .atLine (D.anyLine line) hm fun hm₁ => (execBranches branches hm₁ hc (D.code_branch hcode)).both
      fun m₂ o hm₂ hstep ho => ?_
    cases o with
    | some v => exact .pure hm₂ ⟨rfl, ho⟩
    | none =>
      refine execOtherwise otherwise hm₂ (D.scope_within hstep hc) ?_
      rintro body rfl
      exact D.code_otherwise hcode
  | .loop line holds body, m, hm, hc, hcode => by
    rw [Statement.exec, Statement.exec]
    refine .atLine (D.anyLine line) hm fun hm₁ => (D.loopUpTo (fun m₂ hm₂ _ => alikeAt (Conduct.holds hi holds hm₂))
      (fun m₂ hm₂ hc₂ => execUntil _ body hm₂ hc₂ (D.code_loop hcode)) n hm₁ hc).both
        fun m₂ v hm₂ _ hv => ?_
    exact .pure hm₂ ⟨rfl, outcomes_some hv⟩
  | .function line name params body, m, hm, hc, hcode => by
    rw [Statement.exec, Statement.exec]
    refine .atLine (D.anyLine line) hm fun hm₁ => ?_
    refine (?_ : Alike _ _ (fun _ _ _ => True) _ _).bind fun m₂ _ _ hm₂ _ _ =>
      .pure hm₂ ⟨rfl, D.outcomes_none⟩
    refine .aside hm₁ rfl rfl ⟨rfl, rfl, rfl, rfl, fun _ => .inl, fun _ => .inl⟩ fun hm₂ => ?_
    obtain ⟨hm₃, hstep₃⟩ := D.define _ _ hm₂ hc hcode
    exact .intro rfl rfl hm₃ hstep₃ (.ok trivial)

/-- Good statements one after the other keep to the policy of their scope. -/
theorem execUntil (ends : Value → Bool) :
    ∀ (body : List Statement) {m : Machine σ}, D.inv m → D.scope m.scopes c →
      (∀ st ∈ body, D.code c st) →
        Alike (D.policyAt c) m (Both D.outcomes) (execUntil env inner n c ends body)
          (LineScript.execUntil env inner' n c ends body)
  | [], m, hm, _, _ => by
    rw [LineScript.execUntil, LineScript.execUntil]
    exact .pure hm ⟨rfl, D.outcomes_none⟩
  | st :: rest, m, hm, hc, hcode => by
    rw [LineScript.execUntil, LineScript.execUntil]
    refine (exec st hm hc (hcode st List.mem_cons_self)).both fun m₁ o hm₁ hstep ho => ?_
    have hrest := execUntil ends rest hm₁ (D.scope_within hstep hc)
      fun st' h => hcode st' (List.mem_cons_of_mem st h)
    cases o with
    | none => exact hrest
    | some v =>
      dsimp only
      split
      · exact .pure hm₁ ⟨rfl, ho⟩
      · exact hrest

/-- The branches of a conditional keep to the policy of their scope. -/
theorem execBranches : ∀ (branches : List Branch) {m : Machine σ}, D.inv m → D.scope m.scopes c →
      (∀ l holds body, .mk l holds body ∈ branches → ∀ st ∈ body, D.code c st) →
        Alike (D.policyAt c) m (Both D.outcomes) (execBranches env inner n c branches)
          (LineScript.execBranches env inner' n c branches)
  | [], m, hm, _, _ => by
    rw [LineScript.execBranches, LineScript.execBranches]
    exact .pure hm ⟨rfl, D.outcomes_none⟩
  | .mk line holds body :: rest, m, hm, hc, hcode => by
    rw [LineScript.execBranches, LineScript.execBranches]
    refine (alikeAt (D.eval hi c holds hm)).both fun m₁ v hm₁ hstep₁ _ => ?_
    refine (alikeAt (D.condition hm₁ v)).both fun m₂ b hm₂ hstep₂ _ => ?_
    have hc₂ := D.scope_within hstep₂ (D.scope_within hstep₁ hc)
    cases b with
    | false =>
      exact execBranches rest hm₂ hc₂ fun l h b hb => hcode l h b (List.mem_cons_of_mem _ hb)
    | true =>
      refine (execUntil _ body hm₂ hc₂ (hcode line holds body List.mem_cons_self)).both
        fun m₃ o hm₃ _ ho => ?_
      exact .pure hm₃ ⟨rfl, outcomes_getD ho⟩

/-- The last branch of a conditional keeps to the policy of its scope. -/
theorem execOtherwise :
    ∀ (otherwise : Option (List Statement)) {m : Machine σ}, D.inv m → D.scope m.scopes c →
      (∀ body, otherwise = some body → ∀ st ∈ body, D.code c st) →
        Alike (D.policyAt c) m (Both D.outcomes) (execOtherwise env inner n c otherwise)
          (LineScript.execOtherwise env inner' n c otherwise)
  | none, m, hm, _, _ => by
    rw [LineScript.execOtherwise, LineScript.execOtherwise]
    exact .pure hm ⟨rfl, D.outcomes_none⟩
  | some body, m, hm, hc, hcode => by
    rw [LineScript.execOtherwise, LineScript.execOtherwise]
    refine (execUntil _ body hm hc (hcode body rfl)).both fun m₁ o hm₁ _ ho => ?_
    exact .pure hm₁ ⟨rfl, outcomes_getD ho⟩

end

theorem execAll :
    ∀ (body : List Statement) {last : Option Value} {m : Machine σ}, D.inv m → D.scope m.scopes c →
      (∀ st ∈ body, D.code c st) → D.outcomes m.scopes last →
        Alike (D.policyAt c) m (Both D.outcomes) (execAll env inner n c last body)
          (LineScript.execAll env inner' n c last body)
  | [], _, m, hm, _, _, hlast => .pure hm ⟨rfl, hlast⟩
  | st :: rest, last, m, hm, hc, hcode, hlast => by
    rw [LineScript.execAll, LineScript.execAll]
    refine (D.exec hi n st hm hc (hcode st List.mem_cons_self)).both fun m₁ o hm₁ hstep ho => ?_
    have hc₁ : D.scope m₁.scopes c := D.scope_within hstep hc
    have hcode₁ : ∀ st' ∈ rest, D.code c st' := fun st' h => hcode st' (List.mem_cons_of_mem st h)
    have hlast₁ : D.outcomes m₁.scopes last := fun v hv => D.value_within hstep (hlast v hv)
    cases o with
    | none => exact execAll rest hm₁ hc₁ hcode₁ hlast₁
    | some v =>
      refine execAll rest hm₁ hc₁ hcode₁ ?_
      split
      · exact hlast₁
      · exact ho

/-- A block is a run of its statements, up to one that returns. -/
theorem execBlock :
    ∀ (body : List Statement) {last : Option Value} {m : Machine σ}, D.inv m → D.scope m.scopes c →
      (∀ st ∈ body, D.code c st) → D.outcomes m.scopes last →
        Alike (D.policyAt c) m (Both D.outcomes) (execBlock env inner n c last body)
          (LineScript.execBlock env inner' n c last body)
  | [], _, m, hm, _, _, hlast => .pure hm ⟨rfl, hlast⟩
  | st :: rest, last, m, hm, hc, hcode, hlast => by
    rw [LineScript.execBlock, LineScript.execBlock]
    refine (D.exec hi n st hm hc (hcode st List.mem_cons_self)).both fun m₁ o hm₁ hstep ho => ?_
    have hrest : ∀ {last}, D.outcomes m₁.scopes last → Alike (D.policyAt c) m₁ (Both D.outcomes)
        (LineScript.execBlock env inner n c last rest)
        (LineScript.execBlock env inner' n c last rest) :=
      execBlock rest hm₁ (D.scope_within hstep hc)
        fun st' h => hcode st' (List.mem_cons_of_mem st h)
    cases o with
    | none => exact hrest D.outcomes_none
    | some v =>
      dsimp only
      split
      · exact .pure hm₁ ⟨rfl, ho⟩
      · exact hrest ho

end

/-! ### Calls -/

theorem bindParams : ∀ (params : List String) (args : List Value) {m : Machine σ},
    D.inv m → D.own m.scopes c → D.value m.scopes (.function f) → (∀ p ∈ params, p ∈ f.params) →
      (∀ v ∈ args, D.value m.scopes (Value.withoutFlags v)) →
        Alike (D.policyAt c) m (fun _ _ _ => True) (bindParams c params args)
          (LineScript.bindParams c params args)
  | [], _, m, hm, _, _, _, _ => .pure hm trivial
  | _ :: _, [], m, hm, _, _, _, _ => .pure hm trivial
  | p :: ps, v :: vs, m, hm, hc, hf, hps, hvs => by
    rw [LineScript.bindParams]
    obtain ⟨hm₁, hstep⟩ := D.param hm hc hf (hps p List.mem_cons_self) (hvs v List.mem_cons_self)
    exact .next rfl rfl hstep (bindParams ps vs hm₁ (D.own_within hstep hc) (D.value_within hstep hf)
      (fun q hq => hps q (List.mem_cons_of_mem p hq))
      fun w hw => D.value_within hstep (hvs w (List.mem_cons_of_mem v hw)))

/-- What is done in a new scope of its own is a step, seen from outside. -/
theorem inScope {α β : Type} {R : Scopes → α → β → Prop} {x : Nat → Run σ α} {y : Nat → Run σ β}
    (hm : D.inv m) (hf : D.value m.scopes (.function f))
    (h : ∀ c m₁, D.inv m₁ → D.own m₁.scopes c → (∀ v, D.value m.scopes v → D.value m₁.scopes v) →
      (∀ st ∈ f.body, D.code c st) → Alike (D.policyAt c) m₁ R (x c) (y c)) :
    Alike D.toPolicy m R (do x (← pushScope f.closure f.name))
      (do y (← pushScope f.closure f.name)) := by
  obtain ⟨hm₁, hc, hvalues, hcode, hleave⟩ := D.push hm hf
  cases h _ _ hm₁ hc hvalues hcode with
  | intro hx hy hinv hstep hends =>
    exact .intro ((outcome_bind_of_ok _ rfl).trans hx) ((outcome_bind_of_ok _ rfl).trans hy) hinv
      (hleave _ hinv hstep) hends
  | quit hy hgiven => exact .quit ((outcome_bind_of_ok _ rfl).trans hy) hgiven

/-- **A call keeps to the discipline**, whatever its body does in its own scope. -/
theorem callWith (hi : inner.Alike D.toRegime inner') (n : Nat) {args : List Value}
    (site : Option SourceLine) (hm : D.inv m) (hf : D.value m.scopes (.function f))
    (hargs : ∀ v ∈ args, D.arg m.scopes v) :
    Alike D.toPolicy m (Both D.value) (callWith env inner n f args site)
      (LineScript.callWith env inner' n f args site) := by
  unfold LineScript.callWith
  split
  · exact (Alike.raiseCause (R := fun _ _ _ => False) hm _).bind fun _ _ _ _ _ h => h.elim
  · refine (D.checkDepth hm).bind ?_
    intro m₁ _ _ hm₁ hstep₁ _
    refine D.inScope hm₁ (D.value_mono hstep₁ hf) fun c m₂ hm₂ hc₂ hvalues hcode => ?_
    have hf₂ : D.value m₂.scopes (.function f) := hvalues _ (D.value_mono hstep₁ hf)
    refine (D.bindParams f.params args hm₂ hc₂ hf₂ (fun _ hp => hp) fun v hv =>
      hvalues _ (D.value_mono hstep₁ (D.arg_bare (hargs v hv)))).bind ?_
    intro m₃ _ _ hm₃ hstep₃ _
    refine .keepingLine hm₃ (.inFrame (D.arg_frame hargs) hm₃ fun hm₄ =>
      .note env _ hm₄ fun m₅ ha hm₅ => ?_)
    have hc₃ : D.scope m₃.scopes c := D.own_scope (D.own_within hstep₃ hc₂)
    have hc₅ : D.scope m₅.scopes c := by
      rw [ha.scopes]
      exact hc₃
    refine (D.execUntil hi n _ f.body hm₅ hc₅ hcode).both fun m₆ o hm₆ _ ho => ?_
    refine .pure hm₆ ⟨rfl, ?_⟩
    cases o with
    | none => exact D.value_null
    | some v => exact D.bare (ho v rfl)

theorem runScriptWith (hi : inner.Alike D.toRegime inner') (n : Nat) {script : Script}
    (hm : D.inv m) (hcode : ∀ st ∈ script.body, D.code rootScope st) :
    Alike D.toPolicy m (Both D.outcomes) (runScriptWith env inner n script)
      (LineScript.runScriptWith env inner' n script) := by
  have hrun : Alike (D.policyAt rootScope) m (Both D.outcomes)
      (LineScript.runScriptWith env inner n script) (LineScript.runScriptWith env inner' n script) := by
    refine (D.execAll hi n script.body hm (D.scope_root hm) hcode D.outcomes_none).both
      fun m₁ o hm₁ _ ho => ?_
    refine .pure hm₁ ⟨rfl, fun v hv => ?_⟩
    obtain ⟨w, hw, rfl⟩ := Option.map_eq_some_iff.1 hv
    exact D.bare (ho w hw)
  exact hrun.widen (fun _ h => h) (fun m' hm' h => D.within_root hm hm' h) fun _ _ _ _ _ h => h

/-- **Every way into the machine keeps to the discipline**, for any number of steps. -/
theorem inner_alike (n : Nat) : (env.inner n).Alike D.toRegime (env.inner n) := by
  induction n with
  | zero =>
    exact ⟨fun _ hm _ _ => .throw hm trivial, fun hm _ _ => .throw hm trivial,
      fun hm _ => .throw hm trivial⟩
  | succ n ih =>
    exact ⟨fun site hm hf hargs => D.callWith ih n site hm hf hargs,
      fun hm hh hargs => D.callHostWith ih hm hh hargs, fun hm hcode => D.runScriptWith ih n hm hcode⟩

end Conduct

end LineScript
