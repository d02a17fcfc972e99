import LineScript.Proofs.Located
import LineScript.Proofs.NodeLines
import LineScript.Proofs.Provenance

/-!
# Errors carry the line of their node

One line is under way while a script runs, and errors are given it lazily, while they leave one
node after the other.  From a machine whose functions come from texts, and with a host that starts
no text of its own, that comes to every node giving its own line to the errors that are raised in
it: the nodes of an expression stand on one line, calls put the line back that was under way
before, and whatever leaves a statement has its line already.

## Main results

* `atNode_eq`, `onward_eq` — a line under way, and the line of a node.
* `eval_located`, `exec_located` — expressions and statements run as if every node answered for its
  own errors.
* `inner_located` — so do calls, calls of the host and whole scripts.
* `errors_carry_lines` — **an error that leaves a script carries the line of its node**, which is a
  physical line of the text that the node was read from.
-/

namespace LineScript

open Run

variable {σ α β : Type}

/-! ### Lines under way and lines of nodes -/

section Lines

variable {line : SourceLine} {x : Run σ α}

/-- A run that stays on its line gives the errors in it that line. -/
theorem atNode_eq (hx : StaysAt (some line) (atLine line x)) :
    Located.atNode line x = atLine line x := by
  refine Run.ext fun m => ?_
  rcases h : outcome x { m with line := some line } with ⟨r, m'⟩
  have hline : m'.line = some line := by
    have hstays := hx { m with line := some line } rfl
    rwa [outcome_atLine (m := { m with line := some line }) h] at hstays
  rw [Located.outcome_atNode h, outcome_atLine h, hline]

/-- Where the errors have lines, it is of no account which line is under way. -/
theorem onward_eq (hx : Settled (Located.onward line x)) :
    Located.onward line x = atLine line x := by
  refine Run.ext fun m => ?_
  rcases h : outcome x { m with line := some line } with ⟨r, m'⟩
  have honward : outcome (Located.onward line x) m = (r, m') := (outcome_bind_of_ok _ rfl).trans h
  rw [honward, outcome_atLine h]
  rcases r with (⟨id, e | f⟩ | _) | a
  · obtain ⟨k, hk⟩ := Option.ne_none_iff_exists'.1 (hx _ _ _ _ honward)
    rw [stamped, Failure.stamp, ScriptError.stamp_of_line hk]
  · rfl
  · rfl
  · rfl

end Lines

variable {env : Env σ} {inner : Inner σ}

/-- The nodes of a statement that was read stand on physical lines of the texts it was read from. -/
theorem IsRead.nodesOn {st : Statement} (h : IsRead env st) :
    ∃ base origin source t loads d out t',
      Spliced env.symbols env.host.load (.outermost base origin)
        (statementsOf env.symbols origin source) t loads d out t' ∧
      st.NodesOn fun l => l.IsLineOfAny origin source loads := by
  obtain ⟨base, origin, source, t, script, t', hparse, hst⟩ := h
  obtain ⟨loads, d, out, hspliced, hnodes⟩ := parse_nodesOn hparse
  exact ⟨base, origin, source.toList, t, loads, d, out, t', hspliced, hnodes st hst⟩

/-- Each expression of a statement that was read stands on one line. -/
theorem IsRead.onLine {st : Statement} (h : IsRead env st) {e : Expr} (he : e ∈ st.exprs) :
    ∃ l, e.OnLine l := by
  obtain ⟨_, _, _, _, _, _, _, _, -, hnodes⟩ := h.nodesOn
  obtain ⟨l, -, honline⟩ := hnodes.expr e he
  exact ⟨l, honline⟩

/-- A statement that runs onward from its line runs on it. -/
theorem exec_eq_of_onward {n c : Nat} {st : Statement} {line : SourceLine} {x : Run σ (Option Value)}
    (h : Located.exec env inner n c st = Located.onward line x) :
    Located.exec env inner n c st = atLine line x := by
  have hsettled : Settled (Located.exec env inner n c st) := Located.exec_settled st
  rw [h] at hsettled ⊢
  exact onward_eq hsettled

/-! ### Expressions -/

section

set_option linter.unusedSectionVars false

variable (hquiet : env.host.Quiet) (hk : inner.KeepsLine)

include hquiet hk

mutual

/-- **The nodes of an expression answer for the errors that are raised in them.** -/
theorem eval_located (scope : Nat) : ∀ {l : SourceLine} {e : Expr}, e.OnLine l →
    Located.eval env inner scope e = e.eval env inner scope
  | _, .literal _ _, honline | _, .reference _ _, honline => by
    have hstays := hk.eval hquiet scope honline
    obtain rfl := honline
    rw [Expr.eval] at hstays ⊢
    rw [Located.eval, atNode_eq hstays]
  | _, .operation _ family _ _ _, honline => by
    have hstays := hk.eval hquiet scope honline
    obtain ⟨rfl, hleft, hright⟩ := honline
    cases family
    all_goals
      rw [Expr.eval] at hstays ⊢
      rw [Located.eval, eval_located scope hleft, eval_located scope hright, atNode_eq hstays]
  | _, .negation _ _, honline => by
    have hstays := hk.eval hquiet scope honline
    obtain ⟨rfl, hoperand⟩ := honline
    rw [Expr.eval] at hstays ⊢
    rw [Located.eval, eval_located scope hoperand, atNode_eq hstays]
  | _, .call _ _ _, honline => by
    have hstays := hk.eval hquiet scope honline
    obtain ⟨rfl, hargs⟩ := honline
    rw [Expr.eval] at hstays ⊢
    rw [Located.eval, evalAll_located scope hargs, atNode_eq hstays]

/-- So do the nodes of arguments. -/
theorem evalAll_located (scope : Nat) : ∀ {l : SourceLine} {es : List Expr}, AllOnLine l es →
    Located.evalAll env inner scope es = evalAll env inner scope es
  | _, [], _ => by rw [evalAll, Located.evalAll]
  | _, _ :: _, honline => by
    rw [evalAll, Located.evalAll, eval_located scope honline.1, evalAll_located scope honline.2]

end

/-! ### Statements -/

variable (n c : Nat)

include n c

mutual

/-- **A statement runs as if every node in it answered for its own errors.** -/
theorem exec_located : ∀ {st : Statement}, IsRead env st →
    Located.exec env inner n c st = st.exec env inner n c
  | .expression _ _, hst | .assignment _ _ _, hst => by
    obtain ⟨l, honline⟩ := hst.onLine List.mem_cons_self
    rw [Statement.exec, ← eval_located hquiet hk c honline]
    exact exec_eq_of_onward (by rw [Located.exec])
  | .returning _ none, _ | .function _ _ _ _, _ => by
    rw [Statement.exec]
    exact exec_eq_of_onward (by rw [Located.exec])
  | .returning _ (some _), hst => by
    obtain ⟨l, honline⟩ := hst.onLine (Option.mem_toList.2 rfl)
    rw [Statement.exec, ← eval_located hquiet hk c honline]
    exact exec_eq_of_onward (by rw [Located.exec])
  | .importing _ target, _ => by
    rw [Statement.exec, Located.exec]
    exact atNode_eq (.atLine ((importPath_staysAt target).guarded.bind fun _ => .pure _))
  | .conditional _ branches otherwise, hst => by
    have hconditions : ∀ b ∈ branches, ∃ l, b.condition.OnLine l :=
      fun b hb => hst.onLine (List.mem_map.2 ⟨b, hb, rfl⟩)
    have hlast : ∀ body, otherwise = some body → ∀ st ∈ body, IsRead env st := by
      rintro body rfl
      exact hst.otherwise
    rw [Statement.exec, ← execBranches_located hconditions hst.branchBodies,
      ← execOtherwise_located hlast]
    exact exec_eq_of_onward (by rewrite [Located.exec]; rfl)
  | .loop _ _ _, hst => by
    obtain ⟨l, honline⟩ := hst.onLine List.mem_cons_self
    rw [Statement.exec, ← eval_located hquiet hk c honline, ← execUntil_located _ hst.loop]
    exact exec_eq_of_onward (by rw [Located.exec])

theorem execUntil_located (ends : Value → Bool) : ∀ {body : List Statement},
    (∀ st ∈ body, IsRead env st) →
      Located.execUntil env inner n c ends body = execUntil env inner n c ends body
  | [], _ => by rw [execUntil, Located.execUntil]
  | _ :: _, hbody => by
    obtain ⟨hst, hrest⟩ := List.forall_mem_cons.1 hbody
    rewrite [execUntil, Located.execUntil, exec_located hst, execUntil_located ends hrest]
    rfl

theorem execBranches_located : ∀ {branches : List Branch},
    (∀ b ∈ branches, ∃ l, b.condition.OnLine l) → (∀ b ∈ branches, ∀ st ∈ b.body, IsRead env st) →
      Located.execBranches env inner n c branches = execBranches env inner n c branches
  | [], _, _ => by rw [execBranches, Located.execBranches]
  | .mk _ holds body :: _, hconditions, hbodies => by
    obtain ⟨⟨l, hholds⟩, hconditions⟩ := List.forall_mem_cons.1 hconditions
    have honline : holds.OnLine l := hholds
    have hbody : ∀ st ∈ body, IsRead env st := hbodies _ List.mem_cons_self
    rw [execBranches, Located.execBranches, eval_located hquiet hk c honline,
      execUntil_located _ hbody,
      execBranches_located hconditions fun b hb => hbodies b (List.mem_cons_of_mem _ hb)]

theorem execOtherwise_located : ∀ {otherwise : Option (List Statement)},
    (∀ body, otherwise = some body → ∀ st ∈ body, IsRead env st) →
      Located.execOtherwise env inner n c otherwise = execOtherwise env inner n c otherwise
  | none, _ => by rw [execOtherwise, Located.execOtherwise]
  | some body, hbody => by
    rw [execOtherwise, Located.execOtherwise, execUntil_located _ (hbody body rfl)]

end

theorem execAll_located : ∀ {body : List Statement} (last : Option Value),
    (∀ st ∈ body, IsRead env st) →
      Located.execAll env inner n c last body = execAll env inner n c last body
  | [], _, _ => by rw [execAll, Located.execAll]
  | _ :: _, _, hbody => by
    obtain ⟨hst, hrest⟩ := List.forall_mem_cons.1 hbody
    rw [execAll, Located.execAll, exec_located hquiet hk n c hst]
    exact bind_congr fun o => by cases o <;> exact execAll_located _ hrest

theorem execBlock_located : ∀ {body : List Statement} (last : Option Value),
    (∀ st ∈ body, IsRead env st) →
      Located.execBlock env inner n c last body = execBlock env inner n c last body
  | [], _, _ => by rw [execBlock, Located.execBlock]
  | _ :: _, _, hbody => by
    obtain ⟨hst, hrest⟩ := List.forall_mem_cons.1 hbody
    rw [execBlock, Located.execBlock, exec_located hquiet hk n c hst]
    refine bind_congr fun o => ?_
    cases o with
    | none => exact execBlock_located _ hrest
    | some v =>
      dsimp only
      rw [execBlock_located _ hrest]

end

/-! ### Calls -/

theorem callWith_located (hquiet : env.host.Quiet) (hk : inner.KeepsLine) (n : Nat)
    {f : ScriptFunction} (hf : f.OfText env) (args : List Value) (site : Option SourceLine) :
    Located.callWith env inner n f args site = callWith env inner n f args site := by
  unfold Located.callWith callWith
  simp only [execUntil_located hquiet hk n _ _ hf]

theorem runScriptWith_located (hquiet : env.host.Quiet) (hk : inner.KeepsLine) (n : Nat)
    {script : Script} (hscript : ∀ st ∈ script.body, IsRead env st) :
    Located.runScriptWith env inner n script = runScriptWith env inner n script := by
  rw [Located.runScriptWith, execAll_located hquiet hk n rootScope none hscript, runScriptWith]

theorem runBlock_located (hquiet : env.host.Quiet) (hk : inner.KeepsLine) (n : Nat)
    {script : Script} (hscript : ∀ st ∈ script.body, IsRead env st) :
    Located.runBlock env inner n script = runBlock env inner n script := by
  have hsettled : Settled (Located.runBlock env inner n script) := Located.runBlock_settled script
  rw [Located.runBlock, execBlock_located hquiet hk n rootScope none hscript] at hsettled ⊢
  rw [onward_eq hsettled, runBlock]

/-- Under a quiet host every way into the machine leaves the line as it found it here, too. -/
theorem Located.inner_keepsLine (hquiet : env.host.Quiet) : ∀ n, (Located.inner env n).KeepsLine
  | 0 => ⟨fun _ _ _ => .throw _, fun _ _ => .throw _⟩
  | n + 1 =>
    ⟨fun f args _ => call_staysAt f args _, (Located.inner_keepsLine hquiet n).callHostWith hquiet⟩

/-- **Every way into the machine has nodes that answer for their own errors.** -/
theorem inner_located {holds : σ → Prop} (hquiet : env.host.Quiet) (hhost : FaithfulHost env holds) :
    ∀ n, (env.inner n).Alike (provenance env holds hhost).toRegime (Located.inner env n) := by
  intro n
  let D := provenance env holds hhost
  induction n with
  | zero =>
    exact ⟨fun _ hm _ _ => .throw hm trivial, fun hm _ _ => .throw hm trivial,
      fun hm _ => .throw hm trivial⟩
  | succ n ih =>
    have hk := Located.inner_keepsLine hquiet n
    refine ⟨fun {m f args} site hm hf hargs => ?_, fun hm hh hargs => D.callHostWith ih hm hh hargs,
      fun {m script} hm hcode => ?_⟩
    · have hcall := D.callWith ih n site hm hf hargs
      rwa [← callWith_located hquiet hk n (Value.ofTexts_function.1 hf)] at hcall
    · have hrun := D.runScriptWith ih n hm hcode
      rwa [← runScriptWith_located hquiet hk n hcode] at hrun

/-! ### Scripts -/

/-- **An error that leaves a script carries the line of its node.**  Under a host that starts no
text of its own, and from a machine that holds functions of texts only, as every runner is, a text
is run, reported and evaluated as if every expression node and every import gave its own line to
the errors that are raised in it without a line, and left the others alone.  Every error of the
script that escapes has a line then; and the nodes of the script, and of whatever else was read,
stand on physical lines of the texts that they were read from, under the origin of that text. -/
theorem errors_carry_lines {holds : σ → Prop} (hquiet : env.host.Quiet)
    (hhost : FaithfulHost env holds) {m : Machine σ} (hm : m.OfTexts env holds) (n : Nat) :
    (∀ source, outcome (evalSource env (env.inner n) source) m =
        outcome (evalSource env (Located.inner env n) source) m ∧
      outcome (handleSource env (env.inner n) source) m =
        outcome (handleSource env (Located.inner env n) source) m) ∧
    (∀ base origin source script state,
      parse env.symbols env.host.load base origin source m.host = (.ok script, state) →
        let m' := { m with host := state }
        outcome (runScript env n script) m' = outcome (Located.runScript env n script) m' ∧
        (∀ k, outcome (runBlock env (env.inner n) k script) m' =
          outcome (Located.runBlock env (Located.inner env n) k script) m') ∧
        (∀ id e m₁, outcome (runScript env n script) m' = (.error (.raised ⟨id, .script e⟩), m₁) →
          e.line ≠ none) ∧
        ∃ loads d out, Spliced env.symbols env.host.load (.outermost base origin)
            (statementsOf env.symbols origin source.toList) m.host loads d out state ∧
          ∀ st, Occurs true st script.body →
            st.NodesOn fun l => l.IsLineOfAny origin source.toList loads) ∧
    (∀ st, IsRead env st → ∃ base origin source t loads d out t',
      Spliced env.symbols env.host.load (.outermost base origin)
        (statementsOf env.symbols origin source) t loads d out t' ∧
      st.NodesOn fun l => l.IsLineOfAny origin source loads) ∧
    ∀ state uses, holds state → (∀ u ∈ uses, Use.OfTexts env u) →
      ((Runner.create env state).useAll uses).machine.OfTexts env holds := by
  let D := provenance env holds hhost
  have hi := inner_located hquiet hhost n
  refine ⟨fun source => ⟨?_, ?_⟩, fun base origin source script state hparse => ?_,
    fun st => IsRead.nodesOn, fun state uses hstate huses => ?_⟩
  · exact (D.evalSource hi hm trivial).outcome_eq
  · exact (D.handleSource hi hm trivial).outcome_eq
  · have hstate : holds state :=
      (parse_keeps (fun _ _ _ hs => hhost.load hs) hparse hm.host).1
    have hm' : Machine.OfTexts env holds { m with host := state } :=
      ⟨hm.scopes, hm.namespaces, hstate⟩
    have hread : ∀ st ∈ script.body, IsRead env st :=
      fun st hst => ⟨base, origin, source, m.host, script, state, hparse, .here hst⟩
    have hrun := (hi.runScript hm' hread).outcome_eq
    refine ⟨hrun, fun k => ?_, fun id e m₁ herror => ?_, parse_nodesOn hparse⟩
    · have hblock : Alike (D.policyAt rootScope) { m with host := state } (Both D.outcomes)
          (runBlock env (env.inner n) k script) (runBlock env (Located.inner env n) k script) :=
        .atLine trivial hm' fun hm₁ =>
          D.execBlock hi k script.body hm₁ trivial hread D.outcomes_none
      rw [runBlock_located hquiet (Located.inner_keepsLine hquiet n) k hread]
      exact hblock.outcome_eq
    · exact Located.runScript_settled n script _ _ _ _ (hrun.symm.trans herror)
  · exact Runner.ofTexts_useAll (r := Runner.create env state) uses hhost
      (Runner.ofTexts_create env hstate) huses

/-! ### An error behind a call -/

/-- The host that calls back, with a text of a function to include. -/
def libraryHost : Host Unit :=
  { callbackHost with load := Loader.ofTexts [("id", "f n #\n~ n\n#")] }

/-- The standard symbols with that host. -/
def libraryEnv : Env Unit := { symbols := standardSymbols, host := libraryHost }

theorem quiet_libraryHost : libraryHost.Quiet where
  call _ args := by
    cases args with
    | nil => trivial
    | cons f rest => exact ⟨trivial, fun reply => by cases reply <;> trivial⟩
  operate _ _ _ := trivial

theorem faithful_libraryHost : FaithfulHost libraryEnv fun _ => True where
  member {state name h h'} _ _ hfound := by
    cases h <;> cases hfound
  module _ hfound := by cases hfound
  call {state h args} _ _ hargs := by
    cases args with
    | nil => rintro f (hf | hf) <;> cases hf
    | cons f rest =>
      refine ⟨⟨hargs f List.mem_cons_self, fun a ha => hargs a (List.mem_cons_of_mem f ha)⟩, ?_⟩
      rintro state' (e | value) _ hreply
      · trivial
      · exact hreply value rfl
  operate _ _ _ := by rintro f (hf | hf) <;> cases hf
  load _ := trivial

/-- A condition that fails behind a completed call: the host calls the included function. -/
def lateText : String := "$ 'id'\napply(f, 1) - 'a' ?\n?"

/-- A runner whose host has bound the object that calls back. -/
def lateRunner : Runner Unit := (Runner.create libraryEnv ()).useAll [.set "apply" (.object 0)]

/-- The script of the text. -/
def lateScript : Script :=
  let first : SourceLine := ⟨1, "f n #", some "mem://id"⟩
  let second : SourceLine := ⟨2, "~ n", some "mem://id"⟩
  let line : SourceLine := ⟨2, "apply(f, 1) - 'a' ?", none⟩
  ⟨⟨1, "$ 'id'", none⟩,
    [.function first "f" ["n"] [.returning second (some (.reference second "n"))],
     .conditional line
      [.mk line (.operation line .arithmetic (some (.text "subtract"))
        (.call line "apply" [.reference line "f", .literal line (.integer 1)])
        (.literal line (.string "a"))) []] none]⟩

theorem ofTexts_lateRunner : lateRunner.machine.OfTexts libraryEnv fun _ => True := by
  refine Runner.ofTexts_useAll (r := Runner.create libraryEnv ()) _ faithful_libraryHost
    (Runner.ofTexts_create libraryEnv trivial) fun u hu => ?_
  rw [List.mem_singleton.1 hu]
  rintro f (hf | hf) <;> cases hf

theorem parse_lateText :
    parse standardSymbols libraryHost.load none none lateText () = (.ok lateScript, ()) := rfl

/-- The error carries the line of the condition, though the function that was called before stands
on other lines of another text. -/
theorem lateText_error_line :
    libraryHost.Quiet ∧ FaithfulHost libraryEnv (fun _ => True) ∧
      lateRunner.machine.OfTexts libraryEnv (fun _ => True) ∧
      outcome (runScript libraryEnv 9 lateScript) lateRunner.machine =
        outcome (Located.runScript libraryEnv 9 lateScript) lateRunner.machine ∧
      (outcome (runScript libraryEnv 9 lateScript) lateRunner.machine).1.map (fun _ => ()) =
        .error (.raised ⟨1, .script ⟨.undefinedOperator "subtract" .integer .string, some 2,
          some "apply(f, 1) - 'a' ?", none⟩⟩) := by
  obtain ⟨-, hscripts, -, -⟩ :=
    errors_carry_lines quiet_libraryHost faithful_libraryHost ofTexts_lateRunner 9
  obtain ⟨hrun, -, -, -⟩ := hscripts none none lateText lateScript () parse_lateText
  exact ⟨quiet_libraryHost, faithful_libraryHost, ofTexts_lateRunner, hrun, by decide +kernel⟩

end LineScript
