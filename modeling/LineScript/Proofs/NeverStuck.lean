import LineScript.Proofs.Attribution
import LineScript.Proofs.Keeping
import LineScript.Proofs.StringBlindness

/-!
# Scripts that are read do not get stuck

A run could be stuck in two ways: at an operation whose name is not known, and where a value is
required and there is none.  With the default symbols neither comes up.  An operator of an
expression is one of the symbols of the grammar, and an operator in front of the mark of an
assignment is one of the arithmetic symbols, for it stands outside of any literal, where the masked
text is the text itself.  All these symbols have names that the evaluator knows, so a script that is
read is well formed, and a watch that would do anything at all at a place where a run is stuck has
nothing to do.

## Main definitions

* `Script.WellFormed` — a script whose operations the evaluator knows.

## Main results

* `operator_of_assignment` — the operator of an assignment is an arithmetic symbol of the table.
* `standard_names` — the default table gives known names to all operators.
* `parsed_never_stuck` — **scripts that are read do not get stuck.**
-/

namespace LineScript

open Run

/-! ### The operator of an assignment -/

section Assignments

open Pattern Cursor

variable {s : Symbols} {text : List Char} {c c' : Cursor}

/-- One of several texts is taken as a text. -/
theorem exists_text_of_way_anyOf : ∀ {ms : List (List Char)},
    (anyOf (ms.map Pattern.text)).Way c c' → ∃ m ∈ ms, (Pattern.text m).Way c c'
  | [], h => by
    obtain ⟨⟨_, _, _, hfalse⟩, -⟩ := h
    cases hfalse
  | [m], h => ⟨m, List.mem_cons_self, h⟩
  | m :: n :: ms, h => by
    rcases h with h | h
    · exact ⟨m, List.mem_cons_self, h⟩
    · have hrest : (anyOf ((n :: ms).map Pattern.text)).Way c c' := h
      obtain ⟨k, hk, hway⟩ := exists_text_of_way_anyOf hrest
      exact ⟨k, List.mem_cons_of_mem m hk, hway⟩

/-- **The operator of an assignment is an arithmetic symbol of the table**: no literal is open where
it is captured. -/
theorem operator_of_assignment (hs : s.Plain)
    (h : (Rule.pattern s .assignment).Way ⟨0, mask text, []⟩ c) {symbol : List Char}
    (hsymbol : (Rule.assignment.matchAt s text c).part? "operator" = some symbol) :
    symbol ∈ Rule.arithmeticSymbols s := by
  obtain ⟨c₁, hname, c₂, hblanks₂, c₃, hoperator, c₄, hassign, c₅, hunless, c₆, hblanks₆, c₇, hlast,
    hfinish⟩ := h
  obtain ⟨hgroup₂, hout₂⟩ := name_groomed hs hname hblanks₂
  have hgroups₂ : c₂.groups = [("name", 0, c₁.position)] := by
    rw [hblanks₂.groups_eq rfl, hname.groups_group rfl]
  -- behind the operator only the expression is captured
  have hgroups : c.groups = ("expression", c₆.position, c₇.position) :: c₃.groups := by
    rw [hfinish.groups_eq rfl, hlast.groups_group rfl, hblanks₆.groups_eq rfl,
      hunless.groups_eq rfl, hassign.groups_eq rfl]
  rw [part?_eq_slice (by decide), hgroups, List.find?_cons_of_neg (by simp)] at hsymbol
  rcases hoperator with hoperator | rfl
  · rw [hoperator.groups_group (groupNames_anyOf_texts _), List.find?_cons_of_pos (by simp)] at hsymbol
    obtain ⟨mid, hway, rfl⟩ := hoperator
    obtain ⟨m, hm, ⟨rest, hrest⟩, rfl⟩ := exists_text_of_way_anyOf hway
    obtain ⟨o, ho, rfl⟩ := Rule.exists_operator_of_mem hm
    -- what the masked text has outside of literals the text has, too
    have hslice := (hgroup₂.toIn.outside_add hout₂ (hs.operators o ho) hrest.symm).2
    have hpart : slice text c₂.position (c₂.position + o.symbol.toList.length) = symbol :=
      Option.some.inj hsymbol
    rw [← hpart, hslice]
    exact hm
  · rw [hgroups₂] at hsymbol
    cases hsymbol

/-- A statement is an assignment by its rule only. -/
theorem matchAt_of_assignment {name expression : List Char} {operator : Option (List Char)}
    (h : classify s text = .item (.assignment name operator expression)) :
    ∃ c, (Rule.pattern s .assignment).Way ⟨0, mask text, []⟩ c ∧
      (Rule.assignment.matchAt s text c).part? "operator" = operator := by
  obtain ⟨r, c, hway, hform⟩ := exists_matchAt_of_classify (fun heq => by cases heq) h
  cases r with
  | assignment =>
    cases hform
    exact ⟨c, hway, rfl⟩
  -- an import may turn out to be an inclusion, by its target, but nothing else
  | importing =>
    have htarget : Item.ofTarget ((Rule.importing.matchAt s text c).part "target") =
        .assignment name operator expression := Form.item.inj hform
    unfold Item.ofTarget at htarget
    split at htarget
    · split at htarget <;> cases htarget
    · cases htarget
  | _ => cases hform

end Assignments

/-! ### The default symbols -/

/-- The evaluator knows the operations of the default table. -/
theorem knows_arithmeticSymbol {symbol : List Char}
    (h : symbol ∈ Rule.arithmeticSymbols standardSymbols) : Family.knows .arithmetic
      (standardSymbols.familyOperator? (String.ofList symbol) .arithmetic) = true := by
  obtain ⟨o, ho, rfl⟩ := Rule.exists_operator_of_mem h
  have hall : ((standardSymbols.operatorsOf .arithmetic).all fun o => Family.knows .arithmetic
      (standardSymbols.familyOperator? (String.ofList o.symbol.toList) .arithmetic)) = true := by
    decide
  exact List.all_eq_true.1 hall o ho

theorem BinaryOp.knows_key (op : BinaryOp) : op.family.knows (some (.text op.key)) = true := by
  cases op <;> decide

/-- **The default table gives known names to all operators.** -/
theorem standard_names : standardSymbols.Names fun family op => family.knows op = true where
  expression {words} hwords k symbol hsymbol := by
    cases hwords
    obtain ⟨op, rfl, rfl⟩ := exists_op_of_mem_symbolsAt hsymbol
    rw [op.familyAt_rank, op.familyOperator]
    exact op.knows_key
  assignment {origin source st name symbol value} hst hitem _ := by
    have hform := classify_of_mem_statementsOf ofTable_standard hst
    rw [hitem] at hform
    obtain ⟨c, hway, hpart⟩ := matchAt_of_assignment hform
    exact knows_arithmeticSymbol (operator_of_assignment plain_standard hway hpart)

/-! ### Runs -/

/-- A script whose operations the evaluator knows, and that is well formed otherwise. -/
def Script.WellFormed (script : Script) : Prop :=
  BodyWellFormed (fun family op => family.knows op = true) false script.body

theorem lasting_trivial : Lasting fun _ => True where
  plain _ := trivial
  function _ := trivial
  host _ := trivial
  bare _ := trivial

variable {σ : Type}

theorem Machine.holds_trivial (m : Machine σ) : m.Holds fun _ => True where
  bound _ _ _ := trivial
  calls _ _ _ _ := trivial
  record _ _ _ _ _ _ := trivial

/-- **Scripts that are read do not get stuck.**  With the default symbols a script that is read is
well formed.  A runner holds functions of texts only, whatever a host does with it that hands out no
others.  From every machine that holds no others, whatever else is bound there, a script that is
read, every statement in it and everything the host may ask for run the same, however the places are
replaced where an operation is not known or a value is missing: no run comes to such a place. -/
theorem parsed_never_stuck (env : Env σ) (hsymbols : env.symbols = standardSymbols)
    {holds : σ → Prop} (hhost : FaithfulHost env holds) (n : Nat) (stuck : Run σ Value) :
    let w := Watch.idle stuck fun _ => stuck
    (∀ (τ : Type) (load : Loader τ) base origin source t script t',
      parse standardSymbols load base origin source t = (.ok script, t') → script.WellFormed) ∧
    (∀ state uses, holds state → (∀ u ∈ uses, u.OfTexts env) →
      ((Runner.create env state).useAll uses).machine.OfTexts env holds) ∧
    ∀ m : Machine σ, m.OfTexts env holds →
      (∀ base origin source state script state',
        parse standardSymbols env.host.load base origin source state = (.ok script, state') →
          outcome (runScript env n script) m = outcome (Watched.runScript w env n script) m ∧
          (outcome (runScript env n script) m).2.OfTexts env holds ∧
          ∀ st, Occurs true st script.body → ∀ k c,
            outcome (Statement.exec env (env.inner n) k c st) m =
              outcome (Watched.exec w env (Watched.inner w env n) k c st) m) ∧
      ∀ asked, asked.OfTexts env →
        outcome (answer env (env.inner n) asked) m =
          outcome (answer env (Watched.inner w env n) asked) m ∧
        (outcome (answer env (env.inner n) asked) m).2.OfTexts env holds := by
  intro w
  have hnames : env.symbols.Names fun family op => family.knows op = true := by
    rw [hsymbols]
    exact standard_names
  let K := keeping env holds hhost lasting_trivial hnames
  -- operations are known by their names, so the watch never stands in for one
  have hw : w.Silent K := Watch.silent_idle fun he => .inl he.1
  have hi := inner_watched hw n
  refine ⟨fun τ load base origin source t script t' h => parse_wellFormed standard_names h,
    fun state uses hstate huses => (kept_useAll hhost lasting_trivial hnames hstate huses).1,
    fun m hm => ⟨?_, fun asked hasked => ?_⟩⟩
  · intro base origin source state script state' hparse
    rw [← hsymbols] at hparse
    have hinv : K.inv m := ⟨hm, m.holds_trivial⟩
    have hread : ∀ st, Occurs true st script.body → IsRead env st := fun st hst =>
      ⟨base, origin, source, state, script, state', hparse, hst⟩
    have hrun := hi.runScript hinv fun st hst => hread st (.here hst)
    refine ⟨hrun.outcome_eq, hrun.kept.1.1, fun st hst k c => ?_⟩
    exact (exec_watched hw hi k c st (hread st hst) hinv).outcome_eq
  · have hinv : K.inv m := ⟨hm, m.holds_trivial⟩
    have hpermitted : K.request m.scopes asked := hasked
    have hanswer := K.answer hi hinv hpermitted
    exact ⟨hanswer.outcome_eq, hanswer.kept.1.1⟩

/-- A text with an inclusion, a loop, an operator in front of the mark of an assignment, and a call
of the host that calls the script back. -/
def growing : String := "$ 'id'\ntotal = 1\ntotal < 9 @\ntotal += apply(f, 2) * total\n@\ntotal"

/-- It runs to the end, though it would stop wherever it were stuck. -/
theorem parsed_never_stuck_growing :
    let w : Watch Unit := Watch.idle (throw .exhausted) fun _ => throw .exhausted
    let asked : Request := .eval (.text growing)
    libraryEnv.symbols = standardSymbols ∧ FaithfulHost libraryEnv (fun _ => True) ∧
      lateRunner.machine.OfTexts libraryEnv (fun _ => True) ∧
      (∃ script, parse standardSymbols libraryHost.load none none growing () = (.ok script, ()) ∧
        script.WellFormed) ∧
      outcome (answer libraryEnv (libraryEnv.inner 9) asked) lateRunner.machine =
        outcome (answer libraryEnv (Watched.inner w libraryEnv 9) asked) lateRunner.machine ∧
      ((outcome (answer libraryEnv (libraryEnv.inner 9) asked) lateRunner.machine).1.toOption.bind
        fun h => (Value.ofHost h).asDecimal?) = some (.ofInt 9) := by
  intro w asked
  obtain ⟨hwell, -, hrun⟩ :=
    parsed_never_stuck libraryEnv rfl faithful_libraryHost 9 (throw .exhausted)
  have hparsed : (parse standardSymbols libraryHost.load none none growing ()).1.toOption.isSome =
      true := by decide +kernel
  refine ⟨rfl, faithful_libraryHost, ofTexts_lateRunner, ?_, ?_, by decide +kernel⟩
  · rcases hp : parse standardSymbols libraryHost.load none none growing () with ⟨_ | script, t⟩
    · rw [hp] at hparsed
      cases hparsed
    · exact ⟨script, rfl, hwell _ _ _ _ _ _ _ _ hp⟩
  · exact ((hrun lateRunner.machine ofTexts_lateRunner).2 asked trivial).1

end LineScript
