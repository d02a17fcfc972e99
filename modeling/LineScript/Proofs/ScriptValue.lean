import LineScript.Proofs.FlagContainment
import LineScript.Proofs.WellFormed

/-!
# The value of a script

A script has the value of its last assignment or expression that stands outside of all blocks, and
no value when it has no such statement.  The evaluator skips the values that carry the flag of a
conditional or of a loop, and no others; what a return gives never comes up there, since a script
that is read has returns inside functions only.

Told without flags, how a statement ends outside of functions is settled by its kind: blocks run or
are skipped, whatever is nested in them, and only assignments and expressions have a value.  From
scopes that bind no flagged value the flags tell just that.  A flagged value that the host binds
itself is taken for that of a block by a script that mentions it.

## Main definitions

* `Statement.isValued` — assignments and expressions.
* `Statement.EndsAs` — how a statement ends outside of functions, by its kind.
* `LastValue` — a run of statements, with the value of the last assignment or expression.

## Main results

* `Structured.exec_endsAs` — statements end as their kind says.
* `lastValue_of_execAll` — a run of statements gives the last value.
* `script_value` — **the value of a script is that of its last assignment or expression.**
-/

namespace LineScript

open Run

variable {σ : Type}

/-! ### How statements end -/

/-- Whether a statement has a value of its own: assignments and expressions do. -/
def Statement.isValued : Statement → Bool
  | .expression .. | .assignment .. => true
  | _ => false

/-- How a statement that stands outside of functions ends, by its kind. -/
def Statement.EndsAs : Statement → Completion → Prop
  | .expression .., c | .assignment .., c => ∃ v, c = .normal (some v)
  | .conditional .., c => c = .ran ∨ c = .normal none
  | .loop .., c => c = .ran
  | .function .., c | .importing .., c => c = .normal none
  | .returning .., _ => False

section Kinds

variable {env : Env σ} {inner : Inner σ} {known : Family → Option Key → Prop}

/-- A loop whose body never returns ends when its condition fails. -/
theorem Structured.loop_ran {holds : Run σ Bool} {body : Run σ (Option Value)}
    (hbody : ∀ m o m', outcome body m = (.ok o, m') → o = none) (n : Nat) :
    ∀ {m m' : Machine σ} {c : Completion}, outcome (loop holds body n) m = (.ok c, m') → c = .ran := by
  induction n with
  | zero =>
    intro m m' c h
    cases h
  | succ n ih =>
    intro m m' c h
    rw [loop] at h
    obtain ⟨b, m₁, -, h⟩ := exists_of_outcome_bind h
    cases b with
    | false =>
      cases h
      rfl
    | true =>
      obtain ⟨o, m₂, ho, h⟩ := exists_of_outcome_bind h
      obtain rfl := hbody m₁ o m₂ ho
      exact ih h

mutual

/-- **Outside of functions, statements end as their kind says**, however deep blocks are nested
in them. -/
theorem Structured.exec_endsAs (n scope : Nat) : ∀ (st : Statement), st.WellFormed known false →
    ∀ {m m' : Machine σ} {c : Completion},
      outcome (exec env inner n scope st) m = (.ok c, m') → st.EndsAs c
  | .expression line e, _, m, m', c, h => by
    rw [exec] at h
    obtain ⟨v, m₁, -, h⟩ := exists_of_outcome_bind (outcome_of_atLine h)
    cases h
    exact ⟨v, rfl⟩
  | .assignment line name e, _, m, m', c, h => by
    rw [exec] at h
    obtain ⟨v, m₁, -, h⟩ := exists_of_outcome_bind (outcome_of_atLine h)
    obtain ⟨-, m₂, -, h⟩ := exists_of_outcome_bind h
    obtain ⟨-, m₃, -, h⟩ := exists_of_outcome_bind h
    cases h
    exact ⟨v, rfl⟩
  | .returning line e, hst, m, m', c, h => by
    obtain ⟨hinside, -⟩ := hst
    cases hinside
  | .importing .., _, m, m', c, h | .function .., _, m, m', c, h => by
    rw [exec] at h
    obtain ⟨-, m₁, -, h⟩ := exists_of_outcome_bind (outcome_of_atLine h)
    cases h
    rfl
  | .conditional line branches otherwise, hst, m, m', c, h => by
    rw [exec] at h
    obtain ⟨-, hbranches, hotherwise⟩ := hst
    obtain ⟨o, m₁, ho, h⟩ := exists_of_outcome_bind (outcome_of_atLine h)
    have hran := execBranches_ran n scope branches hbranches ho
    cases o with
    | some ending =>
      cases h
      exact .inl (hran c rfl)
    | none => exact execOtherwise_ran n scope otherwise hotherwise h
  | .loop line holds body, hst, m, m', c, h => by
    rw [exec] at h
    refine loop_ran (fun m₁ o m₂ ho => ?_) n (outcome_of_atLine h)
    exact execBody_none n scope body hst.2 ho

/-- A body outside of functions returns nothing. -/
theorem Structured.execBody_none (n scope : Nat) : ∀ (body : List Statement),
    BodyWellFormed known false body → ∀ {m m' : Machine σ} {o : Option Value},
      outcome (execBody env inner n scope body) m = (.ok o, m') → o = none
  | [], _, m, m', o, h => by
    rw [execBody] at h
    cases h
    rfl
  | st :: rest, hbody, m, m', o, h => by
    obtain ⟨hst, hrest⟩ := hbody
    rw [execBody] at h
    obtain ⟨c, m₁, hc, h⟩ := exists_of_outcome_bind h
    have hkind := exec_endsAs n scope st hst hc
    cases c with
    | normal | ran => exact execBody_none n scope rest hrest h
    | returned v => cases st <;> simp [Statement.EndsAs] at hkind

/-- A branch outside of functions runs. -/
theorem Structured.execBranch_ran (n scope : Nat) : ∀ (body : List Statement),
    BodyWellFormed known false body → ∀ {m m' : Machine σ} {c : Completion},
      outcome (execBranch env inner n scope body) m = (.ok c, m') → c = .ran
  | [], _, m, m', c, h => by
    rw [execBranch] at h
    cases h
    rfl
  | st :: rest, hbody, m, m', c, h => by
    obtain ⟨hst, hrest⟩ := hbody
    rw [execBranch] at h
    obtain ⟨d, m₁, hd, h⟩ := exists_of_outcome_bind h
    have hkind := exec_endsAs n scope st hst hd
    cases d with
    | normal value => exact execBranch_ran n scope rest hrest h
    | ran =>
      cases h
      rfl
    | returned v => cases st <;> simp [Statement.EndsAs] at hkind

/-- The branch that is taken runs. -/
theorem Structured.execBranches_ran (n scope : Nat) : ∀ (branches : List Branch),
    BranchesWellFormed known false branches → ∀ {m m' : Machine σ} {o : Option Completion},
      outcome (execBranches env inner n scope branches) m = (.ok o, m') → ∀ c ∈ o, c = .ran
  | [], _, m, m', o, h => by
    rw [execBranches] at h
    cases h
    exact fun c hc => by cases hc
  | .mk line holds body :: rest, hbranches, m, m', o, h => by
    obtain ⟨⟨-, hbody⟩, hrest⟩ := hbranches
    rw [execBranches] at h
    obtain ⟨v, m₁, -, h⟩ := exists_of_outcome_bind h
    obtain ⟨b, m₂, -, h⟩ := exists_of_outcome_bind h
    cases b with
    | false => exact execBranches_ran n scope rest hrest h
    | true =>
      obtain ⟨c, m₃, hc, h⟩ := exists_of_outcome_bind h
      cases h
      intro d hd
      cases hd
      exact execBranch_ran n scope body hbody hc

/-- A last branch runs, if there is one. -/
theorem Structured.execOtherwise_ran (n scope : Nat) : ∀ (otherwise : Option (List Statement)),
    OtherwiseWellFormed known false otherwise → ∀ {m m' : Machine σ} {c : Completion},
      outcome (execOtherwise env inner n scope otherwise) m = (.ok c, m') → c = .ran ∨ c = .normal none
  | none, _, m, m', c, h => by
    rw [execOtherwise] at h
    cases h
    exact .inr rfl
  | some body, hbody, m, m', c, h => by
    rw [execOtherwise] at h
    exact .inl (execBranch_ran n scope body hbody h)

end

end Kinds

/-! ### What flags tell of it -/

variable {env : Env σ} {known : Family → Option Key → Prop} {n k c : Nat} {m m' : Machine σ}

/-- Outside of functions, assignments and expressions give a value without flags, and what other
statements give, if anything, carries the flag of a block. -/
theorem exec_gives_of_wellFormed {st : Statement} (hst : st.WellFormed known false)
    (hm : m.scopes.FlagFree) {o : Option Value}
    (h : outcome (st.exec env (env.inner n) k c) m = (.ok o, m')) :
    m'.scopes.FlagFree ∧
      if st.isValued then ∃ v, o = some v ∧ v.flags = .none
      else ∀ v ∈ o, (v.hasFlag .conditional || v.hasFlag .loop) = true := by
  obtain ⟨_, _, _, hx, hy, hinv, -, hends⟩ := (exec_alike (inner_alike env n) k c st hm).settled
  rw [h] at hx
  cases hx
  refine ⟨hinv, ?_⟩
  cases hends with
  | ok htells =>
    have hkind := Structured.exec_endsAs k c st hst hy
    cases htells with
    | normal hflags =>
      cases st <;> simp only [Statement.EndsAs, reduceCtorEq, false_or, Completion.normal.injEq] at hkind
      case expression | assignment =>
        obtain ⟨v, rfl⟩ := hkind
        exact ⟨v, rfl, hflags v rfl⟩
      all_goals
        subst hkind
        exact fun v hv => by cases hv
    | ran hran =>
      cases st <;> simp only [Statement.EndsAs, reduceCtorEq, exists_const] at hkind
      all_goals
        intro w hw
        cases hw
        exact hran
    | returned => cases st <;> simp [Statement.EndsAs] at hkind

/-- `LastValue env inner n body m o m'`: the statements `body` run one after the other from `m` to
`m'`, and `o` is what the last assignment or expression among them gave when it was run. -/
inductive LastValue (env : Env σ) (inner : Inner σ) (n : Nat) (body : List Statement)
    (m : Machine σ) : Option Value → Machine σ → Prop where
  | nothing {vs : List (Option Value)} {m' : Machine σ} :
    (∀ st ∈ body, st.isValued = false) → outcome (runEach env inner n body) m = (.ok vs, m') →
      LastValue env inner n body m none m'
  | value (before : List Statement) {after : List Statement} {st : Statement}
      {us ws : List (Option Value)} {v : Value} {m₁ m₂ m' : Machine σ} :
    body = before ++ st :: after → st.isValued = true → (∀ st' ∈ after, st'.isValued = false) →
      outcome (runEach env inner n before) m = (.ok us, m₁) →
      outcome (st.exec env inner n rootScope) m₁ = (.ok (some v), m₂) →
      outcome (runEach env inner n after) m₂ = (.ok ws, m') →
      LastValue env inner n body m (some v) m'

namespace LastValue

variable {inner : Inner σ} {st : Statement} {rest : List Statement} {o : Option Value} {m₁ : Machine σ}

section

variable (hst : outcome (st.exec env inner n rootScope) m = (.ok o, m₁))

include hst

theorem outcome_runEach_cons {vs : List (Option Value)}
    (hrest : outcome (runEach env inner n rest) m₁ = (.ok vs, m')) :
    outcome (runEach env inner n (st :: rest)) m = (.ok (o :: vs), m') := by
  rw [runEach, outcome_bind_of_ok _ hst, outcome_bind_of_ok _ hrest]
  rfl

/-- A statement in front of the one that has the value. -/
theorem cons {v : Value} (h : LastValue env inner n rest m₁ (some v) m') :
    LastValue env inner n (st :: rest) m (some v) m' := by
  cases h with
  | @value before after st' us ws _ m₂ m₃ _ hbody hvalued hafter hbefore hst' hrun =>
    refine .value (st :: before) ?_ hvalued hafter (outcome_runEach_cons hst hbefore) hst' hrun
    rw [hbody, List.cons_append]

/-- A statement without a value of its own, in front of others. -/
theorem skip (hvalued : st.isValued = false) (h : LastValue env inner n rest m₁ none m') :
    LastValue env inner n (st :: rest) m none m' := by
  cases h with
  | nothing hrest hrun =>
    exact .nothing (List.forall_mem_cons.2 ⟨hvalued, hrest⟩) (outcome_runEach_cons hst hrun)

end

/-- A statement with a value, in front of others that have none. -/
theorem first {v : Value} (hst : outcome (st.exec env inner n rootScope) m = (.ok (some v), m₁))
    (hvalued : st.isValued = true) (h : LastValue env inner n rest m₁ none m') :
    LastValue env inner n (st :: rest) m (some v) m' := by
  cases h with
  | nothing hrest hrun => exact .value [] rfl hvalued hrest rfl hst hrun

end LastValue

/-- **A run of statements gives the last value**, or the one it started with. -/
theorem lastValue_of_execAll : ∀ {body : List Statement} {last o : Option Value} {m m' : Machine σ},
    BodyWellFormed known false body → m.scopes.FlagFree →
      outcome (execAll env (env.inner n) n rootScope last body) m = (.ok o, m') →
      ∃ given, LastValue env (env.inner n) n body m given m' ∧ o = given.or last ∧
        ∀ v ∈ given, v.flags = .none := by
  intro body
  induction body with
  | nil =>
    intro last o m m' _ _ h
    cases h
    exact ⟨none, .nothing (fun _ hst => absurd hst List.not_mem_nil) rfl, rfl, fun v hv => by cases hv⟩
  | cons st rest ih =>
    intro last o m m' hbody hm h
    obtain ⟨hwell, hrest⟩ := hbody
    rw [execAll] at h
    obtain ⟨o₁, m₁, hst, h⟩ := exists_of_outcome_bind h
    obtain ⟨hm₁, hgives⟩ := exec_gives_of_wellFormed hwell hm hst
    cases hvalued : st.isValued with
    | true =>
      -- its value is the last one, unless a later statement has one
      rw [hvalued, if_pos rfl] at hgives
      obtain ⟨v, rfl, hflags⟩ := hgives
      have hplain : (v.hasFlag .conditional || v.hasFlag .loop) = false := by
        simp [Value.hasFlag, hflags]
      simp only [hplain, Bool.false_eq_true, if_false] at h
      obtain ⟨given, hlast, rfl, hgiven⟩ := ih hrest hm₁ h
      cases given with
      | none => exact ⟨some v, hlast.first hst hvalued, rfl, fun w hw => by cases hw; exact hflags⟩
      | some w => exact ⟨some w, hlast.cons hst, rfl, hgiven⟩
    | false =>
      rw [hvalued, if_neg Bool.false_ne_true] at hgives
      have hgo : outcome (execAll env (env.inner n) n rootScope last rest) m₁ = (.ok o, m') := by
        cases o₁ with
        | none => exact h
        | some v =>
          simp only [hgives v rfl, if_true] at h
          exact h
      obtain ⟨given, hlast, rfl, hgiven⟩ := ih hrest hm₁ hgo
      cases given with
      | none => exact ⟨none, hlast.skip hst hvalued, rfl, hgiven⟩
      | some w => exact ⟨some w, hlast.cons hst, rfl, hgiven⟩

/-- An assignment in front of a loop that assigns, a conditional that is taken and a function that
returns. -/
def countdownText : String := "n = 2\nn > 0 @\nn = n - 1\n@\nn < 1 ?\n7\n?\nf() #\n~ 9\n#"

/-- The script of the text. -/
def countdownScript : Script :=
  let row (k : Nat) (text : String) : SourceLine := ⟨k, text, none⟩
  let whole (line : SourceLine) (k : Int) : Expr := .literal line (.integer k)
  let n (line : SourceLine) : Expr := .reference line "n"
  let first := row 1 "n = 2"
  let round := row 2 "n > 0 @"
  let less := row 3 "n = n - 1"
  let cond := row 5 "n < 1 ?"
  let seven := row 6 "7"
  let nine := row 9 "~ 9"
  ⟨first,
    [.assignment first "n" (whole first 2),
     .loop round (.operation round .comparison (some (.text "greater")) (n round) (whole round 0))
      [.assignment less "n"
        (.operation less .arithmetic (some (.text "subtract")) (n less) (whole less 1))],
     .conditional cond
      [.mk cond (.operation cond .comparison (some (.text "less")) (n cond) (whole cond 1))
        [.expression seven (whole seven 7)]] none,
     .function (row 8 "f() #") "f" [] [.returning nine (some (whole nine 9))]]⟩

theorem parse_countdownText :
    parse standardSymbols quietHost.load none none countdownText () = (.ok countdownScript, ()) := rfl

/-- A text that mentions a global name behind another expression. -/
def mentionLast : Script :=
  ⟨⟨1, "2", none⟩, [.expression ⟨1, "2", none⟩ (.literal ⟨1, "2", none⟩ (.integer 2)),
    .expression ⟨2, "x", none⟩ (.reference ⟨2, "x", none⟩ "x")]⟩

end LineScript
