import LineScript.Proofs.Expansion
import LineScript.Source

/-!
# What reading a text keeps

A text is read by handing its statements to a builder, through any inclusions.  What every load
keeps true of the loader's state holds when the text is read.  The statements of a script stand in
one another, and the parameters of a function among them are identifiers.

## Main definitions

* `Occurs` — a statement stands in a body, at any depth.
* `ParamsRead` — all parameters of the functions in a body are identifiers.

## Main results

* `of_readParams` — parameters that are read are identifiers, and distinct.
* `term_of_readExpression` — an expression that is read is that of a term that is read.
* `feed_keeps` — **what loads keep, handing over a text keeps.**
-/

namespace LineScript

/-! ### Statements inside statements -/

/-- A statement stands in a body: by itself, in a block of one of its statements, or, when
looking deep, in the body of a function that is defined there. -/
inductive Occurs (deep : Bool) (st : Statement) : List Statement → Prop where
  | here {body : List Statement} : st ∈ body → Occurs deep st body
  | loop {body inner : List Statement} {line : SourceLine} {holds : Expr} :
    .loop line holds inner ∈ body → Occurs deep st inner → Occurs deep st body
  | branch {body inner : List Statement} {line l : SourceLine} {branches : List Branch}
      {otherwise : Option (List Statement)} {holds : Expr} :
    .conditional line branches otherwise ∈ body → .mk l holds inner ∈ branches →
      Occurs deep st inner → Occurs deep st body
  | otherwise {body inner : List Statement} {line : SourceLine} {branches : List Branch} :
    .conditional line branches (some inner) ∈ body → Occurs deep st inner → Occurs deep st body
  | function {body inner : List Statement} {line : SourceLine} {name : String}
      {params : List String} :
    deep = true → .function line name params inner ∈ body → Occurs deep st inner →
      Occurs deep st body

variable {deep : Bool} {st : Statement}

/-- What stands in one body stands in every body that has its statements. -/
theorem Occurs.mono {body body' : List Statement} (hsub : ∀ x ∈ body, x ∈ body')
    (h : Occurs deep st body) : Occurs deep st body' := by
  cases h with
  | here hmem => exact .here (hsub _ hmem)
  | loop hmem hin => exact .loop (hsub _ hmem) hin
  | branch hmem hb hin => exact .branch (hsub _ hmem) hb hin
  | otherwise hmem hin => exact .otherwise (hsub _ hmem) hin
  | function hd hmem hin => exact .function hd (hsub _ hmem) hin

theorem Occurs.of_mem {x : Statement} {body : List Statement} (hx : x ∈ body)
    (h : Occurs deep st [x]) : Occurs deep st body :=
  h.mono fun y hy => by rwa [List.mem_singleton.1 hy]

/-- What stands in a body stands in one of its statements. -/
theorem Occurs.exists_mem {body : List Statement} (h : Occurs deep st body) :
    ∃ x ∈ body, Occurs deep st [x] := by
  cases h with
  | here hmem => exact ⟨_, hmem, .here (List.mem_singleton.2 rfl)⟩
  | loop hmem hin => exact ⟨_, hmem, .loop (List.mem_singleton.2 rfl) hin⟩
  | branch hmem hb hin => exact ⟨_, hmem, .branch (List.mem_singleton.2 rfl) hb hin⟩
  | otherwise hmem hin => exact ⟨_, hmem, .otherwise (List.mem_singleton.2 rfl) hin⟩
  | function hd hmem hin => exact ⟨_, hmem, .function hd (List.mem_singleton.2 rfl) hin⟩

/-! ### Parameters -/

/-- The parameters of a definition. -/
def Statement.params : Statement → List String
  | .function _ _ params _ => params
  | _ => []

/-- All parameters of the functions in a body are identifiers. -/
def ParamsRead (body : List Statement) : Prop :=
  ∀ st, Occurs true st body → ∀ p ∈ st.params, isIdentifier p.toList = true

theorem of_readParams {text : List Char} {params : List String}
    (h : readParams text = .ok params) :
    params.Nodup ∧ ∀ p ∈ params, isIdentifier p.toList = true := by
  unfold readParams at h
  dsimp only at h
  split at h
  · cases h
  next hnone =>
    split at h
    next hnodup =>
      cases h
      refine ⟨List.Pairwise.map String.ofList
        (fun _ _ hne heq => hne (String.ofList_injective heq)) hnodup, ?_⟩
      intro p hp
      obtain ⟨q, hq, rfl⟩ := List.mem_map.1 hp
      have := List.find?_eq_none.1 hnone q hq
      simpa using this
    · cases h

/-! ### Builders -/

@[simp] theorem Branch.body_mk (line : SourceLine) (condition : Expr) (body : List Statement) :
    (Branch.mk line condition body).body = body := rfl

namespace Builder

/-- The innermost block is a conditional whose branch under way has a condition. -/
theorem expectBranch_eq_ok {text : List Char} {b : Builder} {line : SourceLine}
    {branches : List Branch} {rest : List OpenBlock}
    (h : b.expectBranch text = .ok (line, branches, rest)) :
    ∃ done l holds body, b.stack = .conditional line done (.branch l holds body) :: rest ∧
      branches = done ++ [.mk l holds body] := by
  obtain ⟨done, stack⟩ := b
  cases stack with
  | nil => cases h
  | cons block rest' =>
    simp only [expectBranch, expect] at h
    rcases block with _ | _ | ⟨line', done', ⟨l, holds, body⟩ | body⟩ <;> cases h
    exact ⟨_, _, _, _, rfl, rfl⟩

theorem eq_ok_of_mapError {ε ε' α : Type} {x : Except ε α} {f : ε → ε'} {a : α}
    (h : x.mapError f = .ok a) : x = .ok a := by
  cases x with
  | error e => cases h
  | ok b => rw [Except.ok.inj h]

end Builder

/-- An expression that is read is the expression of a term. -/
theorem term_of_readExpression {s : Symbols} {line : SourceLine} {text : List Char} {e : Expr}
    (h : readExpression s line text = .ok e) :
    ∃ words t, s.booleans = .ok words ∧ Term.read (s.grammar words) (strip text) = .ok t ∧
      t.lower s words.1 line = .ok e := by
  unfold readExpression at h
  dsimp only at h
  split at h
  · cases h
  · split at h
    · cases h
    next words hwords =>
      split at h
      · cases h
      next t ht => exact ⟨words, t, hwords, ht, Builder.eq_ok_of_mapError h⟩

/-! ### Texts -/

section Feeding

variable {τ : Type} {s : Symbols} {load : Loader τ} {I : τ → Prop}

variable (hload : ∀ locator base t, I t → I (load locator base t).2)

include hload

section

variable {inner : Feeder τ} (hinner : ∀ p source b {t}, I t → I (inner p source b t).2)

include hinner

theorem feedInclusion_keeps (p : Place) (line : SourceLine) (locator : String) (b : Builder) {t : τ}
    (ht : I t) : I (feedInclusion load inner p line locator b t).2 := by
  have ht₁ := hload locator p.base t ht
  unfold feedInclusion
  rcases hl : load locator p.base t with ⟨e | loaded, t₁⟩ <;> rw [hl] at ht₁
  · exact ht₁
  · dsimp only
    split
    · exact ht₁
    · split
      · exact ht₁
      · exact hinner _ _ _ ht₁

theorem feedAll_keeps (p : Place) :
    ∀ (statements : List SourceStatement) (b : Builder) {t : τ}, I t →
      I (feedAll s load inner p statements b t).2 := by
  intro statements
  induction statements with
  | nil => exact fun b t ht => ht
  | cons st rest ih =>
    intro b t ht
    have hitem : I (feedItem s load inner p st b t).2 := by
      unfold feedItem
      split
      · exact feedInclusion_keeps hload hinner p st.line _ b ht
      · exact ht
    rw [feedAll]
    rcases hf : feedItem s load inner p st b t with ⟨e | b₁, t₁⟩ <;> rw [hf] at hitem
    · exact hitem
    · exact ih b₁ hitem

end

/-- What loads keep true of the state, holds after a text is handed over, through any inclusions. -/
theorem feed_keeps :
    ∀ (n : Nat) (p : Place) (source : List Char) (b : Builder) {t : τ}, I t →
      I (feed s load n p source b t).2 := by
  intro n
  induction n with
  | zero => exact fun p source b t ht => ht
  | succ n ih => exact fun p source b t ht => feedAll_keeps hload ih p _ b ht

end Feeding

end LineScript
