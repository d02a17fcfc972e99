import LineScript.Form

/-!
# The grammar of blocks

To the blocks of a script a statement is one of ten things: it opens or closes a loop, a
function or a conditional, it begins a further branch or the last one, it returns, or it is
none of these.  The sequences that make a script are given by a grammar, in which a return
may stand only inside a function.

The same sequences are accepted by a stack: a statement that opens a block pushes it, one
that closes a block pops it, and the two that divide a conditional change what is on top.
Every block on the stack carries a label, which is whatever came with the statement that
opened it.

## Main definitions

* `Terminal`, `Item.terminal?` — what a statement is to the grammar.
* `Phrase`, `Derives` — the grammar.
* `Viable` — the beginnings of what the grammar derives.
* `Nest`, `Nest.step`, `Nest.run` — the stack.

## Main results

* `derives_iff_run` — the grammar derives what leaves the stack empty.
* `viable_iff_run` — a sequence can be completed if and only if the stack does not refuse it.
* `explains_of_run` — every open block begins with the statement it is labelled by.
-/

namespace LineScript

/-! ### The grammar -/

/-- What a statement is to the grammar of blocks. -/
inductive Terminal where
  /-- The beginning of a loop. -/
  | loopOpen
  /-- The end of a loop. -/
  | loopClose
  /-- The beginning of a function. -/
  | functionOpen
  /-- The end of a function. -/
  | functionClose
  /-- The beginning of a conditional. -/
  | ifOpen
  /-- The beginning of a further branch. -/
  | elseIf
  /-- The beginning of the last branch. -/
  | otherwise
  /-- The end of a conditional. -/
  | ifClose
  /-- A return. -/
  | returning
  /-- Any other statement. -/
  | simple
  deriving DecidableEq, Repr, Inhabited

/-- What an item is to the grammar of blocks; comments are nothing to it, and inclusions
nothing of their own. -/
def Item.terminal? : Item → Option Terminal
  | .comment | .inclusion _ => none
  | .loopOpen _ => some .loopOpen
  | .loopClose => some .loopClose
  | .functionOpen .. => some .functionOpen
  | .functionClose => some .functionClose
  | .ifOpen _ => some .ifOpen
  | .elseIf _ => some .elseIf
  | .otherwise => some .otherwise
  | .ifClose => some .ifClose
  | .returning _ => some .returning
  | .importing _ | .assignment .. | .bareCall .. | .expression => some .simple

/-- What the grammar derives sequences from. -/
inductive Phrase where
  /-- The statements of a block. -/
  | body
  /-- One statement, or one whole block. -/
  | item
  /-- The further branches of a conditional. -/
  | elseIfs
  /-- The last branch of a conditional, if there is one. -/
  | lastElse
  deriving DecidableEq, Repr, Inhabited

/-- `Derives inside p w` says that the grammar derives the sequence `w` from the phrase `p`,
where `inside` tells whether a function is around it. -/
inductive Derives : Bool → Phrase → List Terminal → Prop
  /-- A body may be empty. -/
  | done {inside : Bool} : Derives inside .body []
  /-- A body goes on with an item. -/
  | more {inside : Bool} {w v : List Terminal} :
    Derives inside .item w → Derives inside .body v → Derives inside .body (w ++ v)
  /-- A simple statement is an item. -/
  | simple {inside : Bool} : Derives inside .item [.simple]
  /-- A return is an item inside a function. -/
  | returning : Derives true .item [.returning]
  /-- A loop is an item. -/
  | loop {inside : Bool} {w : List Terminal} :
    Derives inside .body w → Derives inside .item (.loopOpen :: w ++ [.loopClose])
  /-- A function is an item. -/
  | function {inside : Bool} {w : List Terminal} :
    Derives true .body w → Derives inside .item (.functionOpen :: w ++ [.functionClose])
  /-- A conditional is an item. -/
  | conditional {inside : Bool} {w v u : List Terminal} :
    Derives inside .body w → Derives inside .elseIfs v → Derives inside .lastElse u →
      Derives inside .item (.ifOpen :: w ++ v ++ u ++ [.ifClose])
  /-- There may be no further branches. -/
  | noElseIf {inside : Bool} : Derives inside .elseIfs []
  /-- A further branch, and those behind it. -/
  | elseIf {inside : Bool} {w v : List Terminal} :
    Derives inside .body w → Derives inside .elseIfs v → Derives inside .elseIfs (.elseIf :: w ++ v)
  /-- There may be no last branch. -/
  | noElse {inside : Bool} : Derives inside .lastElse []
  /-- A last branch. -/
  | lastElse {inside : Bool} {w : List Terminal} :
    Derives inside .body w → Derives inside .lastElse (.otherwise :: w)

/-- A sequence that something can be put behind to make a script. -/
def Viable (w : List Terminal) : Prop := ∃ v, Derives false .body (w ++ v)

/-! ### The stack -/

/-- What stands on the stack for an open block. -/
inductive Shape where
  /-- A loop. -/
  | loop
  /-- A function. -/
  | function
  /-- A conditional, in a branch under a condition. -/
  | branch
  /-- A conditional, in its last branch. -/
  | otherwise
  deriving DecidableEq, Repr, Inhabited

/-- The kind of block that a shape belongs to. -/
def Shape.kind : Shape → BlockKind
  | .loop => .loop
  | .function => .function
  | .branch | .otherwise => .conditional

/-- The terminal that opens a block of a kind. -/
def Terminal.opener : BlockKind → Terminal
  | .loop => .loopOpen
  | .function => .functionOpen
  | .conditional => .ifOpen

/-- The terminal that closes a block of a kind. -/
def Terminal.closer : BlockKind → Terminal
  | .loop => .loopClose
  | .function => .functionClose
  | .conditional => .ifClose

/-- The open blocks with their labels, the innermost first. -/
abbrev Nest (α : Type) := List (Shape × α)

namespace Nest

variable {α β : Type}

/-- Whether a function is around what stands inside open blocks; `inside` tells whether one
is around all of them. -/
def inFunction (inside : Bool) (n : Nest α) : Bool := inside || n.any fun e => e.1 == .function

/-- The open blocks after one more statement; none if the statement cannot stand there. -/
def step (inside : Bool) : Nest α → Terminal × α → Option (Nest α)
  | n, (.simple, _) => some n
  | n, (.returning, _) => if inFunction inside n then some n else none
  | n, (.loopOpen, a) => some ((.loop, a) :: n)
  | n, (.functionOpen, a) => some ((.function, a) :: n)
  | n, (.ifOpen, a) => some ((.branch, a) :: n)
  | (.branch, a) :: n, (.elseIf, _) => some ((.branch, a) :: n)
  | (.branch, a) :: n, (.otherwise, _) => some ((.otherwise, a) :: n)
  | (.loop, _) :: n, (.loopClose, _) => some n
  | (.function, _) :: n, (.functionClose, _) => some n
  | (.branch, _) :: n, (.ifClose, _) => some n
  | (.otherwise, _) :: n, (.ifClose, _) => some n
  | _, _ => none

/-- A statement that closes a block needs the innermost one to be of its kind, and pops it. -/
theorem step_closer (inside : Bool) (n : Nest α) (k : BlockKind) (a : α) :
    n.step inside (Terminal.closer k, a) =
      match n with
      | [] => none
      | e :: rest => if e.1.kind = k then some rest else none := by
  cases k <;> rcases n with _ | ⟨⟨_ | _ | _ | _, b⟩, n⟩ <;> rfl

/-- No label is new but that of the statement. -/
theorem labels_of_step {inside : Bool} {n n' : Nest α} {terminal : Terminal} {a : α}
    (h : n.step inside (terminal, a) = some n') :
    ∀ b ∈ n'.map Prod.snd, b = a ∨ b ∈ n.map Prod.snd := by
  cases terminal
  case returning =>
    simp only [step] at h
    split at h <;> cases h
    exact fun _ => .inr
  all_goals
    rcases n with _ | ⟨⟨_ | _ | _ | _, c⟩, n⟩ <;> cases h
    all_goals simp +contextual

/-- The open blocks after several statements. -/
def run (inside : Bool) : Nest α → List (Terminal × α) → Option (Nest α)
  | n, [] => some n
  | n, x :: xs => (n.step inside x).bind fun n' => run inside n' xs

@[simp] theorem run_nil (inside : Bool) (n : Nest α) : n.run inside [] = some n := rfl

@[simp] theorem run_cons (inside : Bool) (n : Nest α) (x : Terminal × α) (xs : List (Terminal × α)) :
    n.run inside (x :: xs) = (n.step inside x).bind fun n' => n'.run inside xs := rfl

theorem run_append (inside : Bool) : ∀ (xs ys : List (Terminal × α)) (n : Nest α),
    n.run inside (xs ++ ys) = (n.run inside xs).bind fun n' => n'.run inside ys := by
  intro xs ys
  induction xs with
  | nil => intro n; rfl
  | cons x xs ih =>
    intro n
    rw [List.cons_append, run_cons, run_cons]
    cases n.step inside x with
    | none => rfl
    | some n' => exact ih n'

/-! ### Labels and surroundings -/

/-- The labels of open blocks changed. -/
def relabel (f : α → β) (n : Nest α) : Nest β := n.map fun e => (e.1, f e.2)

@[simp] theorem relabel_nil (f : α → β) : relabel f ([] : Nest α) = [] := rfl

@[simp] theorem relabel_cons (f : α → β) (e : Shape × α) (n : Nest α) :
    relabel f (e :: n) = (e.1, f e.2) :: relabel f n := rfl

@[simp] theorem inFunction_relabel (f : α → β) (inside : Bool) (n : Nest α) :
    inFunction inside (relabel f n) = inFunction inside n := by
  simp [inFunction, relabel, List.any_map, Function.comp_def]

@[simp] theorem inFunction_nil (inside : Bool) : inFunction inside ([] : Nest α) = inside := by
  simp [inFunction]

@[simp] theorem inFunction_cons (inside : Bool) (e : Shape × α) (n : Nest α) :
    inFunction inside (e :: n) = (decide (e.1 = .function) || inFunction inside n) := by
  simp only [inFunction, List.any_cons, Bool.beq_eq_decide_eq, Bool.or_left_comm]

theorem inFunction_append (inside : Bool) (n m : Nest α) :
    inFunction inside (n ++ m) = inFunction (inFunction inside m) n := by
  simp only [inFunction, List.any_append]
  cases inside <;> cases n.any _ <;> cases m.any _ <;> rfl

/-- What the stack does depends on the labels only in the labels it keeps. -/
theorem step_relabel (f : α → β) (inside : Bool) (n : Nest α) (x : Terminal × α) :
    (relabel f n).step inside (x.1, f x.2) = (n.step inside x).map (relabel f) := by
  obtain ⟨t, a⟩ := x
  cases t with
  | returning =>
    simp only [step, inFunction_relabel]
    split <;> rfl
  | _ => rcases n with _ | ⟨⟨_ | _ | _ | _, b⟩, n⟩ <;> rfl

theorem run_relabel (f : α → β) (inside : Bool) : ∀ (xs : List (Terminal × α)) (n : Nest α),
    (relabel f n).run inside (xs.map fun x => (x.1, f x.2)) = (n.run inside xs).map (relabel f) := by
  intro xs
  induction xs with
  | nil => intro n; rfl
  | cons x xs ih =>
    intro n
    rw [List.map_cons, run_cons, run_cons, step_relabel]
    cases n.step inside x with
    | none => rfl
    | some n' => exact ih n'

/-- What the stack does above other open blocks it also does with them below. -/
theorem step_append {inside : Bool} {n m n' : Nest α} {x : Terminal × α}
    (h : n.step (inFunction inside m) x = some n') : (n ++ m).step inside x = some (n' ++ m) := by
  obtain ⟨t, a⟩ := x
  cases t with
  | returning =>
    simp only [step] at h ⊢
    rw [inFunction_append]
    split at h
    · next hf => cases h; rw [if_pos hf]
    · cases h
  | simple | loopOpen | functionOpen | ifOpen => cases h; rfl
  | _ => rcases n with _ | ⟨⟨_ | _ | _ | _, b⟩, n⟩ <;> cases h <;> rfl

theorem run_append_below {inside : Bool} {m : Nest α} :
    ∀ {xs : List (Terminal × α)} {n n' : Nest α}, n.run (inFunction inside m) xs = some n' →
      (n ++ m).run inside xs = some (n' ++ m) := by
  intro xs
  induction xs with
  | nil => intro n n' h; cases h; rfl
  | cons x xs ih =>
    intro n n' h
    rw [run_cons] at h ⊢
    cases hx : n.step (inFunction inside m) x with
    | none => rw [hx] at h; cases h
    | some n₁ =>
      rw [hx] at h
      rw [step_append hx]
      exact ih h

end Nest

/-! ### What the grammar derives is accepted -/

/-- A sequence of terminals, without labels. -/
def unlabelled (w : List Terminal) : List (Terminal × Unit) := w.map fun t => (t, ())

@[simp] theorem unlabelled_append (w v : List Terminal) :
    unlabelled (w ++ v) = unlabelled w ++ unlabelled v := List.map_append

@[simp] theorem unlabelled_cons (t : Terminal) (w : List Terminal) :
    unlabelled (t :: w) = (t, ()) :: unlabelled w := rfl

@[simp] theorem unlabelled_nil : unlabelled [] = [] := rfl

/-- What the stack does with a sequence that a phrase derives: a body and an item leave it as
it is, and the branches of a conditional leave the conditional on top. -/
def Accepts (inside : Bool) (p : Phrase) (w : List Terminal) : Prop :=
  match p with
  | .body | .item => Nest.run inside [] (unlabelled w) = some []
  | .elseIfs => Nest.run inside [(.branch, ())] (unlabelled w) = some [(.branch, ())]
  | .lastElse => ∃ sh, (sh = .branch ∨ sh = .otherwise) ∧
      Nest.run inside [(.branch, ())] (unlabelled w) = some [(sh, ())]

theorem run_body {inside : Bool} {w : List Terminal} {n : Nest Unit}
    (h : Accepts (Nest.inFunction inside n) .body w) :
    n.run inside (unlabelled w) = some n := by
  have := Nest.run_append_below h
  simpa using this

theorem accepts_of_derives {inside : Bool} {p : Phrase} {w : List Terminal}
    (h : Derives inside p w) : Accepts inside p w := by
  induction h with
  | done => rfl
  | more _ _ ih₁ ih₂ =>
    simp only [Accepts] at ih₁ ih₂ ⊢
    rw [unlabelled_append, Nest.run_append, ih₁]
    exact ih₂
  | simple => rfl
  | returning => rfl
  | @loop inside w _ ih =>
    have hbody : Nest.run inside [(.loop, ())] (unlabelled w) = some [(.loop, ())] :=
      run_body (by simpa using ih)
    simp [Accepts, Nest.step, Nest.run_append, hbody]
  | @function inside w _ ih =>
    have hbody : Nest.run inside [(.function, ())] (unlabelled w) = some [(.function, ())] :=
      run_body (by simpa using ih)
    simp [Accepts, Nest.step, Nest.run_append, hbody]
  | @conditional inside w v u _ _ _ ih₁ ih₂ ih₃ =>
    have hbody : Nest.run inside [(.branch, ())] (unlabelled w) = some [(.branch, ())] :=
      run_body (by simpa using ih₁)
    obtain ⟨sh, hsh, hlast⟩ := ih₃
    simp only [Accepts] at ih₂
    rcases hsh with rfl | rfl <;>
      simp [Accepts, Nest.step, Nest.run_append, hbody, ih₂, hlast]
  | noElseIf => rfl
  | @elseIf inside w v _ _ ih₁ ih₂ =>
    have hbody : Nest.run inside [(.branch, ())] (unlabelled w) = some [(.branch, ())] :=
      run_body (by simpa using ih₁)
    simp only [Accepts] at ih₂
    simp [Accepts, Nest.step, Nest.run_append, hbody, ih₂]
  | noElse => exact ⟨.branch, Or.inl rfl, rfl⟩
  | @lastElse inside w _ ih =>
    have hbody : Nest.run inside [(.otherwise, ())] (unlabelled w) = some [(.otherwise, ())] :=
      run_body (by simpa using ih)
    exact ⟨.otherwise, Or.inr rfl, by simpa [Nest.step] using hbody⟩

variable {α : Type} {sh : Shape} {xs : List (Terminal × α)}

/-- Labels make no difference to what the stack accepts. -/
theorem run_unlabelled (xs : List (Terminal × α)) :
    Nest.run false [] (unlabelled (xs.map Prod.fst)) =
      (Nest.run false [] xs).map (Nest.relabel fun _ => ()) := by
  rw [← Nest.run_relabel, Nest.relabel_nil]
  simp [unlabelled, Function.comp_def]

/-! ### What is accepted is derived -/

/-- What stands behind the beginning of an open block of a shape. -/
def Partial (inside : Bool) (sh : Shape) (w : List Terminal) : Prop :=
  match sh with
  | .loop => Derives inside .body w
  | .function => Derives true .body w
  | .branch => ∃ u v, w = u ++ v ∧ Derives inside .body u ∧ Derives inside .elseIfs v
  | .otherwise => ∃ u v x, w = u ++ v ++ .otherwise :: x ∧ Derives inside .body u ∧
      Derives inside .elseIfs v ∧ Derives inside .body x

namespace Derives

variable {inside : Bool}

theorem body_append_item {w x : List Terminal} (h : Derives inside .body w)
    (hx : Derives inside .item x) : Derives inside .body (w ++ x) := by
  generalize hp : Phrase.body = p at h
  induction h with
  | done => simpa using more hx done
  | more hitem _ _ ih =>
    rw [List.append_assoc]
    exact more hitem (ih hx hp)
  | _ => cases hp

theorem elseIfs_append {v u : List Terminal} (h : Derives inside .elseIfs v)
    (hu : Derives inside .elseIfs u) : Derives inside .elseIfs (v ++ u) := by
  generalize hp : Phrase.elseIfs = p at h
  induction h with
  | noElseIf => exact hu
  | elseIf hbody _ _ ih =>
    rw [List.cons_append, List.cons_append, List.append_assoc, ← List.cons_append]
    exact elseIf hbody (ih hu hp)
  | _ => cases hp

/-- An item behind further branches joins the last of them. -/
theorem elseIfs_append_item {v x : List Terminal} (h : Derives inside .elseIfs v)
    (hx : Derives inside .item x) : v = [] ∨ Derives inside .elseIfs (v ++ x) := by
  generalize hp : Phrase.elseIfs = p at h
  induction h with
  | noElseIf => exact Or.inl rfl
  | @elseIf _ w v hbody _ _ ih =>
    refine Or.inr ?_
    rcases ih hx hp with rfl | hv
    · have := elseIf (hbody.body_append_item hx) noElseIf
      simpa using this
    · have := elseIf hbody hv
      simpa using this
  | _ => cases hp

end Derives

/-- An item may stand behind what is there of an open block. -/
theorem Partial.append_item {inside : Bool} {w x : List Terminal} (h : Partial inside sh w)
    (hx : Derives (decide (sh = .function) || inside) .item x) : Partial inside sh (w ++ x) := by
  cases sh with
  | loop | function => exact Derives.body_append_item h (by simpa using hx)
  | branch =>
    obtain ⟨u, v, rfl, hu, hv⟩ := h
    have hx : Derives inside .item x := by simpa using hx
    rcases hv.elseIfs_append_item hx with rfl | hv'
    · exact ⟨u ++ x, [], by simp, hu.body_append_item hx, .noElseIf⟩
    · exact ⟨u, v ++ x, by simp, hu, hv'⟩
  | otherwise =>
    obtain ⟨u, v, y, rfl, hu, hv, hy⟩ := h
    have hx : Derives inside .item x := by simpa using hx
    exact ⟨u, v, y ++ x, by simp, hu, hv, hy.body_append_item hx⟩

/-- An open block with its closing mark is an item. -/
theorem Partial.item {inside : Bool} {w : List Terminal} (h : Partial inside sh w) :
    Derives inside .item (Terminal.opener sh.kind :: w ++ [Terminal.closer sh.kind]) := by
  cases sh with
  | loop => exact .loop h
  | function => exact .function h
  | branch =>
    obtain ⟨u, v, rfl, hu, hv⟩ := h
    have := Derives.conditional hu hv .noElse
    simpa [Shape.kind, Terminal.opener, Terminal.closer] using this
  | otherwise =>
    obtain ⟨u, v, x, rfl, hu, hv, hx⟩ := h
    have := Derives.conditional hu hv (.lastElse hx)
    simpa [Shape.kind, Terminal.opener, Terminal.closer] using this

/-- How open blocks explain a sequence: each of them begins with the statement it is labelled
by, in front of which stand the blocks around it, and behind which stands a part of it. -/
def Explains {α : Type} (inside : Bool) : Nest α → List (Terminal × α) → Prop
  | [], xs => Derives inside .body (xs.map Prod.fst)
  | (sh, a) :: n, xs => ∃ pre post, xs = pre ++ (Terminal.opener sh.kind, a) :: post ∧
      Explains inside n pre ∧ Partial (Nest.inFunction inside n) sh (post.map Prod.fst)

/-- An item joins the innermost open block. -/
theorem Explains.append_item {inside : Bool} {n : Nest α} {ys : List (Terminal × α)}
    (h : Explains inside n xs) (hy : Derives (Nest.inFunction inside n) .item (ys.map Prod.fst)) :
    Explains inside n (xs ++ ys) := by
  cases n with
  | nil =>
    simp only [Explains, List.map_append] at h ⊢
    exact h.body_append_item (by simpa using hy)
  | cons e n =>
    obtain ⟨sh, a⟩ := e
    obtain ⟨pre, post, rfl, hpre, hpost⟩ := h
    refine ⟨pre, post ++ ys, by simp, hpre, ?_⟩
    rw [List.map_append]
    exact hpost.append_item (by simpa using hy)

/-- A closing mark makes an item of the innermost open block, which joins the one around it. -/
theorem Explains.close {inside : Bool} {a b : α} {n : Nest α}
    (h : Explains inside ((sh, a) :: n) xs) :
    Explains inside n (xs ++ [(Terminal.closer sh.kind, b)]) := by
  obtain ⟨pre, post, rfl, hpre, hpost⟩ := h
  rw [List.append_assoc]
  refine hpre.append_item ?_
  have := hpost.item
  simpa using this

/-- One more statement that the stack accepts is explained by the stack after it. -/
theorem Explains.step {inside : Bool} {n n' : Nest α} {x : Terminal × α} (h : Explains inside n xs)
    (hx : n.step inside x = some n') : Explains inside n' (xs ++ [x]) := by
  obtain ⟨t, a⟩ := x
  cases t with
  | simple => cases hx; exact h.append_item .simple
  | returning =>
    simp only [Nest.step] at hx
    split at hx
    · next hf =>
      cases hx
      refine h.append_item ?_
      rw [hf]
      exact .returning
    · cases hx
  | loopOpen | functionOpen => cases hx; exact ⟨xs, [], rfl, h, .done⟩
  | ifOpen => cases hx; exact ⟨xs, [], rfl, h, [], [], rfl, .done, .noElseIf⟩
  | elseIf =>
    -- only a branch under a condition takes an else-if
    rcases n with _ | ⟨⟨_ | _ | _ | _, b⟩, n⟩ <;> cases hx
    obtain ⟨pre, post, rfl, hpre, u, v, hpost, hu, hv⟩ := h
    refine ⟨pre, post ++ [(.elseIf, a)], by simp, hpre, u, v ++ [.elseIf], by simp [hpost], hu, ?_⟩
    have := hv.elseIfs_append (.elseIf .done .noElseIf)
    simpa using this
  | otherwise =>
    rcases n with _ | ⟨⟨_ | _ | _ | _, b⟩, n⟩ <;> cases hx
    obtain ⟨pre, post, rfl, hpre, u, v, hpost, hu, hv⟩ := h
    exact ⟨pre, post ++ [(.otherwise, a)], by simp [Shape.kind], hpre, u, v, [], by simp [hpost],
      hu, hv, .done⟩
  | loopClose | functionClose | ifClose =>
    rcases n with _ | ⟨⟨_ | _ | _ | _, b⟩, n⟩ <;> cases hx <;> exact h.close

/-- What the stack accepts behind a sequence that it explains is explained with it. -/
theorem Explains.run {inside : Bool} :
    ∀ {ys xs : List (Terminal × α)} {n n' : Nest α}, Explains inside n xs →
      n.run inside ys = some n' → Explains inside n' (xs ++ ys) := by
  intro ys
  induction ys with
  | nil => intro xs n n' h hrun; cases hrun; simpa using h
  | cons y ys ih =>
    intro xs n n' h hrun
    rw [Nest.run_cons] at hrun
    cases hy : n.step inside y with
    | none => rw [hy] at hrun; cases hrun
    | some n₁ =>
      rw [hy] at hrun
      have := ih (h.step hy) hrun
      simpa using this

/-- Every sequence that the stack accepts is explained by what is left on it. -/
theorem explains_of_run {inside : Bool} {n : Nest α} (h : Nest.run inside [] xs = some n) :
    Explains inside n xs := by
  have hnil : Explains inside ([] : Nest α) [] := Derives.done
  exact hnil.run h

/-! ### Main results -/

/-- **The grammar derives exactly the sequences that leave the stack empty.** -/
theorem derives_iff_run :
    Derives false .body (xs.map Prod.fst) ↔ Nest.run false ([] : Nest α) xs = some [] := by
  constructor
  · intro h
    have hrun : Nest.run false [] (unlabelled (xs.map Prod.fst)) = some [] := accepts_of_derives h
    rw [run_unlabelled] at hrun
    obtain ⟨n, hn, hnil⟩ := Option.map_eq_some_iff.mp hrun
    rw [hn]
    simpa [Nest.relabel] using hnil
  · intro h
    exact explains_of_run h

/-- The marks that close all open blocks. -/
def Nest.closers {α : Type} (n : Nest α) : List (Terminal × α) :=
  n.map fun e => (Terminal.closer e.1.kind, e.2)

theorem Nest.run_closers (inside : Bool) : ∀ n : Nest α,
    n.run inside n.closers = some [] := by
  intro n
  induction n with
  | nil => rfl
  | cons e n ih => rcases e with ⟨_ | _ | _ | _, a⟩ <;> exact ih

/-- **A sequence can be completed if and only if the stack does not refuse it.** -/
theorem viable_iff_run :
    Viable (xs.map Prod.fst) ↔ ∃ n, Nest.run false ([] : Nest α) xs = some n := by
  constructor
  · rintro ⟨v, hv⟩
    have hrun : Nest.run false [] (unlabelled (xs.map Prod.fst ++ v)) = some [] :=
      accepts_of_derives hv
    rw [unlabelled_append, Nest.run_append, run_unlabelled] at hrun
    cases hxs : Nest.run false [] xs with
    | none => rw [hxs] at hrun; cases hrun
    | some n => exact ⟨n, rfl⟩
  · rintro ⟨n, hn⟩
    refine ⟨n.closers.map Prod.fst, ?_⟩
    rw [← List.map_append, derives_iff_run, Nest.run_append, hn]
    exact Nest.run_closers false n

end LineScript
