import LineScript.Source

/-!
# What reading a text can fail with

A statement is refused for a cause of its own, on its line.  Beside these errors of the script, an
integer may be too long to be converted, and a symbol table may have no words for true and false:
such failures are no errors of the script.  A text fails as one of its statements does, at an
inclusion, or because a block is open at its end.

## Main definitions

* `FailsWith` — results whose failures have a property.
* `Cause.isOfStatement` — the causes that a single statement is refused for.
* `Refusal` — the failures of a single statement.
* `ReadingFault` — the failures of reading a text that are no errors of the script.
* `ReadingFailure` — these, and errors on lines with a property.

## Main results

* `Builder.refusal_apply` — **a statement is refused on its line, or fails by its numbers or
  words.**
* `failsWith_feed` — **a text fails on one of its lines, or with one of few failures that have
  none.**
-/

namespace LineScript

variable {ε ε' α β : Type}

/-! ### Failures with a property -/

/-- A result that is there, or a failure with a property. -/
def FailsWith (P : ε → Prop) : Except ε α → Prop
  | .ok _ => True
  | .error e => P e

namespace FailsWith

variable {P Q : ε → Prop} {x : Except ε α}

theorem of_error {e : ε} (h : FailsWith P x) (he : x = .error e) : P e := by
  rw [he] at h
  exact h

theorem imp (h : FailsWith P x) (hpq : ∀ e, P e → Q e) : FailsWith Q x := by
  cases x with
  | ok a => trivial
  | error e => exact hpq e h

theorem bind {f : α → Except ε β} (hx : FailsWith P x) (hf : ∀ a, FailsWith P (f a)) :
    FailsWith P (x >>= f) := by
  cases x with
  | ok a => exact hf a
  | error e => exact hx

theorem map (f : α → β) (hx : FailsWith P x) : FailsWith P (x.map f) := by
  cases x with
  | ok a => trivial
  | error e => exact hx

theorem mapError {P : ε' → Prop} {g : ε → ε'} (hx : FailsWith (fun e => P (g e)) x) :
    FailsWith P (x.mapError g) := by
  cases x with
  | ok a => trivial
  | error e => exact hx

end FailsWith

/-! ### Statements -/

/-- The causes that a single statement is refused for.  The others of a text come of an inclusion
or of its end. -/
def Cause.isOfStatement : Cause → Bool
  | .nothingOpen .. | .otherOpen .. | .elseIfAfterElse _ | .duplicateElse _ | .returnOutside
  | .invalidParameter _ | .duplicateParameter | .missingExpression | .invalidExpression ..
  | .invalidCall _ => true
  | _ => false

/-- The failures of a single statement on a line. -/
inductive Refusal (s : Symbols) (line : SourceLine) : Failure → Prop where
  /-- It is refused for a cause of its own. -/
  | cause {c : Cause} : c.isOfStatement = true → Refusal s line (.atLine c line)
  /-- There are no words for true and false. -/
  | words {f : Fault} : s.booleans = .error f → Refusal s line (.fault f)
  /-- An integer has too many digits. -/
  | digits {n : Nat} : digitLimit < n → Refusal s line (.fault (tooManyDigits n))

theorem Failure.atLine_inj {c c' : Cause} {l l' : SourceLine} :
    Failure.atLine c l = Failure.atLine c' l' ↔ c = c' ∧ l = l' := by
  rcases l with ⟨number, text, origin⟩
  rcases l' with ⟨number', text', origin'⟩
  simp only [Failure.atLine, ScriptError.onLine, Failure.script.injEq, ScriptError.mk.injEq,
    Option.some.injEq, SourceLine.mk.injEq, Int.ofNat_inj]

theorem Refusal.isOfStatement {s : Symbols} {line line' : SourceLine} {c : Cause}
    (h : Refusal s line (.atLine c line')) : c.isOfStatement = true := by
  generalize hf : Failure.atLine c line' = f at h
  cases h with
  | cause hcause => rwa [(Failure.atLine_inj.1 hf).1]
  | words | digits => cases hf

theorem Literal.failsWith_ofNumber (text : List Char) :
    FailsWith (fun f => ∃ n, digitLimit < n ∧ f = tooManyDigits n) (Literal.ofNumber text) := by
  unfold Literal.ofNumber
  split
  · trivial
  · split
    next hlong => exact ⟨_, hlong, rfl⟩
    next => trivial

section Terms

variable (s : Symbols) (yes : String) (line : SourceLine)

mutual

/-- A term has no expression only when one of its integers is too long. -/
theorem Term.failsWith_lower : ∀ t : Term,
    FailsWith (fun f => ∃ n, digitLimit < n ∧ f = tooManyDigits n) (t.lower s yes line)
  | .number text => by
    rw [Term.lower]
    exact (Literal.failsWith_ofNumber text).map _
  | .string _ | .null | .boolean _ | .reference _ => by
    rw [Term.lower]
    trivial
  | .call _ args => by
    rw [Term.lower]
    exact (failsWith_lowerAll args).map _
  | .negation operand => by
    rw [Term.lower]
    exact operand.failsWith_lower.map _
  | .binary _ _ left right => by
    rw [Term.lower]
    exact left.failsWith_lower.bind fun _ => right.failsWith_lower.bind fun _ => trivial

theorem failsWith_lowerAll : ∀ ts : List Term,
    FailsWith (fun f => ∃ n, digitLimit < n ∧ f = tooManyDigits n) (lowerAll s yes line ts)
  | [] => by
    rw [lowerAll]
    trivial
  | t :: ts => by
    rw [lowerAll]
    exact t.failsWith_lower.bind fun _ => (failsWith_lowerAll ts).bind fun _ => trivial

end

end Terms

variable {s : Symbols} {line : SourceLine}

theorem refusal_readExpression (text : List Char) :
    FailsWith (Refusal s line) (readExpression s line text) := by
  unfold readExpression
  dsimp only
  split
  · exact .cause rfl
  · split
    next f hwords => exact .words hwords
    next words _ =>
      split
      · exact .cause rfl
      · refine .mapError ((Term.failsWith_lower s words.1 line _).imp ?_)
        rintro f ⟨n, hn, rfl⟩
        exact .digits hn

namespace Builder

variable (b : Builder) (text : List Char)

/-- A result, or a cause of a single statement. -/
theorem ofStatement_expect (kind : BlockKind) :
    FailsWith (fun c => Cause.isOfStatement c = true) (b.expect kind text) := by
  unfold expect
  split
  · rfl
  · split
    · trivial
    · rfl

theorem ofStatement_closeBlock (kind : BlockKind) :
    FailsWith (fun c => Cause.isOfStatement c = true) (b.closeBlock kind text) :=
  (ofStatement_expect b text kind).bind fun _ => trivial

theorem ofStatement_openOtherwise :
    FailsWith (fun c => Cause.isOfStatement c = true) (b.openOtherwise text) := by
  refine (ofStatement_expect b text .conditional).bind fun x => ?_
  split
  · trivial
  · rfl

theorem ofStatement_expectBranch :
    FailsWith (fun c => Cause.isOfStatement c = true) (b.expectBranch text) := by
  refine (ofStatement_expect b text .conditional).bind fun x => ?_
  split
  · trivial
  · rfl

theorem ofStatement_readParams (params : List Char) :
    FailsWith (fun c => Cause.isOfStatement c = true) (readParams params) := by
  unfold readParams
  dsimp only
  split
  · rfl
  · split
    · trivial
    · rfl

theorem refusal_mapError {x : Except Cause α}
    (hx : FailsWith (fun c => Cause.isOfStatement c = true) x) :
    FailsWith (Refusal s line) (x.mapError (.atLine · line)) :=
  .mapError (hx.imp fun _ hc => .cause hc)

theorem refusal_assignment (name : List Char) (operator : Option (List Char))
    (expression : List Char) :
    FailsWith (Refusal s line) (assignment s line name operator expression) := by
  refine (refusal_readExpression expression).bind fun e => ?_
  split <;> trivial

theorem refusal_bareCall (name arguments : List Char) :
    FailsWith (Refusal s line) (bareCall s line text name arguments) := by
  refine (refusal_readExpression _).bind fun e => ?_
  split
  · trivial
  · exact .cause rfl

theorem refusal_returning (expression : List Char) :
    FailsWith (Refusal s line) (b.returning s line expression) := by
  unfold returning
  split
  · exact .cause rfl
  · split
    · trivial
    · exact (refusal_readExpression expression).bind fun _ => trivial

/-- **A statement is refused on its line, or fails by its numbers or words.** -/
theorem refusal_apply (item : Item) : FailsWith (Refusal s line) (b.apply s line text item) := by
  cases item with
  | comment | inclusion | importing => trivial
  | loopClose | functionClose | ifClose => exact refusal_mapError (ofStatement_closeBlock b text _)
  | loopOpen condition | ifOpen condition =>
    exact (refusal_readExpression condition).bind fun _ => trivial
  | functionOpen name params =>
    exact (refusal_mapError (ofStatement_readParams params)).bind fun _ => trivial
  | otherwise => exact refusal_mapError (ofStatement_openOtherwise b text)
  | elseIf condition =>
    refine (refusal_mapError (ofStatement_expectBranch b text)).bind fun _ => ?_
    exact (refusal_readExpression condition).bind fun _ => trivial
  | returning expression => exact (refusal_returning b expression).bind fun _ => trivial
  | assignment name operator expression =>
    exact (refusal_assignment name operator expression).bind fun _ => trivial
  | bareCall name arguments => exact (refusal_bareCall text name arguments).bind fun _ => trivial
  | expression => exact (refusal_readExpression text).bind fun _ => trivial

end Builder

/-! ### Texts -/

/-- The failures of reading a text that are no errors of the script: the words or the digits of a
statement, a load that fails in a way of its own, a loaded text that is missing, and inclusions that
are nested too deeply. -/
inductive ReadingFault {τ : Type} (s : Symbols) (load : Loader τ) : Fault → Prop where
  | words {f : Fault} : s.booleans = .error f → ReadingFault s load f
  | digits {n : Nat} : digitLimit < n → ReadingFault s load (tooManyDigits n)
  | loading {f : Fault} {locator : String} {base : Option String} {t t' : τ} :
      load locator base t = (.error f, t') → f.cls.spoilsInclusion = false → ReadingFault s load f
  | missing {loaded : Loaded} {locator : String} {base : Option String} {t t' : τ} :
      load locator base t = (.ok loaded, t') → loaded.text = none → ReadingFault s load missingText
  | tooDeep : ReadingFault s load tooDeep

/-- The failures of reading a text whose lines have a property: an error of the script on a line
with it, or a failure that is none. -/
inductive ReadingFailure {τ : Type} (s : Symbols) (load : Loader τ) (P : SourceLine → Prop) :
    Failure → Prop where
  | script {c : Cause} {line : SourceLine} : P line → ReadingFailure s load P (.atLine c line)
  | fault {f : Fault} : ReadingFault s load f → ReadingFailure s load P (.fault f)

section Texts

variable {τ : Type} {load : Loader τ} {P : SourceLine → Prop}

theorem Refusal.readingFailure {f : Failure} (hline : P line) (h : Refusal s line f) :
    ReadingFailure s load P f := by
  cases h with
  | cause _ => exact .script hline
  | words h => exact .fault (.words h)
  | digits h => exact .fault (.digits h)

theorem failsWith_feedInclusion {inner : Feeder τ} {p : Place} (hline : P line) (locator : String)
    (b : Builder) (t : τ)
    (hinner : ∀ origin text t,
      FailsWith (ReadingFailure s load P) (inner (p.inside origin) text b t).1) :
    FailsWith (ReadingFailure s load P) (feedInclusion load inner p line locator b t).1 := by
  unfold feedInclusion
  split
  next f t₁ hload =>
    show ReadingFailure s load P (inclusionFailure line locator f)
    unfold inclusionFailure
    split
    · exact .script hline
    next hspoils => exact .fault (.loading hload (by simpa using hspoils))
  next loaded t₁ hload =>
    split
    · exact .script hline
    · split
      next htext => exact .fault (.missing hload htext)
      next => exact hinner _ _ _

theorem failsWith_feedAll {inner : Feeder τ} {p : Place}
    (hinner : ∀ origin text b t,
      FailsWith (ReadingFailure s load P) (inner (p.inside origin) text b t).1) :
    ∀ (sts : List SourceStatement) (b : Builder) (t : τ), (∀ st ∈ sts, P st.line) →
      FailsWith (ReadingFailure s load P) (feedAll s load inner p sts b t).1 := by
  intro sts
  induction sts with
  | nil => exact fun _ _ _ => trivial
  | cons st rest ih =>
    intro b t hsts
    have hline := hsts st List.mem_cons_self
    have hitem : FailsWith (ReadingFailure s load P) (feedItem s load inner p st b t).1 := by
      unfold feedItem
      split
      · exact failsWith_feedInclusion hline _ b t fun origin text => hinner origin text b
      · exact (b.refusal_apply st.text st.item).imp fun _ hf => hf.readingFailure hline
    rw [feedAll]
    rcases hfed : feedItem s load inner p st b t with ⟨f | b₁, t₁⟩ <;> rw [hfed] at hitem
    · exact hitem
    · exact ih b₁ t₁ fun st' hst' => hsts st' (List.mem_cons_of_mem st hst')

/-- **A text fails on one of its lines, or with one of few failures that have none.** -/
theorem failsWith_feed
    (hloaded : ∀ origin text, ∀ st ∈ statementsOf s (some origin) text, P st.line) :
    ∀ (n : Nat) {p : Place} {source : List Char} (b : Builder) (t : τ),
      (∀ st ∈ statementsOf s p.origin source, P st.line) →
        FailsWith (ReadingFailure s load P) (feed s load n p source b t).1 := by
  intro n
  induction n with
  | zero => exact fun _ _ _ => .fault .tooDeep
  | succ n ih =>
    intro p source b t hsource
    exact failsWith_feedAll (fun origin text b t => ih b t (hloaded origin text)) _ b t hsource

end Texts

end LineScript
