import Mathlib.Data.List.Basic
import LineScript.Proofs.FlagPassing
import LineScript.Proofs.Handling
import LineScript.Proofs.KeptLines
import LineScript.Proofs.Masking
import LineScript.Proofs.Rendering

/-!
# The excerpt of a report

The report of a failure shows the lines around the place of the failure, with a mark at one of them.
The place is a line that was read: its number and its text are those of a line of one of the texts
that were run so far.  But the excerpt is taken from the text that is being handled, by the number.
So the marked line has the number of the place, and it has the text of the place where that line is
one of the text that is being handled; in a function of an earlier text it need not be.

## Main definitions

* `LineOf` — lines of some texts, and of texts that were loaded.
* `Marks` — an excerpt in which one line is marked.

## Main results

* `marks_excerpt` — the excerpt of a text marks the line of the number.
* `exists_line_of_token` — the place of a failure is a line of one of the texts.
* `excerpt_of_reported` — **the excerpt of a report, and the place of the failure.**
-/

namespace LineScript

open Run

/-! ### Excerpts -/

/-- An excerpt in which one line is marked, that of a number, with a text. -/
def Marks (shown : String) (number : Nat) (text : List Char) : Prop :=
  ∃ before row after, shown = String.intercalate "\n" (before ++ row :: after) ∧
    (∃ k, row.toList =
      '>' :: ' ' :: (List.replicate k ' ' ++ natDigits number ++ [' ', '|', ' '] ++ text)) ∧
    (∀ other ∈ before ++ after, other.toList.head? = some ' ') ∧
    ∀ line ∈ before ++ row :: after, '\n' ∉ line.toList

theorem newline_notMem_natDigits (n : Nat) : '\n' ∉ natDigits n := by
  intro h
  have hdigit := (digits_natDigits n).digit '\n' h
  exact absurd hdigit (by decide)

variable {text : List Char}

/-- No line of an excerpt goes over a break. -/
theorem newline_notMem_excerptLine {width line i : Nat} (h : '\n' ∉ text) :
    '\n' ∉ (excerptLine width line i text).toList := by
  have hmark : (if i == line then '>' else ' ') ≠ '\n' := by
    split <;> decide
  rw [excerptLine, String.toList_ofList, padLeft]
  simp only [List.cons_append, List.mem_cons, List.mem_append, List.mem_replicate, not_or]
  refine ⟨hmark.symm, by decide, ⟨⟨⟨fun hblank => ?_, newline_notMem_natDigits i⟩, ?_⟩, h⟩⟩
  · exact absurd hblank.2 (by decide)
  · decide

/-- A line of an excerpt is marked when it is that of the number, and not otherwise. -/
theorem head_excerptLine {width line i : Nat} (h : i ≠ line) :
    (excerptLine width line i text).toList.head? = some ' ' := by
  rw [excerptLine, String.toList_ofList, List.cons_append]
  simp [h]

theorem toList_excerptLine (width line : Nat) (text : List Char) :
    (excerptLine width line line text).toList = '>' :: ' ' ::
      (List.replicate (width - (natDigits line).length) ' ' ++ natDigits line ++ [' ', '|', ' '] ++
        text) := by
  rw [excerptLine, String.toList_ofList, padLeft]
  simp

/-- Numbered lines, parted at one of them. -/
theorem zipIdx_split {lines : List (List Char)} {k start : Nat} (h : lines[k]? = some text) :
    lines.zipIdx start = (lines.take k).zipIdx start ++ (text, start + k) ::
      (lines.drop (k + 1)).zipIdx (start + k + 1) := by
  obtain ⟨hk, htext⟩ := List.getElem?_eq_some_iff.1 h
  have hsplit : lines = lines.take k ++ text :: lines.drop (k + 1) := by
    rw [← htext, ← List.drop_eq_getElem_cons hk, List.take_append_drop]
  conv_lhs => rw [hsplit]
  rw [List.zipIdx_append, List.zipIdx_cons, List.length_take, Nat.min_eq_left (Nat.le_of_lt hk)]

/-- Numbered lines, of which one has the number, are an excerpt that marks it. -/
theorem marks_rows {lines : List (List Char)} {k start n : Nat} (width : Nat)
    (h : lines[k]? = some text) (hn : start + k = n) (hbreak : ∀ line ∈ lines, '\n' ∉ line) :
    Marks (String.intercalate "\n"
      ((lines.zipIdx start).map fun p => excerptLine width n p.2 p.1)) n text := by
  have hrows : ∀ row ∈ (lines.zipIdx start).map fun p => excerptLine width n p.2 p.1,
      '\n' ∉ row.toList := by
    intro row hrow
    obtain ⟨p, hp, rfl⟩ := List.mem_map.1 hrow
    exact newline_notMem_excerptLine (hbreak p.1 (List.fst_mem_of_mem_zipIdx hp))
  rw [zipIdx_split h, hn, List.map_append, List.map_cons] at hrows ⊢
  refine ⟨_, _, _, rfl, ⟨_, toList_excerptLine width n text⟩, fun other hother => ?_, hrows⟩
  -- the lines before have smaller numbers, and those behind have greater ones
  rcases List.mem_append.1 hother with hmem | hmem
  · obtain ⟨p, hp, rfl⟩ := List.mem_map.1 hmem
    have hlt := List.snd_lt_of_mem_zipIdx hp
    rw [List.length_take] at hlt
    exact head_excerptLine (by omega)
  · obtain ⟨p, hp, rfl⟩ := List.mem_map.1 hmem
    have hle := List.le_snd_of_mem_zipIdx hp
    exact head_excerptLine (by omega)

/-- **The excerpt of a text marks the line of the number.** -/
theorem marks_excerpt {source : String} {n : Nat} (hn : 0 < n)
    (h : (splitLines source.toList)[n - 1]? = some text) : Marks (excerpt source n) n text := by
  obtain ⟨hlt, -⟩ := List.getElem?_eq_some_iff.1 h
  have hinside : (decide ((n : Int) < 1) || decide ((splitLines source.toList).length < (n : Int))) =
      false := by
    simp only [Bool.or_eq_false_iff, decide_eq_false_iff_not]
    omega
  unfold excerpt
  simp only [hinside, Int.toNat_natCast]
  refine marks_rows (k := n - max 1 (n - 2)) _ ?_ (by omega) fun line hline => ?_
  · rw [List.getElem?_take_of_lt (by omega), List.getElem?_drop]
    rw [← h]
    congr 1
    omega
  · exact newline_notMem_of_mem_splitLines (List.mem_of_mem_drop (List.mem_of_mem_take hline))

/-- There is no excerpt around a line that the text does not have. -/
theorem excerpt_of_none {source : String} {n : Nat}
    (h : (splitLines source.toList)[n - 1]? = none) : excerpt source n = "" := by
  have hle := List.getElem?_eq_none_iff.1 h
  have houtside : (decide ((n : Int) < 1) || decide ((splitLines source.toList).length < (n : Int))) =
      true := by
    simp only [Bool.or_eq_true, decide_eq_true_eq]
    omega
  unfold excerpt
  simp only [houtside, if_true]

/-! ### Places -/

/-- A line of one of some texts; lines of texts that were loaded name where they come from. -/
def LineOf (texts : String → Prop) (l : SourceLine) : Prop :=
  l.origin = none → ∃ text, texts text ∧ l.IsLineOf none text.toList

theorem textIn_lineOf {texts : String → Prop} {text : String} (h : texts text) :
    (HostValue.text text).TextIn (LineOf texts) :=
  fun _ hl _ => ⟨text, h, hl⟩

/-- **The place of a failure is a line that the machine knew**, or that the failure was given. -/
theorem exists_line_of_token {P : SourceLine → Prop} {f : Failure} {record : Option FailureRecord}
    {line : Option SourceLine} {token : Token} (hf : f.PlacedIn P)
    (hrecord : ∀ r ∈ record, ∀ l ∈ r.line, P l) (hline : ∀ l ∈ line, P l)
    (h : f.token? record line = some token) : ∃ l, P l ∧ token = Token.ofLine l := by
  cases f with
  | script e =>
    obtain ⟨k, hk, rfl⟩ := Option.map_eq_some_iff.1 h
    rcases hf with hnone | ⟨l, hl, hnumber, htext, horigin⟩
    · rw [hnone] at hk
      cases hk
    · rw [hnumber] at hk
      cases hk
      exact ⟨l, hl, by rw [Token.ofLine, htext, horigin]⟩
  | fault f =>
    rw [Failure.token?] at h
    split at h
    · obtain ⟨l, hl, rfl⟩ := Option.map_eq_some_iff.1 h
      refine ⟨l, ?_, rfl⟩
      -- the line on record, or else the line under way
      cases hkept : record.bind FailureRecord.line with
      | some l' =>
        rw [hkept] at hl
        cases hl
        obtain ⟨r, hr, hl⟩ := Option.bind_eq_some_iff.1 hkept
        exact hrecord r hr l hl
      | none =>
        rw [hkept] at hl
        exact hline l hl
    · cases h

/-- What a report shows of the place of a failure, when a text is handled: the place is a line of one
of the texts that were run, and what is marked is the line of the same number of this text; which is
the place itself where it is a line of this text.  A line of a text that was loaded is shown alone. -/
structure ShowsPlace (texts : String → Prop) (source : String) (l : SourceLine) (context : String) :
    Prop where
  read : l.origin = none → ∃ text, texts text ∧ l.IsLineOf none text.toList
  marked : l.origin = none → ∀ text, (splitLines source.toList)[l.number - 1]? = some text →
    Marks context l.number text
  absent : l.origin = none → (splitLines source.toList)[l.number - 1]? = none → context = ""
  own : l.IsLineOf none source.toList → Marks context l.number l.text.toList
  loaded : ∀ origin, l.origin = some origin →
    context = s!"> {intText l.number} | {l.text}\n  (in {origin})"

theorem showsPlace_context {texts : String → Prop} {l : SourceLine} (hl : LineOf texts l)
    (source : String) : ShowsPlace texts source l ((Token.ofLine l).context source) := by
  have hcontext : l.origin = none → (Token.ofLine l).context source = excerpt source l.number := by
    intro horigin
    rw [Token.context, Token.ofLine, horigin]
  refine ⟨hl, fun horigin text htext => ?_, fun horigin hnone => ?_, fun hown => ?_,
    fun origin horigin => ?_⟩
  · obtain ⟨_, -, -, hnumber, -⟩ := hl horigin
    rw [hcontext horigin]
    exact marks_excerpt hnumber htext
  · rw [hcontext horigin]
    exact excerpt_of_none hnone
  · rw [hcontext hown.1]
    exact marks_excerpt hown.2.1 hown.2.2
  · rw [Token.context, Token.ofLine, horigin]
    rfl

/-! ### Reports -/

variable {σ : Type} {env : Env σ}

theorem Machine.LinesIn.begun {P : SourceLine → Prop} {holds : σ → Prop} {m : Machine σ}
    (hm : m.LinesIn P holds) : m.begun.LinesIn P holds :=
  ⟨fun _ hl => (by cases hl), fun _ hr => (by cases hr), hm.scopes, hm.namespaces, hm.host⟩

/-- **The excerpt of a report, and the place of the failure**, in every session of a runner whose host
brings in no lines but those of some texts.  The report of a text names a place, and shows the lines
around it.  The place is a line of one of the texts.  The line that is marked has its number, and it
has its text where the place is a line of the text that is handled. -/
theorem excerpt_of_reported {texts : String → Prop} {holds : σ → Prop}
    (hhost : LinedHost (LineOf texts) env holds) :
    (∀ state uses, holds state → (∀ u ∈ uses, Use.LinesIn (LineOf texts) u) →
      let m := ((Runner.create env state).useAll uses).machine
      m.LinesIn (LineOf texts) holds ∧ m.calls = []) ∧
    ∀ {m m' : Machine σ} {n : Nat} {source : String} {report : Report} {effects : List Effect}
      {token : Token}, m.LinesIn (LineOf texts) holds → m.calls = [] → texts source →
        outcome (handleSource env (env.inner n) (.text source)) m =
          (.ok (.failure report effects), m') → report.token = some token →
        (∃ view f calls, report.Lists env.symbols view source f calls) ∧
          ∃ l, token = Token.ofLine l ∧ ShowsPlace texts source l (token.context source) := by
  refine ⟨fun state uses hstate huses => ⟨?_, ?_⟩, ?_⟩
  · exact Runner.linesIn_useAll uses hhost (Runner.linesIn_create env hstate) huses
  · exact Runner.calls_useAll uses (Runner.create env state)
  · intro m m' n source report effects token hm hidle hsource h htoken
    cases handled_of_outcome hidle h with
    | @failure r _ m₁ hrun hreport =>
      obtain ⟨hplace, hlists⟩ := report_lists hreport
      obtain ⟨hm₁, hplaced⟩ := placed_runSource hhost hm.begun (textIn_lineOf hsource) hrun
      rw [htoken] at hplace
      obtain ⟨l, hl, rfl⟩ := exists_line_of_token hplaced hm₁.record hm₁.line hplace.symm
      exact ⟨⟨_, _, _, hlists⟩, l, rfl, showsPlace_context hl source⟩

/-! ### Small instances -/

theorem linedHost_quietHost (texts : String → Prop) :
    LinedHost (LineOf texts) quietEnv (fun _ => True) where
  member {_ h} name _ _ := by cases h <;> trivial
  module _ _ := trivial
  call _ _ _ := trivial
  operate _ _ _ := trivial
  load _ := trivial
  loaded _ horigin hnone := absurd hnone horigin

/-- The report of a text that failed. -/
def Outcome.report? : Outcome → Option Report
  | .success _ _ => none
  | .failure report _ => some report

/-- A text with a function that fails on the second line. -/
def failingFunction : String := "f() #\n~ 1 / 0\n#"

/-- A text that fails in a function of its own. -/
def ownFailure : String := "g(n) #\n~ 1 / n\n#\ng(0)"

/-- The report of a failure in a function of the same text marks the line that failed, whatever the
texts before it defined. -/
theorem excerpt_of_ownFailure :
    let texts := fun text => text ∈ [failingFunction, ownFailure]
    let m := ((Runner.create quietEnv ()).useAll [.handle failingFunction]).machine
    LinedHost (LineOf texts) quietEnv (fun _ => True) ∧
      m.LinesIn (LineOf texts) (fun _ => True) ∧ m.calls = [] ∧ texts ownFailure ∧
      ∃ report effects m' token,
        outcome (handleSource quietEnv (quietEnv.inner 9) (.text ownFailure)) m =
          (.ok (.failure report effects), m') ∧
        report.token = some token ∧ token = ⟨2, some "~ 1 / n", none⟩ ∧
        Marks (token.context ownFailure) 2 "~ 1 / n".toList := by
  intro texts m
  have hhost := linedHost_quietHost texts
  obtain ⟨hsession, hreported⟩ := excerpt_of_reported hhost
  have huses : ∀ u ∈ [Use.handle failingFunction], u.LinesIn (LineOf texts) := by
    intro u hu
    cases List.mem_singleton.1 hu
    exact textIn_lineOf List.mem_cons_self
  obtain ⟨hm, hidle⟩ := hsession () [.handle failingFunction] trivial huses
  have hsource : texts ownFailure := List.mem_cons_of_mem _ List.mem_cons_self
  have hreport : ((outcome (handleSource quietEnv (quietEnv.inner 9) (.text ownFailure)) m).1.map
      fun o => o.report?.bind Report.token) = .ok (some ⟨2, some "~ 1 / n", none⟩) := by
    decide +kernel
  rcases h : outcome (handleSource quietEnv (quietEnv.inner 9) (.text ownFailure)) m with
    ⟨e | ⟨value, effects⟩ | ⟨report, effects⟩, m'⟩ <;> rw [h] at hreport
  · cases hreport
  · cases hreport
  · have htoken : report.token = some ⟨2, some "~ 1 / n", none⟩ := Except.ok.inj hreport
    obtain ⟨-, ⟨number, text, origin⟩, htoken', hshows⟩ := hreported hm hidle hsource h htoken
    cases htoken'
    exact ⟨hhost, hm, hidle, hsource, report, effects, m', _, rfl, htoken, rfl,
      hshows.own ⟨rfl, by decide, by decide +kernel⟩⟩

/-- **A failure in a function of an earlier text is shown at a line of the text that is handled**,
which has the number of the line that failed and another text. -/
theorem excerpt_of_earlier_text :
    let m := ((Runner.create quietEnv ()).useAll [.handle failingFunction]).machine
    (outcome (handleSource quietEnv (quietEnv.inner 9) (.text "f()\n2")) m).1.map Outcome.report? =
      .ok (some ⟨"ArithmeticError: Division by zero\n  1 | f()\n> 2 | 2\n" ++
        "Caju stacktrace:\n  f() at line 1", some ⟨2, some "~ 1 / 0", none⟩⟩) := by
  decide +kernel

end LineScript
