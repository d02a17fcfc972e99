import LineScript.Proofs.Sessions

/-!
# What a session shows of a script

A script of one line can be entered in a session, or it can be run from a file.  Both ways lead to
the same run, and the outcome of this run is all that the two write about it.  For a script that
ends well they write the same: what it printed, and its value.  A script that fails is where they
part.  The file run writes what the script printed before it failed; the session writes nothing of
it.

## Main results

* `handle_congr` — texts with the same lines are handled alike.
* `session_shows_iff` — **a session shows what a file run shows, unless a script prints and fails.**
* `session_hides_printed` — a script that prints and fails.
-/

namespace LineScript

open Run

variable {σ : Type}

/-! ### Texts with the same lines -/

section SameLines

variable {a b : String} (hlines : splitLines a.toList = splitLines b.toList)
  (ha : strip a.toList ≠ []) (hb : strip b.toList ≠ [])

include hlines

theorem report_congr (s : Symbols) (view : HostView) (record : Option FailureRecord)
    (line : Option SourceLine) (f : Failure) :
    f.report s view record line a = f.report s view record line b := by
  have hcontext : Token.context a = Token.context b := by
    funext token
    unfold Token.context excerpt
    rw [hlines]
  unfold Failure.report
  rw [hcontext]

include ha hb

theorem parse_congr {τ : Type} (s : Symbols) (load : Loader τ) (base : Option String) (t : τ) :
    parse s load base none a t = parse s load base none b t := by
  have hfirst : firstLine none a.toList = firstLine none b.toList := by
    unfold firstLine
    rw [hlines, List.isEmpty_eq_false_iff.2 ha, List.isEmpty_eq_false_iff.2 hb]
  have hfeed : feed s load inclusionLimit (.outermost base none) a.toList =
      feed s load inclusionLimit (.outermost base none) b.toList := by
    have hstatements : statementsOf s none a.toList = statementsOf s none b.toList := by
      unfold statementsOf sourceLines
      rw [hlines]
    funext builder t
    exact congrArg (feedAll s load _ _ · builder t) hstatements
  unfold parse parseWithin
  dsimp only
  rw [hfirst, hfeed]

/-- **Texts with the same lines are handled alike.** -/
theorem handle_congr (r : Runner σ) : r.handle a = r.handle b := by
  have hparse : parseHost r.env (.text a) = parseHost r.env (.text b) := by
    rw [parseHost_text, parseHost_text]
    unfold parseSource
    simp only [parse_congr hlines ha hb]
  unfold Runner.handle handleSource
  simp only [hparse, sourceText, report_congr hlines]

end SameLines

/-- The line of a text that has just one and is not blank, as a text of its own. -/
theorem splitLines_line {source line : List Char} (h : splitLines source = [line])
    (hsolid : strip line ≠ []) :
    (∀ c ∈ line, isLineBreak c = false) ∧ splitLines line = [line] ∧ strip source ≠ [] := by
  have hmem : line ∈ linesFrom [] source := by
    rw [show linesFrom [] source = [line] from h]
    exact List.mem_singleton_self line
  have hunbroken : ∀ c ∈ line, isLineBreak c = false :=
    forall_mem_linesFrom (by simp) (fun c _ hc => hc) hmem
  have hne : line ≠ [] := by
    rintro rfl
    exact hsolid rfl
  refine ⟨hunbroken, splitLines_of_no_break hunbroken hne, fun hblank => hsolid ?_⟩
  have hin : ∀ c ∈ line, c ∈ source := forall_mem_linesFrom (by simp) (fun c hc _ => hc) hmem
  rw [strip_eq_nil] at hblank ⊢
  exact fun c hc => hblank c (hin c hc)

/-- A line with its line break is one line of input. -/
theorem inputLines_line {line : String} (h : '\n' ∉ line.toList) :
    inputLines (line ++ "\n") = [line] := by
  have hsplit : ∀ s : List Char, '\n' ∉ s → splitOn '\n' (s ++ ['\n']) = [s, []] := by
    intro s hs
    induction s with
    | nil => rfl
    | cons c s ih =>
      obtain ⟨hc, hs⟩ := not_or.1 (mt List.mem_cons.2 hs)
      rw [List.cons_append, splitOn, if_neg (by simpa using Ne.symm hc), ih hs]
  have htext : (line ++ "\n").toList = line.toList ++ ['\n'] := String.toList_append
  unfold inputLines
  rw [htext, hsplit line.toList h]
  simp

/-! ### What is shown of a run -/

/-- A value as it is shown, on a line of its own: nothing is not shown, and neither is what cannot
be printed. -/
def Runner.shownValue (r : Runner σ) : HostValue → String
  | .null => ""
  | value => ((r.print value).toOption.map (· ++ "\n")).getD ""

/-- What is to be shown of a run on the runner after it: what it printed, in order, and its value,
if it has one.  Of a run without an outcome nothing is known. -/
def Runner.shown (r : Runner σ) : Except Stop Outcome → String
  | .ok (.success value effects) => (Output.ofEffects effects).out ++ r.shownValue value
  | .ok (.failure _ effects) => (Output.ofEffects effects).out
  | .error _ => ""

/-- A run that printed something and then failed. -/
def PrintsAndFails (result : Except Stop Outcome) : Prop :=
  ∃ report effects, result = .ok (.failure report effects) ∧ ∃ e ∈ effects, e.topic = .stdout

/-- Whatever is printed shows, if only as a line break. -/
theorem out_ofEffects_eq_empty {effects : List Effect} :
    (Output.ofEffects effects).out = "" ↔ ¬ ∃ e ∈ effects, e.topic = .stdout := by
  have hbreak : ∀ message : String, message ++ "\n" ≠ "" := fun message h =>
    absurd (String.append_eq_empty_iff.1 h).2 (by decide)
  unfold Output.ofEffects
  rw [← String.toList_eq_nil_iff, String.toList_join]
  simp only [List.flatMap_eq_nil_iff, List.mem_map, List.mem_filter, beq_iff_eq,
    String.toList_eq_nil_iff, forall_exists_index, and_imp, not_exists, not_and]
  exact ⟨fun h e he htopic => hbreak _ (h _ e he htopic rfl),
    fun h _ e he htopic => absurd htopic (h e he)⟩

theorem valueOutput_cases (r : Runner Catalogue) (value : HostValue) :
    (∃ output, valueOutput r value = .ok output ∧ output.out = r.shownValue value) ∨
      ∃ f, valueOutput r value = .error f ∧ r.shownValue value = "" := by
  cases value with
  | null => exact .inl ⟨_, rfl, rfl⟩
  | _ =>
    unfold valueOutput Runner.shownValue
    dsimp only
    cases r.print _ with
    | ok text => exact .inl ⟨_, rfl, rfl⟩
    | error f => exact .inr ⟨f, rfl, rfl⟩

/-- A file run shows what is to be shown. -/
theorem out_runText (s : Symbols) (w : World) (base source : String) :
    let run := (commandRunner s w base).handle source
    (runText s w base source).1.output.out = run.2.shown run.1 := by
  intro run
  have hrun : (commandRunner s w base).handle source = (run.1, run.2) := (Prod.eta run).symm
  unfold runText
  rw [hrun]
  rcases run.1 with (raised | _) | (⟨value, effects⟩ | ⟨report, effects⟩)
  · rfl
  · rfl
  · rcases valueOutput_cases run.2 value with ⟨output, hvalue, hout⟩ | ⟨f, hvalue, hout⟩
    · simp only [hvalue, Runner.shown, ← hout]
      rfl
    · simp only [hvalue, Runner.shown, hout, String.append_empty]
  · exact String.append_empty

/-- A session shows what is to be shown of a run, and nothing of one that fails. -/
theorem Repl.out_run (r : Repl) (lines : List String) (line : String) :
    let run := r.runner.handle (String.intercalate "\n" lines)
    ((∀ report effects, run.1 ≠ .ok (.failure report effects)) ∧
        (r.run lines line).2.out = run.2.shown run.1) ∨
      ∃ report effects, run.1 = .ok (.failure report effects) ∧ (r.run lines line).2.out = "" := by
  intro run
  have hrun : r.runner.handle (String.intercalate "\n" lines) = (run.1, run.2) :=
    (Prod.eta run).symm
  unfold Repl.run
  rw [hrun]
  rcases run.1 with (raised | _) | (⟨value, effects⟩ | ⟨report, effects⟩)
  · exact .inl ⟨by rintro _ _ ⟨⟩, rfl⟩
  · exact .inl ⟨by rintro _ _ ⟨⟩, rfl⟩
  · refine .inl ⟨by rintro _ _ ⟨⟩, ?_⟩
    rcases valueOutput_cases run.2 value with ⟨output, hvalue, hout⟩ | ⟨f, hvalue, hout⟩
    · simp only [hvalue, Runner.shown, ← hout]
      rfl
    · simp only [hvalue, Runner.shown, hout]
      rfl
  · refine .inr ⟨report, effects, rfl, ?_⟩
    dsimp only
    split <;> rfl

/-- **A session shows what a file run shows, unless the script prints and fails.**  The script is a
line that is not blank and does not ask for the end, entered at the first prompt of a session; or the
one line of a file in the directory of the session.  The file run writes for the user what the script
printed, in order, whether it fails or not, and its value.  The session writes the same between its
prompts if and only if the script does not print something and then fail.  If it does, the session
writes nothing of it. -/
theorem session_shows_iff (s : Symbols) (w : World) {path line : String} {source : List Char}
    (hplace : Path.parent (w.home.absolute path).toList = w.home.current)
    (hfile : w.readFile (w.home.absolute path) = .ok source)
    (hline : splitLines source = [line.toList]) (hsolid : strip line.toList ≠ [])
    (hexit : strip line.toList ≠ "exit".toList) :
    let first : Repl := ⟨commandRunner s w (String.ofList w.home.current), []⟩
    let run := first.runner.handle line
    ∃ next output, first.step line = some (next, output) ∧
      (runCommand s w [] (line ++ "\n")).output =
        Repl.banner ++ (first.prompt ++ output ++ (next.prompt ++ Repl.farewell)) ∧
      (runFile s w path).1.output.out = run.2.shown run.1 ∧
      (output.out = run.2.shown run.1 ↔ ¬ PrintsAndFails run.1) ∧
      (PrintsAndFails run.1 → output.out = "") := by
  intro first run
  obtain ⟨hunbroken, hown, hsource⟩ := splitLines_line hline hsolid
  have hnewline : '\n' ∉ line.toList := fun h => absurd (hunbroken _ h) (by decide)
  have hfiled : (runFile s w path).1.output.out = run.2.shown run.1 := by
    have hhandle : first.runner.handle (String.ofList source) = first.runner.handle line :=
      handle_congr (by simp [hline, hown]) (by simpa using hsource) hsolid first.runner
    unfold runFile
    simp only [hfile, hplace]
    rw [out_runText]
    exact congrArg (fun run => run.2.shown run.1) hhandle
  obtain ⟨next, output, hrun⟩ : ∃ next output, first.run [line] line = (next, output) := ⟨_, _, rfl⟩
  have hstep : first.step line = some (next, output) := by
    rw [← hrun]
    unfold Repl.step
    rw [if_neg (by simpa [first] using hsolid), if_neg (by simpa [first] using hexit)]
    rfl
  have hsession : (runCommand s w [] (line ++ "\n")).output =
      Repl.banner ++ (first.prompt ++ output ++ (next.prompt ++ Repl.farewell)) := by
    show Repl.banner ++ first.session (inputLines (line ++ "\n")) = _
    rw [inputLines_line hnewline, Repl.session, hstep]
    rfl
  refine ⟨next, output, hstep, hsession, hfiled, ?_⟩
  have hout := first.out_run [line] line
  rw [show String.intercalate "\n" [line] = line from String.intercalate_singleton, hrun] at hout
  change (_ ∧ output.out = run.2.shown run.1) ∨
    ∃ report effects, run.1 = .ok (.failure report effects) ∧ output.out = "" at hout
  rcases hout with ⟨hnever, hshown⟩ | ⟨report, effects, hfailed, hout⟩
  · have hnot : ¬ PrintsAndFails run.1 := by
      rintro ⟨report, effects, hfailed, -⟩
      exact hnever report effects hfailed
    exact ⟨iff_of_true hshown hnot, fun h => absurd h hnot⟩
  · -- what a failed run is to show is empty exactly when nothing was printed
    refine ⟨?_, fun _ => hout⟩
    rw [hout, hfailed, Runner.shown, eq_comm]
    refine out_ofEffects_eq_empty.trans (not_congr ⟨fun h => ⟨report, effects, rfl, h⟩, ?_⟩)
    rintro ⟨_, _, ⟨⟩, h⟩
    exact h

/-- A world with a script of one line in the current directory. -/
def worldWith (script : String) : World where
  home := ⟨"/cwd".toList, "/home".toList⟩
  files := [("/cwd/a", .text (script ++ "\n").toList)]

/-- A script that prints and has a value. -/
theorem session_shows_product :
    let line := "print('a'); 2 * 3"
    let w := worldWith line
    let first : Repl := ⟨commandRunner standardSymbols w (String.ofList w.home.current), []⟩
    Path.parent (w.home.absolute "a").toList = w.home.current ∧
      w.readFile (w.home.absolute "a") = .ok (line ++ "\n").toList ∧
      splitLines (line ++ "\n").toList = [line.toList] ∧ strip line.toList ≠ [] ∧
      strip line.toList ≠ "exit".toList ∧
      ∃ next output, first.step line = some (next, output) ∧
        output.out = (runFile standardSymbols w "a").1.output.out ∧ output.out = "a\n6\n" := by
  intro line w first
  have hplace : Path.parent (w.home.absolute "a").toList = w.home.current := by decide +kernel
  have hfile : w.readFile (w.home.absolute "a") = .ok (line ++ "\n").toList := by decide +kernel
  have hline : splitLines (line ++ "\n").toList = [line.toList] := by decide
  have hsolid : strip line.toList ≠ [] := by decide
  have hexit : strip line.toList ≠ "exit".toList := by decide
  have hstatus : (first.runner.handle line).1.map Outcome.status = .ok "success" := by decide +kernel
  have hfiled : (runFile standardSymbols w "a").1.output.out = "a\n6\n" := by decide +kernel
  obtain ⟨next, output, hstep, -, hrun, hiff, -⟩ :=
    session_shows_iff standardSymbols w hplace hfile hline hsolid hexit
  have hout : output.out = (runFile standardSymbols w "a").1.output.out := by
    rw [hrun, hiff]
    rintro ⟨report, effects, hfailed, -⟩
    rw [hfailed] at hstatus
    simp [Except.map, Outcome.status] at hstatus
  exact ⟨hplace, hfile, hline, hsolid, hexit, next, output, hstep, hout, hout.trans hfiled⟩

/-- **A session shows nothing of a script that prints and fails**, and a file run does. -/
theorem session_hides_printed :
    (runCommand standardSymbols (worldWith "print('a'); 1 / 0") ["a"] "").output.out = "a\n" ∧
      (runCommand standardSymbols (worldWith "print('a'); 1 / 0") [] "print('a'); 1 / 0\n").output.out =
        Repl.banner.out ++ ">> " ++ ">> " ++ Repl.farewell.out := by
  decide +kernel

end LineScript
