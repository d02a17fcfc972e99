import LineScript.Machine
import LineScript.Printer

/-!
# Reports of errors

The report of a failure names its kind and its message, shows the lines around the place
where it happened, and lists the calls that were active.

## Main definitions

* `Token`, `Report` — the place of a failure, and its report.
* `excerpt` — the lines around a place.
* `stackTrace` — the active calls, the innermost first.
* `Failure.report` — the report of a failure.
* `Outcome` — how the run of a script ended.
-/

namespace LineScript

/-- The place of a failure. -/
structure Token where
  /-- The number of the line. -/
  line : Int
  /-- The text of the line. -/
  text : Option String
  /-- Where the line comes from. -/
  origin : Option String
  deriving DecidableEq, Repr, Inhabited

/-- The report of a failure. -/
structure Report where
  /-- What to tell. -/
  message : String
  /-- The place, when it is known. -/
  token : Option Token
  deriving DecidableEq, Repr, Inhabited

/-! ### The lines around a place -/

/-- A text with blanks in front of it, up to a width. -/
def padLeft (width : Nat) (s : List Char) : List Char :=
  List.replicate (width - s.length) ' ' ++ s

/-- One line of an excerpt. -/
def excerptLine (width line i : Nat) (text : List Char) : String :=
  let mark := if i == line then '>' else ' '
  String.ofList (mark :: ' ' :: padLeft width (natDigits i) ++ [' ', '|', ' '] ++ text)

/-- The lines around a line, two before it and two after it; nothing when there is no such
line. -/
def excerpt (source : String) (line : Int) : String :=
  let lines := splitLines source.toList
  if line < 1 || (lines.length : Int) < line then ""
  else
    let n := line.toNat
    let start := max 1 (n - 2)
    let stop := min lines.length (n + 2)
    let width := (natDigits stop).length
    let shown := (lines.drop (start - 1)).take (stop + 1 - start)
    String.intercalate "\n" ((shown.zipIdx start).map fun (text, i) => excerptLine width n i text)

/-- The line of a token with what surrounds it.  A line that was loaded is shown alone. -/
def Token.context (source : String) (t : Token) : String :=
  match t.origin with
  | none => excerpt source t.line
  | some origin =>
    let text := t.text.getD "None"
    s!"> {intText t.line} | {text}\n  (in {origin})"

/-! ### The active calls -/

/-- A call in a stack trace. -/
def Frame.line (s : Symbols) (view : HostView) (f : Frame) : Except Fault String := do
  let args := String.intercalate ", " (← f.args.mapM fun v => v.print s view)
  let name := if f.name.isEmpty then "<call>" else f.name
  let site := match f.site with
    | some line => s!" at line {line.number}"
    | none => ""
  return s!"  {name}({args}){site}"

/-- The calls that were active when a failure was recorded, the innermost first. -/
def stackTrace (s : Symbols) (view : HostView) (stack : List Frame) : Except Fault String := do
  if stack.isEmpty then return ""
  let lines ← stack.mapM (Frame.line s view)
  return "Caju stacktrace:\n" ++ String.intercalate "\n" lines

/-! ### Reports -/

/-- The first line of a report. -/
def Failure.headline : Failure → String
  | .script e => s!"{e.cause.kind.label}: {e.cause.message}"
  | .fault f =>
    if f.cls == .recursion then "RecursionError: maximum call depth exceeded"
    else s!"InternalError: {f.message}"

/-- The place of a source line. -/
def Token.ofLine (l : SourceLine) : Token := ⟨l.number, some l.text, l.origin⟩

/-- The place of a failure.  Calls nested too deeply have the place that was recorded, or
else the line under way; other failures of host code have none. -/
def Failure.token? (record : Option FailureRecord) (line : Option SourceLine) : Failure → Option Token
  | .script e => e.line.map fun n => ⟨n, e.text, e.origin⟩
  | .fault f =>
    if f.cls == .recursion then (((record.bind FailureRecord.line).orElse fun _ => line)).map Token.ofLine
    else none

/-- The report of a failure in the run of a text. -/
def Failure.report (s : Symbols) (view : HostView) (record : Option FailureRecord)
    (line : Option SourceLine) (source : String) (f : Failure) : Except Fault Report := do
  let token := f.token? record line
  let context := (token.map (Token.context source)).getD ""
  let trace ← stackTrace s view ((record.map FailureRecord.stack).getD [])
  let parts := [f.headline, context, trace].filter fun part => !part.isEmpty
  return ⟨String.intercalate "\n" parts, token⟩

/-! ### Outcomes -/

/-- How the run of a script ended. -/
inductive Outcome where
  /-- With a value. -/
  | success (value : HostValue) (effects : List Effect)
  /-- With a failure. -/
  | failure (report : Report) (effects : List Effect)
  deriving Inhabited

/-- The status of an outcome. -/
def Outcome.status : Outcome → String
  | .success .. => "success"
  | .failure .. => "error"

/-- A message with the number of a line in front, unless it names one already. -/
def withLineNumber (line : Option String) (message : String) : String :=
  match line with
  | none => message
  | some n =>
    if "Error on line ".toList.isPrefixOf message.toList then message
    else s!"Error on line {n}: {message}"

/-- A status with its message and line, for people: nothing unless it is an error. -/
def formatStatus (status : String) (message line : Option String) : String :=
  if status == "error" then
    let text := match message with
      | none | some "" => "Unknown error"
      | some text => text
    withLineNumber line text
  else ""

/-- An outcome for people: nothing for a success. -/
def Outcome.formatError (o : Outcome) : String :=
  match o with
  | .success .. => formatStatus o.status none none
  | .failure report _ => formatStatus o.status (some report.message)
    (report.token.map fun t => intText t.line)

end LineScript
