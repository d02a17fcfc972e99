import LineScript.Catalogue
import LineScript.Runner

/-!
# The command line

A script can be run from a file, or entered line by line.  A line that leaves a block open
is collected with those behind it until the block is closed or a blank line gives up.

## Main definitions

* `Output` — what is written, and where.
* `Repl`, `Repl.step` — an interactive session, and one line of it.
* `Finish` — how a program ends and what it writes.
* `runFile` — a script in a file.
* `runCommand` — the whole program.
-/

namespace LineScript

/-- What is written to the two streams of output. -/
structure Output where
  /-- What is written for the user. -/
  out : String := ""
  /-- What is written about errors. -/
  err : String := ""
  deriving DecidableEq, Repr, Inhabited

namespace Output

/-- One output, and another one behind it. -/
def append (a b : Output) : Output := ⟨a.out ++ b.out, a.err ++ b.err⟩

instance : Append Output := ⟨append⟩

/-- A line for the user. -/
def line (s : String) : Output := { out := s ++ "\n" }

/-- A line about an error. -/
def errorLine (s : String) : Output := { err := s ++ "\n" }

/-- The messages that a script printed. -/
def ofEffects (effects : List Effect) : Output :=
  { out := String.join ((effects.filter fun e => e.topic == .stdout).map fun e => e.message ++ "\n") }

end Output

/-- The runner of a command line, in a directory. -/
def commandRunner (symbols : Symbols) (world : World) (base : String) : Runner Catalogue :=
  .create { symbols := symbols, host := Catalogue.host .null, base := some base } (Catalogue.initial world)

/-- The value of a script, unless it is nothing. -/
def valueOutput (r : Runner Catalogue) : HostValue → Except Fault Output
  | .null => .ok {}
  | h => (r.print h).map .line

/-- What is written about a failure that no report tells of. -/
def failureOutput (f : Failure) : Output := .errorLine s!"Error: {f.summary}"

/-- What is written when a run takes too long. -/
def exhaustedOutput : Output := .errorLine "Error: the script takes too long"

/-! ### Interactive sessions -/

/-- An interactive session. -/
structure Repl where
  /-- The runner. -/
  runner : Runner Catalogue
  /-- The lines of a block that is still open. -/
  pending : List String := []

namespace Repl

/-- What is written at the beginning of a session. -/
def banner : Output := .line "Caju REPL v0.1" ++ .line "Type 'exit' or press Ctrl+D to quit."

/-- What asks for the next line. -/
def prompt (r : Repl) : Output := { out := if r.pending.isEmpty then ">> " else "..  " }

/-- What is written when the input ends. -/
def farewell : Output := .line "\nExiting."

/-- Whether a text occurs in another one. -/
def occursIn (part : List Char) : List Char → Bool
  | [] => part.isEmpty
  | c :: rest => part.isPrefixOf (c :: rest) || occursIn part rest

/-- Whether a failed script may go on: its report speaks of an unclosed block, and the last
line is not blank. -/
def mayGoOn (message line : String) : Bool :=
  occursIn "Unclosed".toList message.toList && !(strip line.toList).isEmpty

/-- Run the lines that are collected, of which `line` is the last. -/
def run (r : Repl) (lines : List String) (line : String) : Repl × Output :=
  let (result, runner) := r.runner.handle (String.intercalate "\n" lines)
  match result with
  | .error .exhausted => (⟨runner, []⟩, exhaustedOutput)
  | .error (.raised r) => (⟨runner, []⟩, failureOutput r.failure)
  | .ok (.success value effects) =>
    let shown := match valueOutput runner value with
      | .ok output => output
      | .error f => failureOutput (.fault f)
    (⟨runner, []⟩, .ofEffects effects ++ shown)
  | .ok (.failure report effects) =>
    if mayGoOn report.message line then (⟨runner, lines⟩, {})
    else (⟨runner, []⟩, .errorLine (Outcome.failure report effects).formatError)

/-- One line of a session; none when it asks for the end. -/
def step (r : Repl) (line : String) : Option (Repl × Output) :=
  let text := strip line.toList
  if r.pending.isEmpty && text.isEmpty then some (r, {})
  else if r.pending.isEmpty && text == "exit".toList then none
  else some (r.run (r.pending ++ [line]) line)

/-- The output of a session with these lines of input. -/
def session (r : Repl) : List String → Output
  | [] => r.prompt ++ farewell
  | line :: rest =>
    match r.step line with
    | none => r.prompt
    | some (next, output) => r.prompt ++ output ++ next.session rest

end Repl

/-! ### Files -/

/-- How a program ends. -/
inductive Ending where
  /-- With an exit status. -/
  | exit (status : Nat)
  /-- With a failure that nothing caught. -/
  | uncaught (f : Failure)
  deriving DecidableEq, Repr, Inhabited

/-- How a program ends and what it writes. -/
structure Finish where
  /-- How it ends. -/
  ending : Ending
  /-- What is written. -/
  output : Output
  deriving DecidableEq, Repr, Inhabited

/-- Run a script that was read from a file in a directory. -/
def runText (symbols : Symbols) (world : World) (base : String) (source : String) : Finish × World :=
  let (result, runner) := (commandRunner symbols world base).handle source
  let finish : Finish := match result with
    | .error .exhausted => ⟨.exit 1, exhaustedOutput⟩
    | .error (.raised r) => ⟨.uncaught r.failure, {}⟩
    | .ok (.success value effects) =>
      match valueOutput runner value with
      | .ok output => ⟨.exit 0, .ofEffects effects ++ output⟩
      | .error f => ⟨.uncaught (.fault f), .ofEffects effects⟩
    | .ok (.failure report effects) =>
      ⟨.exit 1, .ofEffects effects ++ .errorLine (Outcome.failure report effects).formatError⟩
  (finish, runner.machine.host.world)

/-- Run the script in a file.  A file that is not there is reported; any other failure to
read it is not caught. -/
def runFile (symbols : Symbols) (world : World) (path : String) : Finish × World :=
  let place := world.home.absolute path
  match world.readFile place with
  | .ok source =>
    runText symbols world (String.ofList (Path.parent place.toList)) (String.ofList source)
  | .error f =>
    let world := { world with missed := place :: world.missed }
    if f.cls == .fileNotFound then (⟨.exit 1, .errorLine s!"Error: file not found: {path}"⟩, world)
    else (⟨.uncaught (.fault f), {}⟩, world)

/-- The file that the arguments name, if they name one. -/
def fileArgument? (args : List String) : Option String :=
  match args with
  | path :: _ => if path.toList.head? == some '-' then none else some path
  | [] => none

/-- The lines of a stream of input. -/
def inputLines (input : String) : List String :=
  let parts := splitOn '\n' input.toList
  (if parts.getLast? == some [] then parts.dropLast else parts).map String.ofList

/-- The whole program: its arguments and its input decide what it writes. -/
def runCommand (symbols : Symbols) (world : World) (args : List String) (input : String) : Finish :=
  match fileArgument? args with
  | some path => (runFile symbols world path).1
  | none =>
    let repl : Repl := { runner := commandRunner symbols world (String.ofList world.home.current) }
    ⟨.exit 0, Repl.banner ++ repl.session (inputLines input)⟩

end LineScript
