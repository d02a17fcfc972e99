import LineScript.CommandLine

/-!
# The program

The outermost layer: it reads arguments, lines and files, and writes what the command line
decides.  A run that misses a file is begun again once the file is read, so that everything
else stays a function of the files.
-/

namespace LineScript

/-- The content of a file, if it can be read. -/
def readFile? (path : String) : IO (Option FileData) := do
  try
    return some (.bytes (← IO.FS.readBinFile path).toList)
  catch _ => return none

/-- The files of these paths that can be read and are not known yet. -/
def readMissed (world : World) (paths : List String) : IO (List (String × FileData)) := do
  let unknown := paths.filter fun p => (world.files.lookup p).isNone
  let found ← unknown.eraseDups.mapM fun p => return (p, ← readFile? p)
  return found.filterMap fun (p, data) => data.map (p, ·)

/-- A world that knows more files and has missed none. -/
def World.learn (world : World) (files : List (String × FileData)) : World :=
  { world with files := files ++ world.files, missed := [] }

/-- Run in a world; begin again as long as a missed file can be read. -/
partial def settle {α : Type} (world : World) (run : World → α × World) : IO α := do
  let (result, after) := run (world.learn [])
  match ← readMissed world after.missed with
  | [] => return result
  | files => settle (world.learn files) run

/-- Write output to the two streams. -/
def Output.write (o : Output) : IO Unit := do
  IO.print o.out
  IO.eprint o.err
  (← IO.getStdout).flush

/-- The world of a session. -/
def Repl.world (r : Repl) : World := r.runner.machine.host.world

/-- A session in another world. -/
def Repl.withWorld (r : Repl) (world : World) : Repl :=
  let m := r.runner.machine
  { r with runner := { r.runner with machine := { m with host := { m.host with world := world } } } }

/-- Read lines and run them, until the input ends or asks for the end. -/
partial def Repl.loop (r : Repl) : IO Unit := do
  r.prompt.write
  let line ← (← IO.getStdin).getLine
  if line.isEmpty then Repl.farewell.write
  else
    let text := if line.toList.getLast? == some '\n' then String.ofList line.toList.dropLast else line
    let next ← settle r.world fun world =>
      let next := (r.withWorld world).step text
      (next, ((next.map fun n => n.1.world).getD world))
    match next with
    | none => return
    | some (next, output) =>
      output.write
      next.loop

/-- Run the script in a file. -/
def runFileArgument (symbols : Symbols) (world : World) (path : String) : IO UInt32 := do
  let finish ← settle world fun world => runFile symbols world path
  finish.output.write
  match finish.ending with
  | .exit status => return status.toUInt32
  | .uncaught f =>
    IO.eprintln s!"{f.className}: {f.summary}"
    return 1

/-- Run a script file when one is given, and an interactive session otherwise. -/
def runProgram (args : List String) : IO UInt32 := do
  let current := (← IO.currentDir).toString
  let home := (← IO.getEnv "HOME").getD "/"
  let world : World := { home := ⟨current.toList, home.toList⟩ }
  match Symbols.standard with
  | .error f =>
    IO.eprintln f.message
    return 1
  | .ok symbols =>
    match fileArgument? args with
    | some path => runFileArgument symbols world path
    | none =>
      Repl.banner.write
      let repl : Repl := { runner := commandRunner symbols world current }
      repl.loop
      return 0

end LineScript

/-- The program. -/
def main (args : List String) : IO UInt32 := LineScript.runProgram args
