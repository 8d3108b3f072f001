import ScriptEngine.CommandLine
/-!
# The program

Reads the files that the arguments name and what is typed, and prints. Everything else is decided by
`Invocation.perform`.
-/

open ScriptEngine CommandLine

/-- Prints lines, each on its stream. -/
def printAll (lines : List Printed) : IO Unit := do
  let out ← IO.getStdout
  let err ← IO.getStderr
  for line in lines do
    match line with
    | .out text => out.putStrLn text
    | .err text => err.putStrLn text
  out.flush
  err.flush

/-- The text of a file, or why it cannot be read. -/
def readText (file : String) : IO (Except String String) := do
  try
    return .ok (← IO.FS.readFile file)
  catch e =>
    match e with
    | .noFileOrDirectory .. => return .error "No such file or directory (os error 2)"
    | .permissionDenied .. => return .error "Permission denied (os error 13)"
    | e => return .error (toString e)

/-- Milliseconds since the epoch, read off a new file. -/
def timeOfDay : IO Float := do
  let (_, path) ← IO.FS.createTempFile
  let modified := (← path.metadata).modified
  IO.FS.removeFile path
  return Float.ofInt modified.sec * 1000.0 + Float.ofNat (modified.nsec.toNat / 1000000)

/-- Answers lines as they are typed. -/
partial def interact (input : IO.FS.Stream) (s : Session) : IO Unit := do
  let line ← input.getLine
  if line.isEmpty then printAll farewell
  else
    match s.answer line with
    | (printed, none) => printAll printed
    | (printed, some s) =>
      printAll printed
      interact input s

/-- Prints a report and ends with its exit code. -/
def finish (r : Report) : IO UInt32 := do
  printAll r.printed
  return UInt32.ofNat r.code

/-- Performs what the arguments ask for. -/
def main (args : List String) : IO UInt32 := do
  match Invocation.ofArguments? args with
  | none => finish misuse
  | some i =>
    let texts ← i.files.mapM fun file => return (file, ← readText file)
    let read := fun file => (texts.lookup file).getD (.error "")
    let clock ← timeOfDay
    match i.action, i.settings read with
    | .interact, .ok settings =>
      printAll greeting
      interact (← IO.getStdin) (Session.start settings clock)
      return 0
    | _, _ => finish (i.perform read clock "")
