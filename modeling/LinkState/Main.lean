import LinkState.CommandLine

/-!
The program: it reads the configuration that the arguments name and prints the routes. An error is
printed on the standard error stream, and the exit code is then 1.
-/

namespace LinkState

/-- What stands under a path of the file system. Opening works for whatever exists, so a path that
cannot be opened leads nowhere, unless only its reader is refused. -/
def Source.ofPath (path : String) : IO Source := do
  match ← (IO.FS.Handle.mk path .read).toBaseIO with
  | .ok file =>
    match ← file.readToEnd.toBaseIO with
    | .ok content => pure (.text content)
    | .error e => pure (.unreadable (toString e))
  | .error (.noFileOrDirectory ..) | .error (.inappropriateType ..) | .error (.invalidArgument ..) =>
    pure .missing
  | .error e => pure (.unreadable (toString e))

/-- The path of the configuration of this host. -/
def thisHostPath : IO (Except Error String) := do
  match ← (IO.FS.readFile "/proc/sys/kernel/hostname").toBaseIO with
  | .ok name => pure (hostPath name.trimAscii.toString)
  | .error e => pure (.error (.configuration (.other ("Failed to get hostname: " ++ toString e))))

/-- What the program prints for its arguments. -/
def outputFor (arguments : List String) : IO (Except Error String) := do
  match Options.ofArguments arguments with
  | .error e => pure (.error e)
  | .ok options =>
    let path ← match options.path with
      | some path => pure (.ok path)
      | none => thisHostPath
    match path with
    | .error e => pure (.error e)
    | .ok path => return options.output path (← Source.ofPath path)

end LinkState

def main (arguments : List String) : IO UInt32 := do
  match ← LinkState.outputFor arguments with
  | .ok text =>
    IO.print text
    pure 0
  | .error e =>
    IO.eprintln ("Error: " ++ e.diagnostic)
    pure 1
