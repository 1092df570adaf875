import LiveTrip.Cli.Program

/-!
# The program

Runs the command line of the process on its files: what the command prints goes to standard output,
a failure to standard error.
-/

namespace LiveTrip.Cli

/-- Why the system could not do something with a file. -/
def fileErrorOf : IO.Error → FileError
  | .noFileOrDirectory .. => .notFound
  | .alreadyExists .. => .alreadyExists
  | .inappropriateType _ 20 _ => .notDirectory
  | .inappropriateType .. => .isDirectory
  | e => .other (toString e)

/-- A result in place of an exception. -/
def attempt {α : Type} (act : IO α) : IO (Except FileError α) := do
  try pure (.ok (← act))
  catch e => pure (.error (fileErrorOf e))

/-- The files of the system. -/
def systemFiles : FileSystem IO where
  -- A folder is there, though it cannot be read.
  pathExists path := do
    match ← attempt (IO.FS.readBinFile path) with
    | .ok _ | .error .isDirectory => pure true
    | .error _ => pure false
  read path := do
    match ← attempt (IO.FS.readBinFile path) with
    | .ok bytes =>
      match String.fromUTF8? bytes with
      | some text => pure (.ok text)
      | none => pure (.error .notUtf8)
    | .error cause => pure (.error cause)
  makeFolders path := attempt (IO.FS.createDirAll path)
  write path text := attempt (IO.FS.writeFile path text)

end LiveTrip.Cli

def main (args : List String) : IO UInt32 := do
  match ← LiveTrip.Cli.run LiveTrip.Cli.systemFiles args with
  | .ok output =>
    IO.print output.render
    pure 0
  | .error failure =>
    match failure.message? with
    | some message => IO.eprintln ("Error: " ++ message)
    | none => IO.eprint LiveTrip.Cli.usage
    pure (UInt32.ofNat failure.exitCode)
