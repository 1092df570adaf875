import LiveTrip.Cli.Arguments
import LiveTrip.Cli.Files
import LiveTrip.Route.Document
import LiveTrip.Settings.Document
import LiveTrip.Simulation

/-!
# What commands do

* `Cli.Failure`: why a command fails, with its wording and its exit code.
* `Cli.Output`: what a command that succeeds prints.
* `Command.perform`: what a command does, given the operations on files.
* `Cli.run`: a whole command line.
-/

namespace LiveTrip.Cli

/-- Why a command fails. -/
inductive Failure
  /-- The command line makes no sense. -/
  | usage
  | settings (cause : SettingsError)
  /-- A settings file is there already. -/
  | present (path : String)
  /-- There is no settings file to check. -/
  | noSettingsFile
  | intervalNotPositive
  | speedNotPositive
  | noGeometry (route : String)
  /-- The session refuses a call. -/
  | refused (cause : TripError)
  | file (cause : FileError)
  deriving DecidableEq, Repr, Inhabited

namespace Failure

/-- Exit code of the program. -/
def exitCode : Failure → Nat
  | refused _ | file _ => 1
  | _ => 2

/-- The wording, if there is any but for how the program is used. -/
def message? : Failure → Option String
  | usage => none
  | settings cause => some ("Configuration error: " ++ cause.message)
  | present path =>
    some ("Configuration error: " ++ path ++ " already exists (use --force to overwrite)")
  | noSettingsFile => some "Configuration error: config check needs --config <FILE>"
  | intervalNotPositive => some "Configuration error: --interval-ms must be positive"
  | speedNotPositive => some "Configuration error: --speed-kph must be positive"
  | noGeometry route => some ("Configuration error: route '" ++ route ++ "' has no geometry")
  | refused cause => some ("Session error: " ++ cause.message)
  | file cause => some ("I/O error: " ++ cause.message)

end Failure

/-- What a command prints. -/
inductive Output
  | text (s : String)
  | report (r : Report)
  deriving DecidableEq, Repr, Inhabited

def Output.render : Output → String
  | .text s => s
  | .report r => r.text

/-- How the program is used. -/
def usage : String :=
  "Usage: tripsession <COMMAND>\n\n" ++
  "Commands:\n" ++
  "  simulate  Replay a simulated drive along a route and report what the session saw\n" ++
  "  config    Inspect or create a configuration file\n\n" ++
  "Options:\n" ++
  "  -h, --help     Print help\n" ++
  "  -V, --version  Print version\n"

variable {m : Type → Type} [Monad m]

/-- A result or a failure of one's own wording. -/
def orFail {α β : Type} (wrap : α → Failure) (r : Except α β) : ExceptT Failure m β :=
  ExceptT.mk (pure (r.mapError wrap))

/-- The settings of a file, or the defaults where none is named. -/
def loadSettings (fs : FileSystem m) : Option String → ExceptT Failure m Settings
  | none => pure {}
  | some path => do
    let text ← orFail (.settings ∘ .file) (← fs.read path)
    orFail .settings (Settings.ofText text)

/-- The route of a file, or a straight one where none is named. -/
def loadRoute (fs : FileSystem m) (segments : Nat) : Option String → ExceptT Failure m Route
  | none => pure (.straight segments)
  | some path => do
    let text ← orFail (.settings ∘ .file) (← fs.read path)
    orFail .settings (Route.ofText text)

/-- Checks the logging and makes the directory it goes to. -/
def prepareLogging (fs : FileSystem m) (l : Logging) : ExceptT Failure m Unit := do
  orFail .settings l.validate
  match l.directory with
  | some directory => orFail (.settings ∘ .file) (← fs.makeFolders directory)
  | none => pure ()

def driveSimulated (fs : FileSystem m) (o : Simulate) : ExceptT Failure m Report := do
  let settings ← loadSettings fs o.config
  let logging := settings.logging
  prepareLogging fs (if o.verbose then { logging with level := "debug" } else logging)
  if o.interval = 0 then throw .intervalNotPositive
  if !(o.speed.isFinite && o.speed > 0.0) then throw .speedNotPositive
  let route ← loadRoute fs o.segments o.route
  let some destination := route.destination | throw (.noGeometry route.id)
  let drive : Simulation :=
    { settings, route, destination, interval := o.interval, speed := o.speed
      congestion := o.congestion }
  orFail .refused drive.run

/-- Writes a settings file with the defaults. -/
def writeDefaults (fs : FileSystem m) (path : String) (force : Bool) : ExceptT Failure m Unit := do
  if (← fs.pathExists path) && !force then throw (.present path)
  match parentOf path with
  | some folder => orFail .file (← fs.makeFolders folder)
  | none => pure ()
  orFail .file (← fs.write path (Settings.toText {}))

/-- What a command does. -/
def Command.perform (fs : FileSystem m) : Command → ExceptT Failure m Output
  | .version => pure (.text "tripsession 0.3.0\n")
  | .help => pure (.text usage)
  | .configShow config => do pure (.text (← loadSettings fs config).toText)
  | .configInit path force => do
    writeDefaults fs path force
    pure (.text ("Configuration file: " ++ path ++ "\n"))
  | .configCheck none => throw .noSettingsFile
  | .configCheck (some path) => do
    let _ ← loadSettings fs (some path)
    pure (.text (path ++ ": ok\n"))
  | .simulate options => do pure (.report (← driveSimulated fs options))

/-- A whole command line. -/
def run (fs : FileSystem m) (args : List String) : m (Except Failure Output) :=
  match parse args with
  | some command => (command.perform fs).run
  | none => pure (.error .usage)

end LiveTrip.Cli
