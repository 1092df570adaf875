import LiveTrip.Text.Duration

/-!
# What can go wrong

Each collaborator has its own type of causes; `message` is the wording of each.

* `EngineError`, `PositioningError`: failures of the map-matching engine and the positioning source.
* `FileError`: why a file cannot be read or written.
* `SettingsError`: why settings cannot be used.
* `TripError`: why a call on a session is refused.
-/

namespace LiveTrip

/-- Failures of the map-matching engine. -/
inductive EngineError
  | status (reason : String)
  /-- No status within so many milliseconds. -/
  | timeout (limit : Nat)
  | ingest (reason : String)
  | routesRejected (reason : String)
  deriving DecidableEq, Repr, Inhabited

def EngineError.message : EngineError → String
  | .status reason => "Status request failed: " ++ reason
  | .timeout limit => "Status request timed out after " ++ Duration.text limit
  | .ingest reason => "Sample ingestion failed: " ++ reason
  | .routesRejected reason => "Routes rejected: " ++ reason

/-- Failures of the positioning source. -/
inductive PositioningError
  /-- An error in place of a fix. -/
  | source (reason : String)
  /-- There are no fixes to be had. -/
  | unavailable (reason : String)
  deriving DecidableEq, Repr, Inhabited

def PositioningError.message : PositioningError → String
  | .source reason => "Positioning source failure: " ++ reason
  | .unavailable reason => "Positioning source unavailable: " ++ reason

/-- Why a file cannot be read or written. -/
inductive FileError
  | notFound
  | isDirectory
  | notDirectory
  | alreadyExists
  | notUtf8
  /-- Any other failure, in the words of the system. -/
  | other (reason : String)
  deriving DecidableEq, Repr, Inhabited

def FileError.message : FileError → String
  | .notFound => "No such file or directory (os error 2)"
  | .isDirectory => "Is a directory (os error 21)"
  | .notDirectory => "Not a directory (os error 20)"
  | .alreadyExists => "File exists (os error 17)"
  | .notUtf8 => "stream did not contain valid UTF-8"
  | .other reason => reason

/-- Why settings or a route description cannot be used. -/
inductive SettingsError
  | file (cause : FileError)
  /-- The text does not follow its grammar. -/
  | malformed
  | invalid (key value : String)
  /-- The logging level is none that there is. -/
  | unknownLevel
  deriving DecidableEq, Repr, Inhabited

def SettingsError.message : SettingsError → String
  | .file cause => "I/O error: " ++ cause.message
  | .malformed => "Parse error:"
  | .invalid key value => "Invalid value for '" ++ key ++ "': " ++ value
  | .unknownLevel => "Invalid value for 'logging.level':"

/-- Why a call on a session is refused. -/
inductive TripError
  | positioning (cause : PositioningError)
  | engine (cause : EngineError)
  deriving DecidableEq, Repr, Inhabited

def TripError.message : TripError → String
  | .positioning cause => cause.message
  | .engine cause => cause.message

end LiveTrip
