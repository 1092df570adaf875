import LiveTrip.Congestion.Smoother
import LiveTrip.Phase

/-!
# Settings of a session

* `TickPolicy`: when a tick runs.
* `Polling`: the policy and how long the engine may take for a status.
* `Settings`: all of it, with the phase rule, the smoother and the logging.
* `Settings.validate`: refuses what a session cannot run with.
-/

namespace LiveTrip

/-- When the worker runs a tick. -/
inductive TickPolicy
  /-- For every fix; fixes that have piled up make one tick. -/
  | eventDriven
  /-- Every so many milliseconds, with the newest fix since the last tick, if there is one. -/
  | fixedCadence (period : Nat)
  deriving DecidableEq, Repr, Inhabited

/-- How the engine is polled. -/
structure Polling where
  policy : TickPolicy := .eventDriven
  /-- Milliseconds the engine may take for a status. -/
  timeout : Nat := 2000
  deriving DecidableEq, Repr, Inhabited

/-- The cadence of a policy that gives none, in milliseconds. -/
def defaultCadence : Nat := 1000

def Polling.validate (p : Polling) : Except SettingsError Unit :=
  if p.timeout = 0 then .error (.invalid "session.status_timeout_ms" "0")
  else if p.policy = .fixedCadence 0 then .error (.invalid "session.cadence_ms" "0")
  else .ok ()

/-- What is logged, and where to. -/
structure Logging where
  level : String := "info"
  directory : Option String := none
  deriving DecidableEq, Repr, Inhabited

/-- Names of levels, and the numbers that stand for them. -/
def Logging.levels : List String :=
  ["off", "error", "warn", "info", "debug", "trace", "0", "1", "2", "3", "4", "5"]

/-- Whether one directive of a level makes sense: if it is for a target, its level is known. -/
def Logging.directiveValid (directive : String) : Bool :=
  match directive.splitOn "=" with
  | [_, level] => level.isEmpty || Logging.levels.contains level.toLower
  | _ => true

/-- Directives stand between commas. -/
def Logging.validate (l : Logging) : Except SettingsError Unit :=
  if (l.level.splitOn ",").all Logging.directiveValid then .ok () else .error .unknownLevel

/-- Settings of a session. -/
structure Settings where
  polling : Polling := {}
  phase : PhaseRule := {}
  smoother : SmootherSettings := {}
  logging : Logging := {}
  deriving DecidableEq, Repr, Inhabited

def Settings.validate (s : Settings) : Except SettingsError Unit := do
  s.polling.validate
  s.smoother.validate

end LiveTrip
