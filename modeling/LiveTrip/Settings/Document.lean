import LiveTrip.Settings
import LiveTrip.Text.Ini

/-!
# Settings as INI text

* `Settings.ofText`: the defaults overlaid with what a text assigns. Unknown sections and keys are
  passed over; a value that cannot be read, and settings that cannot be used, are errors.
* `Settings.toText`: the text of settings, every key written out.
-/

namespace LiveTrip.Settings

open Text Ini

/-- The value of `key`, read by `read?`, if it is assigned. An error shows the value as written. -/
def assigned {α : Type} (s : Section) (key : String) (read? : List Char → Option α) :
    Except SettingsError (Option α) :=
  match s.value? key with
  | none => .ok none
  | some raw =>
    match read? (trim raw.toList) with
    | some a => .ok (some a)
    | none => .error (.invalid (s.name ++ "." ++ key) raw)

/-- `true` or `false`. -/
def boolOf? (s : List Char) : Option Bool :=
  if s = "true".toList then some true else if s = "false".toList then some false else none

/-- The policy of a name. -/
def policyOf? (cadence : Nat) (s : List Char) : Option TickPolicy :=
  if s = "event_driven".toList then some .eventDriven
  else if s = "fixed_cadence".toList then some (.fixedCadence cadence)
  else none

def readPolling (s : Section) (p : Polling) : Except SettingsError Polling := do
  let cadence := (← assigned s "cadence_ms" (natOf? longBound)).getD defaultCadence
  let policy ← match s.value? "tick_policy" with
    | none => .ok p.policy
    | some raw =>
      let name := trim raw.toList
      match policyOf? cadence name with
      | some policy => .ok policy
      -- Here the value is shown without the blanks around it.
      | none => .error (.invalid "session.tick_policy" (String.ofList name))
  let timeout := (← assigned s "status_timeout_ms" (natOf? longBound)).getD p.timeout
  pure { policy, timeout }

def readPhase (s : Section) (rule : PhaseRule) : Except SettingsError PhaseRule := do
  let preview := (← assigned s "preview_destination_without_routes" boolOf?).getD rule.preview
  pure { preview }

def readSmoother (s : Section) (sm : SmootherSettings) : Except SettingsError SmootherSettings := do
  let enabled := (← assigned s "enabled" boolOf?).getD sm.enabled
  let near := (← assigned s "near_segments" (natOf? longBound)).getD sm.near
  let far := (← assigned s "far_segments" (natOf? longBound)).getD sm.far
  let moderate := (← assigned s "moderate" (natOf? byteBound)).getD sm.thresholds.moderate
  let heavy := (← assigned s "heavy" (natOf? byteBound)).getD sm.thresholds.heavy
  let severe := (← assigned s "severe" (natOf? byteBound)).getD sm.thresholds.severe
  pure { enabled, near, far, thresholds := { moderate, heavy, severe } }

/-- A directory that is empty but for blanks is none. -/
def readLogging (s : Section) (l : Logging) : Logging where
  level := match s.value? "level" with
    | some raw => String.ofList (trim raw.toList)
    | none => l.level
  directory := match s.value? "directory" with
    | some raw =>
      let name := trim raw.toList
      if name.isEmpty then l.directory else some (String.ofList name)
    | none => l.directory

/-- `settings` overlaid with what a document assigns, before validation. -/
def overlay (d : Document) (settings : Settings) : Except SettingsError Settings := do
  let polling ← match d.section? "session" with
    | some s => readPolling s settings.polling
    | none => .ok settings.polling
  let phase ← match d.section? "phase" with
    | some s => readPhase s settings.phase
    | none => .ok settings.phase
  let smoother ← match d.section? "traffic" with
    | some s => readSmoother s settings.smoother
    | none => .ok settings.smoother
  let logging := match d.section? "logging" with
    | some s => readLogging s settings.logging
    | none => settings.logging
  pure { polling, phase, smoother, logging }

/-- The settings of a document: the defaults overlaid with what it assigns. -/
def ofDocument (d : Document) : Except SettingsError Settings := do
  let settings ← overlay d {}
  settings.validate
  pure settings

/-- The settings of a text. -/
def ofText (text : String) : Except SettingsError Settings :=
  match Document.read? text with
  | some d => ofDocument d
  | none => .error .malformed

/-- The settings of a file's bytes. -/
def ofBytes (bytes : ByteArray) : Except SettingsError Settings :=
  match String.fromUTF8? bytes with
  | some text => ofText text
  | none => .error (.file .notUtf8)

/-- Settings as a document. The cadence is written also where the policy does not use it. -/
def toDocument (s : Settings) : Document where
  sections :=
    let (policy, cadence) := match s.polling.policy with
      | .eventDriven => ("event_driven", defaultCadence)
      | .fixedCadence period => ("fixed_cadence", period)
    let t := s.smoother.thresholds
    [{ name := "session", entries := [
        ("tick_policy", policy),
        ("cadence_ms", toString cadence),
        ("status_timeout_ms", toString s.polling.timeout)] },
      { name := "phase", entries := [
        ("preview_destination_without_routes", toString s.phase.preview)] },
      { name := "traffic", entries := [
        ("enabled", toString s.smoother.enabled),
        ("near_segments", toString s.smoother.near),
        ("far_segments", toString s.smoother.far),
        ("moderate", toString t.moderate),
        ("heavy", toString t.heavy),
        ("severe", toString t.severe)] },
      { name := "logging", entries :=
        ("level", s.logging.level) ::
          (s.logging.directory.map fun d => ("directory", d)).toList }]

/-- The text of settings. -/
def toText (s : Settings) : String := s.toDocument.write

end LiveTrip.Settings
