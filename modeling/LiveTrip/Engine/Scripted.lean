import LiveTrip.Error
import LiveTrip.Guidance

/-!
# An engine that answers from a script

* `Scripted`: the answers still to give, each with the time it takes. The engine takes every fix and
  all routes unless told to refuse them.
-/

namespace LiveTrip

/-- One answer of a script. -/
structure ScriptedAnswer where
  /-- Milliseconds the answer takes. -/
  delay : Nat := 0
  answer : Except EngineError Status

structure Scripted where
  script : List ScriptedAnswer := []
  /-- With this, every fix is refused. -/
  ingestError : Option EngineError := none
  /-- With this, all routes are refused. -/
  routesError : Option EngineError := none
  ingested : Nat := 0

namespace Scripted

def ingest (e : Scripted) : Except EngineError Scripted :=
  match e.ingestError with
  | some cause => .error cause
  | none => .ok { e with ingested := e.ingested + 1 }

def setRoutes (e : Scripted) : Except EngineError Scripted :=
  match e.routesError with
  | some cause => .error cause
  | none => .ok e

/-- Takes the next answer; a script that is used up fails at once. -/
def next (e : Scripted) : Scripted × ScriptedAnswer :=
  match e.script with
  | a :: rest => ({ e with script := rest }, a)
  | [] => (e, { answer := .error (.status "script empty") })

end Scripted
end LiveTrip
