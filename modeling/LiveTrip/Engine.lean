import LiveTrip.Engine.Scripted
import LiveTrip.Engine.Simulated

/-!
# The map-matching engine

* `Engine`: an engine of either kind.
* `Engine.ingest`, `Engine.setRoutes`: what it takes in.
* `Engine.ask`, `Engine.collect`: a status is asked for, and collected when it is ready. Between the
  two, time passes and routes may change: a simulated engine works its status out when it is
  collected, a scripted one has it from the start.
* `Engine.request`: both at once, with a limit to the time it may take.
-/

namespace LiveTrip

inductive Engine
  | simulated (e : Simulated)
  | scripted (e : Scripted)
  deriving Inhabited

/-- A status that has been asked for. -/
inductive Asked
  /-- It is worked out when it is collected. -/
  | later
  /-- It is known already. -/
  | known (answer : Except EngineError Status)

namespace Engine

def ingest (engine : Engine) (fix : Fix) : Except EngineError Engine :=
  match engine with
  | simulated e => (e.ingest fix).map .simulated
  | scripted e => e.ingest.map .scripted

def setRoutes (engine : Engine) (routes : List Route) : Except EngineError Engine :=
  match engine with
  | simulated e => (e.setRoutes routes).map .simulated
  | scripted e => e.setRoutes.map .scripted

/-- Fixes taken. -/
def ingested : Engine → Nat
  | simulated e => e.ingested
  | scripted e => e.ingested

/-- Asks for a status: what is asked for, and the milliseconds until it is ready. -/
def ask : Engine → Engine × Asked × Nat
  | simulated e => (simulated e, .later, e.delay)
  | scripted e =>
    let (e, a) := e.next
    (scripted e, .known a.answer, a.delay)

/-- Collects a status that is ready. -/
def collect (engine : Engine) (asked : Asked) : Engine × Except EngineError Status :=
  match asked with
  | .known answer => (engine, answer)
  | .later =>
    match engine with
    | simulated e =>
      let (e, answer) := e.status
      (simulated e, answer)
    | scripted e => (scripted e, .error (.status "script empty"))

/-- Asks for a status and waits for it, at most `timeout` milliseconds. A status that is ready at
the very end still counts. -/
def request (engine : Engine) (timeout : Nat) : Engine × Except EngineError Status :=
  let (engine, asked, delay) := engine.ask
  if delay ≤ timeout then engine.collect asked else (engine, .error (.timeout timeout))

/-- Asks for a status and waits for it, however long it takes. -/
def requestUntimed (engine : Engine) : Engine × Except EngineError Status :=
  let (engine, asked, _) := engine.ask
  engine.collect asked

/-! ## What an engine can be told -/

/-- Instructions to an engine on what to do next. Those for an engine of the other kind do
nothing. -/
inductive Control
  /-- The next status requests fail, so many of them. -/
  | failStatus (count : Nat)
  /-- Every fix is refused, or no longer. -/
  | rejectSamples (on : Bool)
  /-- Further answers for the script. -/
  | script (answers : List ScriptedAnswer)
  | ingestError (cause : Option EngineError)
  | routesError (cause : Option EngineError)

def control (engine : Engine) (c : Control) : Engine :=
  match engine, c with
  | simulated e, .failStatus count => simulated { e with failing := count }
  | simulated e, .rejectSamples on => simulated { e with rejecting := on }
  | scripted e, .script answers => scripted { e with script := e.script ++ answers }
  | scripted e, .ingestError cause => scripted { e with ingestError := cause }
  | scripted e, .routesError cause => scripted { e with routesError := cause }
  | engine, _ => engine

end Engine
end LiveTrip
