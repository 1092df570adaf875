import LiveTrip.Route.Trace
import LiveTrip.Session.Timeline

/-!
# Simulated drives

A session under guidance along a route, with a recording of a drive along it for a source and a
simulated engine.

* `Route.straight`: a straight route, half of it motorway.
* `Simulation`: what is driven and how. `Simulation.prepare`: the session, started.
* `Simulation.run`: the drive up to its end: the arrival, or half a second without one after the
  last fix. Every 20 milliseconds it is looked at whether either has come.
* `Report`: what a drive came to, and `Report.text`.
-/

namespace LiveTrip

/-- A straight route to the north. The second half of it is no motorway, so congestion is smoothed
up to an exit halfway. -/
def Route.straight (segments : Nat) : Route where
  id := "simulated"
  legs := [{
    geometry := (List.range (segments + 1)).map fun i => ⟨i.toFloat * 0.001, 0.0⟩
    congestion := List.replicate segments 10
    steps := [
      { instruction := some "Head north on the motorway"
        intersections := [{ index := 0, roadClass := some .motorway }] },
      { instruction := some "Take the exit"
        intersections := [{ index := segments / 2, roadClass := some .primary }] }] }]

/-- What is driven, and how. -/
structure Simulation where
  settings : Settings := {}
  route : Route
  destination : Point
  /-- Milliseconds between two fixes. -/
  interval : Nat
  /-- Speed in km/h. -/
  speed : Float
  /-- Fixed estimate of congestion, in place of one from the speed. -/
  congestion : Option Nat := none

/-- How a drive ends. -/
inductive Ending
  | arrived
  | traceEnded
  deriving DecidableEq, Repr, Inhabited

def Ending.text : Ending → String
  | .arrived => "arrived at destination"
  | .traceEnded => "trace ended before arrival"

/-- What a drive came to. -/
structure Report where
  ending : Ending
  /-- The phase at the end. -/
  phase : Phase
  /-- Milliseconds it took. -/
  elapsed : Nat
  /-- How often progress was told. -/
  updates : Nat
  counters : Counters
  deriving DecidableEq, Repr, Inhabited

/-- Milliseconds as seconds with one place. -/
def Report.seconds (ms : Nat) : String :=
  let tenths := (ms + 50) / 100
  toString (tenths / 10) ++ "." ++ toString (tenths % 10) ++ "s"

def Report.text (r : Report) : String :=
  "\nSimulation " ++ r.ending.text ++ " after " ++ seconds r.elapsed ++ "\n" ++
  "  Final phase:      " ++ r.phase.description ++ "\n" ++
  "  Progress updates: " ++ toString r.updates ++ "\n\n" ++
  "  Metrics: " ++ r.counters.text ++ "\n"

namespace Simulation

/-- Metres between two fixes. -/
def spacing : Float := 25.0

/-- Milliseconds between two looks at a drive. -/
def pollInterval : Nat := 20

/-- Milliseconds after the last fix until a drive without arrival is given up. -/
def grace : Nat := 500

/-- More than the steps that a session without observers takes at any one instant. -/
def stepsPerInstant : Nat := 256

/-- All that happens up to `limit`, with no observer that does anything. -/
def unattended (limit : Option Nat) (instants : Nat) (t : Trip) : Trip :=
  (t.drive (fun (_ : Unit) _ => ((), .finish)) limit (stepsPerInstant * instants) ()).2

/-- Makes a call and lets all that it sets off happen, unless it is refused. -/
def make (t : Trip) (c : Call) : Except TripError Trip :=
  match (t.perform c).answer with
  | .refused cause => .error cause
  | _ => .ok (unattended none 1 (t.call none c))

def fixes (s : Simulation) : List Fix := s.route.trace spacing (s.speed / 3.6)

/-- The session, started on the route. -/
def prepare (s : Simulation) : Except TripError Trip := do
  let source : Source := .replay { fixes := s.fixes, interval := s.interval }
  let t ← match s.congestion with
    | some value => pure (.new s.settings (.simulated {}) source (.readings [some value]))
    | none =>
      let t := Trip.new s.settings (.simulated {}) source (.speedRatio {})
      make t (.observe .speedSignal .location)
  let t ← make t (.setDestination (some s.destination))
  let t ← make t (.setRoutes [s.route])
  let t ← make t (.setGuidance true)
  make t .start

/-- The recording has been sent to its end. -/
def traceEnded (t : Trip) : Bool :=
  match t.source with
  | .replay r => r.finished
  | .manual _ => false

/-- The fan-outs of progress among some events. -/
def countUpdates (events : List (Event Category Category.Value Listener Note)) : Nat :=
  events.countP fun
    | .began f _ => f.category = .routeProgress
    | _ => false

def report (ending : Ending) (updates : Nat) (t : Trip) : Report where
  ending
  phase := t.facts.phase.current
  elapsed := t.now
  updates
  counters := (unattended none 1 (t.call none .stop)).metrics

/-- Looks at a drive so many times at most. `seen` is when the trace was first seen to have ended.
-/
def watch : Nat → Option Nat → Nat → Trip → Report
  | 0, _, updates, t => report .traceEnded updates t
  | looks + 1, seen, updates, t =>
    let t := unattended (some t.now) 1 t
    let (dispatch, events) := t.dispatch.takeLog
    let t := { t with dispatch }
    let updates := updates + countUpdates events
    if t.facts.phase.current = .arrival then report .arrived updates t
    else
      let seen := if traceEnded t then some (seen.getD t.now) else none
      if seen.any (· + grace ≤ t.now) then report .traceEnded updates t
      else watch looks seen updates
        (unattended (some (t.now + pollInterval)) (pollInterval + 1) t)

/-- Looks enough to see the trace end and the grace go by. -/
def looks (s : Simulation) : Nat := (s.fixes.length * s.interval + grace) / pollInterval + 3

/-- The drive up to its end. -/
def run (s : Simulation) : Except TripError Report := do
  pure (watch s.looks none 0 (← s.prepare))

end Simulation
end LiveTrip
