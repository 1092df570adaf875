import LiveTrip.Session.State

/-!
# Calls on a session

* `Trip.perform`: what a call changes at once, what it is answered, and which stages are left to do.
* `Trip.call`: the call as a whole: its stages, and then its answer, go on top of what is going on.

A call changes data at once and tells observers in stages. An observer that is told something may
make calls of its own, whose stages then come first.
-/

namespace LiveTrip

/-- What a call comes to. -/
structure Effect where
  trip : Trip
  answer : Answer := .done
  /-- What is left to do, in order. -/
  stages : List Stage := []

namespace Trip

/-- The trip with a fact changed. -/
def withFacts (t : Trip) (f : Facts → Facts) : Trip := { t with facts := f t.facts }

/-- The trip with the counters changed. -/
def count (t : Trip) (f : Counters → Counters) : Trip := { t with counters := f t.counters }

def mapDispatch (t : Trip) (f : SessionDispatch → SessionDispatch) : Trip :=
  { t with dispatch := f t.dispatch }

def note (t : Trip) (n : Note) : Trip := t.mapDispatch (·.note n)

/-- Every tick begun before is out of date from here on. -/
def advanceGeneration (t : Trip) : Trip := { t with generation := t.generation + 1 }

/-- A worker for the present generation waits for its first turn. The source, if it is a replay,
waits for its own before that. -/
def spawn (t : Trip) : Trip :=
  let fix := t.source.lastKnown
  let worker : Worker :=
    { generation := t.generation, hasFix := fix.isSome, wait := .turn fix, stamp := t.stamp + 1 }
  { t with worker := some worker, replayStamp := t.stamp, stamp := t.stamp + 2 }.note
    (.started t.generation)

/-- Starts the session. The source may refuse. -/
def start (t : Trip) : Effect :=
  if t.worker.isSome then { trip := t }
  else
    let t := t.advanceGeneration
    match t.source.start t.now with
    | (source, .error cause) =>
      { trip := { t with source }, answer := .refused (.positioning cause) }
    | (source, .ok ()) =>
      { trip := { t with source }.spawn.count fun c => { c with started := c.started + 1 }
        stages := [.enter .started, .recompute .call] }

/-- Lets the worker go and stops the source. -/
def halt (t : Trip) : Trip :=
  { t.advanceGeneration with worker := none, source := t.source.stop }.note (.stopped t.generation)

/-- Stops the session. -/
def stop (t : Trip) : Effect :=
  if t.worker.isSome then
    { trip := t.halt, stages := [.leaveOffRoute, .forgetTrip, .enter .stopped] }
  else { trip := t }

/-- Gives the session up: a running worker is let go, and nobody is told. -/
def close (t : Trip) : Effect :=
  { trip := { (if t.worker.isSome then t.halt else t) with closed := true } }

/-- Replaces the active routes. The engine comes first and may refuse them. What has been told of
the routes before is forgotten. -/
def setRoutes (t : Trip) (routes : List Route) : Effect :=
  match t.engine.setRoutes routes with
  | .error cause => { trip := t, answer := .refused (.engine cause) }
  | .ok engine =>
    let t := t.withFacts fun f => { f with routes, arrived := false }
    { trip := { t with engine, epoch := t.epoch + 1 }.mapDispatch fun d =>
        (d.forget .routeProgress).forget .instructionCues
      stages := [.recompute .call] }

/-- Starts or ends guidance. Its end drops the arrival, though a phase of arrival is held. -/
def setGuidance (t : Trip) (on : Bool) : Effect :=
  { trip := t.withFacts fun f => { f with guidance := on, arrived := f.arrived && on }
    stages := [.recompute .call] }

def setDestination (t : Trip) (destination : Option Point) : Effect :=
  { trip := t.withFacts fun f => { f with destination }, stages := [.recompute .call] }

/-- The trip with something done to the source, if that is one that is told what to do. -/
def mapManual (t : Trip) (f : ManualSource → ManualSource) : Trip :=
  match t.source with
  | .manual m => { t with source := .manual (f m) }
  | .replay _ => t

/-- Sends down the line of the running worker, if the source holds its end, and whether it is read.
-/
def send (t : Trip) (d : Delivery) : Trip × Bool :=
  match t.source, t.worker with
  | .manual m, some w =>
    if m.running then
      match w.line.send d with
      | (line, true) =>
        ({ t with worker := some { w with line } }.note (.sent w.generation d), true)
      | (_, false) => (t, false)
    else (t, false)
  | _, _ => (t, false)

/-- The source lets go of its line by itself. -/
def haltSource (t : Trip) : Trip :=
  let t := t.mapManual (·.stop)
  match t.source, t.worker with
  | .manual _, some w =>
    { t with worker := some { w with line := { w.line with writing := false } } }
  | _, _ => t

/-- What a call changes at once, what it is answered, and what is left to do. -/
def perform (t : Trip) (c : Call) : Effect :=
  if t.closed && c.onSession then { trip := t, answer := .closed }
  else match c with
    | .start => t.start
    | .stop => t.stop
    | .close => t.close
    | .setRoutes routes => t.setRoutes routes
    | .setGuidance on => t.setGuidance on
    | .setDestination point => t.setDestination point
    | .observe l c =>
      { trip := t, answer := .id ((t.dispatch.registry c).enroll l).id, stages := [.register l c] }
    | .unobserve l c =>
      let (d, removed) := t.dispatch.unregisterObserver c l
      { trip := { t with dispatch := d }, answer := .flag removed }
    | .subscribe l c slot => { trip := t, stages := [.subscribe l c slot] }
    | .release slot =>
      { trip := t.mapDispatch (·.release slot)
        answer := if (t.dispatch.guard? slot).isSome then .done else .noGuard }
    | .detach slot =>
      { trip := t.mapDispatch (·.detach slot)
        answer := if (t.dispatch.guard? slot).isSome then .done else .noGuard }
    | .query => { trip := t, answer := .snapshot t.snapshot }
    | .control c => { trip := { t with engine := t.engine.control c } }
    | .push fix =>
      let (t, sent) := (t.mapManual (·.know (some fix))).send (.ok fix)
      { trip := t, answer := .flag sent }
    | .pushError cause =>
      let (t, sent) := t.send (.error cause)
      { trip := t, answer := .flag sent }
    | .setLastKnown fix => { trip := t.mapManual (·.know fix) }
    | .failNextStart => { trip := t.mapManual fun m => { m with failing := true } }
    | .haltSource => { trip := t.haltSource }

/-- Puts stages on top of what is going on, the first of them uppermost. -/
def pushStages (t : Trip) (stages : List Stage) : Trip :=
  t.mapDispatch fun d => { d with stack := stages.map .owner ++ d.stack }

/-- A call is made. -/
def call (t : Trip) (caller : Option Listener) (c : Call) : Trip :=
  let e := t.perform c
  e.trip.pushStages (e.stages ++ [.reply { caller, call := c, answer := e.answer }])

end Trip
end LiveTrip
