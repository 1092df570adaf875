import LiveTrip.Polling
import LiveTrip.Session.Category
import LiveTrip.Settings
import LiveTrip.Signal

/-!
# The state of a session

* `Facts`: what the session knows: its lifecycle, destination, routes, guidance, arrival and phase.
* `Tick`: one pass from a fix to what observers are told, with the generation and the route epoch it
  started under.
* `Worker`: the task that runs ticks while the session is started, and what it is waiting for.
* `Call`, `Answer`: what can be asked of a session and of what belongs to it.
* `Stage`: what is left to do of a call or a tick.
* `Note`: what happens besides deliveries.
* `Trip`: a session, its collaborators, and the dispatch of values to observers.
-/

namespace LiveTrip

/-- What a session knows. -/
structure Facts where
  state : SessionState := .stopped
  destination : Option Point := none
  /-- Active routes; the first is primary. -/
  routes : List Route := []
  guidance : Bool := false
  /-- The engine has reported the end of the route, under guidance. -/
  arrived : Bool := false
  phase : PhaseTracker := {}
  deriving Inhabited

/-- The facts that the phase depends on. -/
def Facts.phaseFacts (f : Facts) : PhaseFacts where
  hasDestination := f.destination.isSome
  hasRoutes := !f.routes.isEmpty
  guidance := f.guidance
  arrived := f.arrived

/-- What a tick may tell observers. -/
inductive Scope
  /-- Location, off-route flag, cues, progress and phase. -/
  | full
  /-- The location only: the tick at the start of a worker. -/
  | locationOnly
  deriving DecidableEq, Repr, Inhabited

/-- One pass from a fix to what observers are told. -/
structure Tick where
  /-- Ticks are numbered in the order they begin. -/
  number : Nat
  /-- Generation of the worker that runs it. -/
  generation : Nat
  /-- Route epoch when it began. Its route data holds for the routes of that epoch. -/
  epoch : Nat
  scope : Scope
  fix : Option Fix
  deriving Inhabited

/-- Whether a failed status is counted. Before any fix is known, the engine need not have one. -/
def Tick.counted (t : Tick) : Bool := t.scope = .full || t.fix.isSome

/-- What a worker is waiting for. -/
inductive Wait
  /-- Its first turn, with the fix known at the start. -/
  | turn (fix : Option Fix)
  /-- A status for a tick: when it is ready, and how long the worker waits for it. -/
  | status (tick : Tick) (asked : Asked) (ready deadline : Nat)
  /-- Something to read. -/
  | delivery
  /-- The next beat of its cadence. -/
  | beat
  /-- Nothing: it is at work. -/
  | working
  /-- Nothing more: it has ended. -/
  | ended

/-- The task that runs ticks. -/
structure Worker where
  generation : Nat
  /-- Its line from the positioning source. -/
  line : Line := {}
  /-- A fix has been known. Ticks of a cadence wait for the first. -/
  hasFix : Bool
  /-- Next beat of its cadence, once that runs. -/
  due : Option Nat := none
  wait : Wait
  /-- Rank among those who wait: the lower comes first. -/
  stamp : Nat

namespace Worker

/-- Whether what it is waiting for has come. -/
def ready (w : Worker) (now : Nat) : Bool :=
  match w.wait with
  | .turn _ => true
  | .status _ _ ready deadline => ready ≤ now || deadline ≤ now
  | .delivery => !w.line.queue.isEmpty || !w.line.writing
  | .beat => w.due.all (· ≤ now)
  | .working | .ended => false

/-- When what it is waiting for comes at the latest, if time alone brings it. -/
def alarm? (w : Worker) : Option Nat :=
  match w.wait with
  | .status _ _ ready deadline => some (min ready deadline)
  | .beat => w.due
  | _ => none

/-- The worker ends and lets go of its line. -/
def ended (w : Worker) : Worker :=
  { w with wait := .ended, line := { w.line with reading := false } }

end Worker

/-- What can be asked of a session, its engine and its source. -/
inductive Call
  | start
  | stop
  | setRoutes (routes : List Route)
  | setGuidance (on : Bool)
  | setDestination (point : Option Point)
  | observe (l : Listener) (c : Category)
  | unobserve (l : Listener) (c : Category)
  | subscribe (l : Listener) (c : Category) (slot : Slot)
  /-- Takes a guard out of its slot and unregisters its observer. -/
  | release (slot : Slot)
  /-- Takes a guard out of its slot and leaves its observer registered. -/
  | detach (slot : Slot)
  | query
  /-- Gives the session up. -/
  | close
  /-- Tells the engine what to do next. -/
  | control (c : Engine.Control)
  /-- The source sends a fix. -/
  | push (fix : Fix)
  /-- The source sends an error. -/
  | pushError (cause : PositioningError)
  /-- The fix that the source has when it starts. -/
  | setLastKnown (fix : Option Fix)
  /-- The source refuses to start the next time. -/
  | failNextStart
  /-- The source stops by itself. -/
  | haltSource

/-- Whether a call is on the session itself, rather than on its engine, its source or a guard. -/
def Call.onSession : Call → Bool
  | .start | .stop | .setRoutes _ | .setGuidance _ | .setDestination _ | .observe _ _
  | .unobserve _ _ | .subscribe _ _ _ | .query | .close => true
  | _ => false

/-- Everything that can be looked up in a session. -/
structure Snapshot where
  hub : Hub
  facts : Facts
  counters : Counters
  source : Source
  /-- Fixes the engine has taken. -/
  ingested : Nat

inductive Answer
  | done
  | refused (cause : TripError)
  | id (id : ObserverId)
  | flag (b : Bool)
  /-- There is no guard in the slot. -/
  | noGuard
  | snapshot (s : Snapshot)
  /-- The session has been given up. -/
  | closed

/-- An answer with the call it is for and who made it: an observer, or the outside. -/
structure Reply where
  caller : Option Listener
  call : Call
  answer : Answer

/-- What is left to do of a call or of a tick. -/
inductive Stage
  /-- Give an answer. -/
  | reply (r : Reply)
  | register (l : Listener) (c : Category)
  | subscribe (l : Listener) (c : Category) (slot : Slot)
  /-- Enter a lifecycle state and tell of it. -/
  | enter (s : SessionState)
  /-- Derive the phase anew and tell of a change. -/
  | recompute (cause : Cause)
  /-- Take back an off-route flag before it is forgotten. -/
  | leaveOffRoute
  /-- Forget what has been told of the trip. -/
  | forgetTrip
  /-- Tell of the fix. -/
  | announce (t : Tick)
  /-- Give the fix to the engine. -/
  | ingest (t : Tick)
  /-- Ask the engine for its status. -/
  | ask (t : Tick)
  /-- Take in the status, or its failure. -/
  | conclude (t : Tick) (answer : Except EngineError Status)
  /-- Tell of the location. -/
  | locate (t : Tick) (s : Status)
  /-- Tell of a change of the off-route flag. -/
  | flag (t : Tick) (s : Status)
  /-- Tell of a change of the cues. -/
  | cue (t : Tick) (s : Status)
  /-- Smooth the congestion ahead and tell of the progress. -/
  | report (t : Tick) (s : Status)
  /-- Take note of an arrival. -/
  | arrive (t : Tick) (complete : Bool)
  /-- Count the tick. -/
  | tally (t : Tick)
  /-- Go on to the worker's next tick. -/
  | proceed (generation : Nat)

/-- What happens besides deliveries. -/
inductive Note
  | replied (r : Reply)
  /-- The source has started, and a worker has been created. -/
  | started (generation : Nat)
  /-- The worker has been let go, and the source told to stop. -/
  | stopped (generation : Nat)
  /-- Something has been sent down a worker's line. -/
  | sent (generation : Nat) (d : Delivery)
  /-- A worker has read its line. -/
  | read (generation : Nat) (ds : List Delivery)
  | ticked (t : Tick)
  /-- The engine was asked for the status of a tick, and it has come or failed. -/
  | answered (t : Tick) (failed : Bool)
  /-- The signal was asked for the segments `start ≤ i < stop` of a leg with this congestion. -/
  | estimated (start stop : Nat) (congestion : List Nat) (value : Option Nat)
  /-- A pass has changed the congestion of a leg of an active route. -/
  | blended (route : String) (leg : Nat)

/-- The dispatch of a session. -/
abbrev SessionDispatch := Dispatch Hub Category Category.Value Listener Stage Note

/-- A session with all that belongs to it. -/
structure Trip where
  settings : Settings := {}
  engine : Engine
  source : Source
  signal : Signal := .none
  dispatch : SessionDispatch := { table := .initial }
  facts : Facts
  counters : Counters := {}
  /-- Advanced by every start and stop: a tick of an earlier generation may tell nothing more. -/
  generation : Nat := 0
  /-- Advanced by every new set of routes. -/
  epoch : Nat := 0
  /-- The running worker. -/
  worker : Option Worker := none
  /-- Ticks begun so far. -/
  ticks : Nat := 0
  /-- The clock, in milliseconds. -/
  now : Nat := 0
  /-- Rank for the next one who waits. -/
  stamp : Nat := 0
  /-- Rank of the replay's wait for its next fix. -/
  replayStamp : Nat := 0
  /-- The session has been given up. -/
  closed : Bool := false

/-- A new session: stopped, on a free drive. -/
def Trip.new (settings : Settings) (engine : Engine) (source : Source) (signal : Signal) :
    Trip where
  settings
  engine
  source
  signal
  facts := { phase := { rule := settings.phase } }

/-- The counters, with the deliveries that failed. -/
def Trip.metrics (t : Trip) : Counters :=
  { t.counters with observerFailures := t.dispatch.table.failures }

/-- Everything that can be looked up. -/
def Trip.snapshot (t : Trip) : Snapshot where
  hub := t.dispatch.table
  facts := t.facts
  counters := t.metrics
  source := t.source
  ingested := t.engine.ingested

end LiveTrip
