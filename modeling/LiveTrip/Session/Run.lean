import LiveTrip.Session.Ticks

/-!
# Runs of a session

* `Trip.tick?`: what happens by itself: the uppermost stage, or the next delivery of a fan-out.
* `Trip.decide?`: what happens because the outside, or the observer at work, decides so.
* `Trip.work?`, `Trip.replay?`: the worker, or the replay, takes a turn. Tasks take turns only while
  nothing is going on, and only if what they wait for has come.
* `Move`: everything that is up to the outside, and `Trip.move?`, what it does.
* `Trip.Reaches`: the trips that a sequence of moves leads to. Time passes as it may between them.
-/

namespace LiveTrip

namespace Trip

/-- The trip with the uppermost frame taken off. -/
def pop (t : Trip) : Trip := t.mapDispatch fun d => { d with stack := d.stack.tail }

/-- What happens by itself, if anything does. -/
def tick? (t : Trip) : Option Trip :=
  match t.dispatch.stack with
  | .owner stage :: _ => some (t.pop.run stage)
  | .acting f _ .speedSignal :: _ =>
    -- The signal takes in a location, and that is all it does.
    let t := match f with
      | ⟨_, _, .location, l⟩ => { t with signal := t.signal.observe l }
      | _ => t
    some (t.mapDispatch (·.finish))
  | _ => (t.dispatch.advance?).map fun d => { t with dispatch := d }

/-- Who decides what happens next: `some none` is the outside, `some (some o)` an observer. -/
def speaker (t : Trip) : Option (Option Listener) :=
  match t.dispatch.speaker with
  | some (some .speedSignal) => none
  | s => s

/-- What happens because whoever has the word decides so. -/
def decide? (t : Trip) (d : Decision Call) : Option Trip :=
  match t.speaker, d with
  | some caller, .call c => some (t.call caller c)
  | some (some _), .finish => some (t.mapDispatch (·.finish))
  | some (some _), .fail => some (t.mapDispatch (·.fail))
  | _, _ => none

/-! ## Tasks -/

/-- Nothing is going on. -/
def idle (t : Trip) : Bool := t.dispatch.stack.isEmpty

/-- The worker is running and what it waits for has come. -/
def workReady (t : Trip) : Bool := t.worker.any (·.ready t.now)

/-- The replay under way, if the source is one. -/
def replayRun? (t : Trip) : Option (ReplaySource × ReplayRun) :=
  match t.source with
  | .replay s => s.run.map (s, ·)
  | .manual _ => none

/-- The next fix of the replay is due. -/
def replayReady (t : Trip) : Bool := t.replayRun?.any fun (_, r) => r.due ≤ t.now

/-- A worker takes up what it has waited for. -/
def resume (t : Trip) (w : Worker) : Trip :=
  let awake := t.mapWorker w.generation fun w => { w with wait := .working }
  match w.wait with
  | .turn fix => awake.begin w.generation .locationOnly fix
  | .status tick asked ready _ =>
    if ready ≤ t.now then
      let (engine, answer) := awake.engine.collect asked
      { awake with engine }.pushStages [.conclude tick answer]
    else awake.pushStages [.conclude tick (.error (.timeout t.settings.polling.timeout))]
  | _ => awake.pushStages [.proceed w.generation]

/-- The worker takes a turn. -/
def work? (t : Trip) : Option Trip :=
  if t.idle && t.workReady then t.worker.map t.resume else none

/-- The replay takes a turn: the fix that is due goes down the line of the running worker. -/
def replay? (t : Trip) : Option Trip :=
  if t.idle && t.replayReady then
    t.replayRun?.map fun (s, r) =>
      let line := match t.worker with
        | some w => w.line
        | none => { reading := false }
      let (s, line) := s.send r line
      let t := match t.worker with
        | some w => { t with worker := some { w with line } }
        | none => t
      { t with source := .replay s, replayStamp := t.stamp, stamp := t.stamp + 1 }
  else none

/-- Time passes. -/
def elapse? (t : Trip) (later : Nat) : Option Trip :=
  if t.idle && t.now ≤ later then some { t with now := later } else none

end Trip

/-! ## Runs -/

/-- What is up to the outside. -/
inductive Move
  | decide (d : Decision Call)
  | work
  | replay
  | elapse (later : Nat)

namespace Trip

/-- What a move does. -/
def move? (t : Trip) : Move → Option Trip
  | .decide d => t.decide? d
  | .work => t.work?
  | .replay => t.replay?
  | .elapse later => t.elapse? later

/-- The trips that a sequence of moves leads to, with what happens by itself in between. -/
inductive Reaches : Trip → List Move → Trip → Prop
  | refl (t : Trip) : Reaches t [] t
  | tick {a b c : Trip} {ms : List Move} : a.tick? = some b → Reaches b ms c → Reaches a ms c
  | move {a b c : Trip} {m : Move} {ms : List Move} :
      a.move? m = some b → Reaches b ms c → Reaches a (m :: ms) c

end Trip
end LiveTrip
