import LiveTrip.Session.Calls

/-!
# Ticks

* `Trip.progress`: an engine's report made into progress, with the congestion ahead smoothed first.
* `Trip.begin`: a tick begins. `Trip.proceed`: a worker goes on to its next tick, or waits.
* `Trip.run`: what a stage does, whether of a call or of a tick.

Before each thing that a tick tells, its generation is compared with the session's: an observer may
have stopped the session since. The route epoch is compared once, before the cues.
-/

namespace LiveTrip.Trip

/-- The running worker, if it is of the given generation. -/
def workerOf? (t : Trip) (generation : Nat) : Option Worker :=
  t.worker.filter (·.generation = generation)

/-- The trip with the worker of a generation changed. One that has been let go stays so. -/
def mapWorker (t : Trip) (generation : Nat) (f : Worker → Worker) : Trip :=
  match t.workerOf? generation with
  | some w => { t with worker := some (f w) }
  | none => t

/-- A tick may still tell something. -/
def current (t : Trip) (tick : Tick) : Bool := t.generation = tick.generation

/-- A result is dropped because the session has moved on. -/
def discard (t : Trip) : Trip := t.count fun c => { c with staleDiscarded := c.staleDiscarded + 1 }

/-- A value is told to all who are registered for it. -/
def tell (t : Trip) (cause : Cause) (c : Category) (v : c.Value) : Trip :=
  t.mapDispatch (·.publish cause c v)

/-! ## Progress -/

/-- A leg with the congestion ahead of segment `start` moved toward the signal's estimate. -/
structure Outlook where
  signal : Signal
  leg : Leg
  /-- The pass has changed the leg. -/
  blended : Bool := false
  /-- What was asked of the signal. -/
  asked : Option Note := none

/-- Asks the signal for the near window from `start` on, within the leg's congestion, and smooths
the leg with the answer. -/
def outlook (s : SmootherSettings) (signal : Signal) (leg : Leg) (start : Nat) : Outlook :=
  let stop := min (start + s.near) leg.congestion.length
  if signal.isLive && start < stop then
    let (signal, value) := signal.expected start stop
    let asked := some (Note.estimated start stop leg.congestion value)
    match value with
    | some expected =>
      let (leg, blended) := s.apply leg start expected
      { signal, leg, blended, asked }
    | none => { signal, leg, asked }
  else { signal, leg }

/-- An engine's report made into progress, if one of the active routes has its name. -/
def progress (t : Trip) (report : ProgressReport) (how : Tracking) : Trip × Option Progress :=
  match t.facts.routes.findIdx? (·.id = report.route) with
  | none => (t, none)
  | some i =>
    match (t.facts.routes[i]?).bind (·.legs[report.leg]?) with
    | none => (t, some { report, tracking := how, congestion := [] })
    | some leg =>
      let o := outlook t.settings.smoother t.signal leg report.segment
      let routes := t.facts.routes.modify i fun r => { r with legs := r.legs.set report.leg o.leg }
      let t := { t with signal := o.signal }.withFacts fun f => { f with routes }
      let t := match o.asked with
        | some n => t.note n
        | none => t
      let t := if o.blended then
          (t.count fun c => { c with blends := c.blends + 1 }).note
            (.blended report.route report.leg)
        else t
      let start := min report.segment o.leg.congestion.length
      let congestion := t.settings.smoother.thresholds.classify start (o.leg.congestion.drop start)
      (t, some { report, tracking := how, congestion })

/-! ## The worker -/

/-- A tick begins. -/
def begin (t : Trip) (generation : Nat) (scope : Scope) (fix : Option Fix) : Trip :=
  let tick : Tick := { number := t.ticks, generation, epoch := t.epoch, scope, fix }
  ({ t with ticks := t.ticks + 1 }.note (.ticked tick)).pushStages [.announce tick]

/-- A worker starts to wait. -/
def await (t : Trip) (generation : Nat) (wait : Wait) : Trip :=
  { t with stamp := t.stamp + 1 }.mapWorker generation fun w => { w with wait, stamp := t.stamp }

/-- A worker reads its line: what it read is counted. -/
def readLine (t : Trip) (w : Worker) : Trip × Batch :=
  let (line, ds) := w.line.drain
  let batch := Batch.ofList ds
  let t := t.mapWorker w.generation fun w =>
    { w with line, hasFix := w.hasFix || batch.newest.isSome }
  ((t.count batch.count).note (.read w.generation ds), batch)

/-- The beat after one that was due at `due` and is taken at `now`. A beat that comes late by more
than five milliseconds is made up for by skipping those missed. -/
def nextBeat (period due now : Nat) : Nat :=
  if now - due ≤ 5 then due + period else now + period - (now - due) % period

/-- A worker goes on: to its next tick if there is reason for one, else it waits. -/
def proceed (t : Trip) (generation : Nat) : Trip :=
  match t.workerOf? generation with
  | none => t
  | some w =>
    match t.settings.polling.policy with
    | .eventDriven =>
      if w.line.queue.isEmpty then
        if w.line.writing then t.await generation .delivery
        else t.mapWorker generation (·.ended)
      else
        let (t, batch) := t.readLine w
        match batch.newest with
        | some fix => t.begin generation .full (some fix)
        | none => t.pushStages [.proceed generation]
    | .fixedCadence 0 => t.mapWorker generation (·.ended)
    | .fixedCadence period =>
      let due := w.due.getD t.now
      if due ≤ t.now then
        let (t, batch) := t.readLine w
        let t := t.mapWorker generation fun w => { w with due := some (nextBeat period due t.now) }
        if w.hasFix || batch.newest.isSome then t.begin generation .full batch.newest
        else t.pushStages [.proceed generation]
      else t.await generation .beat

/-- The engine is asked for the status of a tick. One that is ready is taken in at once; else the
worker waits for it, unless it may not wait at all. -/
def ask (t : Trip) (tick : Tick) : Trip :=
  if (t.workerOf? tick.generation).isNone then t
  else
    let (engine, asked, delay) := t.engine.ask
    let t := { t with engine }
    if delay = 0 then
      let (engine, answer) := t.engine.collect asked
      { t with engine }.pushStages [.conclude tick answer]
    else if t.settings.polling.timeout = 0 then
      t.pushStages [.conclude tick (.error (.timeout 0))]
    else
      t.await tick.generation
        (.status tick asked (t.now + delay) (t.now + t.settings.polling.timeout))

/-! ## Stages -/

/-- What a stage does. -/
def run (t : Trip) : Stage → Trip
  | .reply r => t.note (.replied r)
  | .register l c => t.mapDispatch fun d => (d.register c l).1
  | .subscribe l c slot => t.mapDispatch (·.subscribe c l slot)
  | .enter s =>
    if t.facts.state = s then t
    else (t.withFacts fun f => { f with state := s }).tell .call .sessionState s
  | .recompute cause =>
    let (phase, update) := t.facts.phase.update t.facts.phaseFacts
    let t := t.withFacts fun f => { f with phase }
    let t := if update.contradictory then
        t.count fun c => { c with invalidPhases := c.invalidPhases + 1 }
      else t
    if update.changed then t.tell cause .navigationPhase update.phase else t
  | .leaveOffRoute =>
    if t.dispatch.last .offRoute = some true then t.tell .call .offRoute false else t
  | .forgetTrip => t.mapDispatch fun d =>
    ((((d.forget .rawLocation).forget .location).forget .routeProgress).forget .offRoute).forget
      .instructionCues
  | .announce tick =>
    let t := t.pushStages [if tick.fix.isSome then .ingest tick else .ask tick]
    match tick.fix with
    | some fix => if t.current tick then t.tell (.tick tick.number) .rawLocation fix else t.discard
    | none => t
  | .ingest tick =>
    match tick.fix with
    | some fix =>
      match t.engine.ingest fix with
      | .ok engine => { t with engine }.pushStages [.ask tick]
      | .error _ =>
        (t.count fun c => { c with ingestionFailures := c.ingestionFailures + 1 }).pushStages
          [.proceed tick.generation]
    | none => t.pushStages [.ask tick]
  | .ask tick => t.ask tick
  | .conclude tick answer =>
    match answer with
    | .ok s => (t.note (.answered tick false)).pushStages [.locate tick s]
    | .error _ =>
      let t := if tick.counted then
          t.count fun c => { c with statusFailures := c.statusFailures + 1 }
        else t
      (t.note (.answered tick true)).pushStages [.proceed tick.generation]
  | .locate tick s =>
    if t.current tick then
      (t.pushStages [if tick.scope = .full then .flag tick s else .tally tick]).tell
        (.tick tick.number) .location s.location
    else t.discard.pushStages [.proceed tick.generation]
  | .flag tick s =>
    if t.current tick then
      let t := t.pushStages [.cue tick s]
      if t.dispatch.last .offRoute = some s.offRoute then t
      else t.tell (.tick tick.number) .offRoute s.offRoute
    else t.discard.pushStages [.tally tick]
  | .cue tick s =>
    if (s.progress.isSome || s.cues.isSome) && tick.epoch ≠ t.epoch then
      t.discard.pushStages [.tally tick]
    else
      match s.cues with
      | none => t.pushStages [.report tick s]
      | some cues =>
        if t.current tick then
          let t := t.pushStages [.report tick s]
          if t.dispatch.last .instructionCues = some cues then t
          else t.tell (.tick tick.number) .instructionCues cues
        else t.discard.pushStages [.tally tick]
  | .report tick s =>
    match s.progress with
    | none => t.pushStages [.tally tick]
    | some report =>
      match t.progress report s.tracking with
      | (t, none) => t.pushStages [.tally tick]
      | (t, some progress) =>
        if t.current tick then
          (t.pushStages [.arrive tick progress.isComplete]).tell (.tick tick.number) .routeProgress
            progress
        else t.discard.pushStages [.tally tick]
  | .arrive tick complete =>
    if t.current tick then
      (t.withFacts fun f => { f with arrived := complete && f.guidance }).pushStages
        [.recompute (.tick tick.number), .tally tick]
    else t.discard.pushStages [.tally tick]
  | .tally tick =>
    (t.count fun c => { c with ticks := c.ticks + 1 }).pushStages [.proceed tick.generation]
  | .proceed generation => t.proceed generation

end LiveTrip.Trip
