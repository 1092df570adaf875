import LiveTrip.Counters
import LiveTrip.Engine
import LiveTrip.Positioning

/-!
# Talking to the engine on behalf of a tick

* `Batch`: what is read from a line at once: the newest fix, and how much there was of what.
* `Poller`: an engine, its line and the counters, with the operations of a tick one by one.
-/

namespace LiveTrip

/-- What has been read from a line at once. -/
structure Batch where
  /-- The newest fix. -/
  newest : Option Fix := none
  /-- Fixes read. -/
  received : Nat := 0
  /-- Fixes that a newer one took the place of. -/
  superseded : Nat := 0
  /-- Errors read. -/
  errors : Nat := 0
  deriving Repr, Inhabited

namespace Batch

/-- Takes in one more delivery. -/
def add (b : Batch) : Delivery → Batch
  | .ok fix =>
    { b with
      newest := some fix
      received := b.received + 1
      superseded := if b.newest.isSome then b.superseded + 1 else b.superseded }
  | .error _ => { b with errors := b.errors + 1 }

/-- The batch of some deliveries, oldest first. -/
def ofList (ds : List Delivery) : Batch := ds.foldl add {}

/-- The counters with the batch counted in. -/
def count (b : Batch) (c : Counters) : Counters :=
  { c with
    samplesReceived := c.samplesReceived + b.received
    samplesSuperseded := c.samplesSuperseded + b.superseded
    ingestionFailures := c.ingestionFailures + b.errors }

end Batch

/-- Asks an engine on behalf of ticks. -/
structure Poller where
  engine : Engine
  /-- Milliseconds the engine may take for a status. -/
  timeout : Nat
  line : Line := {}
  counters : Counters := {}

namespace Poller

/-- The newest of `first` and all that is queued. -/
def takeLatest (p : Poller) (first : Option Delivery) : Poller × Option Fix :=
  let (line, queued) := p.line.drain
  let batch := Batch.ofList (first.toList ++ queued)
  ({ p with line, counters := batch.count p.counters }, batch.newest)

/-- Gives a fix to the engine, and whether it was taken. -/
def ingest (p : Poller) (fix : Fix) : Poller × Bool :=
  match p.engine.ingest fix with
  | .ok engine => ({ p with engine }, true)
  | .error _ =>
    ({ p with counters.ingestionFailures := p.counters.ingestionFailures + 1 }, false)

/-- Asks for the status. Nothing is counted. -/
def request (p : Poller) : Poller × Except EngineError Status :=
  let (engine, answer) := p.engine.request p.timeout
  ({ p with engine }, answer)

/-- Asks for the status, and counts a failure. -/
def fetch (p : Poller) : Poller × Except EngineError Status :=
  match p.request with
  | (p, .ok status) => (p, .ok status)
  | (p, .error cause) =>
    ({ p with counters.statusFailures := p.counters.statusFailures + 1 }, .error cause)

end Poller
end LiveTrip
