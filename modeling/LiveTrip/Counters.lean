/-!
# Counters of a session

Failures that no caller gets to see are counted.

* `Counters`: the counts.
* `Counters.totalFailures`, `Counters.text`: their sum by kind, and a one-line summary.

Counts are natural numbers, and so are `Trip.generation` and `Trip.epoch`, `Registry.nextId` and
`Registry.failures`, the contradictions of a phase tracker and the fixes an engine has taken. A
running session keeps each of them in 64 bits. They only grow, and it is taken for granted that none
gets to `2 ^ 64`: nothing is said of what would happen then.
-/

namespace LiveTrip

structure Counters where
  /-- Finished ticks. -/
  ticks : Nat := 0
  /-- Fixes received from the positioning source. -/
  samplesReceived : Nat := 0
  /-- Fixes dropped for a newer one. -/
  samplesSuperseded : Nat := 0
  /-- Positioning errors, and fixes the engine refused. -/
  ingestionFailures : Nat := 0
  /-- Status requests that failed or took too long. -/
  statusFailures : Nat := 0
  /-- Results dropped because the session was stopped or its routes replaced. -/
  staleDiscarded : Nat := 0
  /-- Contradictory facts given to the phase tracker. -/
  invalidPhases : Nat := 0
  /-- Times that live congestion was blended into a leg. -/
  blends : Nat := 0
  /-- Times the session was started. -/
  started : Nat := 0
  /-- Deliveries that failed in the observer. -/
  observerFailures : Nat := 0
  deriving DecidableEq, Repr, Inhabited

namespace Counters

/-- The failures of every kind. Stale results are no failures. -/
def totalFailures (c : Counters) : Nat :=
  c.ingestionFailures + c.statusFailures + c.invalidPhases + c.observerFailures

/-- The counters under their names, in order. -/
def fields (c : Counters) : List (String × Nat) := [
  ("ticks", c.ticks),
  ("samples_received", c.samplesReceived),
  ("samples_superseded", c.samplesSuperseded),
  ("ingestion_failures", c.ingestionFailures),
  ("engine_status_failures", c.statusFailures),
  ("stale_results_discarded", c.staleDiscarded),
  ("invalid_phase_transitions", c.invalidPhases),
  ("congestion_rewrites", c.blends),
  ("sessions_started", c.started),
  ("observer_failures", c.observerFailures)]

/-- One-line summary. -/
def text (c : Counters) : String :=
  " ".intercalate (
    [("ticks", c.ticks), ("samples", c.samplesReceived), ("superseded", c.samplesSuperseded),
      ("ingest_failures", c.ingestionFailures), ("status_failures", c.statusFailures),
      ("stale", c.staleDiscarded), ("rewrites", c.blends),
      ("observer_failures", c.observerFailures)].map fun (name, n) => name ++ "=" ++ toString n)

end Counters
end LiveTrip
