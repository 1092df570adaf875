/-!
# The navigation phase

The phase is derived from four facts, with a latch: once arrival is reached it is held until the
destination or the routes are cleared.

* `Phase`: the five phases.
* `PhaseFacts`: the facts; `PhaseFacts.Contradictory` are those that report an arrival without
  routes and guidance.
* `PhaseRule.derive`: the phase of given facts, without the latch.
* `PhaseTracker`: the current phase, the latch and the number of contradictions met.
* `PhaseTracker.update`, `PhaseTracker.reset`: new facts, and a new start.
-/

namespace LiveTrip

inductive Phase
  /-- Driving without a route. -/
  | freeDrive
  /-- A destination, but no route to it yet. -/
  | destinationPreview
  /-- Routes, before guidance starts. -/
  | routePreview
  | activeGuidance
  | arrival
  deriving DecidableEq, Repr, Inhabited

def Phase.name : Phase → String
  | .freeDrive => "free_drive"
  | .destinationPreview => "destination_preview"
  | .routePreview => "route_preview"
  | .activeGuidance => "active_guidance"
  | .arrival => "arrival"

/-- The phase in plain words. -/
def Phase.description : Phase → String
  | .freeDrive => "free drive"
  | .destinationPreview => "destination preview"
  | .routePreview => "route preview"
  | .activeGuidance => "active guidance"
  | .arrival => "arrival"

/-- What the phase depends on. -/
structure PhaseFacts where
  hasDestination : Bool := false
  hasRoutes : Bool := false
  guidance : Bool := false
  /-- The engine reports that the destination is reached. -/
  arrived : Bool := false
  deriving DecidableEq, Repr, Inhabited

namespace PhaseFacts

/-- An arrival without routes under guidance. -/
def Contradictory (f : PhaseFacts) : Prop := f.arrived ∧ ¬(f.hasRoutes ∧ f.guidance)

instance (f : PhaseFacts) : Decidable f.Contradictory := by unfold Contradictory; infer_instance

/-- The facts with a contradictory arrival left out. -/
def consistent (f : PhaseFacts) : PhaseFacts :=
  if f.Contradictory then { f with arrived := false } else f

end PhaseFacts

/-- How the phase is derived. -/
structure PhaseRule where
  /-- Report `destinationPreview` while there is a destination and no route; else it is a free
  drive. -/
  preview : Bool := false
  deriving DecidableEq, Repr, Inhabited

/-- The phase of given facts, without the latch. -/
def PhaseRule.derive (rule : PhaseRule) (f : PhaseFacts) : Phase :=
  if !f.hasDestination then .freeDrive
  else if !f.hasRoutes then (if rule.preview then .destinationPreview else .freeDrive)
  else if !f.guidance then .routePreview
  else if f.arrived then .arrival
  else .activeGuidance

/-- The current phase and what it takes to go on. -/
structure PhaseTracker where
  rule : PhaseRule := {}
  current : Phase := .freeDrive
  /-- Arrival has been reached and is held. -/
  latched : Bool := false
  /-- Contradictory facts met so far. -/
  contradictions : Nat := 0
  deriving DecidableEq, Repr, Inhabited

/-- Outcome of an update. -/
structure PhaseUpdate where
  phase : Phase
  changed : Bool
  contradictory : Bool
  deriving DecidableEq, Repr, Inhabited

namespace PhaseTracker

/-- Takes in new facts. -/
def update (t : PhaseTracker) (facts : PhaseFacts) : PhaseTracker × PhaseUpdate :=
  let contradictory : Bool := facts.Contradictory
  let f := facts.consistent
  let derived := t.rule.derive f
  let latched := f.hasDestination && f.hasRoutes && (t.latched || derived = .arrival)
  let phase := if latched then .arrival else derived
  ({ t with
      current := phase
      latched
      contradictions := if contradictory then t.contradictions + 1 else t.contradictions },
    { phase, changed := phase ≠ t.current, contradictory })

/-- Back to a free drive without a latch. The count of contradictions stays. -/
def reset (t : PhaseTracker) : PhaseTracker := { t with current := .freeDrive, latched := false }

end PhaseTracker
end LiveTrip
