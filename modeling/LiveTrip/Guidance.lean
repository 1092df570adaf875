import LiveTrip.Congestion.Thresholds
import LiveTrip.Route

/-!
# What the engine reports and what observers see of a route

* `Tracking`: how the engine follows the route.
* `Cues`: the texts for the current step.
* `ProgressReport`, `Status`: what the engine reports for one tick.
* `Progress`: a report together with the congestion ahead.
-/

namespace LiveTrip

/-- How well the position is matched to the route. -/
inductive Tracking
  | initialized
  | tracking
  | uncertain
  | offRoute
  | complete
  deriving DecidableEq, Repr, Inhabited

def Tracking.name : Tracking → String
  | .initialized => "initialized"
  | .tracking => "tracking"
  | .uncertain => "uncertain"
  | .offRoute => "off_route"
  | .complete => "complete"

/-- Texts for the current step. -/
structure Cues where
  route : String
  leg : Nat
  step : Nat
  /-- Shown for the current step. -/
  banner : Option String := none
  /-- Said about the next manoeuvre. -/
  voice : Option String := none
  deriving DecidableEq, Repr, Inhabited

/-- Nothing to show and nothing to say. -/
def Cues.isEmpty (c : Cues) : Bool := c.banner.isNone && c.voice.isNone

/-- Where along a route the engine puts the position. -/
structure ProgressReport where
  route : String
  leg : Nat
  step : Nat
  /-- Current segment of the leg. -/
  segment : Nat
  /-- Metres travelled along the route. -/
  travelled : Float
  /-- Metres left. -/
  remaining : Float
  /-- Seconds left. -/
  duration : Float
  deriving Repr, Inhabited

/-- What the engine reports for one tick. -/
structure Status where
  location : MatchedLocation
  tracking : Tracking := .initialized
  progress : Option ProgressReport := none
  cues : Option Cues := none
  deriving Repr, Inhabited

def Status.offRoute (s : Status) : Bool := s.tracking = .offRoute

/-- Progress along a route, with the congestion from the current segment on. -/
structure Progress where
  report : ProgressReport
  tracking : Tracking
  congestion : List CongestedSegment
  deriving Repr, Inhabited

/-- The destination has been reached. -/
def Progress.isComplete (p : Progress) : Bool := p.tracking = .complete

/-- Share of the route that has been travelled, 0 to 1. -/
def ProgressReport.fraction (r : ProgressReport) : Float :=
  let total := r.travelled + r.remaining
  if total ≤ 0.0 then 0.0 else Geo.clamp 0.0 1.0 (r.travelled / total)

end LiveTrip
