import LiveTrip.Location

/-!
# Routes

Routes come from elsewhere; the session reads them, hands them to the engine and keeps
their congestion up to date.

* `Leg`: a polyline with a congestion value per segment and the steps along it. Segment `i` runs
  from point `i` to point `i + 1`.
* `Blend`: the record of the last change to a leg's congestion.
* `Leg.crossings`, `Leg.classAt`: the intersections of all steps in order, and the class of the road
  in effect at a segment.
-/

namespace LiveTrip

/-- A place on a leg where roads meet. -/
structure Intersection where
  /-- Index of the point of the leg it sits at. -/
  index : Nat
  /-- Class of the road that the route goes on along, if known. -/
  roadClass : Option RoadClass := none
  deriving DecidableEq, Repr, Inhabited

/-- The way from one manoeuvre to the next. -/
structure Step where
  instruction : Option String := none
  intersections : List Intersection := []
  deriving DecidableEq, Repr, Inhabited

/-- Record of live congestion blended into a leg: where it was, what the route itself reports there,
and the estimate it was computed from. -/
structure Blend where
  /-- First segment of the range. -/
  start : Nat
  length : Nat
  /-- The route's own values over the range. -/
  reported : List Nat
  expected : Nat
  deriving DecidableEq, Repr, Inhabited

/-- The way from one stop to the next. -/
structure Leg where
  geometry : List Point := []
  /-- Congestion of each segment. -/
  congestion : List Nat := []
  steps : List Step := []
  /-- The last change to the congestion. -/
  blend : Option Blend := none
  deriving BEq, Repr, Inhabited

structure Route where
  id : String
  legs : List Leg := []
  deriving BEq, Repr, Inhabited

namespace Leg

def segmentCount (leg : Leg) : Nat := leg.geometry.length - 1

/-- The segments of a polyline, as pairs of its points. -/
def pairs : List Point → List (Point × Point)
  | a :: b :: rest => (a, b) :: pairs (b :: rest)
  | _ => []

/-- Length in metres. -/
def length (leg : Leg) : Float :=
  (pairs leg.geometry).foldl (fun sum (a, b) => sum + a.distance b) 0.0

/-- The intersections of all steps, in order. -/
def crossings (leg : Leg) : List Intersection := leg.steps.flatMap (·.intersections)

/-- The known class of the last intersection at or before `index`: the road in effect there. -/
def classAt (leg : Leg) (index : Nat) : Option RoadClass :=
  ((leg.crossings.filter (·.index ≤ index)).filterMap (·.roadClass)).getLast?

end Leg

namespace Route

/-- The last point of the last leg. -/
def destination (route : Route) : Option Point := route.legs.getLast?.bind (·.geometry.getLast?)

/-- Length in metres. -/
def length (route : Route) : Float := route.legs.foldl (fun sum leg => sum + leg.length) 0.0

/-- The points of all legs in order. -/
def points (route : Route) : List Point := route.legs.flatMap (·.geometry)

end Route
end LiveTrip
