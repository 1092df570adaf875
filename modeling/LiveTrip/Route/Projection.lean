import LiveTrip.Route

/-!
# The point of a route nearest to a position

* `Projection`: a place on a route: leg, segment, point, and how far along and how far off it is.
* `Route.project?`: the place nearest to a point. Of two equally near ones the first counts.

The search compares distances only to choose between places that exist, so a projection names a leg
of the route and a segment of that leg whatever the distances compare to.
-/

namespace LiveTrip

/-- A place on a route. -/
structure Projection where
  leg : Nat
  segment : Nat
  /-- The point itself. -/
  point : Point
  /-- Metres from the position to the point. -/
  offset : Float
  /-- Metres along the route to the point. -/
  along : Float
  /-- Direction of the segment. -/
  bearing : Float
  deriving Repr, Inhabited

namespace Route

/-- The nearer of the best place so far and a new one. -/
def nearer (best : Option Projection) (next : Projection) : Option Projection :=
  match best with
  | none => some next
  | some b => if next.offset < b.offset then some next else some b

/-- Searches the segments of a leg from the given one on, which starts at `start` metres. -/
def projectSegments (p : Point) (leg : Nat) :
    Nat → Float → Option Projection → List (Point × Point) → Option Projection
  | _, _, best, [] => best
  | segment, start, best, (a, b) :: rest =>
    let length := a.distance b
    let t := a.nearestFraction b p
    let point := a.toward b t
    let next : Projection :=
      { leg, segment, point
        offset := point.distance p
        along := start + length * t
        bearing := a.bearing b }
    projectSegments p leg (segment + 1) (start + length) (nearer best next) rest

/-- Searches the legs from the given one on, which starts at `start` metres. -/
def projectLegs (p : Point) :
    Nat → Float → Option Projection → List Leg → Option Projection
  | _, _, best, [] => best
  | leg, start, best, l :: rest =>
    projectLegs p (leg + 1) (start + l.length)
      (projectSegments p leg 0 start best (Leg.pairs l.geometry)) rest

/-- The place of a route nearest to a point, if the route has any segment. -/
def project? (route : Route) (p : Point) : Option Projection := projectLegs p 0 0.0 none route.legs

end Route
end LiveTrip
