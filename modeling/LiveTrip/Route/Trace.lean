import LiveTrip.Route

/-!
# A drive along a route

* `Route.trace`: the fixes of a drive along a route at constant speed, evenly spaced, with a last
  one at the end of the route where the spacing does not meet it.
-/

namespace LiveTrip.Route

/-- Milliseconds to travel `metres`, as a whole number that a 64-bit word holds. -/
def travelTime (speed metres : Float) : Nat :=
  (metres / Geo.atLeast 0.1 speed * 1000.0).toUInt64.toNat

/-- The fixes on one segment `a`–`b` that starts at `start` metres, the first of them at `next`
metres, with the place of the fix after the last. The first argument bounds their number. -/
def traceSegment (spacing speed : Float) (a b : Point) (start length bearing : Float) :
    Nat → Float → List Fix → List Fix × Float
  | 0, next, acc => (acc, next)
  | count + 1, next, acc =>
    if next ≤ start + length then
      let fix : Fix :=
        { point := a.toward b ((next - start) / length)
          speed := some speed
          bearing := some bearing
          timestamp := travelTime speed next }
      traceSegment spacing speed a b start length bearing count (next + spacing) (fix :: acc)
    else (acc, next)

/-- The fixes on the segments of a polyline, last first, and the metres travelled. Segments without
length are passed over. -/
def traceSegments (spacing speed : Float) :
    Float → Float → List Fix → List (Point × Point) → List Fix × Float
  | start, _, acc, [] => (acc, start)
  | start, next, acc, (a, b) :: rest =>
    let length := a.distance b
    if length ≤ Geo.epsilon then traceSegments spacing speed start next acc rest
    else
      let bound := (length / spacing).toUInt64.toNat + 3
      let (acc, next) := traceSegment spacing speed a b start length (a.bearing b) bound next acc
      traceSegments spacing speed (start + length) next acc rest

/-- The fixes of a drive along the route, one every `spacing` metres (at least one metre). A fix at
the end is left out if the one before is within half a metre of it. -/
def trace (route : Route) (spacing speed : Float) : List Fix :=
  let points := route.points
  let (fixes, travelled) :=
    traceSegments (Geo.atLeast 1.0 spacing) speed 0.0 0.0 [] (Leg.pairs points)
  match points.getLast? with
  | none => fixes.reverse
  | some last =>
    if fixes.head?.any (·.point.distance last < 0.5) then fixes.reverse
    else ({ point := last, speed := some 0.0, timestamp := travelTime speed travelled } ::
      fixes).reverse

end LiveTrip.Route
