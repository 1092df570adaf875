import LiveTrip.Error
import LiveTrip.Guidance
import LiveTrip.Route.Projection

/-!
# An engine that snaps fixes onto the primary route

* `Simulated`: its settings, the routes it holds and the last fix it took.
* `Simulated.ingest`, `Simulated.setRoutes`: what it takes in, and what it refuses.
* `Simulated.status`: the status for the last fix: the nearest point of the first route, the road
  and the step in effect there, and the way that is left.
-/

namespace LiveTrip

structure Simulated where
  /-- Metres from the route beyond which the position is off it. -/
  offRouteDistance : Float := 50.0
  /-- Metres left below which the route is complete. -/
  arrivalDistance : Float := 10.0
  /-- Milliseconds a status takes. -/
  delay : Nat := 0
  routes : List Route := []
  lastFix : Option Fix := none
  /-- Status requests still to fail. -/
  failing : Nat := 0
  /-- Refuses every fix. -/
  rejecting : Bool := false
  /-- Fixes taken. -/
  ingested : Nat := 0
  deriving Repr, Inhabited

namespace Simulated

/-- Speed assumed where a fix has none worth using, in metres per second. -/
def usualSpeed : Float := 13.9

def ingest (e : Simulated) (fix : Fix) : Except EngineError Simulated :=
  if e.rejecting then .error (.ingest "simulated rejection")
  else .ok { e with lastFix := some fix, ingested := e.ingested + 1 }

/-- Routes are accepted if every leg of them has a segment. -/
def setRoutes (e : Simulated) (routes : List Route) : Except EngineError Simulated :=
  match routes.find? fun r => r.legs.any fun l => l.geometry.length < 2 with
  | some bad => .error (.routesRejected ("route " ++ bad.id ++ " has a leg without geometry"))
  | none => .ok { e with routes }

/-- The last step whose first intersection is at or before `segment`, and the first step if there is
none. -/
def stepAt (leg : Leg) (segment : Nat) : Nat :=
  let reached := leg.steps.map fun s => s.intersections.head?.any (·.index ≤ segment)
  ((reached.zipIdx.filter (·.1)).map (·.2)).getLast?.getD 0

/-- The texts for a step: its own, and that of the step after it. -/
def cuesAt (route : Route) (leg : Leg) (legIndex step : Nat) : Cues where
  route := route.id
  leg := legIndex
  step
  banner := leg.steps[step]?.bind (·.instruction)
  voice := leg.steps[step + 1]?.bind (·.instruction)

/-- The status for a fix that is matched to a place on a route. -/
def statusAt (e : Simulated) (route : Route) (leg : Leg) (fix : Fix) (p : Projection) : Status :=
  let remaining := Geo.atLeast 0.0 (route.length - p.along)
  let off := p.offset > e.offRouteDistance
  let roadClass := leg.classAt p.segment
  let step := stepAt leg p.segment
  let speed := (fix.speed.filter (· > 0.5)).getD usualSpeed
  let cues := cuesAt route leg p.leg step
  { location := {
      point := if off then fix.point else p.point
      bearing := if off then fix.bearing.getD p.bearing else p.bearing
      speed := fix.speed
      road := { roadClass, limit := roadClass.map (·.usualLimit) }
      offRoad := off
      timestamp := fix.timestamp }
    tracking :=
      if off then .offRoute
      else if remaining ≤ e.arrivalDistance then .complete
      else .tracking
    progress := some {
      route := route.id
      leg := p.leg
      step
      segment := p.segment
      travelled := p.along
      remaining
      duration := remaining / speed }
    cues := if cues.isEmpty then none else some cues }

/-- The status for a fix: matched to the first route, or as it is where there is nothing to match it
to. -/
def statusOf (e : Simulated) (fix : Fix) : Status :=
  let matched : Option Status := do
    let route ← e.routes.head?
    let p ← route.project? fix.point
    let leg ← route.legs[p.leg]?
    pure (e.statusAt route leg fix p)
  matched.getD { location := fix.unmatched }

/-- Asks for the status. A failure that was asked for comes first. -/
def status (e : Simulated) : Simulated × Except EngineError Status :=
  if 0 < e.failing then
    ({ e with failing := e.failing - 1 }, .error (.status "simulated failure"))
  else match e.lastFix with
    | none => (e, .error (.status "no location ingested"))
    | some fix => (e, .ok (e.statusOf fix))

end Simulated
end LiveTrip
