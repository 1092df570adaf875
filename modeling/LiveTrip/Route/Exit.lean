import LiveTrip.Route

/-!
# Where a route leaves an access-controlled road

Traffic on a motorway says little about traffic past its exit, so an estimate is never carried
across that point.

* `Leg.exitAfter`: the first intersection ahead at which the route leaves the access-controlled road
  it is on.
-/

namespace LiveTrip.Leg

/-- Index of the first intersection after `index` with a known class that is not access-controlled,
if the road in effect at `index` is. -/
def exitAfter (leg : Leg) (index : Nat) : Option Nat :=
  match leg.classAt index with
  | some roadClass =>
    if roadClass.accessControlled then
      (leg.crossings.find? fun i =>
        index < i.index && i.roadClass.any (!·.accessControlled)).map (·.index)
    else none
  | none => none

end LiveTrip.Leg
