import LiveTrip.Geo

/-!
# Positions

* `Fix`: one raw position as a positioning source reports it.
* `RoadClass`: the functional class of a road; motorways and trunk roads are access-controlled.
* `MatchedLocation`: where the engine puts a fix on the road network.
-/

namespace LiveTrip

/-- A raw position fix. -/
structure Fix where
  point : Point
  /-- Speed over ground in metres per second. -/
  speed : Option Float := none
  /-- Course over ground in degrees. -/
  bearing : Option Float := none
  /-- Radius of the horizontal error in metres. -/
  accuracy : Option Float := none
  /-- Milliseconds since the epoch. -/
  timestamp : Nat
  deriving Repr, Inhabited

/-- Functional class of a road. -/
inductive RoadClass
  | motorway
  | trunk
  | primary
  | secondary
  | tertiary
  | street
  | service
  | ferry
  deriving DecidableEq, Repr, Inhabited

namespace RoadClass

def all : List RoadClass :=
  [motorway, trunk, primary, secondary, tertiary, street, service, ferry]

def name : RoadClass → String
  | motorway => "motorway"
  | trunk => "trunk"
  | primary => "primary"
  | secondary => "secondary"
  | tertiary => "tertiary"
  | street => "street"
  | service => "service"
  | ferry => "ferry"

def ofName? (s : String) : Option RoadClass := all.find? (·.name == s)

/-- Whether the road can be entered and left at its junctions only, so that its traffic says little
about the roads around it. -/
def accessControlled : RoadClass → Bool
  | motorway | trunk => true
  | _ => false

/-- The usual speed limit in km/h. -/
def usualLimit : RoadClass → Float
  | motorway => 110.0
  | trunk => 90.0
  | primary => 70.0
  | secondary => 60.0
  | tertiary => 50.0
  | street => 40.0
  | service | ferry => 20.0

end RoadClass

/-- What is known of the road a position was matched to. -/
structure Road where
  name : Option String := none
  roadClass : Option RoadClass := none
  /-- Posted limit in km/h. -/
  limit : Option Float := none
  deriving Repr, Inhabited

/-- A position matched to the road network. -/
structure MatchedLocation where
  point : Point
  bearing : Float
  speed : Option Float := none
  road : Road := {}
  /-- The engine takes the position to be off the road network. -/
  offRoad : Bool := false
  /-- Time of the fix that was matched. -/
  timestamp : Nat
  deriving Repr, Inhabited

/-- A fix taken as it is, where there is nothing to match it to. -/
def Fix.unmatched (f : Fix) : MatchedLocation where
  point := f.point
  bearing := f.bearing.getD 0.0
  speed := f.speed
  timestamp := f.timestamp

end LiveTrip
