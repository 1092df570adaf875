import LiveTrip.Guidance

/-!
# Live estimates of congestion

* `SpeedRatio`: estimates congestion from how far the speed falls short of the posted limit.
* `Signal`: where estimates come from: nowhere, the speed, or a list of readings.
* `Signal.expected`: the estimate for a stretch of segments.
-/

namespace LiveTrip

/-- Speed and posted limit seen last, both in km/h. -/
structure SpeedRatio where
  latest : Option (Float × Float) := none
  deriving Repr, Inhabited

namespace SpeedRatio

/-- Below this speed, in metres per second, the vehicle may simply be waiting. -/
def movingSpeed : Float := 1.0

/-- Congestion for a speed and a limit: 0 at the limit, 100 at a standstill. -/
def estimate (speed limit : Float) : Option Nat :=
  if limit ≤ 0.0 || speed.isNaN || speed.isInf then none
  else some ((Geo.clamp 0.0 1.0 (1.0 - speed / limit)) * 100.0).round.toUInt8.toNat

/-- What a matched location shows. One that is off the road, without a limit, or not moving leaves
nothing to estimate from. -/
def ofLocation (l : MatchedLocation) : SpeedRatio where
  latest := match l.speed, l.road.limit with
    | some speed, some limit =>
      if speed ≥ movingSpeed && !l.offRoad then some (speed * 3.6, limit) else none
    | _, _ => none

/-- The estimate for segments `start ≤ i < stop`. -/
def expected (s : SpeedRatio) (start stop : Nat) : Option Nat :=
  if stop ≤ start then none else s.latest.bind fun (speed, limit) => estimate speed limit

end SpeedRatio

/-- Where estimates come from. -/
inductive Signal
  | none
  | speedRatio (s : SpeedRatio)
  /-- Readings that are given one after the other, the last of them again and again. -/
  | readings (list : List (Option Nat))
  deriving Repr, Inhabited

namespace Signal

/-- The estimate for segments `start ≤ i < stop`, and the signal afterwards. -/
def expected (s : Signal) (start stop : Nat) : Signal × Option Nat :=
  match s with
  | .none => (.none, Option.none)
  | .speedRatio r => (.speedRatio r, r.expected start stop)
  | .readings [] => (.readings [], Option.none)
  | .readings [v] => (.readings [v], v)
  | .readings (v :: rest) => (.readings rest, v)

/-- There is a signal to ask. -/
def isLive : Signal → Bool
  | .none => false
  | _ => true

/-- Shows the signal a matched location. -/
def observe (s : Signal) (l : MatchedLocation) : Signal :=
  match s with
  | .speedRatio _ => .speedRatio (.ofLocation l)
  | s => s

end Signal
end LiveTrip
