/-!
# Points on the earth

* `Point`: a coordinate in degrees.
* `Point.distance`: great-circle distance in metres, by the haversine formula.
* `Point.bearing`: the initial bearing towards another point, in degrees clockwise from north.
* `Point.toward`, `Point.nearestFraction`: a point part of the way along a short segment, and how
  far along it the point nearest to a third one lies. Both treat the segment as flat.
-/

namespace LiveTrip

/-- A coordinate, in degrees. -/
structure Point where
  latitude : Float
  longitude : Float
  deriving BEq, Repr, Inhabited

namespace Geo

def pi : Float := 3.141592653589793

def radians (degrees : Float) : Float := degrees * (pi / 180.0)

def degrees (radians : Float) : Float := radians * (180.0 / pi)

/-- Mean radius of the earth, in metres. Distances are measured on a sphere of this radius. -/
def meanRadius : Float := 6371008.8

/-- Radius of the sphere that is flattened around a segment to project a point onto it. -/
def flatRadius : Float := 6371000.0

/-- The distance between 1 and the next float: lengths up to this count as zero. -/
def epsilon : Float := 2.220446049250313e-16

/-- `x` moved into `lo..hi`. Not a number stays what it is. -/
def clamp (lo hi x : Float) : Float :=
  let x := if x < lo then lo else x
  if x > hi then hi else x

/-- `x` if it is above `lo`, and `lo` otherwise, also for not a number. -/
def atLeast (lo x : Float) : Float := if x > lo then x else lo

end Geo

namespace Point

open Geo

/-- Great-circle distance in metres. -/
def distance (p q : Point) : Float :=
  let lat₁ := radians p.latitude
  let lat₂ := radians q.latitude
  let dLat := lat₂ - lat₁
  let dLon := radians (q.longitude - p.longitude)
  let s := (dLat / 2.0).sin
  let t := (dLon / 2.0).sin
  let a := s * s + lat₁.cos * lat₂.cos * (t * t)
  2.0 * meanRadius * a.sqrt.asin

/-- Bearing in degrees at which the great circle to `q` leaves `p`: 0 is north, below 360. -/
def bearing (p q : Point) : Float :=
  let lat₁ := radians p.latitude
  let lat₂ := radians q.latitude
  let dLon := radians (q.longitude - p.longitude)
  let y := dLon.sin * lat₂.cos
  let x := lat₁.cos * lat₂.sin - lat₁.sin * lat₂.cos * dLon.cos
  -- The angle lies in -180..180, so the sum is below 540 and one turn too much at most.
  let b := degrees (Float.atan2 y x) + 360.0
  if b ≥ 360.0 then b - 360.0 else b

/-- The point a fraction `t` of the way from `a` to `b`. -/
def toward (a b : Point) (t : Float) : Point where
  latitude := a.latitude + (b.latitude - a.latitude) * t
  longitude := a.longitude + (b.longitude - a.longitude) * t

/-- Where around `a`, in metres east and north, `p` lies when the earth is flattened there. -/
private def flatFrom (a p : Point) : Float × Float :=
  ((radians (p.longitude - a.longitude)) * (radians a.latitude).cos * flatRadius,
    (radians (p.latitude - a.latitude)) * flatRadius)

/-- How far along `a`–`b`, from 0 to 1, the point nearest to `p` lies. A segment without length is
met at its start. -/
def nearestFraction (a b p : Point) : Float :=
  let (ex, ey) := flatFrom a b
  let (px, py) := flatFrom a p
  let len2 := ex * ex + ey * ey
  if len2 ≤ epsilon then 0.0 else clamp 0.0 1.0 ((px * ex + py * ey) / len2)

end Point
end LiveTrip
