import LiveTrip.Congestion.Thresholds
import LiveTrip.Route.Exit

/-!
# Blending live congestion into a leg

A live estimate for the segments just ahead is applied in steps of one band, so that what is shown
never jumps from light to severe.

* `SmootherSettings`: the thresholds and the sizes of two windows. The near window starts at the
  current segment and is moved toward the estimate; the far window follows it and is moved toward
  one band below.
* `SmootherSettings.smooth`: one pass over a list of values. `none` says that nothing changes.
* `SmootherSettings.apply`: one pass over a leg, which stops at the exit of an access-controlled
  road.

A pass with the start and the estimate of the last change is skipped: running it again would climb
another band.
-/

namespace LiveTrip

structure SmootherSettings where
  enabled : Bool := true
  /-- Segments, from the current one on, that are moved toward the estimate. -/
  near : Nat := 8
  /-- Segments after these that taper off. -/
  far : Nat := 4
  thresholds : Thresholds := {}
  deriving DecidableEq, Repr, Inhabited

/-- What one pass does to a list of values. -/
structure Smoothing where
  congestion : List Nat
  record : Blend
  /-- Band of the first value of the near window after the pass. -/
  nearBand : Severity
  deriving DecidableEq, Repr, Inhabited

/-- What the route itself reports for segment `i`: the recorded value if the last change covers it,
else the current one. -/
def Blend.reportedAt (previous : Option Blend) (i current : Nat) : Nat :=
  match previous with
  | some r =>
    if r.start ≤ i ∧ i - r.start < r.length then r.reported.getD (i - r.start) current else current
  | none => current

namespace SmootherSettings

def validate (s : SmootherSettings) : Except SettingsError Unit :=
  if s.near = 0 then .error (.invalid "traffic.near_segments" "0") else s.thresholds.validate

/-- `value` moved at most one band toward `target`, and never down. -/
def raiseToward (s : SmootherSettings) (target : Severity) (value : Nat) : Nat :=
  let band := s.thresholds.bandOf value
  if target ≤ band then value
  else match band.worse? with
    | some next => s.thresholds.lowerBound next
    | none => value

/-- A value of the near window: the estimate itself within its band, else one step toward it. -/
def nearValue (s : SmootherSettings) (expected value : Nat) : Nat :=
  let band := s.thresholds.bandOf expected
  if s.thresholds.bandOf value = band then expected else s.raiseToward band value

/-- `f` applied to the values at indices `lo ≤ i < hi`. -/
def mapRange (lo hi : Nat) (f : Nat → Nat) (values : List Nat) : List Nat :=
  values.mapIdx fun i v => if lo ≤ i ∧ i < hi then f v else v

/-- One pass over `current` from `start` with the estimate `expected`. No index at or after
`boundary` is changed; `previous` is the record of the last change. -/
def smooth (s : SmootherSettings) (current : List Nat) (start expected : Nat)
    (boundary : Option Nat) (previous : Option Blend) : Option Smoothing :=
  if !s.enabled then none
  else if previous.any fun r => r.start = start ∧ r.expected = expected then none
  else
    let limit := min (boundary.getD current.length) current.length
    if limit ≤ start then none
    else
      let nearEnd := min (start + s.near) limit
      let farEnd := min (nearEnd + s.far) limit
      let near := mapRange start nearEnd (s.nearValue expected) current
      let nearBand := s.thresholds.bandOf (near.getD start 0)
      let congestion :=
        mapRange nearEnd farEnd (s.raiseToward (nearBand.milder?.getD .light)) near
      if congestion = current then none
      else
        let reported := ((current.drop start).take (farEnd - start)).mapIdx fun k v =>
          Blend.reportedAt previous (start + k) v
        some {
          congestion
          record := { start, length := farEnd - start, reported, expected }
          nearBand }

/-- One pass over a leg. -/
def smoothLeg (s : SmootherSettings) (leg : Leg) (start expected : Nat) : Option Smoothing :=
  s.smooth leg.congestion start expected (leg.exitAfter start) leg.blend

/-- The leg after one pass, and whether the pass changed it. -/
def apply (s : SmootherSettings) (leg : Leg) (start expected : Nat) : Leg × Bool :=
  match s.smoothLeg leg start expected with
  | some out => ({ leg with congestion := out.congestion, blend := some out.record }, true)
  | none => (leg, false)

end SmootherSettings
end LiveTrip
