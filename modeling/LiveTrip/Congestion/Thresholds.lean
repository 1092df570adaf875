import LiveTrip.Congestion.Severity
import LiveTrip.Error

/-!
# From congestion values to bands

Congestion is a number, 0 to 100; a band covers the values from its lower bound up to the next
band's lower bound.

* `Thresholds`: the lower bounds of the three upper bands; `light` starts at 0.
* `Thresholds.Valid`: the bounds rise strictly within 1 to 100.
* `Thresholds.bandOf`, `Thresholds.lowerBound`: the band of a value, and the least value of a band.
* `Thresholds.classify`: the segments of a stretch of values, each with its band.
-/

namespace LiveTrip

/-- Lower bounds of the bands above `light`. -/
structure Thresholds where
  moderate : Nat := 40
  heavy : Nat := 60
  severe : Nat := 80
  deriving DecidableEq, Repr, Inhabited

/-- Congestion of one segment of a leg. -/
structure CongestedSegment where
  /-- Index of the segment in its leg. -/
  index : Nat
  value : Nat
  band : Severity
  deriving DecidableEq, Repr, Inhabited

namespace Thresholds

/-- The bounds rise strictly and lie within 1 to 100. -/
def Valid (t : Thresholds) : Prop :=
  0 < t.moderate ∧ t.moderate < t.heavy ∧ t.heavy < t.severe ∧ t.severe ≤ 100

instance (t : Thresholds) : Decidable t.Valid := by unfold Valid; infer_instance

def validate (t : Thresholds) : Except SettingsError Unit :=
  if t.Valid then .ok ()
  else .error (.invalid "traffic.thresholds"
    ("moderate=" ++ toString t.moderate ++ " heavy=" ++ toString t.heavy ++
      " severe=" ++ toString t.severe))

/-- The most severe band whose lower bound `value` reaches. -/
def bandOf (t : Thresholds) (value : Nat) : Severity :=
  if t.severe ≤ value then .severe
  else if t.heavy ≤ value then .heavy
  else if t.moderate ≤ value then .moderate
  else .light

/-- The least value of a band. -/
def lowerBound (t : Thresholds) : Severity → Nat
  | .light => 0
  | .moderate => t.moderate
  | .heavy => t.heavy
  | .severe => t.severe

/-- The values as segments numbered from `first`, each with its band. -/
def classify (t : Thresholds) (first : Nat) : List Nat → List CongestedSegment
  | [] => []
  | value :: rest => ⟨first, value, t.bandOf value⟩ :: t.classify (first + 1) rest

end Thresholds
end LiveTrip
