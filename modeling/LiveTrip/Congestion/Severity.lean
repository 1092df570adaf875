/-!
# Severity of congestion

* `Severity`: the four bands, from the least severe to the most.
* `Severity.weight`: their rank, which also orders them; `Severity.ofWeight?` reads it back.
* `Severity.worse?`, `Severity.milder?`: the neighbouring bands.
-/

namespace LiveTrip

/-- How severe congestion is. -/
inductive Severity
  | light
  | moderate
  | heavy
  | severe
  deriving DecidableEq, Repr, Inhabited

namespace Severity

/-- Rank of a band: 0 is the least severe. -/
def weight : Severity → Nat
  | light => 0
  | moderate => 1
  | heavy => 2
  | severe => 3

def ofWeight? : Nat → Option Severity
  | 0 => some light
  | 1 => some moderate
  | 2 => some heavy
  | 3 => some severe
  | _ => none

/-- The next more severe band. -/
def worse? (s : Severity) : Option Severity := ofWeight? (s.weight + 1)

/-- The next less severe band. -/
def milder? : Severity → Option Severity
  | light => none
  | moderate => some light
  | heavy => some moderate
  | severe => some heavy

def all : List Severity := [light, moderate, heavy, severe]

instance : LE Severity := ⟨fun a b => a.weight ≤ b.weight⟩

instance : LT Severity := ⟨fun a b => a.weight < b.weight⟩

instance (a b : Severity) : Decidable (a ≤ b) := inferInstanceAs (Decidable (a.weight ≤ b.weight))

instance (a b : Severity) : Decidable (a < b) := inferInstanceAs (Decidable (a.weight < b.weight))

theorem le_def {a b : Severity} : a ≤ b ↔ a.weight ≤ b.weight := Iff.rfl

theorem lt_def {a b : Severity} : a < b ↔ a.weight < b.weight := Iff.rfl

theorem weight_injective {a b : Severity} (h : a.weight = b.weight) : a = b := by
  cases a <;> cases b <;> first | rfl | (simp [weight] at h)

@[simp] theorem ofWeight?_weight (s : Severity) : ofWeight? s.weight = some s := by
  cases s <;> rfl

def name : Severity → String
  | light => "light"
  | moderate => "moderate"
  | heavy => "heavy"
  | severe => "severe"

end Severity
end LiveTrip
