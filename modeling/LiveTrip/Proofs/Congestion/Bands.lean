import LiveTrip.Congestion.Smoother

/-!
# Bands of values that are raised

* `Thresholds.bandOf_lowerBound`: with valid thresholds, the least value of a band lies in it.
* `Thresholds.rank`: how severe a value is, as a number; `Thresholds.peak`, that of the most severe
  of several values.
* `Thresholds.Climbs`: a value has climbed at most one band, and not beyond a cap.
* `SmootherSettings.climbs_raiseToward`, `SmootherSettings.climbs_nearValue`: what a pass does to a
  value of its far and of its near window.
-/

namespace LiveTrip

namespace Severity

theorem weight_worse {b next : Severity} (h : b.worse? = some next) :
    next.weight = b.weight + 1 := by
  cases b <;> cases h <;> rfl

/-- The band below the mildest is taken to be the mildest itself. -/
theorem weight_milder (b : Severity) : (b.milder?.getD .light).weight = b.weight - 1 := by
  cases b <;> rfl

end Severity

namespace Thresholds

variable {t : Thresholds}

theorem validate_eq_ok : t.validate = .ok () ↔ t.Valid := by
  unfold validate
  split <;> simp_all

theorem bandOf_lowerBound (h : t.Valid) (b : Severity) : t.bandOf (t.lowerBound b) = b := by
  obtain ⟨hpos, hmoderate, hheavy, -⟩ := h
  cases b with
  | light =>
    have : ¬ t.severe ≤ 0 ∧ ¬ t.heavy ≤ 0 ∧ ¬ t.moderate ≤ 0 := by omega
    simp [bandOf, lowerBound, this]
  | moderate =>
    have : ¬ t.severe ≤ t.moderate ∧ ¬ t.heavy ≤ t.moderate := by omega
    simp [bandOf, lowerBound, this]
  | heavy =>
    have : ¬ t.severe ≤ t.heavy := by omega
    simp [bandOf, lowerBound, this]
  | severe => simp [bandOf, lowerBound]

/-- How severe a value is. -/
def rank (t : Thresholds) (value : Nat) : Nat := (t.bandOf value).weight

/-- How severe the most severe of the values is; 0, as for a light one, if there are none. -/
def peak (t : Thresholds) (values : List Nat) : Nat := (values.map t.rank).foldr max 0

@[simp] theorem peak_nil : t.peak [] = 0 := rfl

@[simp] theorem peak_cons (v : Nat) (values : List Nat) :
    t.peak (v :: values) = max (t.rank v) (t.peak values) := rfl

@[simp] theorem peak_append (values more : List Nat) :
    t.peak (values ++ more) = max (t.peak values) (t.peak more) := by
  induction values with
  | nil => simp
  | cons v values ih => simp [ih, Nat.max_assoc]

theorem rank_le_peak {v : Nat} {values : List Nat} (h : v ∈ values) : t.rank v ≤ t.peak values := by
  induction values with
  | nil => cases h
  | cons w values ih =>
    rw [peak_cons]
    rcases List.mem_cons.mp h with rfl | h
    · exact Nat.le_max_left _ _
    · exact Nat.le_trans (ih h) (Nat.le_max_right _ _)

/-- A value has climbed at most one band, and not beyond the cap. -/
structure Climbs (t : Thresholds) (cap old new : Nat) : Prop where
  kept : t.rank old ≤ t.rank new
  step : t.rank new ≤ t.rank old + 1
  capped : t.rank new ≤ max (t.rank old) cap

theorem Climbs.refl (t : Thresholds) (cap v : Nat) : t.Climbs cap v v :=
  ⟨Nat.le_refl _, Nat.le_succ _, Nat.le_max_left _ _⟩

theorem Climbs.mono {cap cap' old new : Nat} (h : t.Climbs cap old new) (hc : cap ≤ cap') :
    t.Climbs cap' old new :=
  ⟨h.kept, h.step, Nat.le_trans h.capped (by omega)⟩

end Thresholds

namespace SmootherSettings

variable {s : SmootherSettings}

theorem climbs_raiseToward (h : s.thresholds.Valid) (target : Severity) (v : Nat) :
    s.thresholds.Climbs target.weight v (s.raiseToward target v) := by
  unfold raiseToward
  simp only
  split
  · exact .refl _ _ _
  · rename_i hlt
    split
    · rename_i next hnext
      have hweight := Severity.weight_worse hnext
      have hrank : s.thresholds.rank (s.thresholds.lowerBound next) = s.thresholds.rank v + 1 := by
        rw [Thresholds.rank, Thresholds.bandOf_lowerBound h, hweight]
        rfl
      have htarget : s.thresholds.rank v < target.weight := Nat.lt_of_not_le hlt
      exact ⟨by omega, by omega, by omega⟩
    · exact .refl _ _ _

theorem climbs_nearValue (h : s.thresholds.Valid) (expected v : Nat) :
    s.thresholds.Climbs (s.thresholds.rank expected) v (s.nearValue expected v) := by
  unfold nearValue
  simp only
  split
  · rename_i hband
    have hrank : s.thresholds.rank v = s.thresholds.rank expected := congrArg Severity.weight hband
    exact ⟨by omega, by omega, by omega⟩
  · exact climbs_raiseToward h _ v

end SmootherSettings
end LiveTrip
