import Mathlib.Data.List.Forall2
import LiveTrip.Proofs.Congestion.Windows

/-!
# More severe input, more severe picture

A pass compares bands, not values: a value may come out lower than a lesser one of its band. Between
bands the order stays.

* `Thresholds.NoWorse`: the order of values by their bands.
* `SmootherSettings.rank_raiseToward`, `SmootherSettings.rank_nearValue`: how severe a value of each
  window comes out, as one expression in how severe it was and what it goes toward.
* `SmootherSettings.smoothed`: the values after a pass, whether it changes any or not.
* `SmootherSettings.smoothed_mono`: it keeps the order of values and estimates.
-/

namespace LiveTrip

/-- The band of `w` is as severe as the one of `v`, or more. -/
def Thresholds.NoWorse (t : Thresholds) (v w : Nat) : Prop := t.bandOf v ≤ t.bandOf w

instance (t : Thresholds) (v w : Nat) : Decidable (t.NoWorse v w) :=
  inferInstanceAs (Decidable (t.bandOf v ≤ t.bandOf w))

namespace SmootherSettings

variable {s : SmootherSettings} {values values' : List Nat} {start expected expected' v w : Nat}

/-! ## One value -/

theorem rank_raiseToward (hv : s.thresholds.Valid) (target : Severity) (v : Nat) :
    s.thresholds.rank (s.raiseToward target v) =
      min (max (s.thresholds.rank v) target.weight) (s.thresholds.rank v + 1) := by
  by_cases h : target ≤ s.thresholds.bandOf v
  · have hle : target.weight ≤ s.thresholds.rank v := h
    rw [raiseToward_of_le h]
    omega
  · have hlt : s.thresholds.rank v < target.weight := Nat.not_le.mp h
    rw [(rises_raiseToward hlt).rank hv]
    omega

theorem rank_nearValue (hv : s.thresholds.Valid) (expected v : Nat) :
    s.thresholds.rank (s.nearValue expected v) =
      min (max (s.thresholds.rank v) (s.thresholds.rank expected)) (s.thresholds.rank v + 1) := by
  have happroaches := s.approaches_nearValue expected v
  rcases Nat.lt_trichotomy (s.thresholds.rank v) (s.thresholds.rank expected) with hlt | heq | hgt
  · rw [(happroaches.worse hlt).rank hv]
    omega
  · rw [happroaches.same (Severity.weight_injective heq)]
    omega
  · rw [happroaches.milder hgt]
    omega

theorem raiseToward_mono (hv : s.thresholds.Valid) {target target' : Severity}
    (ht : target ≤ target') (h : s.thresholds.NoWorse v w) :
    s.thresholds.NoWorse (s.raiseToward target v) (s.raiseToward target' w) := by
  have hrank : s.thresholds.rank v ≤ s.thresholds.rank w := h
  have hweight : target.weight ≤ target'.weight := ht
  show s.thresholds.rank _ ≤ s.thresholds.rank _
  rw [rank_raiseToward hv, rank_raiseToward hv]
  omega

theorem nearValue_mono (hv : s.thresholds.Valid) (he : s.thresholds.NoWorse expected expected')
    (h : s.thresholds.NoWorse v w) :
    s.thresholds.NoWorse (s.nearValue expected v) (s.nearValue expected' w) := by
  have hrank : s.thresholds.rank v ≤ s.thresholds.rank w := h
  have hexpected : s.thresholds.rank expected ≤ s.thresholds.rank expected' := he
  show s.thresholds.rank _ ≤ s.thresholds.rank _
  rw [rank_nearValue hv, rank_nearValue hv]
  omega

/-! ## All values -/

theorem forall₂_mapIdx {R : Nat → Nat → Prop} (h : List.Forall₂ R values values')
    {f g : Nat → Nat → Nat} (hfg : ∀ i v w, R v w → R (f i v) (g i w)) :
    List.Forall₂ R (values.mapIdx f) (values'.mapIdx g) := by
  induction h generalizing f g with
  | nil => exact .nil
  | cons hhead _ ih =>
    rw [List.mapIdx_cons, List.mapIdx_cons]
    exact .cons (hfg 0 _ _ hhead) (ih fun i => hfg (i + 1))

theorem forall₂_mapRange {R : Nat → Nat → Prop} (h : List.Forall₂ R values values')
    {f g : Nat → Nat} (hfg : ∀ v w, R v w → R (f v) (g w)) (lo hi : Nat) :
    List.Forall₂ R (mapRange lo hi f values) (mapRange lo hi g values') := by
  refine forall₂_mapIdx h fun i v w hvw => ?_
  split
  · exact hfg v w hvw
  · exact hvw

theorem forall₂_getD {R : Nat → Nat → Prop} (h : List.Forall₂ R values values') (i : Nat) {d : Nat}
    (hd : R d d) : R (values.getD i d) (values'.getD i d) := by
  induction h generalizing i with
  | nil => exact hd
  | cons hhead _ ih =>
    cases i with
    | zero => exact hhead
    | succ i => exact ih i

theorem firstBand_mono (hv : s.thresholds.Valid)
    (h : List.Forall₂ s.thresholds.NoWorse values values')
    (he : s.thresholds.NoWorse expected expected') (start m : Nat) :
    s.firstBand expected start m values ≤ s.firstBand expected' start m values' :=
  forall₂_getD (forall₂_mapRange h (fun _ _ => nearValue_mono hv he) start m) start
    (Nat.le_refl (s.thresholds.rank 0))

theorem passed_mono (hv : s.thresholds.Valid)
    (h : List.Forall₂ s.thresholds.NoWorse values values')
    (he : s.thresholds.NoWorse expected expected') (start m n : Nat) :
    List.Forall₂ s.thresholds.NoWorse (s.passed expected start m n values)
      (s.passed expected' start m n values') := by
  have hnear : List.Forall₂ s.thresholds.NoWorse (s.nearPassed expected start m values)
      (s.nearPassed expected' start m values') :=
    forall₂_mapRange h (fun _ _ => nearValue_mono hv he) start m
  -- What the far window goes toward is ordered as well.
  have htarget : (s.firstBand expected start m values).milder?.getD .light ≤
      (s.firstBand expected' start m values').milder?.getD .light := by
    rw [Severity.le_def, Severity.weight_milder, Severity.weight_milder]
    exact Nat.sub_le_sub_right (firstBand_mono hv h he start m) 1
  exact forall₂_mapRange hnear (fun _ _ => raiseToward_mono hv htarget) m n

/-- The values after a pass over a leg without a record. -/
def smoothed (s : SmootherSettings) (values : List Nat) (start expected : Nat)
    (boundary : Option Nat) : List Nat :=
  ((s.smooth values start expected boundary none).map (·.congestion)).getD values

/-- They are what the pass has worked out, unless it is off or without room. -/
theorem smoothed_eq (s : SmootherSettings) (values : List Nat) (start expected : Nat)
    (boundary : Option Nat) :
    s.smoothed values start expected boundary =
      let e := limit boundary values.length
      if s.enabled = false ∨ e ≤ start then values
      else s.passed expected start (s.nearEnd start e) (s.farEnd start e) values := by
  rw [smoothed, smooth_eq]
  simp only [Option.any_none, Bool.false_eq_true, false_or]
  split
  · rename_i hnone
    split
    · rfl
    · rename_i hgoes
      simp only [not_or] at hgoes
      exact ((hnone.resolve_left hgoes.1).resolve_left hgoes.2).symm
  · rename_i hsome
    rw [if_neg fun h => hsome (h.imp_right .inl)]
    rfl

/-- **With values and an estimate that are as severe band by band, or more, a pass from the same
place with the same boundary leaves values that are as severe, or more.** -/
theorem smoothed_mono (hv : s.thresholds.validate = .ok ())
    (hvalues : List.Forall₂ s.thresholds.NoWorse values values')
    (hexpected : s.thresholds.NoWorse expected expected') (start : Nat) (boundary : Option Nat) :
    List.Forall₂ s.thresholds.NoWorse (s.smoothed values start expected boundary)
      (s.smoothed values' start expected' boundary) := by
  have hvalid := Thresholds.validate_eq_ok.mp hv
  rw [smoothed_eq, smoothed_eq, ← hvalues.length_eq]
  simp only
  split
  · exact hvalues
  · exact passed_mono hvalid hvalues hexpected start _ _

/-- A heavy segment of a lower value comes out lower with a lower heavy estimate, but no less
severe; the ones behind it taper off from it as they would. -/
theorem smoothed_mono_within_heavy :
    tapering.thresholds.validate = .ok () ∧
    List.Forall₂ tapering.thresholds.NoWorse [65, 10, 30] [61, 5, 45] ∧
    tapering.thresholds.NoWorse 79 60 ∧
    tapering.smoothed [65, 10, 30] 0 79 none = [79, 40, 40] ∧
    tapering.smoothed [61, 5, 45] 0 60 none = [60, 40, 45] ∧
    List.Forall₂ tapering.thresholds.NoWorse [79, 40, 40] [60, 40, 45] := by
  have hvalues : List.Forall₂ tapering.thresholds.NoWorse [65, 10, 30] [61, 5, 45] := by decide
  have hexpected : tapering.thresholds.NoWorse 79 60 := by decide
  have hmilder : tapering.smoothed [65, 10, 30] 0 79 none = [79, 40, 40] := rfl
  have hworse : tapering.smoothed [61, 5, 45] 0 60 none = [60, 40, 45] := rfl
  have hordered := smoothed_mono rfl hvalues hexpected 0 none
  rw [hmilder, hworse] at hordered
  exact ⟨rfl, hvalues, hexpected, hmilder, hworse, hordered⟩

end SmootherSettings
end LiveTrip
