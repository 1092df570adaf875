import LiveTrip.Proofs.Congestion.Bands

/-!
# Runs of passes over a leg

* `SmootherSettings.Window`: where the windows of a pass lie, and what it makes of each value.
* `SmootherSettings.apply_cases`: a pass leaves a leg as it is, or has a window.
* `SmootherSettings.applyAll`, `SmootherSettings.used`: passes one after another, and the estimates
  of those that changed something.
* `SmootherSettings.Bounded`: no value lies beyond what the route reports for it, the estimates used
  and the band below the worst that the route reports. Every pass keeps it.
* `SmootherSettings.applyAll_climbs`: the whole account.
-/

namespace LiveTrip.SmootherSettings

variable {s : SmootherSettings} {values : List Nat}

/-! ## One pass -/

theorem getElem?_mapRange (lo hi : Nat) (f : Nat → Nat) (values : List Nat) (i : Nat) :
    (mapRange lo hi f values)[i]? = values[i]?.map fun v => if lo ≤ i ∧ i < hi then f v else v :=
  List.getElem?_mapIdx

/-- What a pass from `start` with the estimate `expected` makes of the values: those of the near
window, up to `nearEnd`, go toward the estimate, and those of the far window, up to `farEnd`, toward
the band below the one that the first value has then. -/
structure Window (s : SmootherSettings) (values : List Nat) (start expected : Nat)
    (after : List Nat) : Prop where
  inside : start < values.length
  ends : ∃ nearEnd farEnd, after =
    mapRange nearEnd farEnd
      (s.raiseToward ((s.thresholds.bandOf
        ((mapRange start nearEnd (s.nearValue expected) values).getD start 0)).milder?.getD .light))
      (mapRange start nearEnd (s.nearValue expected) values)

theorem window_of_smooth {start expected : Nat} {boundary : Option Nat} {previous : Option Blend}
    {out : Smoothing} (h : s.smooth values start expected boundary previous = some out) :
    s.Window values start expected out.congestion := by
  unfold smooth at h
  simp only at h
  split at h
  · cases h
  · split at h
    · cases h
    · split at h
      · cases h
      · rename_i hlimit
        split at h
        · cases h
        · cases h
          exact ⟨by omega, _, _, rfl⟩

/-- A pass leaves a leg as it is, or changes its values within a window. -/
theorem apply_cases (s : SmootherSettings) (leg : Leg) (start expected : Nat) :
    s.apply leg start expected = (leg, false) ∨
      ∃ record congestion, s.Window leg.congestion start expected congestion ∧
        s.apply leg start expected = ({ leg with congestion, blend := some record }, true) := by
  unfold apply
  split
  · rename_i out h
    exact .inr ⟨out.record, out.congestion, window_of_smooth h, rfl⟩
  · exact .inl rfl

namespace Window

variable {start expected : Nat} {after : List Nat}

theorem length (h : s.Window values start expected after) : after.length = values.length := by
  obtain ⟨-, nearEnd, farEnd, rfl⟩ := h
  simp [mapRange]

/-- Each value climbs toward the estimate, or toward the band below what the first value has climbed
to. -/
theorem climbs (hv : s.thresholds.Valid) (h : s.Window values start expected after) :
    ∃ first, values[start]? = some first ∧ ∀ (i v : Nat), values[i]? = some v →
      ∃ v', after[i]? = some v' ∧ s.thresholds.Climbs
        (max (s.thresholds.rank expected) (s.thresholds.rank first - 1)) v v' := by
  obtain ⟨inside, nearEnd, farEnd, rfl⟩ := h
  obtain ⟨first, hfirst⟩ : ∃ first, values[start]? = some first :=
    ⟨values[start], List.getElem?_eq_getElem inside⟩
  have near (i v : Nat) (hi : values[i]? = some v) :
      ∃ v', (mapRange start nearEnd (s.nearValue expected) values)[i]? = some v' ∧
        s.thresholds.Climbs (s.thresholds.rank expected) v v' := by
    refine ⟨_, by rw [getElem?_mapRange, hi]; rfl, ?_⟩
    split
    · exact climbs_nearValue hv expected v
    · exact .refl _ _ _
  obtain ⟨first', hfirst', climbed⟩ := near start first hfirst
  refine ⟨first, hfirst, fun i v hi => ?_⟩
  obtain ⟨w, hw, hclimb⟩ := near i v hi
  refine ⟨_, by rw [getElem?_mapRange, hw]; rfl, ?_⟩
  split
  · rename_i hfar
    -- A value of the far window is none of the near one.
    have hwv : w = v := by
      rw [getElem?_mapRange, hi] at hw
      simpa [Nat.not_lt.mpr hfar.1] using hw.symm
    subst hwv
    refine (climbs_raiseToward hv _ w).mono ?_
    have hcap := climbed.capped
    simp only [List.getD_eq_getElem?_getD, hfirst', Option.getD_some, Severity.weight_milder]
    show s.thresholds.rank first' - 1 ≤ _
    omega
  · exact hclimb.mono (Nat.le_max_left _ _)

end Window

/-! ## Passes one after another -/

/-- The leg after passes with these starts and estimates, one after another. -/
def applyAll (s : SmootherSettings) (leg : Leg) : List (Nat × Nat) → Leg
  | [] => leg
  | (start, expected) :: passes => s.applyAll (s.apply leg start expected).1 passes

/-- The estimates of those passes that change the leg. -/
def used (s : SmootherSettings) (leg : Leg) : List (Nat × Nat) → List Nat
  | [] => []
  | (start, expected) :: passes =>
    let (leg, changed) := s.apply leg start expected
    if changed then expected :: s.used leg passes else s.used leg passes

theorem applyAll_append (leg : Leg) (passes more : List (Nat × Nat)) :
    s.applyAll leg (passes ++ more) = s.applyAll (s.applyAll leg passes) more := by
  induction passes generalizing leg with
  | nil => rfl
  | cons p passes ih => exact ih _

/-- No value lies beyond the band reported for it, those of the estimates and the one below the
worst that is reported. -/
structure Bounded (s : SmootherSettings) (reported estimates values : List Nat) : Prop where
  length : values.length = reported.length
  bound : ∀ i r v : Nat, reported[i]? = some r → values[i]? = some v → s.thresholds.rank v ≤
    max (s.thresholds.rank r) (max (s.thresholds.peak estimates) (s.thresholds.peak reported - 1))

theorem Bounded.refl (s : SmootherSettings) (values : List Nat) : s.Bounded values [] values where
  length := rfl
  bound i r v hr hv := by
    rw [hr] at hv
    cases hv
    exact Nat.le_max_left _ _

/-- Lists of one length have values at the same places. -/
theorem exists_getElem? {as bs : List Nat} (h : bs.length = as.length) {i a : Nat}
    (ha : as[i]? = some a) : ∃ b, bs[i]? = some b :=
  ⟨_, List.getElem?_eq_getElem (h ▸ (List.getElem?_eq_some_iff.mp ha).1)⟩

theorem Bounded.window {reported estimates after : List Nat} {start expected : Nat}
    (h : s.Bounded reported estimates values) (hv : s.thresholds.Valid)
    (hw : s.Window values start expected after) :
    s.Bounded reported (estimates ++ [expected]) after := by
  refine ⟨hw.length.trans h.length, fun i r v' hr hv' => ?_⟩
  obtain ⟨first, hfirst, hclimbs⟩ := hw.climbs hv
  obtain ⟨v, hi⟩ := exists_getElem? h.length hr
  obtain ⟨w, hw', climbed⟩ := hclimbs i v hi
  obtain rfl : w = v' := by
    rw [hv'] at hw'
    exact (Option.some.inj hw').symm
  obtain ⟨r₀, hr₀⟩ := exists_getElem? h.length.symm hfirst
  have hbound := h.bound i r v hr hi
  have hfirst := h.bound start r₀ first hr₀ hfirst
  have hpeak := s.thresholds.rank_le_peak (List.mem_of_getElem? hr₀)
  have hcap := climbed.capped
  simp only [Thresholds.peak_append, Thresholds.peak_cons, Thresholds.peak_nil]
  omega

/-- Passes keep it, with their estimates. -/
theorem Bounded.applyAll {reported estimates : List Nat} (hv : s.thresholds.Valid) (leg : Leg)
    (h : s.Bounded reported estimates leg.congestion) (passes : List (Nat × Nat)) :
    s.Bounded reported (estimates ++ s.used leg passes) (s.applyAll leg passes).congestion := by
  induction passes generalizing leg estimates with
  | nil => simpa [used, SmootherSettings.applyAll] using h
  | cons p passes ih =>
    obtain ⟨start, expected⟩ := p
    rcases s.apply_cases leg start expected with hp | ⟨record, congestion, hw, hp⟩
    · simpa only [used, SmootherSettings.applyAll, hp, Bool.false_eq_true, ↓reduceIte] using
        ih leg h
    · simpa only [used, SmootherSettings.applyAll, hp, ↓reduceIte, List.append_assoc,
        List.singleton_append] using
        ih { leg with congestion, blend := some record } (h.window hv hw)

/-- **A pass moves no value down and none up by more than one band, and no run of passes takes a
value beyond all of: the band reported for it, the bands of the estimates used, and the band below
the worst that is reported anywhere on the leg.** -/
theorem applyAll_climbs (hv : s.thresholds.validate = .ok ()) (leg : Leg)
    (passes : List (Nat × Nat)) (start expected : Nat) :
    let before := (s.applyAll leg passes).congestion
    let after := (s.applyAll leg (passes ++ [(start, expected)])).congestion
    before.length = leg.congestion.length ∧ after.length = leg.congestion.length ∧
    ∀ i reported old new : Nat, leg.congestion[i]? = some reported → before[i]? = some old →
      after[i]? = some new →
      s.thresholds.bandOf old ≤ s.thresholds.bandOf new ∧
      (s.thresholds.bandOf new).weight ≤ (s.thresholds.bandOf old).weight + 1 ∧
      (s.thresholds.bandOf new).weight ≤ max (s.thresholds.bandOf reported).weight
        (max (s.thresholds.peak (s.used leg (passes ++ [(start, expected)])))
          (s.thresholds.peak leg.congestion - 1)) := by
  intro before after
  have hvalid := Thresholds.validate_eq_ok.mp hv
  have hbefore := (Bounded.refl s leg.congestion).applyAll hvalid leg passes
  have hafter := (Bounded.refl s leg.congestion).applyAll hvalid leg (passes ++ [(start, expected)])
  refine ⟨hbefore.length, hafter.length, fun i reported old new hr hold hnew => ?_⟩
  have hclimb : ∃ cap, s.thresholds.Climbs cap old new := by
    have hone : after = (s.apply (s.applyAll leg passes) start expected).1.congestion := by
      simp only [after, applyAll_append]
      rfl
    rcases s.apply_cases (s.applyAll leg passes) start expected with hp | ⟨_, congestion, hw, hp⟩
    · rw [hone, hp] at hnew
      obtain rfl : old = new := Option.some.inj (hold.symm.trans hnew)
      exact ⟨0, .refl _ _ _⟩
    · rw [hone, hp] at hnew
      obtain ⟨_, -, hclimbs⟩ := hw.climbs hvalid
      obtain ⟨new', hnew', hclimb⟩ := hclimbs i old hold
      obtain rfl : new' = new := Option.some.inj (hnew'.symm.trans hnew)
      exact ⟨_, hclimb⟩
  obtain ⟨cap, hclimb⟩ := hclimb
  exact ⟨hclimb.kept, hclimb.step, hafter.bound i reported new hr hnew⟩

/-- A near window of one segment. -/
def narrow : SmootherSettings := { near := 1 }

/-- A leg with a severe segment before light ones. -/
def severeFirst : Leg := { congestion := [85, 10, 10] }

/-- With light estimates only, a light value behind a severe one climbs to heavy, one band a
pass. -/
theorem applyAll_climbs_behind_severe :
    narrow.thresholds.validate = .ok () ∧
    (narrow.applyAll severeFirst [(0, 20)]).congestion = [85, 40, 40] ∧
    (narrow.applyAll severeFirst ([(0, 20)] ++ [(0, 21)])).congestion = [85, 60, 60] ∧
    narrow.used severeFirst ([(0, 20)] ++ [(0, 21)]) = [20, 21] ∧
    (narrow.thresholds.bandOf 60).weight ≤ (narrow.thresholds.bandOf 40).weight + 1 ∧
    (narrow.thresholds.bandOf 60).weight ≤ max (narrow.thresholds.bandOf 10).weight
      (max (narrow.thresholds.peak (narrow.used severeFirst ([(0, 20)] ++ [(0, 21)])))
        (narrow.thresholds.peak severeFirst.congestion - 1)) := by
  have hbefore : (narrow.applyAll severeFirst [(0, 20)]).congestion = [85, 40, 40] := rfl
  have hafter : (narrow.applyAll severeFirst ([(0, 20)] ++ [(0, 21)])).congestion = [85, 60, 60] :=
    rfl
  obtain ⟨-, -, h⟩ := applyAll_climbs (s := narrow) rfl severeFirst [(0, 20)] 0 21
  obtain ⟨-, hstep, hbound⟩ := h 1 10 40 60 rfl (by rw [hbefore]; rfl) (by rw [hafter]; rfl)
  exact ⟨rfl, hbefore, hafter, rfl, hstep, hbound⟩

end LiveTrip.SmootherSettings
