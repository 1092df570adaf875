import Mathlib.Data.List.Induction
import LiveTrip.Proofs.Congestion.Windows

/-!
# The record of the last change

A leg holds the record of the last pass that changed it, and of no other one: its range, its
estimate, and what the route itself reports over the range.

* `SmootherSettings.Changes`: what a pass that changes a leg makes of it, and what it records.
* `SmootherSettings.apply_outcome`: a pass leaves a leg as it is, or changes it like that.
* `SmootherSettings.apply_settles`: a pass tells whether it has changed a value, and changes nothing
  when it is repeated.
* `Leg.restored`: the congestion with the record written back over its range.
* `SmootherSettings.RecordedSince`: since when the leg has had a record of a segment.
* `SmootherSettings.misrecorded_iff_forgotten`: the record is not of what the route reports just
  where a segment had been changed and then left out of a record.
-/

namespace LiveTrip

/-- The record is of a range with segment `i` in it. -/
def Blend.Covers (r : Blend) (i : Nat) : Prop := r.start ≤ i ∧ i < r.start + r.length

namespace Leg

variable {leg : Leg} {i : Nat}

/-- The leg has a record of segment `i`. -/
def Recorded (leg : Leg) (i : Nat) : Prop := ∃ r, leg.blend = some r ∧ r.Covers i

/-- The congestion with the record written back over its range. -/
def restored (leg : Leg) : List Nat := leg.congestion.mapIdx (Blend.reportedAt leg.blend)

theorem getElem?_restored (leg : Leg) (i : Nat) :
    leg.restored[i]? = leg.congestion[i]?.map (Blend.reportedAt leg.blend i) :=
  List.getElem?_mapIdx

theorem not_recorded (h : leg.blend = none) : ¬ leg.Recorded i := by
  rintro ⟨r, hr, -⟩
  rw [h] at hr
  cases hr

theorem restored_of_not_recorded (h : ¬ leg.Recorded i) :
    leg.restored[i]? = leg.congestion[i]? := by
  have hsame : Blend.reportedAt leg.blend i = id := by
    funext v
    unfold Blend.reportedAt
    split
    · rename_i r hr
      exact if_neg fun ⟨hlo, hhi⟩ => h ⟨r, hr, hlo, by omega⟩
    · rfl
  rw [getElem?_restored, hsame, Option.map_id_fun, id]

/-- A record fits its leg: it has a value for each segment of its range, which lies within the
leg. -/
structure Fits (leg : Leg) (r : Blend) : Prop where
  full : r.reported.length = r.length
  within : r.start + r.length ≤ leg.congestion.length

theorem restored_of_fits {r : Blend} (hr : leg.blend = some r) (hfits : leg.Fits r) {k : Nat}
    (hk : k < r.length) : leg.restored[r.start + k]? = r.reported[k]? := by
  have hin : r.start + k < leg.congestion.length := by
    have := hfits.within
    omega
  have hcovered : r.start ≤ r.start + k ∧ r.start + k - r.start < r.length := by omega
  have hreported := List.getElem?_eq_getElem (hfits.full ▸ hk : k < r.reported.length)
  rw [getElem?_restored, List.getElem?_eq_getElem hin, Option.map_some, hr, hreported]
  simp only [Blend.reportedAt]
  rw [if_pos hcovered, Nat.add_sub_cancel_left, List.getD_eq_getElem?_getD, hreported,
    Option.getD_some]

end Leg

namespace SmootherSettings

variable {s : SmootherSettings} {leg : Leg} {start expected : Nat} {passes : List (Nat × Nat)}

/-! ## One pass -/

/-- Where the windows of a pass from `start` over the leg end. -/
def windowEnd (s : SmootherSettings) (leg : Leg) (start : Nat) : Nat :=
  s.farEnd start (limit (leg.exitAfter start) leg.congestion.length)

theorem windowEnd_le_length (s : SmootherSettings) (leg : Leg) (start : Nat) :
    s.windowEnd leg start ≤ leg.congestion.length :=
  Nat.le_trans (s.farEnd_le start _) (limit_le _ _)

theorem windowEnd_le_exit {exit : Nat} (h : leg.exitAfter start = some exit) :
    s.windowEnd leg start ≤ exit := by
  have hend := s.farEnd_le start (limit (leg.exitAfter start) leg.congestion.length)
  have hlimit : limit (leg.exitAfter start) leg.congestion.length ≤ exit := by
    rw [h, limit_eq]
    exact Nat.min_le_left _ _
  exact Nat.le_trans hend hlimit

/-- A pass makes `after` of the congestion of a leg, and `r` is what it records. -/
structure Changes (s : SmootherSettings) (leg : Leg) (start expected : Nat) (after : List Nat)
    (r : Blend) : Prop where
  same_start : r.start = start
  same_expected : r.expected = expected
  ends : r.start + r.length = s.windowEnd leg start
  full : r.reported.length = r.length
  /-- It records the values of the record before it, and the current ones where that has none. -/
  reported : ∀ k < r.length, r.reported[k]? = leg.restored[r.start + k]?
  length : after.length = leg.congestion.length
  differs : after ≠ leg.congestion
  elsewhere : ∀ i, ¬ r.Covers i → after[i]? = leg.congestion[i]?

theorem changes_of_smoothLeg {out : Smoothing} (h : s.smoothLeg leg start expected = some out) :
    s.Changes leg start expected out.congestion out.record := by
  rw [smoothLeg, smooth_eq] at h
  simp only at h
  split at h
  · cases h
  · rename_i hnot
    cases h
    simp only [not_or] at hnot
    obtain ⟨-, -, hroom, hdiffers⟩ := hnot
    have hm := s.start_le_nearEnd (Nat.le_of_lt (Nat.not_le.mp hroom))
    have hn := s.nearEnd_le_farEnd start (limit (leg.exitAfter start) leg.congestion.length)
    have hends : start + (s.windowEnd leg start - start) = s.windowEnd leg start :=
      Nat.add_sub_cancel' (Nat.le_trans hm hn)
    exact {
      same_start := rfl
      same_expected := rfl
      ends := hends
      full := length_reported leg.blend (s.windowEnd_le_length leg start)
      reported := fun k hk => by
        rw [getElem?_reported leg.blend hk, Leg.getElem?_restored]
      length := by simp [passed, nearPassed, mapRange]
      differs := hdiffers
      elsewhere := fun i hi => by
        have hi : ¬ (start ≤ i ∧ i < start + (s.windowEnd leg start - start)) := hi
        rw [hends] at hi
        have houtside : i < start ∨ s.windowEnd leg start ≤ i := by omega
        exact getElem?_passed_of_outside hm hn houtside }

/-- A pass leaves a leg as it is, or changes it and records this. -/
theorem apply_outcome (s : SmootherSettings) (leg : Leg) (start expected : Nat) :
    s.apply leg start expected = (leg, false) ∨
      ∃ after r, s.Changes leg start expected after r ∧
        s.apply leg start expected = ({ leg with congestion := after, blend := some r }, true) := by
  unfold apply
  split
  · rename_i out h
    exact .inr ⟨out.congestion, out.record, changes_of_smoothLeg h, rfl⟩
  · exact .inl rfl

namespace Changes

variable {after : List Nat} {r : Blend}

/-- Some value is another one after it. -/
theorem exists_ne (h : s.Changes leg start expected after r) :
    ∃ i v w : Nat, leg.congestion[i]? = some v ∧ after[i]? = some w ∧ v ≠ w := by
  obtain ⟨i, hi⟩ : ∃ i : Nat, after[i]? ≠ leg.congestion[i]? := by
    by_contra hsame
    exact h.differs (List.ext_getElem? fun i => by_contra fun hi => hsame ⟨i, hi⟩)
  cases hv : leg.congestion[i]? with
  | none =>
    rw [hv] at hi
    exact absurd (List.getElem?_eq_none (h.length ▸ List.getElem?_eq_none_iff.mp hv)) hi
  | some v =>
    obtain ⟨w, hw⟩ := exists_getElem? h.length hv
    refine ⟨i, v, w, hv, hw, fun hvw => hi ?_⟩
    rw [hv, hw, hvw]

theorem fits (h : s.Changes leg start expected after r) :
    ({ leg with congestion := after, blend := some r } : Leg).Fits r where
  full := h.full
  within := h.ends ▸ h.length ▸ s.windowEnd_le_length leg start

/-- Where the new record is, it gives back what was given back before. -/
theorem restored_of_covers (h : s.Changes leg start expected after r) {i : Nat} (hi : r.Covers i) :
    ({ leg with congestion := after, blend := some r } : Leg).restored[i]? = leg.restored[i]? := by
  obtain ⟨k, rfl⟩ := Nat.exists_eq_add_of_le hi.1
  have hk : k < r.length := Nat.add_lt_add_iff_left.mp hi.2
  rw [← h.reported k hk]
  exact Leg.restored_of_fits rfl h.fits hk

/-- Elsewhere there is nothing to give back, and nothing has changed. -/
theorem restored_of_not_covers (h : s.Changes leg start expected after r) {i : Nat}
    (hi : ¬ r.Covers i) : ({ leg with congestion := after, blend := some r } : Leg).restored[i]? =
      leg.congestion[i]? := by
  have hnot : ¬ ({ leg with congestion := after, blend := some r } : Leg).Recorded i :=
    fun ⟨_, hr, hcovers⟩ => hi (Option.some.inj hr ▸ hcovers)
  rw [Leg.restored_of_not_recorded hnot]
  exact h.elsewhere i hi

end Changes

/-- A pass is skipped if the record is of its start and its estimate. -/
theorem apply_of_recorded {r : Blend} (hr : leg.blend = some r) (hstart : r.start = start)
    (hexpected : r.expected = expected) : s.apply leg start expected = (leg, false) := by
  have hrepeated : leg.blend.any fun r => r.start = start ∧ r.expected = expected := by
    simp [hr, hstart, hexpected]
  have hnone : s.smoothLeg leg start expected = none := by
    rw [smoothLeg, smooth_eq]
    exact if_pos (.inr (.inl hrepeated))
  simp only [apply, hnone]

/-- A pass that is repeated at once changes nothing. -/
theorem apply_apply (s : SmootherSettings) (leg : Leg) (start expected : Nat) :
    s.apply (s.apply leg start expected).1 start expected =
      ((s.apply leg start expected).1, false) := by
  rcases s.apply_outcome leg start expected with h | ⟨after, r, hchanges, h⟩
  · simp only [h]
  · simp only [h]
    exact apply_of_recorded rfl hchanges.same_start hchanges.same_expected

theorem applyAll_of_used_eq_nil (h : s.used leg passes = []) : s.applyAll leg passes = leg := by
  induction passes with
  | nil => rfl
  | cons p passes ih =>
    obtain ⟨start, expected⟩ := p
    rcases s.apply_outcome leg start expected with hp | ⟨after, r, -, hp⟩
    · simp only [used, hp, Bool.false_eq_true, ↓reduceIte] at h
      simp only [applyAll, hp, ih h]
    · simp only [used, hp, ↓reduceIte, reduceCtorEq] at h

/-- **A pass says that it has changed the leg just when a value has changed, leaves the leg and its
record as they are otherwise, and changes nothing when it is repeated, at once or after passes of
which none changed anything.** -/
theorem apply_settles (s : SmootherSettings) (leg : Leg) (start expected : Nat) :
    let after := (s.apply leg start expected).1
    let changed := (s.apply leg start expected).2
    (changed = true ↔
      ∃ i v w : Nat, leg.congestion[i]? = some v ∧ after.congestion[i]? = some w ∧ v ≠ w) ∧
    (changed = false → after = leg) ∧
    ∀ between, s.used after between = [] →
      s.apply (s.applyAll after between) start expected = (after, false) := by
  intro after changed
  refine ⟨?_, ?_, fun between hidle => ?_⟩
  · rcases s.apply_outcome leg start expected with h | ⟨congestion, r, hchanges, h⟩
    · have hsame : after = leg := congrArg Prod.fst h
      have hunchanged : changed = false := congrArg Prod.snd h
      simp only [hunchanged, Bool.false_eq_true, false_iff, hsame]
      rintro ⟨i, v, w, hv, hw, hne⟩
      exact hne (Option.some.inj (hv.symm.trans hw))
    · have hafter : after.congestion = congestion := congrArg (Leg.congestion ∘ Prod.fst) h
      have hchanged : changed = true := congrArg Prod.snd h
      simp only [hchanged, true_iff, hafter]
      exact hchanges.exists_ne
  · intro hunchanged
    rcases s.apply_outcome leg start expected with h | ⟨congestion, r, -, h⟩
    · exact congrArg Prod.fst h
    · exact absurd (hunchanged.symm.trans (congrArg Prod.snd h)) Bool.false_ne_true
  · rw [applyAll_of_used_eq_nil hidle]
    exact s.apply_apply leg start expected

/-- Two light segments. -/
def lightLeg : Leg := { congestion := [10, 10] }

/-- They are moderate now. -/
def raisedLeg : Leg := { congestion := [40, 40], blend := some ⟨0, 2, [10, 10], 70⟩ }

/-- A heavy estimate raises both segments by a band. A light one changes nothing then, and the heavy
one again does not raise them further, though it is still above them. -/
theorem apply_settles_below_estimate :
    let s : SmootherSettings := {}
    s.apply lightLeg 0 70 = (raisedLeg, true) ∧
    (∃ i v w : Nat, lightLeg.congestion[i]? = some v ∧ raisedLeg.congestion[i]? = some w ∧ v ≠ w) ∧
    s.used raisedLeg [(0, 10)] = [] ∧
    s.apply (s.applyAll raisedLeg [(0, 10)]) 0 70 = (raisedLeg, false) ∧
    s.thresholds.bandOf 40 < s.thresholds.bandOf 70 := by
  intro s
  have hfirst : s.apply lightLeg 0 70 = (raisedLeg, true) := rfl
  have hidle : s.used raisedLeg [(0, 10)] = [] := rfl
  obtain ⟨hchanged, -, hagain⟩ := s.apply_settles lightLeg 0 70
  rw [hfirst] at hchanged hagain
  exact ⟨hfirst, hchanged.mp rfl, hidle, hagain [(0, 10)] hidle, by decide⟩

/-! ## Passes one after another -/

theorem applyAll_concat (s : SmootherSettings) (leg : Leg) (passes : List (Nat × Nat))
    (start expected : Nat) : s.applyAll leg (passes ++ [(start, expected)]) =
      (s.apply (s.applyAll leg passes) start expected).1 :=
  applyAll_append leg passes [(start, expected)]

/-- A leg that starts without a record only ever holds one that fits it. -/
theorem fits_applyAll (hleg : leg.blend = none) {r : Blend}
    (hr : (s.applyAll leg passes).blend = some r) : (s.applyAll leg passes).Fits r := by
  induction passes using List.reverseRecOn generalizing r with
  | nil =>
    rw [applyAll, hleg] at hr
    cases hr
  | append_singleton passes p ih =>
    obtain ⟨start, expected⟩ := p
    rw [applyAll_concat] at hr ⊢
    rcases s.apply_outcome (s.applyAll leg passes) start expected with h | ⟨_, _, hchanges, h⟩
    · rw [h] at hr ⊢
      exact ih hr
    · rw [h] at hr ⊢
      cases hr
      exact hchanges.fits

/-- The leg has had a record of segment `i` ever since the first of the passes `since`, and had none
right before that. -/
structure RecordedSince (s : SmootherSettings) (leg : Leg) (before since : List (Nat × Nat))
    (i : Nat) : Prop where
  not_before : ¬ (s.applyAll leg before).Recorded i
  ever_since : ∀ more, more <+: since → more ≠ [] →
    (s.applyAll leg (before ++ more)).Recorded i

namespace RecordedSince

variable {before since : List (Nat × Nat)} {i : Nat}

theorem nil (h : ¬ (s.applyAll leg before).Recorded i) : s.RecordedSince leg before [] i where
  not_before := h
  ever_since _ hprefix hne := absurd (List.prefix_nil.mp hprefix) hne

theorem concat (h : s.RecordedSince leg before since i) {p : Nat × Nat}
    (hp : (s.applyAll leg (before ++ (since ++ [p]))).Recorded i) :
    s.RecordedSince leg before (since ++ [p]) i where
  not_before := h.not_before
  ever_since more hprefix hne := by
    rcases List.prefix_concat_iff.mp hprefix with rfl | hprefix
    · exact hp
    · exact h.ever_since more hprefix hne

/-- There is no other moment from which it has. -/
theorem unique {before' since' : List (Nat × Nat)} (h : s.RecordedSince leg before since i)
    (h' : s.RecordedSince leg before' since' i) (heq : before ++ since = before' ++ since') :
    before = before' := by
  rcases List.append_eq_append_iff.mp heq with ⟨more, rfl, rfl⟩ | ⟨more, rfl, rfl⟩
  · by_cases hmore : more = []
    · rw [hmore, List.append_nil]
    · exact absurd (h.ever_since more (List.prefix_append more since') hmore) h'.not_before
  · by_cases hmore : more = []
    · rw [hmore, List.append_nil]
    · exact absurd (h'.ever_since more (List.prefix_append more since) hmore) h.not_before

end RecordedSince

/-- Where there is a record after a pass, it gives back what was given back before. -/
theorem restored_apply_of_recorded {i : Nat} (h : (s.apply leg start expected).1.Recorded i) :
    (s.apply leg start expected).1.restored[i]? = leg.restored[i]? := by
  rcases s.apply_outcome leg start expected with hp | ⟨_, _, hchanges, hp⟩
  · rw [hp]
  · rw [hp] at h ⊢
    obtain ⟨_, hr, hcovers⟩ := h
    cases hr
    exact hchanges.restored_of_covers hcovers

/-- For each segment, the record gives back the value that the segment had before the first of the
passes since which the leg has had a record of it. -/
theorem restored_applyAll (hleg : leg.blend = none) (passes : List (Nat × Nat)) (i : Nat) :
    ∃ before since, passes = before ++ since ∧ s.RecordedSince leg before since i ∧
      (s.applyAll leg passes).restored[i]? = (s.applyAll leg before).congestion[i]? := by
  induction passes using List.reverseRecOn with
  | nil =>
    have hnot : ¬ leg.Recorded i := Leg.not_recorded hleg
    exact ⟨[], [], rfl, .nil hnot, Leg.restored_of_not_recorded hnot⟩
  | append_singleton passes p ih =>
    obtain ⟨start, expected⟩ := p
    by_cases hnow : (s.applyAll leg (passes ++ [(start, expected)])).Recorded i
    · have hkept : (s.applyAll leg (passes ++ [(start, expected)])).restored[i]? =
          (s.applyAll leg passes).restored[i]? := by
        rw [applyAll_concat] at hnow ⊢
        exact restored_apply_of_recorded hnow
      by_cases hthen : (s.applyAll leg passes).Recorded i
      · obtain ⟨before, since, rfl, hsince, hvalue⟩ := ih
        rw [List.append_assoc] at hnow
        exact ⟨before, since ++ [(start, expected)], List.append_assoc .., hsince.concat hnow,
          hkept.trans hvalue⟩
      · -- It is recorded from this pass on, with the value that it had.
        exact ⟨passes, [(start, expected)], rfl, (RecordedSince.nil hthen).concat hnow,
          hkept.trans (Leg.restored_of_not_recorded hthen)⟩
    · exact ⟨passes ++ [(start, expected)], [], (List.append_nil _).symm, .nil hnow,
        Leg.restored_of_not_recorded hnow⟩

/-- Segment `i` had a value that the route does not report before the first of the passes since which
the leg has had a record of it. -/
def Forgotten (s : SmootherSettings) (leg : Leg) (passes : List (Nat × Nat)) (i : Nat) : Prop :=
  ∃ before since, passes = before ++ since ∧ s.RecordedSince leg before since i ∧
    (s.applyAll leg before).congestion[i]? ≠ leg.congestion[i]?

/-- From one pass to the next, neither the start nor the end of the windows goes back. -/
def Forward (s : SmootherSettings) (leg : Leg) (passes : List (Nat × Nat)) : Prop :=
  passes.Pairwise fun p q => p.1 ≤ q.1 ∧ s.windowEnd leg p.1 ≤ s.windowEnd leg q.1

/-- The record is that of one of the passes, and from its start on it gives back what the route
reports. -/
structure RestoredAhead (s : SmootherSettings) (leg : Leg) (passes : List (Nat × Nat)) : Prop where
  origin : ∀ r, (s.applyAll leg passes).blend = some r →
    ∃ p ∈ passes, r.start = p.1 ∧ r.start + r.length = s.windowEnd leg p.1
  ahead : ∀ i, (∀ r, (s.applyAll leg passes).blend = some r → r.start ≤ i) →
    (s.applyAll leg passes).restored[i]? = leg.congestion[i]?

theorem windowEnd_applyAll (s : SmootherSettings) (leg : Leg) (passes : List (Nat × Nat))
    (start : Nat) : s.windowEnd (s.applyAll leg passes) start = s.windowEnd leg start := by
  induction passes generalizing leg with
  | nil => rfl
  | cons p passes ih =>
    rw [applyAll, ih]
    rcases s.apply_outcome leg p.1 p.2 with h | ⟨after, r, hchanges, h⟩
    · rw [h]
    · rw [h]
      exact congrArg (fun n => s.farEnd start (limit (leg.exitAfter start) n)) hchanges.length

namespace RestoredAhead

theorem nil (h : leg.blend = none) : s.RestoredAhead leg [] where
  origin r hr := by
    rw [applyAll, h] at hr
    cases hr
  ahead _ _ := Leg.restored_of_not_recorded (Leg.not_recorded h)

/-- It stays so with a further pass whose windows do not start or end before those of the others. -/
theorem concat (h : s.RestoredAhead leg passes) (expected : Nat)
    (hlast : ∀ p ∈ passes, p.1 ≤ start ∧ s.windowEnd leg p.1 ≤ s.windowEnd leg start) :
    s.RestoredAhead leg (passes ++ [(start, expected)]) := by
  obtain ⟨origin, ahead⟩ := h
  rcases s.apply_outcome (s.applyAll leg passes) start expected with h | ⟨after, r, hchanges, h⟩
  · refine ⟨fun r hr => ?_, fun i hi => ?_⟩
    · rw [applyAll_concat, h] at hr
      obtain ⟨p, hp, hstart⟩ := origin r hr
      exact ⟨p, List.mem_append_left _ hp, hstart⟩
    · rw [applyAll_concat, h] at hi ⊢
      exact ahead i hi
  · have hstarts := hchanges.same_start
    have hends := hchanges.ends.trans (s.windowEnd_applyAll leg passes start)
    refine ⟨fun r' hr' => ?_, fun i hi => ?_⟩
    · rw [applyAll_concat, h] at hr'
      cases hr'
      exact ⟨(start, expected), List.mem_append_right _ List.mem_cons_self, hstarts, hends⟩
    · rw [applyAll_concat, h] at hi ⊢
      have hstart : r.start ≤ i := hi r rfl
      -- The record before did not start later, so it gives back the right value at `i`.
      have hahead : (s.applyAll leg passes).restored[i]? = leg.congestion[i]? :=
        ahead i fun r₀ hr₀ => by
          obtain ⟨p, hp, hstart₀, -⟩ := origin r₀ hr₀
          have := (hlast p hp).1
          omega
      by_cases hcovers : r.Covers i
      · rw [hchanges.restored_of_covers hcovers, hahead]
      · -- Nor did it end later, so it was not of `i` either.
        have hnot : ¬ (s.applyAll leg passes).Recorded i := by
          rintro ⟨r₀, hr₀, -, hend₀⟩
          obtain ⟨p, hp, -, hends₀⟩ := origin r₀ hr₀
          have := (hlast p hp).2
          exact hcovers ⟨hstart, by omega⟩
        rw [hchanges.restored_of_not_covers hcovers, ← hahead, Leg.restored_of_not_recorded hnot]

end RestoredAhead

theorem Forward.restoredAhead (hleg : leg.blend = none) (hforward : s.Forward leg passes) :
    s.RestoredAhead leg passes := by
  induction passes using List.reverseRecOn with
  | nil => exact .nil hleg
  | append_singleton passes p ih =>
    obtain ⟨hpasses, -, hlast⟩ := List.pairwise_append.mp hforward
    exact (ih hpasses).concat p.2 fun q hq => hlast q hq p List.mem_cons_self

/-- **The record of a leg that started without one has a value for each segment of its range, which
lies within the leg. Each of them is the one that the segment had before the first of the passes since
which the leg has had a record of it. So it is not the one that the route reports just where a value
had been changed and was then left out of a record, and that does not happen as long as the windows
only go forward.** -/
theorem misrecorded_iff_forgotten (hleg : leg.blend = none) (passes : List (Nat × Nat)) {r : Blend}
    (hr : (s.applyAll leg passes).blend = some r) :
    r.reported.length = r.length ∧
    r.start + r.length ≤ (s.applyAll leg passes).congestion.length ∧
    (∀ k < r.length, ∃ before since, passes = before ++ since ∧
      s.RecordedSince leg before since (r.start + k) ∧
      r.reported[k]? = (s.applyAll leg before).congestion[r.start + k]?) ∧
    (∀ k < r.length, r.reported[k]? ≠ leg.congestion[r.start + k]? ↔
      s.Forgotten leg passes (r.start + k)) ∧
    (s.Forward leg passes → ∀ k < r.length, r.reported[k]? = leg.congestion[r.start + k]?) := by
  have hfits := fits_applyAll hleg hr
  have hrestored (k : Nat) (hk : k < r.length) := Leg.restored_of_fits hr hfits hk
  refine ⟨hfits.full, hfits.within, fun k hk => ?_, fun k hk => ⟨fun hne => ?_, ?_⟩,
    fun hforward k hk => ?_⟩
  · obtain ⟨before, since, hsplit, hsince, hvalue⟩ := restored_applyAll hleg passes (r.start + k)
    exact ⟨before, since, hsplit, hsince, (hrestored k hk).symm.trans hvalue⟩
  · obtain ⟨before, since, hsplit, hsince, hvalue⟩ := restored_applyAll hleg passes (r.start + k)
    exact ⟨before, since, hsplit, hsince,
      fun heq => hne ((hrestored k hk).symm.trans (hvalue.trans heq))⟩
  · rintro ⟨before', since', hsplit', hsince', hne⟩ heq
    obtain ⟨before, since, hsplit, hsince, hvalue⟩ := restored_applyAll hleg passes (r.start + k)
    obtain rfl := hsince.unique hsince' (hsplit.symm.trans hsplit')
    exact hne (hvalue.symm.trans ((hrestored k hk).trans heq))
  · rw [← hrestored k hk]
    refine (hforward.restoredAhead hleg).ahead (r.start + k) fun r' hr' => ?_
    cases hr.symm.trans hr'
    exact Nat.le_add_right _ _

/-- A leg that comes to a motorway at 1 and leaves it at 3. -/
def rampLeg : Leg where
  congestion := [10, 10, 10, 10, 10, 10]
  steps := [{ intersections := [⟨1, some .motorway⟩, ⟨3, some .primary⟩] }]

/-- The first pass changes the whole leg, the next one stops at the exit, and the one behind the exit
then takes the changed values for those of the route. A drive that begins on the motorway only goes
forward, and there the record is right. -/
theorem misrecorded_behind_exit :
    let s : SmootherSettings := {}
    rampLeg.blend = none ∧
    (s.applyAll rampLeg [(0, 70), (1, 70), (3, 70)]).blend = some ⟨3, 3, [40, 40, 40], 70⟩ ∧
    rampLeg.congestion[3]? = some 10 ∧ s.Forgotten rampLeg [(0, 70), (1, 70), (3, 70)] 3 ∧
    s.Forward rampLeg [(1, 70), (3, 70)] ∧
    (s.applyAll rampLeg [(1, 70), (3, 70)]).blend = some ⟨3, 3, [10, 10, 10], 70⟩ ∧
    [10, 10, 10][0]? = rampLeg.congestion[3]? := by
  intro s
  have hnone : rampLeg.blend = none := rfl
  have hr : (s.applyAll rampLeg [(0, 70), (1, 70), (3, 70)]).blend =
      some ⟨3, 3, [40, 40, 40], 70⟩ := by decide +kernel
  have hr' : (s.applyAll rampLeg [(1, 70), (3, 70)]).blend = some ⟨3, 3, [10, 10, 10], 70⟩ := by
    decide +kernel
  have hforward : s.Forward rampLeg [(1, 70), (3, 70)] := by
    unfold Forward
    decide
  obtain ⟨-, -, -, hiff, -⟩ := misrecorded_iff_forgotten hnone _ hr
  obtain ⟨-, -, -, -, hright⟩ := misrecorded_iff_forgotten hnone _ hr'
  have hforgotten := (hiff 0 (by decide)).mp (by decide)
  exact ⟨hnone, hr, rfl, hforgotten, hforward, hr', hright hforward 0 (by decide)⟩

end SmootherSettings
end LiveTrip
