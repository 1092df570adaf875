import LiveTrip.Proofs.Congestion.Passes

/-!
# The windows of one pass

What a pass makes of each value, by where the value lies and without the order in which the pass
works it out.

* `SmootherSettings.limit`, `nearEnd`, `farEnd`: where the windows end.
* `SmootherSettings.Rises`, `Approaches`, `Tapers`: what becomes of a value of the near window and of
  one of the far window.
* `SmootherSettings.Meets`: a list of values is what a pass makes of another one.
* `SmootherSettings.meets_passed`, `SmootherSettings.Meets.unique`: what a pass works out meets this,
  and nothing else does.
* `SmootherSettings.smooth_meets_windows`: the whole account.
-/

namespace LiveTrip.SmootherSettings

variable {s : SmootherSettings} {values after : List Nat} {start expected ends v w : Nat}

/-! ## Where the windows lie -/

/-- Nothing at or after it is changed: the end of the values, or the boundary if that comes first. -/
def limit (boundary : Option Nat) (length : Nat) : Nat :=
  match boundary with
  | some b => min b length
  | none => length

/-- The near window is `start ≤ i < nearEnd`. -/
def nearEnd (s : SmootherSettings) (start limit : Nat) : Nat := min (start + s.near) limit

/-- The far window is `nearEnd ≤ i < farEnd`. -/
def farEnd (s : SmootherSettings) (start limit : Nat) : Nat :=
  min (s.nearEnd start limit + s.far) limit

theorem limit_eq (boundary : Option Nat) (length : Nat) :
    limit boundary length = min (boundary.getD length) length := by
  cases boundary <;> simp [limit]

/-! ## What becomes of a value -/

/-- The value becomes the least one of the next band. -/
def Rises (s : SmootherSettings) (v w : Nat) : Prop :=
  ∃ next, (s.thresholds.bandOf v).worse? = some next ∧ w = s.thresholds.lowerBound next

/-- What becomes of a value of the near window. -/
structure Approaches (s : SmootherSettings) (expected v w : Nat) : Prop where
  same : s.thresholds.bandOf v = s.thresholds.bandOf expected → w = expected
  milder : s.thresholds.bandOf expected < s.thresholds.bandOf v → w = v
  worse : s.thresholds.bandOf v < s.thresholds.bandOf expected → s.Rises v w

/-- What becomes of a value of the far window, if `near` is the band of the first value. -/
structure Tapers (s : SmootherSettings) (near : Severity) (v w : Nat) : Prop where
  stays_or_rises : w = v ∨ s.Rises v w
  /-- It rises only to a band below `near`. -/
  below : w ≠ v → s.thresholds.bandOf w < near
  /-- It stays only where the next band is not below `near`. -/
  stays : w = v → near.weight ≤ s.thresholds.rank v + 1

theorem Rises.unique {w' : Nat} (h : s.Rises v w) (h' : s.Rises v w') : w = w' := by
  obtain ⟨next, hnext, rfl⟩ := h
  obtain ⟨next', hnext', rfl⟩ := h'
  rw [hnext] at hnext'
  cases hnext'
  rfl

theorem Rises.rank (hv : s.thresholds.Valid) (h : s.Rises v w) :
    s.thresholds.rank w = s.thresholds.rank v + 1 := by
  obtain ⟨next, hnext, rfl⟩ := h
  have hweight := Severity.weight_worse hnext
  rw [Thresholds.rank, Thresholds.bandOf_lowerBound hv, hweight]
  rfl

/-- Below any band, there is a next one. -/
theorem rises_raiseToward {target : Severity} (h : s.thresholds.bandOf v < target) :
    s.Rises v (s.raiseToward target v) := by
  have hnot : ¬ target ≤ s.thresholds.bandOf v := Nat.not_le.mpr h
  obtain ⟨next, hnext⟩ : ∃ next, (s.thresholds.bandOf v).worse? = some next := by
    rw [Severity.lt_def] at h
    cases hb : s.thresholds.bandOf v with
    | severe =>
      rw [hb] at h
      cases target <;> simp [Severity.weight] at h
    | _ => exact ⟨_, rfl⟩
  exact ⟨next, hnext, by simp only [raiseToward, if_neg hnot, hnext]⟩

theorem raiseToward_of_le {target : Severity} (h : target ≤ s.thresholds.bandOf v) :
    s.raiseToward target v = v := if_pos h

theorem approaches_nearValue (s : SmootherSettings) (expected v : Nat) :
    s.Approaches expected v (s.nearValue expected v) where
  same h := if_pos h
  milder h := by
    have hne : s.thresholds.bandOf v ≠ s.thresholds.bandOf expected := fun he =>
      Nat.lt_irrefl _ (he ▸ h)
    simp only [nearValue, if_neg hne]
    exact raiseToward_of_le (Nat.le_of_lt h)
  worse h := by
    have hne : s.thresholds.bandOf v ≠ s.thresholds.bandOf expected := fun he =>
      Nat.lt_irrefl _ (he ▸ h)
    simp only [nearValue, if_neg hne]
    exact rises_raiseToward h

theorem tapers_raiseToward (hv : s.thresholds.Valid) (near : Severity) (v : Nat) :
    s.Tapers near v (s.raiseToward (near.milder?.getD .light) v) := by
  have hweight := Severity.weight_milder near
  by_cases h : near.milder?.getD .light ≤ s.thresholds.bandOf v
  · rw [raiseToward_of_le h]
    refine ⟨.inl rfl, fun hne => absurd rfl hne, fun _ => ?_⟩
    rw [Severity.le_def, hweight] at h
    show near.weight ≤ (s.thresholds.bandOf v).weight + 1
    omega
  · have hlt : s.thresholds.bandOf v < near.milder?.getD .light := Nat.not_le.mp h
    have hrises := rises_raiseToward hlt
    have hrank := hrises.rank hv
    rw [Severity.lt_def, hweight] at hlt
    have hlt : s.thresholds.rank v < near.weight - 1 := hlt
    refine ⟨.inr hrises, fun _ => ?_, fun heq => ?_⟩
    · show s.thresholds.rank _ < near.weight
      omega
    · rw [heq] at hrank
      omega

theorem Approaches.unique {w' : Nat} (h : s.Approaches expected v w)
    (h' : s.Approaches expected v w') : w = w' := by
  rcases Nat.lt_trichotomy (s.thresholds.rank v) (s.thresholds.rank expected) with hlt | heq | hgt
  · exact (h.worse hlt).unique (h'.worse hlt)
  · have heq := Severity.weight_injective heq
    rw [h.same heq, h'.same heq]
  · rw [h.milder hgt, h'.milder hgt]

/-- A value stays or rises, and which of the two the bands decide. -/
theorem Tapers.eq_iff {near : Severity} (hv : s.thresholds.Valid) (h : s.Tapers near v w) :
    w = v ↔ near.weight ≤ s.thresholds.rank v + 1 := by
  refine ⟨h.stays, fun hle => Classical.byContradiction fun hne => ?_⟩
  have hbelow : s.thresholds.rank w < near.weight := h.below hne
  have hrank := (h.stays_or_rises.resolve_left hne).rank hv
  omega

theorem Tapers.unique {near : Severity} {w' : Nat} (hv : s.thresholds.Valid)
    (h : s.Tapers near v w) (h' : s.Tapers near v w') : w = w' := by
  by_cases hle : near.weight ≤ s.thresholds.rank v + 1
  · rw [(h.eq_iff hv).mpr hle, (h'.eq_iff hv).mpr hle]
  · have hw := h.stays_or_rises.resolve_left (mt (h.eq_iff hv).mp hle)
    have hw' := h'.stays_or_rises.resolve_left (mt (h'.eq_iff hv).mp hle)
    exact hw.unique hw'

/-- The first value stays if it is one of the far window, as it is when the near window is empty. -/
theorem Tapers.eq_of_own (h : s.Tapers (s.thresholds.bandOf w) v w) : w = v :=
  Classical.byContradiction fun hne => Nat.lt_irrefl _ (h.below hne)

/-! ## What becomes of all values -/

/-- A pass from `start` with this estimate, with its near window up to `m` and its far window up to
`n`, makes `after` of `values`; `band` is the one of the first value then. -/
structure Meets (s : SmootherSettings) (expected start m n : Nat) (values after : List Nat)
    (band : Severity) : Prop where
  length : after.length = values.length
  first : after[start]?.map s.thresholds.bandOf = some band
  outside : ∀ i, i < start ∨ n ≤ i → after[i]? = values[i]?
  near : ∀ i v w : Nat, start ≤ i → i < m → values[i]? = some v → after[i]? = some w →
    s.Approaches expected v w
  far : ∀ i v w : Nat, m ≤ i → i < n → values[i]? = some v → after[i]? = some w →
    s.Tapers band v w

namespace Meets

variable {m n : Nat} {band band' : Severity} {after' : List Nat}

/-- The first value comes out the same. -/
theorem first_unique (h : s.Meets expected start m n values after band)
    (h' : s.Meets expected start m n values after' band') : after[start]? = after'[start]? := by
  obtain ⟨w, hw, hband⟩ := Option.map_eq_some_iff.mp h.first
  obtain ⟨w', hw', hband'⟩ := Option.map_eq_some_iff.mp h'.first
  obtain ⟨v, hstart⟩ := exists_getElem? h.length.symm hw
  by_cases hm : start < m
  · rw [hw, hw', (h.near start v w (Nat.le_refl _) hm hstart hw).unique
      (h'.near start v w' (Nat.le_refl _) hm hstart hw')]
  · by_cases hn : start < n
    · have htapers := h.far start v w (Nat.not_lt.mp hm) hn hstart hw
      have htapers' := h'.far start v w' (Nat.not_lt.mp hm) hn hstart hw'
      rw [← hband] at htapers
      rw [← hband'] at htapers'
      rw [hw, hw', htapers.eq_of_own, htapers'.eq_of_own]
    · rw [h.outside start (.inr (Nat.not_lt.mp hn)), h'.outside start (.inr (Nat.not_lt.mp hn))]

/-- **What a pass makes of values leaves no choice.** -/
theorem unique (hv : s.thresholds.Valid) (h : s.Meets expected start m n values after band)
    (h' : s.Meets expected start m n values after' band') : after = after' := by
  obtain rfl : band = band' := by
    have hfirst := h.first
    rw [h.first_unique h', h'.first] at hfirst
    exact (Option.some.inj hfirst).symm
  refine List.ext_getElem? fun i => ?_
  by_cases hout : i < start ∨ n ≤ i
  · rw [h.outside i hout, h'.outside i hout]
  · cases hi : values[i]? with
    | none =>
      have hlen := List.getElem?_eq_none_iff.mp hi
      rw [List.getElem?_eq_none (h.length ▸ hlen), List.getElem?_eq_none (h'.length ▸ hlen)]
    | some v =>
      obtain ⟨w, hw⟩ := exists_getElem? h.length hi
      obtain ⟨w', hw'⟩ := exists_getElem? h'.length hi
      rw [hw, hw']
      by_cases hm : i < m
      · rw [(h.near i v w (by omega) hm hi hw).unique (h'.near i v w' (by omega) hm hi hw')]
      · rw [(h.far i v w (by omega) (by omega) hi hw).unique hv
          (h'.far i v w' (by omega) (by omega) hi hw')]

/-- Values are left as they are exactly when this is what becomes of them. -/
theorem eq_iff (hv : s.thresholds.Valid) (h : s.Meets expected start m n values after band) :
    after = values ↔ ∃ band, s.Meets expected start m n values values band := by
  constructor
  · rintro rfl
    exact ⟨band, h⟩
  · rintro ⟨_, hvalues⟩
    exact h.unique hv hvalues

/-- No value falls by a band, and none rises by more than one. -/
theorem climbs (hv : s.thresholds.Valid) (h : s.Meets expected start m n values after band)
    {i : Nat} (hi : values[i]? = some v) (hw : after[i]? = some w) :
    s.thresholds.rank v ≤ s.thresholds.rank w ∧ s.thresholds.rank w ≤ s.thresholds.rank v + 1 := by
  have rises (h : s.Rises v w) : s.thresholds.rank v ≤ s.thresholds.rank w ∧
      s.thresholds.rank w ≤ s.thresholds.rank v + 1 := by
    have := h.rank hv
    omega
  by_cases hout : i < start ∨ n ≤ i
  · rw [h.outside i hout, hi] at hw
    cases hw
    omega
  · by_cases hm : i < m
    · have happroaches := h.near i v w (by omega) hm hi hw
      rcases Nat.lt_trichotomy (s.thresholds.rank v) (s.thresholds.rank expected) with
        hlt | heq | hgt
      · exact rises (happroaches.worse hlt)
      · rw [happroaches.same (Severity.weight_injective heq)]
        omega
      · rw [happroaches.milder hgt]
        omega
    · rcases (h.far i v w (by omega) (by omega) hi hw).stays_or_rises with rfl | hrises
      · omega
      · exact rises hrises

end Meets

/-! ## What a pass works out -/

/-- The values after the near window, up to `m`, has been worked out. -/
def nearPassed (s : SmootherSettings) (expected start m : Nat) (values : List Nat) : List Nat :=
  mapRange start m (s.nearValue expected) values

/-- The band of the first value after that. -/
def firstBand (s : SmootherSettings) (expected start m : Nat) (values : List Nat) : Severity :=
  s.thresholds.bandOf ((s.nearPassed expected start m values).getD start 0)

/-- The values after the far window, up to `n`, has been worked out too. -/
def passed (s : SmootherSettings) (expected start m n : Nat) (values : List Nat) : List Nat :=
  mapRange m n (s.raiseToward ((s.firstBand expected start m values).milder?.getD .light))
    (s.nearPassed expected start m values)

theorem getElem?_nearPassed (s : SmootherSettings) (expected start m i : Nat) (values : List Nat) :
    (s.nearPassed expected start m values)[i]? =
      values[i]?.map fun v => if start ≤ i ∧ i < m then s.nearValue expected v else v :=
  getElem?_mapRange _ _ _ _ _

theorem getElem?_passed (s : SmootherSettings) (expected start m n i : Nat) (values : List Nat) :
    (s.passed expected start m n values)[i]? =
      (s.nearPassed expected start m values)[i]?.map fun v => if m ≤ i ∧ i < n then
        s.raiseToward ((s.firstBand expected start m values).milder?.getD .light) v else v :=
  getElem?_mapRange _ _ _ _ _

theorem getElem?_passed_of_outside {m n i : Nat} (hm : start ≤ m) (hn : m ≤ n)
    (hi : i < start ∨ n ≤ i) : (s.passed expected start m n values)[i]? = values[i]? := by
  have hnear : ¬ (start ≤ i ∧ i < m) := by omega
  have hfar : ¬ (m ≤ i ∧ i < n) := by omega
  simp only [getElem?_passed, getElem?_nearPassed, if_neg hnear, if_neg hfar, Option.map_id']

/-- The first value has the band that the far window tapers off from. -/
theorem first_passed {m n : Nat} (hstart : start < values.length) :
    (s.passed expected start m n values)[start]?.map s.thresholds.bandOf =
      some (s.firstBand expected start m values) := by
  obtain ⟨v, hv⟩ : ∃ v, (s.nearPassed expected start m values)[start]? = some v :=
    exists_getElem? (by simp [nearPassed, mapRange]) (List.getElem?_eq_getElem hstart)
  have hband : s.firstBand expected start m values = s.thresholds.bandOf v := by
    simp only [firstBand, List.getD_eq_getElem?_getD, hv, Option.getD_some]
  rw [getElem?_passed, hv, hband]
  -- It is above the band that the far window goes to, so it stays if it lies in there.
  have hstays : s.raiseToward ((s.thresholds.bandOf v).milder?.getD .light) v = v := by
    refine raiseToward_of_le ?_
    rw [Severity.le_def, Severity.weight_milder]
    omega
  simp only [Option.map_some, hstays, ite_self]

/-- What a pass works out is what becomes of the values. -/
theorem meets_passed (hv : s.thresholds.Valid) {m n : Nat} (hstart : start < values.length)
    (hm : start ≤ m) (hn : m ≤ n) :
    s.Meets expected start m n values (s.passed expected start m n values)
      (s.firstBand expected start m values) where
  length := by simp [passed, nearPassed, mapRange]
  first := first_passed hstart
  outside i hi := getElem?_passed_of_outside hm hn hi
  near i v w hi him hiv hw := by
    have hfar : ¬ (m ≤ i ∧ i < n) := by omega
    simp only [getElem?_passed, getElem?_nearPassed, hiv, Option.map_some, if_pos (And.intro hi him),
      if_neg hfar] at hw
    cases hw
    exact approaches_nearValue s expected v
  far i v w hi hin hiv hw := by
    have hnear : ¬ (start ≤ i ∧ i < m) := by omega
    simp only [getElem?_passed, getElem?_nearPassed, hiv, Option.map_some, if_neg hnear,
      if_pos (And.intro hi hin)] at hw
    cases hw
    exact tapers_raiseToward hv _ v

/-! ## The whole account -/

/-- A pass is skipped, or it gives what it has worked out if that is anything new. -/
theorem smooth_eq (s : SmootherSettings) (values : List Nat) (start expected : Nat)
    (boundary : Option Nat) (previous : Option Blend) :
    s.smooth values start expected boundary previous =
      let e := limit boundary values.length
      let m := s.nearEnd start e
      let n := s.farEnd start e
      if s.enabled = false ∨ (previous.any fun r => r.start = start ∧ r.expected = expected) ∨
          e ≤ start ∨ s.passed expected start m n values = values then none
      else some {
        congestion := s.passed expected start m n values
        record := {
          start, length := n - start, expected
          reported := ((values.drop start).take (n - start)).mapIdx fun k v =>
            Blend.reportedAt previous (start + k) v }
        nearBand := s.firstBand expected start m values } := by
  simp only [limit_eq]
  unfold smooth
  cases s.enabled with
  | false => simp
  | true =>
    simp only [Bool.not_true, Bool.false_eq_true, ↓reduceIte, Bool.true_eq_false, false_or]
    split
    · rename_i h
      rw [if_pos (.inl h)]
    · rename_i hrepeated
      split
      · rename_i h
        rw [if_pos (.inr (.inl h))]
      · rename_i hroom
        split
        · rename_i h
          rw [if_pos (.inr (.inr h))]
        · rename_i hchanged
          rw [if_neg]
          · rfl
          · rintro (h | h | h)
            · exact hrepeated h
            · exact hroom h
            · exact hchanged h

theorem start_le_nearEnd {e : Nat} (h : start ≤ e) : start ≤ s.nearEnd start e :=
  Nat.le_min.mpr ⟨Nat.le_add_right _ _, h⟩

theorem nearEnd_le_farEnd (s : SmootherSettings) (start e : Nat) :
    s.nearEnd start e ≤ s.farEnd start e :=
  Nat.le_min.mpr ⟨Nat.le_add_right _ _, Nat.min_le_right _ _⟩

theorem farEnd_le (s : SmootherSettings) (start e : Nat) : s.farEnd start e ≤ e :=
  Nat.min_le_right _ _

theorem limit_le (boundary : Option Nat) (length : Nat) : limit boundary length ≤ length := by
  rw [limit_eq]
  exact Nat.min_le_right _ _

/-- With room, what a pass works out within its windows is what becomes of the values. -/
theorem meets_of_room (hv : s.thresholds.Valid) {e : Nat} (hle : e ≤ values.length)
    (hroom : start < e) (expected : Nat) :
    s.Meets expected start (s.nearEnd start e) (s.farEnd start e) values
      (s.passed expected start (s.nearEnd start e) (s.farEnd start e) values)
      (s.firstBand expected start (s.nearEnd start e) values) :=
  meets_passed hv (Nat.lt_of_lt_of_le hroom hle) (start_le_nearEnd (Nat.le_of_lt hroom))
    (s.nearEnd_le_farEnd start e)

/-- The record covers a stretch within the values. -/
theorem length_reported (previous : Option Blend) {values : List Nat} {start n : Nat}
    (hn : n ≤ values.length) :
    (((values.drop start).take (n - start)).mapIdx fun k v =>
      Blend.reportedAt previous (start + k) v).length = n - start := by
  rw [List.length_mapIdx, List.length_take, List.length_drop]
  exact Nat.min_eq_left (Nat.sub_le_sub_right hn start)

/-- The values that the route reports, over a stretch within the values. -/
theorem getElem?_reported (previous : Option Blend) {values : List Nat} {start n k : Nat}
    (hk : k < n - start) :
    (((values.drop start).take (n - start)).mapIdx fun k v =>
      Blend.reportedAt previous (start + k) v)[k]? =
      values[start + k]?.map (Blend.reportedAt previous (start + k)) := by
  rw [List.getElem?_mapIdx, List.getElem?_take_of_lt hk, List.getElem?_drop]

/-- **A pass over values with valid thresholds gives what becomes of them: each value of the near
window goes to the estimate, stays or rises by a band, each one of the far window stays or rises to a
band below that of the first value, and no other one changes. Its record covers the two windows. It
gives nothing only when it is off, repeated or without room, or when no value would change.** -/
theorem smooth_meets_windows (hv : s.thresholds.validate = .ok ()) (values : List Nat)
    (start expected : Nat) (boundary : Option Nat) (previous : Option Blend) :
    let e := limit boundary values.length
    let m := s.nearEnd start e
    let n := s.farEnd start e
    (∀ out, s.smooth values start expected boundary previous = some out →
      start < e ∧ s.Meets expected start m n values out.congestion out.nearBand ∧
      (∀ i v w : Nat, values[i]? = some v → out.congestion[i]? = some w →
        s.thresholds.bandOf v ≤ s.thresholds.bandOf w ∧
        (s.thresholds.bandOf w).weight ≤ (s.thresholds.bandOf v).weight + 1) ∧
      out.record.start = start ∧ out.record.start + out.record.length = n ∧
      out.record.expected = expected ∧ out.record.reported.length = out.record.length ∧
      ∀ k < out.record.length, out.record.reported[k]? =
        values[start + k]?.map (Blend.reportedAt previous (start + k))) ∧
    (s.smooth values start expected boundary previous = none ↔
      s.enabled = false ∨ (previous.any fun r => r.start = start ∧ r.expected = expected) ∨
      e ≤ start ∨ ∃ band, s.Meets expected start m n values values band) := by
  intro e m n
  have hvalid := Thresholds.validate_eq_ok.mp hv
  have hle : e ≤ values.length := limit_le boundary values.length
  have hmeets (h : start < e) := meets_of_room hvalid hle h expected
  rw [smooth_eq]
  refine ⟨fun out hout => ?_, ?_⟩
  · simp only at hout
    split at hout
    · cases hout
    · rename_i hnot
      cases hout
      simp only [not_or] at hnot
      obtain ⟨-, -, hroom, -⟩ := hnot
      have hroom : start < e := Nat.not_le.mp hroom
      have hn : start ≤ n :=
        Nat.le_trans (start_le_nearEnd (Nat.le_of_lt hroom)) (s.nearEnd_le_farEnd start e)
      have hlen : n ≤ values.length := Nat.le_trans (s.farEnd_le start e) hle
      exact ⟨hroom, hmeets hroom, fun i v w => (hmeets hroom).climbs hvalid, rfl,
        Nat.add_sub_cancel' hn, rfl, length_reported previous hlen,
        fun k => getElem?_reported previous⟩
  · simp only [ite_eq_left_iff, reduceCtorEq, imp_false, Classical.not_not]
    by_cases hroom : e ≤ start
    · exact ⟨fun _ => .inr (.inr (.inl hroom)), fun _ => .inr (.inr (.inl hroom))⟩
    · -- What becomes of the values is what is worked out, and leaves no choice.
      have hsame := (hmeets (Nat.not_le.mp hroom)).eq_iff hvalid
      exact or_congr_right (or_congr_right (or_congr_right hsame))

/-- One segment near, two far. -/
def tapering : SmootherSettings := { near := 1, far := 2 }

/-- With an exit at 4, a severe estimate raises the near segment by one band, to heavy, and of the
two far ones only the light segment, since moderate is the band below. -/
theorem smooth_meets_windows_at_exit :
    tapering.thresholds.validate = .ok () ∧
    (tapering.smooth [10, 50, 5, 45, 5, 5] 1 90 (some 4) none).map
      (fun out => (out.congestion, out.record.start, out.record.length, out.nearBand)) =
      some ([10, 60, 40, 45, 5, 5], 1, 3, .heavy) ∧
    tapering.Meets 90 1 2 4 [10, 50, 5, 45, 5, 5] [10, 60, 40, 45, 5, 5] .heavy := by
  refine ⟨rfl, rfl, ?_⟩
  obtain ⟨h, -⟩ := smooth_meets_windows (s := tapering) rfl [10, 50, 5, 45, 5, 5] 1 90 (some 4) none
  obtain ⟨-, hmeets, -⟩ := h _ rfl
  exact hmeets

end LiveTrip.SmootherSettings
