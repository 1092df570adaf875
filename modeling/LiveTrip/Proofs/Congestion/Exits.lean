import Mathlib.Order.Bounds.Basic
import LiveTrip.Proofs.Congestion.Records

/-!
# Exits and the road in effect

* `Leg.InEffect`: the class of the road in effect at a segment, as a property of the crossings up to
  there. `Leg.Confined` and `Leg.Open`: that road is access-controlled, or is not.
* `Leg.Ordered`, `Leg.Agreeing`: the crossings are in order, and those at one place agree on whether
  the route goes on along an access-controlled road.
* `Leg.exitAfter_eq_some_iff`: on ordered legs, the exit is the first crossing ahead that opens.
* `Leg.exitAfter_marks_open_road`: on ordered legs whose crossings agree, that is where the road in
  effect first is open; and on all ordered legs a pass changes nothing from there on.
-/

namespace LiveTrip.Leg

variable {leg : Leg} {i j : Nat} {c d : RoadClass}

/-- The road in effect at `i` is of class `c`: so it is from the last crossing at or before `i` of
which the class is known. -/
def InEffect (leg : Leg) (i : Nat) (c : RoadClass) : Prop :=
  ∃ before x after, leg.crossings = before ++ x :: after ∧ x.index ≤ i ∧ x.roadClass = some c ∧
    ∀ y ∈ after, y.index ≤ i → y.roadClass = none

/-- The road in effect at `i` is access-controlled. -/
def Confined (leg : Leg) (i : Nat) : Prop := ∃ c, leg.InEffect i c ∧ c.accessControlled = true

/-- There is a road in effect at `i`, and it is not access-controlled. -/
def Open (leg : Leg) (i : Nat) : Prop := ∃ c, leg.InEffect i c ∧ c.accessControlled = false

/-- The crossings come in the order of their places. -/
def Ordered (leg : Leg) : Prop := leg.crossings.Pairwise fun x y => x.index ≤ y.index

/-- Crossings at one place, as far as their classes are known, go on along access-controlled roads
all of them or none. -/
def Agreeing (leg : Leg) : Prop :=
  ∀ x ∈ leg.crossings, ∀ y ∈ leg.crossings, x.index = y.index →
    ∀ c ∈ x.roadClass, ∀ d ∈ y.roadClass, c.accessControlled = d.accessControlled

/-- From `j` on, some crossing has the route go on along a road that is not access-controlled. -/
def OpensAt (leg : Leg) (j : Nat) : Prop :=
  ∃ x ∈ leg.crossings, x.index = j ∧ ∃ c, x.roadClass = some c ∧ c.accessControlled = false

/-! ## The road in effect -/

/-- What is computed as the road in effect is the road in effect. -/
theorem classAt_eq_some_iff : leg.classAt i = some c ↔ leg.InEffect i c := by
  unfold classAt InEffect
  rw [List.filterMap_filter, List.getLast?_eq_some_iff]
  constructor
  · rintro ⟨earlier, h⟩
    obtain ⟨front, back, hsplit, -, hback⟩ := List.filterMap_eq_append_iff.mp h
    obtain ⟨skipped, x, after, rfl, -, hx, hafter⟩ := List.filterMap_eq_cons_iff.mp hback
    have hle : x.index ≤ i := by
      by_contra hgt
      simp [hgt] at hx
    refine ⟨front ++ skipped, x, after, by rw [hsplit, List.append_assoc], hle,
      by simpa [hle] using hx, fun y hy hyi => ?_⟩
    simpa [hyi] using List.filterMap_eq_nil_iff.mp hafter y hy
  · rintro ⟨before, x, after, hsplit, hle, hx, hafter⟩
    have hnone : ∀ y ∈ after, (if decide (y.index ≤ i) = true then y.roadClass else none) = none := by
      intro y hy
      by_cases hyi : y.index ≤ i
      · simpa [hyi] using hafter y hy hyi
      · simp [hyi]
    refine ⟨before.filterMap fun y => if decide (y.index ≤ i) = true then y.roadClass else none, ?_⟩
    rw [hsplit, List.filterMap_append, List.filterMap_cons_some (by simpa [hle] using hx),
      List.filterMap_eq_nil_iff.mpr hnone]

theorem InEffect.unique (h : leg.InEffect i c) (h' : leg.InEffect i d) : c = d :=
  Option.some.inj ((classAt_eq_some_iff.mpr h).symm.trans (classAt_eq_some_iff.mpr h'))

/-- Past a crossing whose class is known, there is a road in effect. -/
theorem exists_inEffect {x : Intersection} (hx : x ∈ leg.crossings) (hi : x.index ≤ i)
    (hc : x.roadClass = some c) : ∃ d, leg.InEffect i d := by
  cases h : leg.classAt i with
  | some d => exact ⟨d, classAt_eq_some_iff.mp h⟩
  | none =>
    rw [classAt, List.getLast?_eq_none_iff, List.filterMap_eq_nil_iff] at h
    have hnone := h x (List.mem_filter.mpr ⟨hx, by simpa using hi⟩)
    rw [hc] at hnone
    cases hnone

theorem Confined.not_open (h : leg.Confined i) : ¬ leg.Open i := by
  obtain ⟨c, hc, hconfined⟩ := h
  rintro ⟨d, hd, hopen⟩
  rw [hc.unique hd, hopen] at hconfined
  cases hconfined

/-- Between a confined road and an open one, there is a crossing that opens. -/
theorem Open.exists_opensAt (hj : leg.Open j) (hi : leg.Confined i) (hij : i < j) :
    ∃ k, i < k ∧ k ≤ j ∧ leg.OpensAt k := by
  obtain ⟨c, ⟨before, x, after, hsplit, hxj, hx, hafter⟩, hopen⟩ := hj
  have hmem : x ∈ leg.crossings := hsplit ▸ List.mem_append_right _ List.mem_cons_self
  refine ⟨x.index, Nat.lt_of_not_le fun hxi => hi.not_open ?_, hxj, x, hmem, rfl, c, hx, hopen⟩
  -- At or before `i`, it would set the road in effect there too.
  exact ⟨c, ⟨before, x, after, hsplit, hxi, hx,
    fun y hy hyi => hafter y hy (Nat.le_trans hyi (Nat.le_of_lt hij))⟩, hopen⟩

/-- Where a crossing opens and the others at its place agree with it, the road in effect is open. -/
theorem OpensAt.isOpen (hordered : leg.Ordered) (hagreeing : leg.Agreeing) (h : leg.OpensAt j) :
    leg.Open j := by
  obtain ⟨x, hx, rfl, c, hc, hopen⟩ := h
  obtain ⟨d, hd⟩ := exists_inEffect hx (Nat.le_refl _) hc
  refine ⟨d, hd, ?_⟩
  obtain ⟨before, y, after, hsplit, hyx, hy, hafter⟩ := hd
  have hmem : y ∈ leg.crossings := hsplit ▸ List.mem_append_right _ List.mem_cons_self
  -- The crossing that sets the road in effect is at the same place.
  have hplace : x.index ≤ y.index := by
    unfold Ordered at hordered
    rw [hsplit] at hx hordered
    rcases List.mem_append.mp hx with hx | hx
    · exact (List.pairwise_append.mp hordered).2.2 x hx y List.mem_cons_self
    · rcases List.mem_cons.mp hx with rfl | hx
      · exact Nat.le_refl _
      · rw [hafter x hx (Nat.le_refl _)] at hc
        cases hc
  rw [← hagreeing x hx y hmem (Nat.le_antisymm hplace hyx) c hc d hy, hopen]

/-! ## The exit -/

/-- The crossing is ahead of `i`, and the route goes on from it along a road that is known not to be
access-controlled. -/
def opensAfter (i : Nat) (x : Intersection) : Bool :=
  i < x.index && x.roadClass.any (!·.accessControlled)

theorem opensAfter_iff {x : Intersection} : opensAfter i x = true ↔
    i < x.index ∧ ∃ c, x.roadClass = some c ∧ c.accessControlled = false := by
  unfold opensAfter
  cases x.roadClass <;> simp

theorem exitAfter_of_confined (h : leg.Confined i) :
    leg.exitAfter i = (leg.crossings.find? (opensAfter i)).map (·.index) := by
  obtain ⟨c, hc, hconfined⟩ := h
  simp only [exitAfter, classAt_eq_some_iff.mpr hc, hconfined, ↓reduceIte]
  rfl

/-- Only a confined road has an exit. -/
theorem exitAfter_of_not_confined (h : ¬ leg.Confined i) : leg.exitAfter i = none := by
  unfold exitAfter
  split
  · rename_i c hc
    exact if_neg fun hconfined => h ⟨c, classAt_eq_some_iff.mp hc, hconfined⟩
  · rfl

/-- The crossing that is found first comes first. -/
theorem isLeast_of_find? (hordered : leg.Ordered) {x : Intersection}
    (h : leg.crossings.find? (opensAfter i) = some x) :
    IsLeast {j | i < j ∧ leg.OpensAt j} x.index := by
  obtain ⟨hx, before, after, hsplit, hbefore⟩ := List.find?_eq_some_iff_append.mp h
  obtain ⟨hix, hopens⟩ := opensAfter_iff.mp hx
  refine ⟨⟨hix, x, hsplit ▸ List.mem_append_right _ List.mem_cons_self, rfl, hopens⟩, ?_⟩
  rintro _ ⟨hiy, y, hy, rfl, hyopens⟩
  unfold Ordered at hordered
  rw [hsplit] at hy hordered
  rcases List.mem_append.mp hy with hy | hy
  · -- It would have been found before.
    have hpassed := hbefore y hy
    rw [opensAfter_iff.mpr ⟨hiy, hyopens⟩] at hpassed
    cases hpassed
  · rcases List.mem_cons.mp hy with rfl | hy
    · exact Nat.le_refl _
    · exact (List.pairwise_cons.mp (List.pairwise_append.mp hordered).2.1).1 y hy

/-- On an ordered leg, the exit from a confined road is where a crossing ahead first opens. -/
theorem exitAfter_eq_some_iff (hordered : leg.Ordered) {exit : Nat} :
    leg.exitAfter i = some exit ↔ leg.Confined i ∧ IsLeast {j | i < j ∧ leg.OpensAt j} exit := by
  by_cases hi : leg.Confined i
  · rw [exitAfter_of_confined hi]
    cases h : leg.crossings.find? (opensAfter i) with
    | some x =>
      have hleast := isLeast_of_find? hordered h
      simp only [Option.map_some, Option.some.injEq, hi, true_and]
      exact ⟨fun hexit => hexit ▸ hleast, fun hexit => hleast.unique hexit⟩
    | none =>
      refine iff_of_false (by simp) fun ⟨_, ⟨hlt, x, hx, hxe, hopens⟩, _⟩ => ?_
      exact List.find?_eq_none.mp h x hx (opensAfter_iff.mpr ⟨hxe ▸ hlt, hopens⟩)
  · rw [exitAfter_of_not_confined hi]
    exact iff_of_false (by simp) fun h => hi h.1

/-- Where crossings agree, a crossing first opens where the road in effect first is open. -/
theorem isLeast_opensAt_iff (hordered : leg.Ordered) (hagreeing : leg.Agreeing)
    (hi : leg.Confined i) {exit : Nat} :
    IsLeast {j | i < j ∧ leg.OpensAt j} exit ↔ IsLeast {j | i < j ∧ leg.Open j} exit := by
  constructor
  · rintro ⟨⟨hlt, hopens⟩, hleast⟩
    refine ⟨⟨hlt, hopens.isOpen hordered hagreeing⟩, fun j ⟨hij, hj⟩ => ?_⟩
    obtain ⟨k, hik, hkj, hk⟩ := hj.exists_opensAt hi hij
    exact Nat.le_trans (hleast ⟨hik, hk⟩) hkj
  · rintro ⟨⟨hlt, hopen⟩, hleast⟩
    obtain ⟨k, hik, hke, hk⟩ := hopen.exists_opensAt hi hlt
    have hek := hleast ⟨hik, hk.isOpen hordered hagreeing⟩
    obtain rfl := Nat.le_antisymm hke hek
    exact ⟨⟨hik, hk⟩, fun j ⟨hij, hj⟩ => hleast ⟨hij, hj.isOpen hordered hagreeing⟩⟩

/-- An open road ahead of a confined one lies behind the exit. -/
theorem exists_exitAfter (hordered : leg.Ordered) (hi : leg.Confined i) (hj : leg.Open j)
    (hij : i < j) : ∃ exit, leg.exitAfter i = some exit ∧ exit ≤ j := by
  obtain ⟨k, hik, hkj, hk⟩ := hj.exists_opensAt hi hij
  cases h : leg.crossings.find? (opensAfter i) with
  | some x =>
    refine ⟨x.index, by rw [exitAfter_of_confined hi, h]; rfl, ?_⟩
    exact Nat.le_trans ((isLeast_of_find? hordered h).2 ⟨hik, hk⟩) hkj
  | none =>
    obtain ⟨x, hx, rfl, hopens⟩ := hk
    exact absurd (opensAfter_iff.mpr ⟨hik, hopens⟩) (List.find?_eq_none.mp h x hx)

/-! ## What a pass leaves alone -/

/-- A pass changes nothing from the exit on. -/
theorem unchanged_from_exit (s : SmootherSettings) {start exit : Nat}
    (hexit : leg.exitAfter start = some exit) (expected : Nat) (hi : exit ≤ i) :
    (s.apply leg start expected).1.congestion[i]? = leg.congestion[i]? := by
  rcases s.apply_outcome leg start expected with h | ⟨after, r, hchanges, h⟩
  · rw [h]
  · rw [h]
    have hend := hchanges.ends ▸ SmootherSettings.windowEnd_le_exit hexit
    exact hchanges.elsewhere i fun hcovers => Nat.not_lt.mpr (Nat.le_trans hend hi) hcovers.2

/-- **Let the crossings of a leg be in order. If those at one place agree, the exit is where the road
in effect first is open after an access-controlled one, and there is none in any other case. Whether
they agree or not, a pass that starts on an access-controlled road changes no segment where an open
road is in effect, or has been on the way.** -/
theorem exitAfter_marks_open_road (hordered : leg.Ordered) :
    (leg.Agreeing → ∀ i, (∀ exit, leg.exitAfter i = some exit ↔
        leg.Confined i ∧ IsLeast {j | i < j ∧ leg.Open j} exit) ∧
      (leg.exitAfter i = none ↔ (leg.Confined i → ∀ j, i < j → ¬ leg.Open j))) ∧
    ∀ (s : SmootherSettings) (start expected i j : Nat), leg.Confined start → start < j → j ≤ i →
      leg.Open j → (s.apply leg start expected).1.congestion[i]? = leg.congestion[i]? := by
  refine ⟨fun hagreeing i => ⟨fun exit => ?_, ?_, ?_⟩, ?_⟩
  · rw [exitAfter_eq_some_iff hordered]
    exact and_congr_right fun hi => isLeast_opensAt_iff hordered hagreeing hi
  · intro hnone hi j hij hj
    obtain ⟨exit, hexit, -⟩ := exists_exitAfter hordered hi hj hij
    rw [hnone] at hexit
    cases hexit
  · intro hnever
    cases hexit : leg.exitAfter i with
    | none => rfl
    | some exit =>
      obtain ⟨hi, ⟨hlt, hopens⟩, -⟩ := (exitAfter_eq_some_iff hordered).mp hexit
      exact absurd (hopens.isOpen hordered hagreeing) (hnever hi exit hlt)
  · intro s start expected i j hstart hlt hji hj
    obtain ⟨exit, hexit, hle⟩ := exists_exitAfter hordered hstart hj hlt
    exact unchanged_from_exit s hexit expected (Nat.le_trans hle hji)

/-- A leg that goes from a motorway by way of a trunk road to a street and back. The class of one
crossing on the way is not known. -/
def throughTown : Leg where
  congestion := [10, 10, 10, 10, 10, 10, 10]
  steps := [
    { intersections := [⟨0, some .motorway⟩, ⟨1, none⟩, ⟨2, some .trunk⟩] },
    { intersections := [⟨4, none⟩, ⟨4, some .street⟩, ⟨4, some .primary⟩, ⟨6, some .motorway⟩] }]

/-- From the motorway, the exit is at the street, and a pass from the motorway changes nothing from
there on, the motorway beyond included. -/
theorem exitAfter_marks_open_road_through_town :
    throughTown.Ordered ∧ throughTown.Agreeing ∧ throughTown.Confined 1 ∧ throughTown.Open 4 ∧
    throughTown.Confined 6 ∧ IsLeast {j | 1 < j ∧ throughTown.Open j} 4 ∧
    ∀ (s : SmootherSettings) (expected : Nat),
      (s.apply throughTown 1 expected).1.congestion[6]? = some 10 := by
  have hordered : throughTown.Ordered := by
    unfold Ordered
    decide
  have hagreeing : throughTown.Agreeing := by
    unfold Agreeing
    decide
  have hstart : throughTown.Confined 1 := ⟨.motorway, classAt_eq_some_iff.mp rfl, rfl⟩
  have hopen : throughTown.Open 4 := ⟨.primary, classAt_eq_some_iff.mp rfl, rfl⟩
  have hbeyond : throughTown.Confined 6 := ⟨.motorway, classAt_eq_some_iff.mp rfl, rfl⟩
  obtain ⟨hexits, hunchanged⟩ := exitAfter_marks_open_road hordered
  have hexit : throughTown.exitAfter 1 = some 4 := rfl
  refine ⟨hordered, hagreeing, hstart, hopen, hbeyond, (((hexits hagreeing 1).1 4).mp hexit).2, ?_⟩
  intro s expected
  exact hunchanged s 1 expected 6 4 hstart (by decide) (by decide) hopen

end LiveTrip.Leg
