import LiveTrip.Proofs.Session.Working

/-!
# What smoothing does to a session

A report has the congestion ahead smoothed before it is told. All that this changes of what the
session knows is one leg of one of its routes, and only if the pass changes a value of that.

* `Trip.outlook_of_blended`, `Trip.outlook_of_not`: a pass that counts has changed the congestion of
  the leg, and any other leaves the leg as it is.
* `Trip.pass?`: the leg that a report changes. `Trip.smoothed`: the routes after it.
* `Trip.smoothed_eq_iff`: the congestion of the routes tells whether there was a pass that counts.
* `Trip.facts_progress`, `Trip.facts_report`, `Trip.counters_progress`: what a report does to facts
  and counters.
-/

namespace LiveTrip

/-- The congestion of each leg. -/
def Route.congestion (r : Route) : List (List Nat) := r.legs.map (·.congestion)

namespace SmootherSettings

variable {s : SmootherSettings} {start expected : Nat}

/-- A pass that changes nothing is none. -/
theorem congestion_of_smooth {current : List Nat} {boundary : Option Nat} {previous : Option Blend}
    {out : Smoothing} (h : s.smooth current start expected boundary previous = some out) :
    out.congestion ≠ current := by
  simp only [smooth] at h
  split at h
  · cases h
  · split at h
    · cases h
    · split at h
      · cases h
      · split at h
        · cases h
        · cases h
          assumption

end SmootherSettings

namespace Trip

variable {s : SmootherSettings} {signal : Signal} {leg : Leg} {start : Nat}

/-- A pass that counts has changed the congestion. -/
theorem outlook_of_blended (h : (outlook s signal leg start).blended = true) :
    (outlook s signal leg start).leg.congestion ≠ leg.congestion := by
  unfold outlook at h ⊢
  simp only at h ⊢
  split at h
  · split at h
    · unfold SmootherSettings.apply at h ⊢
      split at h
      · rename_i hlive _ _ hvalue _ out hout
        simp only [hlive, hvalue, ↓reduceIte]
        exact SmootherSettings.congestion_of_smooth hout
      · cases h
    · cases h
  · cases h

/-- Any other leaves the leg as it is. -/
theorem outlook_of_not (h : (outlook s signal leg start).blended = false) :
    (outlook s signal leg start).leg = leg := by
  unfold outlook at h ⊢
  simp only at h ⊢
  split at h
  · rename_i hlive
    simp only [hlive, ↓reduceIte]
    split at h
    · unfold SmootherSettings.apply at h ⊢
      split at h
      · cases h
      · rfl
    · rfl
  · rename_i hlive
    simp only [hlive, Bool.false_eq_true, ↓reduceIte]

variable {t : Trip} {report : ProgressReport}

/-- The leg that a report changes, with the number of its route: the leg as the pass leaves it. -/
def pass? (t : Trip) (report : ProgressReport) : Option (Nat × Leg) :=
  (t.facts.routes.findIdx? (·.id = report.route)).bind fun i =>
    ((t.facts.routes[i]?).bind (·.legs[report.leg]?)).bind fun leg =>
      let o := outlook t.settings.smoother t.signal leg report.segment
      if o.blended then some (i, o.leg) else none

/-- The report is of an active route. -/
def isActive (t : Trip) (report : ProgressReport) : Bool :=
  (t.facts.routes.findIdx? (·.id = report.route)).isSome

/-- The routes with one leg of one of them replaced. -/
def withLeg (routes : List Route) (i n : Nat) (leg : Leg) : List Route :=
  routes.modify i fun r => { r with legs := r.legs.set n leg }

/-- The routes after a report. -/
def smoothed (t : Trip) (report : ProgressReport) : List Route :=
  match t.pass? report with
  | some (i, leg) => withLeg t.facts.routes i report.leg leg
  | none => t.facts.routes

theorem withLeg_self {routes : List Route} {i n : Nat} {leg : Leg}
    (h : (routes[i]?).bind (·.legs[n]?) = some leg) : withLeg routes i n leg = routes := by
  refine List.ext_getElem? fun j => ?_
  rw [withLeg, List.getElem?_modify]
  by_cases hj : i = j
  · subst hj
    obtain ⟨r, hr, hn⟩ := Option.bind_eq_some_iff.mp h
    obtain ⟨hlt, rfl⟩ := List.getElem?_eq_some_iff.mp hn
    simp only [hr, ↓reduceIte, Option.map_eq_map, Option.map_some, List.set_getElem_self]
  · simp [hj]

/-- A leg with other congestion makes for routes with other congestion. -/
theorem congestion_withLeg {routes : List Route} {i n : Nat} {leg leg' : Leg}
    (h : (routes[i]?).bind (·.legs[n]?) = some leg) (hc : leg'.congestion ≠ leg.congestion) :
    (withLeg routes i n leg').map Route.congestion ≠ routes.map Route.congestion := by
  intro heq
  obtain ⟨r, hr, hn⟩ := Option.bind_eq_some_iff.mp h
  obtain ⟨hlt, -⟩ := List.getElem?_eq_some_iff.mp hn
  have hroute := congrArg (·[i]?) heq
  simp only [withLeg, List.getElem?_map, List.getElem?_modify, hr, ↓reduceIte, Option.map_eq_map,
    Option.map_some, Option.some.injEq] at hroute
  have hleg := congrArg (·[n]?) hroute
  simp only [Route.congestion, List.getElem?_map, hn, Option.map_some,
    List.getElem?_set_self hlt, Option.some.injEq] at hleg
  exact hc hleg

/-- **There was a pass that counts just if the congestion of the routes has changed.** -/
theorem smoothed_eq_iff :
    (t.smoothed report).map Route.congestion = t.facts.routes.map Route.congestion ↔
      t.pass? report = none := by
  constructor
  · intro heq
    cases hp : t.pass? report with
    | none => rfl
    | some p =>
      obtain ⟨i, leg'⟩ := p
      simp only [smoothed, hp] at heq
      obtain ⟨j, -, hp⟩ := Option.bind_eq_some_iff.mp hp
      obtain ⟨leg, hleg, hp⟩ := Option.bind_eq_some_iff.mp hp
      simp only [Option.ite_none_right_eq_some, Option.some.injEq, Prod.mk.injEq] at hp
      obtain ⟨hblended, rfl, rfl⟩ := hp
      exact absurd heq (congestion_withLeg hleg (outlook_of_blended hblended))
  · intro hp
    simp only [smoothed, hp]

/-! ## What a report does -/

/-- **Of what the session knows, a report changes the routes, by its pass.** -/
theorem facts_progress (t : Trip) (report : ProgressReport) (how : Tracking) :
    (t.progress report how).1.facts = { t.facts with routes := t.smoothed report } := by
  unfold progress smoothed pass?
  cases hi : t.facts.routes.findIdx? (·.id = report.route) with
  | none => rfl
  | some i =>
    cases hleg : (t.facts.routes[i]?).bind (·.legs[report.leg]?) with
    | none => simp only [Option.bind_some, hleg, Option.bind_none]
    | some leg =>
      simp only [Option.bind_some, hleg]
      cases hb : (outlook t.settings.smoother t.signal leg report.segment).blended with
      | true =>
        simp only [↓reduceIte]
        split <;> rfl
      | false =>
        have hself := withLeg_self hleg
        simp only [Bool.false_eq_true, ↓reduceIte, outlook_of_not hb]
        split <;> exact congrArg (fun routes => { t.facts with routes }) hself

theorem facts_report (t : Trip) (k : Tick) (s : Status) :
    (t.run (.report k s)).facts =
      { t.facts with routes := s.progress.elim t.facts.routes t.smoothed } := by
  have h := reports t k s
  generalize t.run (.report k s) = u at h ⊢
  cases h with
  | nothing none => rw [none]; rfl
  | unknown report known | stale report _ known | tells report _ known =>
    rw [known]
    exact facts_progress t report s.tracking

/-- A report is counted if its pass does. -/
theorem counters_progress (t : Trip) (report : ProgressReport) (how : Tracking) :
    (t.progress report how).1.counters =
      if (t.pass? report).isSome then { t.counters with blends := t.counters.blends + 1 }
      else t.counters := by
  unfold progress pass?
  cases hi : t.facts.routes.findIdx? (·.id = report.route) with
  | none => rfl
  | some i =>
    cases hleg : (t.facts.routes[i]?).bind (·.legs[report.leg]?) with
    | none => simp only [Option.bind_some, hleg]; rfl
    | some leg =>
      simp only [Option.bind_some, hleg]
      cases hb : (outlook t.settings.smoother t.signal leg report.segment).blended with
      | true =>
        simp only [↓reduceIte]
        split <;> rfl
      | false =>
        simp only [Bool.false_eq_true, ↓reduceIte]
        split <;> rfl

/-- There is progress along an active route. -/
theorem isSome_progress (t : Trip) (report : ProgressReport) (how : Tracking) :
    (t.progress report how).2.isSome = t.isActive report := by
  unfold progress isActive
  split
  · rename_i hi
    rw [hi]
    rfl
  · rename_i i hi
    rw [hi]
    split <;> rfl

end Trip
end LiveTrip
