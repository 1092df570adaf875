import LiveTrip.Proofs.Congestion.Exits
import LiveTrip.Proofs.Session.EngineRoutes

/-!
# The parts of a status fit together

The simulated engine looks for the segment nearest to its fix and takes the indices that come out
into other lists: the legs, their steps, the crossings. Distances only choose between segments that
exist, so none of this depends on what they compare to.

* `Route.HasPlace`, `Route.project?_hasPlace`: what the search finds is on the route.
* `Route.project?_eq_none_iff`: it finds something on every route that has a segment.
* `Leg.StepInEffect`, `Leg.stepAt_eq_iff`: the step in effect at a segment, by what it means.
* `Status.Follows`: the parts of a status say the same of one place on a route.
* `Simulated.status_consistent`: the routes that are refused, and what a status says.
-/

namespace LiveTrip

/-! ## The search -/

theorem Leg.length_pairs (points : List Point) : (pairs points).length = points.length - 1 := by
  fun_induction pairs points with
  | case1 a b rest ih => simpa using ih
  | case2 points hshort =>
    match points with
    | [] => rfl
    | [_] => rfl
    | a :: b :: rest => exact absurd rfl (hshort a b rest)

namespace Route

variable {route : Route} {p : Point} {q : Projection} {best : Option Projection} {n i : Nat}
  {start : Float}

/-- The place is on a segment of the route. -/
def HasPlace (route : Route) (q : Projection) : Prop :=
  ∃ leg, route.legs[q.leg]? = some leg ∧ q.segment < leg.segmentCount

/-- The nearer of two places is one of them, whatever the distances compare to. -/
theorem nearer_source {next : Projection} (h : nearer best next = some q) :
    best = some q ∨ next = q := by
  cases best with
  | none => exact .inr (Option.some.inj h)
  | some b =>
    simp only [nearer] at h
    split at h
    · exact .inr (Option.some.inj h)
    · exact .inl h

theorem nearer_ne_none (best : Option Projection) (next : Projection) :
    nearer best next ≠ none := by
  cases best with
  | none => exact Option.some_ne_none next
  | some b =>
    simp only [nearer]
    split <;> exact Option.some_ne_none _

/-- What is found on a leg was found before, or is on one of the segments that are searched. -/
theorem projectSegments_source {segments : List (Point × Point)}
    (h : projectSegments p n i start best segments = some q) :
    best = some q ∨ q.leg = n ∧ q.segment < i + segments.length := by
  induction segments generalizing i start best with
  | nil => exact .inl h
  | cons segment segments ih =>
    rw [List.length_cons]
    rcases ih h with hbest | ⟨hleg, hsegment⟩
    · rcases nearer_source hbest with hbest | rfl
      · exact .inl hbest
      · exact .inr ⟨rfl, by simp⟩
    · exact .inr ⟨hleg, by omega⟩

theorem projectSegments_eq_none_iff {segments : List (Point × Point)} :
    projectSegments p n i start best segments = none ↔ best = none ∧ segments = [] := by
  induction segments generalizing i start best with
  | nil => exact (and_iff_left rfl).symm
  | cons segment segments ih =>
    exact ih.trans (iff_of_false (fun h => nearer_ne_none _ _ h.1) (by simp))

/-- What is found on some legs was found before, or is on a segment of one of them. -/
theorem projectLegs_source {legs : List Leg} (h : projectLegs p n start best legs = some q) :
    best = some q ∨
      ∃ k leg, q.leg = n + k ∧ legs[k]? = some leg ∧ q.segment < leg.segmentCount := by
  induction legs generalizing n start best with
  | nil => exact .inl h
  | cons leg legs ih =>
    rcases ih h with hbest | ⟨k, later, hleg, hlater, hsegment⟩
    · rcases projectSegments_source hbest with hbest | ⟨hleg, hsegment⟩
      · exact .inl hbest
      · rw [Nat.zero_add, Leg.length_pairs] at hsegment
        exact .inr ⟨0, leg, hleg, rfl, hsegment⟩
    · exact .inr ⟨k + 1, later, by omega, hlater, hsegment⟩

theorem projectLegs_eq_none_iff {legs : List Leg} : projectLegs p n start best legs = none ↔
    best = none ∧ ∀ leg ∈ legs, leg.segmentCount = 0 := by
  induction legs generalizing n start best with
  | nil => simp [projectLegs]
  | cons leg legs ih =>
    rw [projectLegs, ih, projectSegments_eq_none_iff, ← List.length_eq_zero_iff, Leg.length_pairs,
      List.forall_mem_cons, and_assoc]
    rfl

/-- **What the search finds is on a segment of the route.** -/
theorem project?_hasPlace (h : route.project? p = some q) : route.HasPlace q := by
  rcases projectLegs_source h with hnone | ⟨k, leg, hk, hleg, hsegment⟩
  · cases hnone
  · rw [Nat.zero_add] at hk
    exact ⟨leg, hk ▸ hleg, hsegment⟩

/-- It finds nothing just where there is no segment. -/
theorem project?_eq_none_iff :
    route.project? p = none ↔ ∀ leg ∈ route.legs, leg.segmentCount = 0 :=
  projectLegs_eq_none_iff.trans (and_iff_right rfl)

/-- Some leg of the route has no segment. -/
def Broken (route : Route) : Prop := ∃ leg ∈ route.legs, leg.geometry.length < 2

end Route

/-! ## The step in effect -/

/-- The first crossing of the step is at or before `i`. -/
def Step.ReachedBy (s : Step) (i : Nat) : Prop :=
  ∃ x later, s.intersections = x :: later ∧ x.index ≤ i

namespace Leg

variable {leg : Leg} {i j k l : Nat}

/-- Where the steps are that are reached by `i`. -/
def reached (leg : Leg) (i : Nat) : Set Nat := {k | ∃ s, leg.steps[k]? = some s ∧ s.ReachedBy i}

/-- The step in effect at `i` is the last one that is reached there, and the first step where none
is. -/
def StepInEffect (leg : Leg) (i k : Nat) : Prop :=
  IsGreatest (leg.reached i) k ∨ leg.reached i = ∅ ∧ k = 0

theorem StepInEffect.unique (hk : leg.StepInEffect i k) (hl : leg.StepInEffect i l) : k = l := by
  rcases hk with hk | ⟨hk, rfl⟩ <;> rcases hl with hl | ⟨hl, rfl⟩
  · exact hk.unique hl
  · exact absurd hl (Set.nonempty_iff_ne_empty.mp ⟨k, hk.1⟩)
  · exact absurd hk (Set.nonempty_iff_ne_empty.mp ⟨l, hl.1⟩)
  · rfl

theorem reached_mono (h : i ≤ j) : leg.reached i ⊆ leg.reached j :=
  fun _ ⟨s, hs, x, later, hx, hi⟩ => ⟨s, hs, x, later, hx, Nat.le_trans hi h⟩

/-- Further along a leg, the step in effect is the same or a later one. -/
theorem StepInEffect.mono (hk : leg.StepInEffect i k) (hl : leg.StepInEffect j l) (h : i ≤ j) :
    k ≤ l := by
  rcases hk with hk | ⟨-, rfl⟩
  · have hkj := reached_mono h hk.1
    rcases hl with hl | ⟨hl, -⟩
    · exact hl.2 hkj
    · exact absurd hl (Set.nonempty_iff_ne_empty.mp ⟨k, hkj⟩)
  · exact Nat.zero_le l

theorem reachedBy_iff {s : Step} :
    s.intersections.head?.any (·.index ≤ i) = true ↔ s.ReachedBy i := by
  unfold Step.ReachedBy
  cases s.intersections <;> simp

/-- Where the last `true` of a list is. -/
theorem isGreatest_of_getLast? {flags : List Bool}
    (h : ((flags.zipIdx.filter (·.1)).map (·.2)).getLast? = some k) :
    IsGreatest {k | flags[k]? = some true} k := by
  induction flags using List.reverseRecOn with
  | nil => cases h
  | append_singleton flags b ih =>
    rw [List.zipIdx_append, List.filter_append, List.map_append] at h
    cases b with
    | true =>
      obtain rfl : flags.length = k := by simpa using h
      refine ⟨by simp, fun l hl => ?_⟩
      have hlt := (List.getElem?_eq_some_iff.mp hl).1
      simpa [Nat.lt_succ_iff] using hlt
    | false =>
      obtain ⟨hk, hgreatest⟩ := ih (by simpa using h)
      refine ⟨?_, fun l hl => hgreatest ?_⟩
      · exact (List.getElem?_append_left (List.getElem?_eq_some_iff.mp hk).1).trans hk
      · rcases Nat.lt_or_ge l flags.length with hlt | hge
        · exact (List.getElem?_append_left hlt).symm.trans hl
        · rw [Set.mem_ofPred_eq, List.getElem?_append_right hge] at hl
          have hfalse := List.mem_of_getElem? hl
          simp at hfalse

theorem reached_eq (leg : Leg) (i : Nat) : leg.reached i =
    {k | (leg.steps.map fun s => s.intersections.head?.any (·.index ≤ i))[k]? = some true} := by
  ext k
  simp only [reached, Set.mem_ofPred_eq, List.getElem?_map, Option.map_eq_some_iff, reachedBy_iff]

theorem stepInEffect_stepAt (leg : Leg) (i : Nat) :
    leg.StepInEffect i (Simulated.stepAt leg i) := by
  unfold StepInEffect
  rw [reached_eq]
  simp only [Simulated.stepAt]
  generalize leg.steps.map _ = flags
  cases h : ((flags.zipIdx.filter (·.1)).map (·.2)).getLast? with
  | some k => exact .inl (isGreatest_of_getLast? h)
  | none =>
    refine .inr ⟨Set.eq_empty_of_forall_notMem fun k hk => ?_, rfl⟩
    rw [List.getLast?_eq_none_iff, List.map_eq_nil_iff, List.filter_eq_nil_iff] at h
    exact h (true, k) (List.mem_zipIdx_iff_getElem?.mpr hk) rfl

/-- What is computed as the step in effect is the step in effect. -/
theorem stepAt_eq_iff : Simulated.stepAt leg i = k ↔ leg.StepInEffect i k :=
  ⟨fun h => h ▸ leg.stepInEffect_stepAt i, fun h => (leg.stepInEffect_stepAt i).unique h⟩

end Leg

/-! ## A status -/

/-- The texts of a step and of the one after it, as the cues at a place. -/
def Leg.Announces (leg : Leg) (report : ProgressReport) (cues : Cues) : Prop :=
  cues.route = report.route ∧ cues.leg = report.leg ∧ cues.step = report.step ∧
  (∀ text, cues.banner = some text ↔
    ∃ s, leg.steps[report.step]? = some s ∧ s.instruction = some text) ∧
  ∀ text, cues.voice = some text ↔
    ∃ s, leg.steps[report.step + 1]? = some s ∧ s.instruction = some text

/-- A status and its report are about one segment of a leg of a route: the report names them, and
the step in effect there. The road is the one in effect there, and the cues are the instructions of
that step and of the next one, if there are any. -/
structure Status.Follows (s : Status) (route : Route) (leg : Leg) (report : ProgressReport) :
    Prop where
  named : report.route = route.id
  onLeg : route.legs[report.leg]? = some leg
  onSegment : report.segment < leg.segmentCount
  inEffect : leg.StepInEffect report.segment report.step
  road : ∀ c, s.location.road.roadClass = some c ↔ leg.InEffect report.segment c
  announced : ∀ cues, s.cues = some cues → leg.Announces report cues
  silent : s.cues = none ↔ ∀ k, k = report.step ∨ k = report.step + 1 →
    ∀ step : Step, leg.steps[k]? = some step → step.instruction = none

namespace Simulated

variable {e : Simulated} {fix : Fix} {route : Route}

theorem announces_cuesAt (route : Route) (leg : Leg) (report : ProgressReport)
    (h : report.route = route.id) :
    leg.Announces report (cuesAt route leg report.leg report.step) :=
  ⟨h.symm, rfl, rfl, fun _ => Option.bind_eq_some_iff, fun _ => Option.bind_eq_some_iff⟩

theorem isEmpty_cuesAt (route : Route) (leg : Leg) (n step : Nat) :
    (cuesAt route leg n step).isEmpty = true ↔ ∀ k, k = step ∨ k = step + 1 →
      ∀ s, leg.steps[k]? = some s → s.instruction = none := by
  simp only [Cues.isEmpty, cuesAt, Bool.and_eq_true, Option.isNone_iff_eq_none,
    Option.bind_eq_none_iff, forall_eq_or_imp, forall_eq]

/-- The status for a place follows the route there. -/
theorem statusAt_follows (e : Simulated) (fix : Fix) {leg : Leg} {q : Projection}
    (hleg : route.legs[q.leg]? = some leg) (hsegment : q.segment < leg.segmentCount) :
    ∃ report, (e.statusAt route leg fix q).progress = some report ∧
      (e.statusAt route leg fix q).Follows route leg report := by
  refine ⟨_, rfl, rfl, hleg, hsegment, leg.stepInEffect_stepAt q.segment,
    fun _ => Leg.classAt_eq_some_iff, fun cues hcues => ?_, ?_⟩
  · obtain ⟨-, hcues⟩ := Option.ite_none_left_eq_some.mp hcues
    obtain rfl := Option.some.inj hcues
    exact announces_cuesAt route leg _ rfl
  · rw [← isEmpty_cuesAt route leg q.leg]
    exact ite_eq_left_iff.trans (by simp)

/-- A fix is matched to a place on the route, unless the route has no segment. -/
theorem matchedOn_outcome (e : Simulated) (fix : Fix) (route : Route) :
    (e.matchedOn fix route = none ∧ ∀ leg ∈ route.legs, leg.segmentCount = 0) ∨
    ∃ q leg, route.legs[q.leg]? = some leg ∧ q.segment < leg.segmentCount ∧
      e.matchedOn fix route = some (e.statusAt route leg fix q) := by
  unfold matchedOn
  cases hq : route.project? fix.point with
  | none => exact .inl ⟨rfl, Route.project?_eq_none_iff.mp hq⟩
  | some q =>
    obtain ⟨leg, hleg, hsegment⟩ := Route.project?_hasPlace hq
    refine .inr ⟨q, leg, hleg, hsegment, ?_⟩
    simp only [Option.bind_eq_bind, Option.bind_some, hleg]
    rfl

/-- A status follows the first route, unless there is no segment to match the fix to. -/
theorem statusOf_outcome (e : Simulated) (fix : Fix) :
    (e.statusOf fix = { location := fix.unmatched } ∧
      ∀ route, e.routes.head? = some route → ∀ leg ∈ route.legs, leg.segmentCount = 0) ∨
    ∃ route leg report, e.routes.head? = some route ∧
      (e.statusOf fix).progress = some report ∧ (e.statusOf fix).Follows route leg report := by
  rw [statusOf_eq]
  cases hroute : e.routes.head? with
  | none => exact .inl ⟨rfl, by simp⟩
  | some route =>
    rcases e.matchedOn_outcome fix route with ⟨hnone, hbare⟩ | ⟨q, leg, hleg, hsegment, hmatched⟩
    · refine .inl ⟨by rw [Option.bind_some, hnone]; rfl, fun route' hroute' => ?_⟩
      obtain rfl := Option.some.inj hroute'
      exact hbare
    · obtain ⟨report, hreport, hfollows⟩ := e.statusAt_follows fix hleg hsegment
      rw [Option.bind_some, hmatched, Option.getD_some]
      exact .inr ⟨route, leg, report, rfl, hreport, hfollows⟩

theorem follows_of_progress {report : ProgressReport}
    (h : (e.statusOf fix).progress = some report) :
    ∃ route leg, e.routes.head? = some route ∧ (e.statusOf fix).Follows route leg report := by
  rcases e.statusOf_outcome fix with ⟨hnone, -⟩ | ⟨route, leg, report', hroute, hreport, hfollows⟩
  · rw [hnone] at h
    cases h
  · obtain rfl := Option.some.inj (hreport.symm.trans h)
    exact ⟨route, leg, hroute, hfollows⟩

/-- The leg that a report names is there, so no report comes of a route without segments, and some
report of each other one. -/
theorem progress_eq_none_iff : (e.statusOf fix).progress = none ↔
    ∀ route, e.routes.head? = some route → ∀ leg ∈ route.legs, leg.segmentCount = 0 := by
  rcases e.statusOf_outcome fix with ⟨hnone, hbare⟩ |
    ⟨route, leg, report, hroute, hreport, hfollows⟩
  · exact iff_of_true (by rw [hnone]) hbare
  · refine iff_of_false (by simp [hreport]) fun hbare => ?_
    have hzero := hbare route hroute leg (List.mem_of_getElem? hfollows.onLeg)
    exact Nat.not_lt_zero _ (hzero ▸ hfollows.onSegment)

theorem cues_of_progress_eq_none (h : (e.statusOf fix).progress = none) :
    (e.statusOf fix).cues = none := by
  rcases e.statusOf_outcome fix with ⟨hnone, -⟩ | ⟨route, leg, report, hroute, hreport, -⟩
  · rw [hnone]
  · rw [hreport] at h
    cases h

/-- On one leg, a segment further on does not come with an earlier step. -/
theorem step_le_step {e' : Simulated} {fix' : Fix} {report report' : ProgressReport}
    (h : (e.statusOf fix).progress = some report) (h' : (e'.statusOf fix').progress = some report')
    (hfirst : e'.routes.head? = e.routes.head?) (hleg : report.leg = report'.leg)
    (hsegment : report.segment ≤ report'.segment) : report.step ≤ report'.step := by
  obtain ⟨route, leg, hroute, hfollows⟩ := follows_of_progress h
  obtain ⟨route', leg', hroute', hfollows'⟩ := follows_of_progress h'
  obtain rfl := Option.some.inj (hroute.symm.trans (hfirst ▸ hroute'))
  obtain rfl := Option.some.inj (hfollows.onLeg.symm.trans (hleg ▸ hfollows'.onLeg))
  exact hfollows.inEffect.mono hfollows'.inEffect hsegment

/-- There is a status just if none is to fail and a fix has been taken: the last one counts. -/
theorem status_ok_iff {s : Status} : e.status.2 = .ok s ↔
    e.failing = 0 ∧ ∃ fix, e.lastFix = some fix ∧ s = e.statusOf fix := by
  unfold status
  split
  · exact iff_of_false (by simp) fun h => by omega
  · have hfailing : e.failing = 0 := by omega
    cases e.lastFix <;> simp [hfailing, eq_comm]

/-! ## The routes that are refused -/

theorem any_short_iff (route : Route) :
    (route.legs.any fun l => l.geometry.length < 2) = true ↔ route.Broken := by
  simp [Route.Broken]

/-- Routes are refused for the first of them that is broken, which the error names. -/
theorem setRoutes_error_iff {routes : List Route} {error : EngineError} :
    e.setRoutes routes = .error error ↔ ∃ before route after,
      routes = before ++ route :: after ∧ route.Broken ∧ (∀ r ∈ before, ¬ r.Broken) ∧
      error = .routesRejected ("route " ++ route.id ++ " has a leg without geometry") := by
  have hfound : e.setRoutes routes = .error error ↔
      ∃ route, (routes.find? fun r => r.legs.any fun l => l.geometry.length < 2) = some route ∧
        error = .routesRejected ("route " ++ route.id ++ " has a leg without geometry") := by
    unfold setRoutes
    cases routes.find? _ <;> simp [eq_comm]
  rw [hfound]
  simp only [List.find?_eq_some_iff_append, any_short_iff, Bool.not_eq_true', ← Bool.not_eq_true]
  constructor
  · rintro ⟨route, ⟨hroute, before, after, hsplit, hbefore⟩, herror⟩
    exact ⟨before, route, after, hsplit, hroute, hbefore, herror⟩
  · rintro ⟨before, route, after, hsplit, hroute, hbefore, herror⟩
    exact ⟨route, ⟨hroute, before, after, hsplit, hbefore⟩, herror⟩

/-- They are taken if none of them is broken, and nothing but the routes changes. -/
theorem setRoutes_ok_iff {routes : List Route} {e' : Simulated} :
    e.setRoutes routes = .ok e' ↔ (∀ route ∈ routes, ¬ route.Broken) ∧ e' = { e with routes } := by
  unfold setRoutes
  simp only [← any_short_iff, ← List.find?_eq_none]
  cases routes.find? _ <;> simp [eq_comm]

/-! ## The whole account -/

/-- **Routes are taken if no leg of them is without a segment, and are else refused for the first
one with such a leg. Whatever the distances compare to, a status follows the first route, unless
that has no segment to match the fix to: then there are no cues either. On one leg, a segment
further on does not come with an earlier step.** -/
theorem status_consistent (e : Simulated) :
    (∀ routes e', e.setRoutes routes = .ok e' ↔
      (∀ route ∈ routes, ¬ route.Broken) ∧ e' = { e with routes }) ∧
    (∀ routes error, e.setRoutes routes = .error error ↔ ∃ before route after,
      routes = before ++ route :: after ∧ route.Broken ∧ (∀ r ∈ before, ¬ r.Broken) ∧
      error = .routesRejected ("route " ++ route.id ++ " has a leg without geometry")) ∧
    (∀ s, e.status.2 = .ok s ↔ e.failing = 0 ∧ ∃ fix, e.lastFix = some fix ∧ s = e.statusOf fix) ∧
    ∀ fix,
      ((e.statusOf fix).progress = none ↔
        ∀ route, e.routes.head? = some route → ∀ leg ∈ route.legs, leg.segmentCount = 0) ∧
      ((e.statusOf fix).progress = none → (e.statusOf fix).cues = none) ∧
      ∀ report, (e.statusOf fix).progress = some report →
        (∃ route leg, e.routes.head? = some route ∧ (e.statusOf fix).Follows route leg report) ∧
        ∀ (e' : Simulated) fix' report', (e'.statusOf fix').progress = some report' →
          e'.routes.head? = e.routes.head? → report.leg = report'.leg →
          report.segment ≤ report'.segment → report.step ≤ report'.step :=
  ⟨fun _ _ => setRoutes_ok_iff, fun _ _ => setRoutes_error_iff, fun _ => status_ok_iff,
    fun _ => ⟨progress_eq_none_iff, cues_of_progress_eq_none,
      fun _ h => ⟨follows_of_progress h, fun _ _ _ h' => step_le_step h h'⟩⟩⟩

/-- A route of a single segment, along a street. -/
def street : Route where
  id := "r"
  legs := [{
    geometry := [⟨0.0, 0.0⟩, ⟨0.0, 0.01⟩]
    steps := [
      { intersections := [⟨0, some .street⟩] },
      { instruction := some "Arrive", intersections := [⟨1, none⟩] }] }]

/-- Along the street, the next step is announced, however far off the fix is. -/
example (fix : Fix) : (({ routes := [street] } : Simulated).statusOf fix).cues =
    some { route := "r", leg := 0, step := 0, voice := some "Arrive" } := rfl

end Simulated
end LiveTrip
