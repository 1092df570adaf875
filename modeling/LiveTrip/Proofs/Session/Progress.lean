import LiveTrip.Proofs.Congestion.Bounds
import LiveTrip.Proofs.Congestion.Records
import LiveTrip.Proofs.Session.MirrorStages
import LiveTrip.Proofs.Session.Routes
import LiveTrip.Proofs.Session.Smoothing

/-!
# Progress agrees with the routes

A report may name a route that is not active, a leg that is not there, and a segment past the
congestion of the leg. The progress that is told shows the congestion that the active routes have at
that moment all the same.

* `Trip.ahead?`: what is worked out of a leg for a report, failing where an index is out of range;
  `Trip.ahead?_eq`: it does not fail.
* `Trip.Estimates`, `Trip.estimates`: the ways an estimate is asked for.
* `Leg.ChangedFrom`, `Route.ChangedFrom`: one leg has other congestion from a segment on.
* `Progress.Shows`: the congestion of progress is that of its route.
* `Trip.Agrees`, `Trip.report_agrees`: the whole account.
-/

namespace LiveTrip

/-! ## Other congestion -/

/-- Of a leg, nothing is another but the congestion from `start` on and the record of it. -/
structure Leg.ChangedFrom (leg leg' : Leg) (start : Nat) : Prop where
  bare : leg'.bare = leg.bare
  length : leg'.congestion.length = leg.congestion.length
  before : ∀ i, i < start → leg'.congestion[i]? = leg.congestion[i]?

theorem Leg.ChangedFrom.refl (leg : Leg) (start : Nat) : leg.ChangedFrom leg start :=
  ⟨rfl, rfl, fun _ _ => rfl⟩

theorem SmootherSettings.changedFrom_apply (s : SmootherSettings) (leg : Leg)
    (start expected : Nat) : leg.ChangedFrom (s.apply leg start expected).1 start := by
  rcases s.apply_outcome leg start expected with h | ⟨after, r, hchanges, h⟩
  · rw [h]
    exact .refl leg start
  · have hbefore : ∀ i, i < start → ¬ r.Covers i := fun i hi hcovers =>
      Nat.not_le.mpr hi (hchanges.same_start ▸ hcovers.1)
    rw [h]
    exact ⟨rfl, hchanges.length, fun i hi => hchanges.elsewhere i (hbefore i hi)⟩

/-- Of a route, nothing is another but leg `n`, and that from `start` on. -/
structure Route.ChangedFrom (route route' : Route) (n start : Nat) : Prop where
  id : route'.id = route.id
  length : route'.legs.length = route.legs.length
  others : ∀ m, m ≠ n → route'.legs[m]? = route.legs[m]?
  leg : ∀ leg leg', route.legs[n]? = some leg → route'.legs[n]? = some leg' →
    leg.ChangedFrom leg' start

theorem Route.ChangedFrom.refl (route : Route) (n start : Nat) :
    route.ChangedFrom route n start :=
  ⟨rfl, rfl, fun _ _ => rfl, fun leg _ hleg hleg' =>
    Option.some.inj (hleg.symm.trans hleg') ▸ .refl leg start⟩

theorem Route.changedFrom_set {route : Route} {n start : Nat} {leg leg' : Leg}
    (hleg : route.legs[n]? = some leg) (h : leg.ChangedFrom leg' start) :
    route.ChangedFrom { route with legs := route.legs.set n leg' } n start := by
  obtain ⟨hlt, -⟩ := List.getElem?_eq_some_iff.mp hleg
  refine ⟨rfl, List.length_set, fun m hm => List.getElem?_set_ne hm.symm, ?_⟩
  intro old new hold hnew
  rw [List.getElem?_set_self hlt] at hnew
  obtain rfl := Option.some.inj (hleg.symm.trans hold)
  obtain rfl := Option.some.inj hnew
  exact h

/-- `route` is the first of the routes with this id, after some and before others. -/
structure FirstNamed (id : String) (routes before : List Route) (route : Route)
    (after : List Route) : Prop where
  split : routes = before ++ route :: after
  named : route.id = id
  first : ∀ r ∈ before, r.id ≠ id

namespace FirstNamed

variable {id : String} {routes before after : List Route} {route : Route}

theorem findIdx? (h : FirstNamed id routes before route after) :
    routes.findIdx? (·.id = id) = some before.length := by
  have hbefore : before.findIdx? (·.id = id) = none := by
    simpa [List.findIdx?_eq_none_iff] using h.first
  rw [h.split, List.findIdx?_append, hbefore, List.findIdx?_cons]
  simp [h.named]

theorem getElem? (h : FirstNamed id routes before route after) :
    routes[before.length]? = some route := by
  simp [h.split]

theorem modify (h : FirstNamed id routes before route after) (f : Route → Route) :
    routes.modify before.length f = before ++ f route :: after := by
  have hlt : before.length < (before ++ route :: after).length := by simp
  rw [h.split, List.modify_eq_take_cons_drop hlt]
  simp

end FirstNamed

/-! ## The congestion ahead -/

theorem Thresholds.getElem?_classify (bands : Thresholds) (first j : Nat) (values : List Nat) :
    (bands.classify first values)[j]? =
      values[j]?.map fun v => ⟨first + j, v, bands.bandOf v⟩ := by
  induction values generalizing first j with
  | nil => rfl
  | cons v values ih =>
    cases j with
    | zero => rfl
    | succ j =>
      simp only [classify, List.getElem?_cons_succ, ih, Nat.add_right_comm first 1 j]
      rfl

theorem Thresholds.length_classify (bands : Thresholds) (first : Nat) (values : List Nat) :
    (bands.classify first values).length = values.length := by
  induction values generalizing first with
  | nil => rfl
  | cons v values ih => exact congrArg (· + 1) (ih (first + 1))

/-- The first segment of a leg that is shown for a report at `segment`: that one, or the end if it
comes first. -/
def Leg.firstAhead (leg : Leg) (segment : Nat) : Nat := min segment leg.congestion.length

/-- The congestion of progress is that of its leg on this route: one entry for each segment ahead,
in order, with its band. It is empty if there is no such leg. -/
structure Progress.Shows (p : Progress) (bands : Thresholds) (route : Route) : Prop where
  missing : route.legs[p.report.leg]? = none → p.congestion = []
  entries : ∀ leg, route.legs[p.report.leg]? = some leg →
    p.congestion.length = leg.congestion.length - leg.firstAhead p.report.segment ∧
    ∀ j v, leg.congestion[leg.firstAhead p.report.segment + j]? = some v →
      p.congestion[j]? = some ⟨leg.firstAhead p.report.segment + j, v, bands.bandOf v⟩

namespace Trip

variable {t : Trip} {s : SmootherSettings} {signal : Signal} {leg : Leg} {start : Nat}

/-- An estimate is asked for a stretch of the leg that is not empty, if it is asked for at all, and
nothing before its start changes. -/
structure Estimates (signal : Signal) (leg : Leg) (start : Nat) (o : Outlook) : Prop where
  changed : leg.ChangedFrom o.leg start
  asked : ∀ n, o.asked = some n → ∃ stop value,
    n = .estimated start stop leg.congestion value ∧ start < stop ∧ stop ≤ leg.congestion.length
  unasked : o.asked = none → o.signal = signal

theorem estimates_outlook (s : SmootherSettings) (signal : Signal) (leg : Leg) (start : Nat) :
    Estimates signal leg start (outlook s signal leg start) := by
  unfold outlook
  simp only
  split
  · rename_i hasked
    simp only [Bool.and_eq_true, decide_eq_true_eq] at hasked
    have hwithin := Nat.min_le_right (start + s.near) leg.congestion.length
    have within (value : Option Nat) (n : Note)
        (hn : some (Note.estimated start (min (start + s.near) leg.congestion.length)
          leg.congestion value) = some n) :
        ∃ stop value, n = .estimated start stop leg.congestion value ∧ start < stop ∧
          stop ≤ leg.congestion.length :=
      ⟨_, value, (Option.some.inj hn).symm, hasked.2, hwithin⟩
    split
    · exact ⟨s.changedFrom_apply leg start _, within _, fun h => absurd h (Option.some_ne_none _)⟩
    · exact ⟨.refl leg start, within _, fun h => absurd h (Option.some_ne_none _)⟩
  · exact ⟨.refl leg start, fun n h => absurd h.symm (Option.some_ne_none n), fun _ => rfl⟩

/-- The signal is asked and the leg smoothed, which fails if an index is out of range. -/
def outlook? (s : SmootherSettings) (signal : Signal) (leg : Leg) (start : Nat) :
    Option Outlook :=
  let stop := min (start + s.near) leg.congestion.length
  if signal.isLive && start < stop then
    let (signal, value) := signal.expected start stop
    let asked := some (Note.estimated start stop leg.congestion value)
    match value with
    | some expected => do
      let (leg, blended) ← s.traverse? leg start expected
      some { signal, leg, blended, asked }
    | none => some { signal, leg, asked }
  else some { signal, leg }

/-- The leg smoothed, and the congestion ahead on it, which fails if an index is out of range. -/
def ahead? (s : SmootherSettings) (signal : Signal) (leg : Leg) (segment : Nat) :
    Option (Leg × List CongestedSegment) := do
  let o ← outlook? s signal leg segment
  let first := o.leg.firstAhead segment
  let values ← stretch? o.leg.congestion first o.leg.congestion.length
  some (o.leg, s.thresholds.classify first values)

theorem outlook?_eq (s : SmootherSettings) (signal : Signal) (leg : Leg) (start : Nat) :
    outlook? s signal leg start = some (outlook s signal leg start) := by
  unfold outlook? outlook
  simp only
  split
  · cases (signal.expected start (min (start + s.near) leg.congestion.length)).2 with
    | some expected =>
      simp only [s.traverse?_eq]
      rfl
    | none => rfl
  · rfl

/-- **No index is out of range in what is worked out for a report.** -/
theorem ahead?_eq (t : Trip) (report : ProgressReport) (how : Tracking) (leg : Leg) :
    ahead? t.settings.smoother t.signal leg report.segment =
      some ((outlook t.settings.smoother t.signal leg report.segment).leg,
        (t.reported report how
          (outlook t.settings.smoother t.signal leg report.segment)).congestion) := by
  rw [ahead?, outlook?_eq]
  generalize outlook t.settings.smoother t.signal leg report.segment = o
  have hfirst : o.leg.firstAhead report.segment ≤ o.leg.congestion.length := Nat.min_le_right _ _
  have hstretch : stretch? o.leg.congestion (o.leg.firstAhead report.segment)
      o.leg.congestion.length = some (o.leg.congestion.drop (o.leg.firstAhead report.segment)) := by
    rw [stretch?, if_pos ⟨hfirst, Nat.le_refl _⟩, List.take_of_length_le (by simp)]
  simp only [Option.bind_eq_bind, Option.bind_some, hstretch]
  rfl

/-! ## What becomes of a report -/

/-- What is noted of a pass for a report, last first. -/
def Outlook.notes (o : Outlook) (report : ProgressReport) : List Note :=
  (if o.blended then [.blended report.route report.leg] else []) ++ o.asked.toList

theorem mem_notes {o : Outlook} {report : ProgressReport} {start stop : Nat}
    {congestion : List Nat} {value : Option Nat} :
    .estimated start stop congestion value ∈ o.notes report ↔
      o.asked = some (.estimated start stop congestion value) := by
  unfold Outlook.notes
  split <;> simp

/-- The trip after a pass for a report of the `i`-th active route, in full. -/
theorem passed_eq (t : Trip) (i : Nat) (report : ProgressReport) (o : Outlook) :
    ∃ counters, t.passed i report o =
      { t with
        signal := o.signal, counters
        facts := { t.facts with
          routes := t.facts.routes.modify i fun r =>
            { r with legs := r.legs.set report.leg o.leg } }
        dispatch := { t.dispatch with log := (o.notes report).map .owner ++ t.log } } := by
  unfold passed Outlook.notes
  cases o.asked <;> cases o.blended <;> exact ⟨_, rfl⟩

/-- The congestion of what is told of a report is that of the leg after the pass. -/
theorem reported_shows (t : Trip) (report : ProgressReport) (how : Tracking) (o : Outlook)
    {route : Route} (hleg : route.legs[report.leg]? = some o.leg) :
    (t.reported report how o).Shows t.settings.smoother.thresholds route where
  missing hnone := absurd (hleg.symm.trans hnone) (Option.some_ne_none _)
  entries leg hleg' := by
    obtain rfl := Option.some.inj (hleg.symm.trans hleg')
    have hcongestion : (t.reported report how o).congestion =
        t.settings.smoother.thresholds.classify (o.leg.firstAhead report.segment)
          (o.leg.congestion.drop (o.leg.firstAhead report.segment)) := rfl
    rw [hcongestion]
    refine ⟨by rw [Thresholds.length_classify, List.length_drop]; rfl, fun j v hv => ?_⟩
    rw [Thresholds.getElem?_classify, List.getElem?_drop]
    exact congrArg (Option.map _) hv

/-- What becomes of a report of the active route `route`: that changes to `route'` and the signal to
`signal`, these are the notes, last first, and `p` is what is told of it. -/
structure Agrees (t : Trip) (report : ProgressReport) (how : Tracking) (route route' : Route)
    (signal : Signal) (notes : List Note) (p : Progress) : Prop where
  same_report : p.report = report
  same_tracking : p.tracking = how
  shows : p.Shows t.settings.smoother.thresholds route'
  changed : route.ChangedFrom route' report.leg report.segment
  /-- An estimate is for segments of the leg. -/
  asked : ∀ start stop congestion value, .estimated start stop congestion value ∈ notes →
    start = report.segment ∧ start < stop ∧ stop ≤ congestion.length ∧
      ∃ leg : Leg, route.legs[report.leg]? = some leg ∧ leg.congestion = congestion
  unasked : (∀ start stop congestion value, .estimated start stop congestion value ∉ notes) →
    signal = t.signal
  /-- What is worked out of the leg is what is told, so no index is out of range. -/
  inRange : ∀ leg, route.legs[report.leg]? = some leg → ∃ leg',
    ahead? t.settings.smoother t.signal leg report.segment = some (leg', p.congestion) ∧
      route'.legs[report.leg]? = some leg'

/-- A pass over the leg makes for that. -/
theorem agrees_of_leg (t : Trip) (report : ProgressReport) (how : Tracking) {route : Route}
    (hleg : route.legs[report.leg]? = some leg) {o : Outlook}
    (ho : outlook t.settings.smoother t.signal leg report.segment = o) :
    t.Agrees report how route { route with legs := route.legs.set report.leg o.leg } o.signal
      (o.notes report) (t.reported report how o) := by
  obtain ⟨hlt, -⟩ := List.getElem?_eq_some_iff.mp hleg
  have hset : (route.legs.set report.leg o.leg)[report.leg]? = some o.leg :=
    List.getElem?_set_self hlt
  have hestimates := ho ▸ estimates_outlook t.settings.smoother t.signal leg report.segment
  exact {
    same_report := rfl
    same_tracking := rfl
    shows := t.reported_shows report how o hset
    changed := Route.changedFrom_set hleg hestimates.changed
    asked := fun start stop congestion value hmem => by
      obtain ⟨stop', value', hnote, hlt, hle⟩ := hestimates.asked _ (mem_notes.mp hmem)
      cases hnote
      exact ⟨rfl, hlt, hle, leg, hleg, rfl⟩
    unasked := fun hnone => hestimates.unasked (by
      cases hasked : o.asked with
      | none => rfl
      | some n =>
        obtain ⟨stop, value, rfl, -⟩ := hestimates.asked n hasked
        exact absurd (mem_notes.mpr hasked) (hnone _ _ _ _))
    inRange := fun leg' hleg' => by
      obtain rfl := Option.some.inj (hleg.symm.trans hleg')
      exact ⟨o.leg, ho ▸ t.ahead?_eq report how leg, hset⟩ }

theorem progress_agrees {report : ProgressReport} {before after : List Route} {route : Route}
    (h : FirstNamed report.route t.facts.routes before route after) (how : Tracking) :
    ∃ route' signal notes counters p, t.Agrees report how route route' signal notes p ∧
      t.progress report how =
        ({ t with
          signal, counters, facts := { t.facts with routes := before ++ route' :: after }
          dispatch := { t.dispatch with log := notes.map .owner ++ t.log } }, some p) := by
  have hi := h.findIdx?
  cases hleg : route.legs[report.leg]? with
  | none =>
    have hnone : (t.facts.routes[before.length]?).bind (·.legs[report.leg]?) = none := by
      rw [h.getElem?]
      exact hleg
    have missing (leg : Leg) : route.legs[report.leg]? ≠ some leg := by simp [hleg]
    refine ⟨route, t.signal, [], t.counters, { report, tracking := how, congestion := [] }, ?_, ?_⟩
    · exact {
        same_report := rfl
        same_tracking := rfl
        shows := ⟨fun _ => rfl, fun leg hleg' => absurd hleg' (missing leg)⟩
        changed := .refl route _ _
        asked := fun _ _ _ _ hmem => absurd hmem List.not_mem_nil
        unasked := fun _ => rfl
        inRange := fun leg hleg' => absurd hleg' (missing leg) }
    · simp only [progress, hi, hnone, ← h.split]
      rfl
  | some leg =>
    have hsome : (t.facts.routes[before.length]?).bind (·.legs[report.leg]?) = some leg := by
      rw [h.getElem?]
      exact hleg
    obtain ⟨counters, hpassed⟩ := t.passed_eq before.length report
      (outlook t.settings.smoother t.signal leg report.segment)
    rw [progress_of_leg how hi hsome, hpassed, h.modify]
    exact ⟨_, _, _, _, _, agrees_of_leg t report how hleg rfl, rfl⟩

/-- **The progress that is told of a report shows the active routes as they are when it is told.** A
report of no active route changes nothing and tells nothing. One of an active route has to do with
the first one of its name: it changes no more than the leg that is reported, from the reported
segment on, and asks for no estimate but for segments of that. -/
theorem report_agrees (t : Trip) (k : Tick) {s : Status} {report : ProgressReport}
    (hreport : s.progress = some report) :
    ((∀ r ∈ t.facts.routes, r.id ≠ report.route) →
      t.run (.report k s) = t.pushStages [.tally k]) ∧
    ∀ before route after, FirstNamed report.route t.facts.routes before route after →
      ∃ route' notes p,
        t.Agrees report s.tracking route route' (t.run (.report k s)).signal notes p ∧
        (t.run (.report k s)).facts =
          { t.facts with routes := before ++ route' :: after } ∧
        (t.current k = false →
          (t.run (.report k s)).log = notes.map .owner ++ t.log) ∧
        (t.current k = true → ∃ audience, (t.run (.report k s)).log =
          .began ⟨t.dispatch.serial, .tick k.number, .routeProgress, p⟩ audience ::
            (notes.map .owner ++ t.log)) := by
  refine ⟨fun hnone => ?_, fun before route after h => ?_⟩
  · rcases progress_cases t report s.tracking with ⟨-, hp⟩ | ⟨⟨r, hr, hname⟩, -⟩
    · simp only [run, hreport, hp]
    · exact absurd hname (hnone r hr)
  · obtain ⟨route', signal, notes, counters, p, hagrees, hp⟩ := progress_agrees h s.tracking
    refine ⟨route', notes, p, ?_⟩
    simp only [run, hreport, hp, current]
    by_cases hcurrent : t.generation = k.generation
    · simp only [hcurrent, decide_true, ↓reduceIte]
      exact ⟨hagrees, rfl, fun h => Bool.noConfusion h, fun _ => ⟨_, rfl⟩⟩
    · simp only [hcurrent, decide_false, Bool.false_eq_true, ↓reduceIte]
      exact ⟨hagrees, rfl, fun _ => rfl, fun h => False.elim h⟩

/-- A session on a route with three light segments, while the live estimate is heavy. -/
def onLightRoute : Trip :=
  { Trip.new {} (.scripted {}) (.manual {}) (.readings [some 70]) with
    facts := { routes := [{ id := "r", legs := [{ congestion := [10, 10, 10] }] }] } }

/-- Its position is on the second of them. -/
def onSecondSegment : ProgressReport :=
  { route := "r", leg := 0, step := 0, segment := 1, travelled := 0.0, remaining := 0.0
    duration := 0.0 }

/-- The status with that. -/
def onSecondSegmentStatus : Status :=
  { location := sampleLocation, progress := some onSecondSegment }

/-- The tick that it is for. -/
def onSecondSegmentTick : Tick :=
  { number := 0, generation := 0, epoch := 0, scope := .full, fix := none }

/-- The session once the tick has told of it. -/
def onRaisedRoute : Trip := onLightRoute.run (.report onSecondSegmentTick onSecondSegmentStatus)

/-- The two segments ahead are raised to moderate and shown so; the one behind stays as it is. -/
theorem report_agrees_on_heavy_estimate :
    onRaisedRoute.facts.routes.map Route.congestion = [[[10, 40, 40]]] ∧
    ∃ p audience notes, onRaisedRoute.log =
      .began ⟨0, .tick 0, .routeProgress, p⟩ audience :: notes ∧
      p.congestion.length = 2 ∧ p.congestion[0]? = some ⟨1, 40, .moderate⟩ ∧
      p.congestion[1]? = some ⟨2, 40, .moderate⟩ := by
  have hreport : onSecondSegmentStatus.progress = some onSecondSegment := rfl
  have hfirst : FirstNamed onSecondSegment.route onLightRoute.facts.routes []
      { id := "r", legs := [{ congestion := [10, 10, 10] }] } [] := ⟨rfl, rfl, by simp⟩
  obtain ⟨route', notes, p, hagrees, hfacts, -, hcurrent⟩ :=
    (report_agrees onLightRoute onSecondSegmentTick hreport).2 _ _ _ hfirst
  obtain ⟨audience, hlog⟩ := hcurrent rfl
  have hroutes : onRaisedRoute.facts.routes = [route'] :=
    congrArg Facts.routes hfacts
  have hleg : route'.legs[p.report.leg]? =
      some { congestion := [10, 40, 40], blend := some ⟨1, 2, [10, 10], 70⟩ } := by
    rw [hagrees.same_report, ← List.singleton_inj.mp hroutes]
    rfl
  obtain ⟨hlength, hentries⟩ := hagrees.shows.entries _ hleg
  rw [hagrees.same_report] at hlength hentries
  exact ⟨rfl, p, audience, _, hlog, hlength, hentries 0 40 rfl, hentries 1 40 rfl⟩

end Trip
end LiveTrip
