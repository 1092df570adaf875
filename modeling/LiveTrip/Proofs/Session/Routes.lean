import LiveTrip.Proofs.Session.Epoch
import LiveTrip.Proofs.Session.Working

/-!
# Who holds which routes

The session and a simulated engine each hold the routes. Smoothing rewrites the congestion of the
session's, so the two are alike but for that.

* `Route.bare`: a route without what smoothing rewrites.
* `Engine.routes?`: the routes that a simulated engine holds.
* `Held`, `Trip.held`: what a session and its engine hold, and the epoch.
* `Trip.held_run`, `Trip.held_perform`, `Trip.held_step`: only routes that are taken change it.
-/

namespace LiveTrip

/-- The leg without its congestion and the record of the last change to that. -/
def Leg.bare (leg : Leg) : Leg := { leg with congestion := [], blend := none }

/-- The route without the congestion of its legs. -/
def Route.bare (route : Route) : Route := { route with legs := route.legs.map Leg.bare }

theorem map_id_of_bare {routes routes' : List Route}
    (h : routes'.map Route.bare = routes.map Route.bare) :
    routes'.map (·.id) = routes.map (·.id) := by
  have hid (rs : List Route) : (rs.map Route.bare).map (·.id) = rs.map (·.id) := by
    rw [List.map_map]
    rfl
  rw [← hid routes', h, hid]

/-! ## The engine -/

namespace Engine

/-- The routes that a simulated engine holds. -/
def routes? : Engine → Option (List Route)
  | .simulated e => some e.routes
  | .scripted _ => none

theorem routes?_ingest {engine engine' : Engine} {fix : Fix}
    (h : engine.ingest fix = .ok engine') : engine'.routes? = engine.routes? := by
  cases engine with
  | simulated e =>
    simp only [ingest, Simulated.ingest] at h
    split at h <;> cases h
    rfl
  | scripted e =>
    simp only [ingest, Scripted.ingest] at h
    split at h <;> cases h
    rfl

theorem routes?_setRoutes {engine engine' : Engine} {routes : List Route}
    (h : engine.setRoutes routes = .ok engine') :
    engine'.routes? = engine.routes?.map fun _ => routes := by
  cases engine with
  | simulated e =>
    simp only [setRoutes, Simulated.setRoutes] at h
    split at h <;> cases h
    rfl
  | scripted e =>
    simp only [setRoutes, Scripted.setRoutes] at h
    split at h <;> cases h
    rfl

@[simp] theorem routes?_ask (engine : Engine) : engine.ask.1.routes? = engine.routes? := by
  cases engine <;> rfl

@[simp] theorem routes?_collect (engine : Engine) (asked : Asked) :
    (engine.collect asked).1.routes? = engine.routes? := by
  cases asked with
  | known => rfl
  | later =>
    cases engine with
    | scripted e => rfl
    | simulated e =>
      simp only [collect, Simulated.status]
      split
      · rfl
      · split <;> rfl

@[simp] theorem routes?_control (engine : Engine) (c : Control) :
    (engine.control c).routes? = engine.routes? := by
  cases engine <;> cases c <;> rfl

end Engine

/-! ## Smoothing -/

/-- A pass leaves all of a leg but its congestion. -/
@[simp] theorem SmootherSettings.bare_apply (s : SmootherSettings) (leg : Leg)
    (start expected : Nat) : (s.apply leg start expected).1.bare = leg.bare := by
  unfold apply
  split <;> rfl

@[simp] theorem Trip.bare_outlook (s : SmootherSettings) (signal : Signal) (leg : Leg)
    (start : Nat) : (Trip.outlook s signal leg start).leg.bare = leg.bare := by
  unfold Trip.outlook
  simp only
  split
  · split
    · exact s.bare_apply leg start _
    · rfl
  · rfl

/-- A leg of a route is replaced by one that is alike. -/
theorem bare_modify {routes : List Route} {i n : Nat} {leg leg' : Leg}
    (hleg : (routes[i]?).bind (·.legs[n]?) = some leg) (h : leg'.bare = leg.bare) :
    (routes.modify i fun r => { r with legs := r.legs.set n leg' }).map Route.bare =
      routes.map Route.bare := by
  refine List.ext_getElem? fun j => ?_
  rw [List.getElem?_map, List.getElem?_map, List.getElem?_modify]
  by_cases hj : i = j
  · subst hj
    obtain ⟨r, hr, hn⟩ := Option.bind_eq_some_iff.mp hleg
    have hlegs : (r.legs.set n leg').map Leg.bare = r.legs.map Leg.bare := by
      obtain ⟨hlt, rfl⟩ := List.getElem?_eq_some_iff.mp hn
      rw [List.map_set, h, ← List.getElem_map Leg.bare (h := by simpa using hlt),
        List.set_getElem_self]
    simp only [hr, ↓reduceIte, Option.map_eq_map, Option.map_some, Route.bare, hlegs]
  · simp [hj]

/-! ## What is held -/

/-- What a session and its engine hold. -/
structure Held where
  /-- The routes of a simulated engine. -/
  engine : Option (List Route)
  /-- The session's, without their congestion. -/
  session : List Route
  epoch : Nat

namespace Trip

variable {t t' : Trip} {made : Option Call}

def held (t : Trip) : Held where
  engine := t.engine.routes?
  session := t.facts.routes.map Route.bare
  epoch := t.epoch

/-- The engine, the routes and the epoch are as they were. -/
theorem held_congr (he : t'.engine.routes? = t.engine.routes?)
    (hr : t'.facts.routes.map Route.bare = t.facts.routes.map Route.bare)
    (hepoch : t'.epoch = t.epoch) : t'.held = t.held := by
  simp only [held, he, hr, hepoch]

/-- Another engine holds the same. -/
theorem held_engine (t : Trip) {engine : Engine} (h : engine.routes? = t.engine.routes?) :
    ({ t with engine } : Trip).held = t.held := held_congr h rfl rfl

@[simp] theorem held_mapWorker (t : Trip) (g : Nat) (f : Worker → Worker) :
    (t.mapWorker g f).held = t.held := by
  unfold mapWorker; split <;> rfl

@[simp] theorem held_await (t : Trip) (g : Nat) (wait : Wait) :
    (t.await g wait).held = t.held := held_mapWorker _ _ _

@[simp] theorem held_readLine (t : Trip) (w : Worker) : (t.readLine w).1.held = t.held :=
  held_mapWorker t w.generation _

theorem held_proceed (t : Trip) (g : Nat) : (t.proceed g).held = t.held := by
  have h := proceeds t g
  generalize t.proceed g = u at h ⊢
  cases h with
  | rests => exact held_mapWorker _ _ _
  | rereads w | begins w => exact (held_mapWorker _ g _).trans (held_readLine t w)

theorem held_ask (t : Trip) (k : Tick) : (t.ask k).held = t.held := by
  have h := asks t k
  generalize t.ask k = u at h ⊢
  cases h with
  | orphaned => rfl
  | answered engine answer asked =>
    rcases asked with rfl | rfl
    · exact held_engine t (Engine.routes?_ask _)
    · exact held_engine t ((Engine.routes?_collect _ _).trans (Engine.routes?_ask _))
  | waits => exact (held_await _ _ _).trans (held_engine t (Engine.routes?_ask _))

/-- Smoothing changes no more than the congestion of a leg. -/
theorem held_progress (t : Trip) (report : ProgressReport) (how : Tracking) :
    (t.progress report how).1.held = t.held := by
  obtain ⟨signal, routes, blends, log, h, hroutes⟩ := progress_eq t report how
  rw [h]
  refine held_congr rfl ?_ rfl
  rcases hroutes with rfl | ⟨i, leg, hleg, rfl⟩
  · rfl
  · exact bare_modify hleg (bare_outlook t.settings.smoother t.signal leg report.segment)

theorem held_report (t : Trip) (k : Tick) (s : Status) :
    (t.run (.report k s)).held = t.held := by
  have h := reports t k s
  generalize t.run (.report k s) = u at h ⊢
  cases h with
  | nothing => rfl
  | unknown report | stale report | tells report => exact held_progress t report s.tracking

/-- **Whatever a stage does, the session and its engine hold the same routes after it.** -/
theorem held_run (t : Trip) (s : Stage) : (t.run s).held = t.held := by
  cases s with
  | ask k => exact held_ask t k
  | report k s => exact held_report t k s
  | proceed g => exact held_proceed t g
  | ingest k =>
    simp only [run]
    split
    · split
      · rename_i he
        exact held_congr (Engine.routes?_ingest he) rfl rfl
      · rfl
    · rfl
  | announce k =>
    cases hfix : k.fix with
    | none => simp only [run, hfix]; rfl
    | some fix =>
      simp only [run, hfix, Option.isSome_some, ↓reduceIte]
      split <;> rfl
  | recompute cause =>
    simp only [run]
    split <;> split <;> rfl
  | conclude k answer =>
    cases answer with
    | ok s => rfl
    | error e =>
      simp only [run]
      split <;> rfl
  | enter | leaveOffRoute | locate | arrive =>
    simp only [run]
    split <;> rfl
  | flag k s =>
    simp only [run]
    split
    · split <;> rfl
    · rfl
  | cue k s =>
    simp only [run]
    split
    · rfl
    · split
      · rfl
      · split
        · split <;> rfl
        · rfl
  | reply | register | subscribe | forgetTrip | tally => rfl

/-! ## Calls -/

@[simp] theorem held_mapManual (t : Trip) (f : ManualSource → ManualSource) :
    (t.mapManual f).held = t.held := by
  unfold mapManual; split <;> rfl

@[simp] theorem held_send (t : Trip) (d : Delivery) : (t.send d).1.held = t.held := by
  unfold send
  split
  · split
    · split <;> rfl
    · rfl
  · rfl

theorem held_haltSource (t : Trip) : t.haltSource.held = t.held := by
  simp only [haltSource]
  split
  · exact (held_congr rfl rfl rfl).trans (held_mapManual t _)
  · exact held_mapManual t _

theorem held_start (t : Trip) : t.start.trip.held = t.held := by
  unfold start
  split
  · rfl
  · simp only
    split <;> rfl

/-- The session's half of taking new routes: what has been told of those before is forgotten, and
ticks that have begun are of an earlier epoch. -/
def adopt (t : Trip) (routes : List Route) : Trip :=
  { t.withFacts fun f => { f with routes, arrived := false } with epoch := t.epoch + 1 }.mapDispatch
    fun d => (d.forget .routeProgress).forget .instructionCues

/-- Routes are taken by the engine first, and then by the session. -/
theorem setRoutes_eq {routes : List Route} {engine : Engine}
    (h : t.engine.setRoutes routes = .ok engine) :
    t.setRoutes routes =
      { trip := { t with engine }.adopt routes, stages := [.recompute .call] } := by
  simp only [setRoutes, h]
  rfl

/-- A call takes new routes, or leaves what is held alone. -/
theorem held_perform (t : Trip) (c : Call) :
    (t.perform c).trip.held = t.held ∨
    ∃ routes engine, c = .setRoutes routes ∧ t.closed = false ∧
      t.engine.setRoutes routes = .ok engine ∧
      (t.perform c).trip = { t with engine }.adopt routes := by
  unfold perform
  split
  · exact .inl rfl
  · rename_i hopen
    cases c with
    | setRoutes routes =>
      cases he : t.engine.setRoutes routes with
      | error e => simp only [setRoutes, he, true_or]
      | ok engine =>
        have hclosed : t.closed = false := by simpa [Call.onSession] using hopen
        exact .inr ⟨routes, engine, rfl, hclosed, he, by simp only [setRoutes_eq he]⟩
    | start => exact .inl (held_start t)
    | stop => left; simp only [stop]; split <;> rfl
    | close => left; simp only [close]; split <;> rfl
    | control c => exact .inl (held_congr (Engine.routes?_control _ c) rfl rfl)
    | push fix => exact .inl ((held_send _ _).trans (held_mapManual t _))
    | pushError cause => exact .inl (held_send t _)
    | setLastKnown fix => exact .inl (held_mapManual t _)
    | failNextStart => exact .inl (held_mapManual t _)
    | haltSource => exact .inl (held_haltSource t)
    | setGuidance | setDestination | observe | unobserve | subscribe | release | detach | query =>
      exact .inl rfl

/-! ## Steps -/

theorem held_resume (t : Trip) (w : Worker) : (t.resume w).held = t.held := by
  have awake : (t.mapWorker w.generation fun w => { w with wait := .working }).held = t.held :=
    held_mapWorker _ _ _
  unfold resume
  generalize t.mapWorker w.generation _ = u at awake ⊢
  simp only
  split
  · exact awake
  · split
    · exact (held_engine u (Engine.routes?_collect u.engine _)).trans awake
    · exact awake
  · exact awake

theorem held_tick? (h : t.tick? = some t') : t'.held = t.held := by
  unfold tick? at h
  split at h
  · cases h
    exact held_run t.pop _
  · cases h
    split <;> rfl
  · obtain ⟨d, -, rfl⟩ := Option.map_eq_some_iff.mp h
    rfl

/-- A task that takes a turn, or time that passes, leaves what is held alone. -/
theorem held_task {m : Move} (hm : ∀ d, m ≠ .decide d) (h : t.move? m = some t') :
    t'.held = t.held := by
  cases m with
  | decide d => exact absurd rfl (hm d)
  | work =>
    have h : t.work? = some t' := h
    unfold work? at h
    split at h
    · obtain ⟨w, -, rfl⟩ := Option.map_eq_some_iff.mp h
      exact held_resume t w
    · cases h
  | replay =>
    have h : t.replay? = some t' := h
    unfold replay? at h
    split at h
    · obtain ⟨⟨s, r⟩, -, rfl⟩ := Option.map_eq_some_iff.mp h
      cases t.worker <;> rfl
    · cases h
  | elapse later =>
    have h : t.elapse? later = some t' := h
    unfold elapse? at h
    split at h <;> cases h
    rfl

/-- **What a session and its engine hold changes when routes are taken, and at no other time.** -/
theorem held_step (h : Step t t') :
    t'.held = t.held ∨ ∃ caller routes, t.speaker = some caller ∧ Accepts t routes ∧
      t' = t.call caller (.setRoutes routes) := by
  cases h with
  | tick h => exact .inl (held_tick? h)
  | move m h =>
    cases m with
    | decide d =>
      have h : t.decide? d = some t' := h
      unfold decide? at h
      split at h <;> cases h
      · rename_i caller c hw
        rcases held_perform t c with h | ⟨routes, engine, rfl, hopen, he, -⟩
        · exact .inl h
        · exact .inr ⟨caller, routes, hw, accepts_iff.mpr ⟨hopen, engine, he⟩, rfl⟩
      · exact .inl rfl
      · exact .inl rfl
    | work => exact .inl (held_task (m := .work) (by simp) h)
    | replay => exact .inl (held_task (m := .replay) (by simp) h)
    | elapse later => exact .inl (held_task (m := .elapse later) (by simp) h)

end Trip
end LiveTrip
