import LiveTrip.Proofs.Session.Working

/-!
# What is asked of the engine

* `EngineCall`: the calls on an engine, and `EngineCall.apply`: what each does to it.
* `Trip.engineCalls`: what a step asks of the engine.
* `Trip.engine_of_tick?`, `Trip.engine_of_move?`: a step does to the engine what it asks of it, and
  nothing else, unless it is told from outside what to do next.
-/

namespace LiveTrip

/-- What is asked of an engine. -/
inductive EngineCall
  | ingest (fix : Fix)
  | setRoutes (routes : List Route)
  /-- A status is asked for. -/
  | ask
  /-- A status that is ready is collected. -/
  | collect (asked : Asked)

/-- What a call does to the engine. One that is refused leaves it alone. -/
def EngineCall.apply (engine : Engine) : EngineCall → Engine
  | .ingest fix => (engine.ingest fix).toOption.getD engine
  | .setRoutes routes => (engine.setRoutes routes).toOption.getD engine
  | .ask => engine.ask.1
  | .collect asked => (engine.collect asked).1

namespace Trip

/-- What a stage asks of the engine. -/
def stageCalls (t : Trip) : Stage → List EngineCall
  | .ingest k => k.fix.toList.map .ingest
  | .ask k =>
    if (t.workerOf? k.generation).isNone then []
    else if t.engine.ask.2.2 = 0 then [.ask, .collect t.engine.ask.2.1] else [.ask]
  | _ => []

/-- What a worker that takes a turn asks of the engine: to collect the status it has waited for. -/
def turnCalls (t : Trip) (w : Worker) : List EngineCall :=
  match w.wait with
  | .status _ asked ready _ => if ready ≤ t.now then [.collect asked] else []
  | _ => []

/-- What a step asks of the engine: what happens by itself, or a move. -/
def engineCalls (t : Trip) : Option Move → List EngineCall
  | none =>
    match t.dispatch.stack with
    | .owner s :: _ => t.stageCalls s
    | _ => []
  | some (.decide (.call (.setRoutes routes))) => if t.closed then [] else [.setRoutes routes]
  | some .work => t.worker.toList.flatMap t.turnCalls
  | some _ => []

variable {t t' : Trip}

/-- The engine after what has been asked of it. -/
def asked (t : Trip) (calls : List EngineCall) : Engine := calls.foldl EngineCall.apply t.engine

theorem asked_append (t : Trip) (calls more : List EngineCall) :
    t.asked (calls ++ more) = more.foldl EngineCall.apply (t.asked calls) := List.foldl_append

/-! ## Stages -/

@[simp] theorem engine_mapWorker (t : Trip) (g : Nat) (f : Worker → Worker) :
    (t.mapWorker g f).engine = t.engine := by
  unfold mapWorker; split <;> rfl

@[simp] theorem engine_readLine (t : Trip) (w : Worker) : (t.readLine w).1.engine = t.engine :=
  engine_mapWorker t w.generation _

theorem engine_proceed (t : Trip) (g : Nat) : (t.proceed g).engine = t.engine := by
  have h := proceeds t g
  generalize t.proceed g = u at h ⊢
  cases h with
  | rests => exact engine_mapWorker _ _ _
  | rereads w | begins w => exact (engine_mapWorker _ g _).trans (engine_readLine t w)

theorem engine_progress (t : Trip) (report : ProgressReport) (how : Tracking) :
    (t.progress report how).1.engine = t.engine := by
  obtain ⟨_, _, _, _, h, -⟩ := progress_eq t report how
  rw [h]

theorem engine_report (t : Trip) (k : Tick) (s : Status) :
    (t.run (.report k s)).engine = t.engine := by
  have h := reports t k s
  generalize t.run (.report k s) = u at h ⊢
  cases h with
  | nothing => rfl
  | unknown report | stale report | tells report => exact engine_progress t report s.tracking

theorem engine_ask (t : Trip) (k : Tick) : (t.ask k).engine = t.asked (t.stageCalls (.ask k)) := by
  unfold ask stageCalls
  by_cases hw : (t.workerOf? k.generation).isNone = true
  · simp only [hw, ↓reduceIte]
    rfl
  · simp only [hw]
    by_cases hd : t.engine.ask.2.2 = 0
    · simp only [hd, ↓reduceIte]
      rfl
    · simp only [hd, ↓reduceIte]
      by_cases hz : t.settings.polling.timeout = 0
      · simp only [hz, ↓reduceIte]
        rfl
      · simp only [hz, ↓reduceIte]
        exact engine_mapWorker _ _ _

/-- A stage does to the engine what it asks of it. -/
theorem engine_run (t : Trip) (s : Stage) : (t.run s).engine = t.asked (t.stageCalls s) := by
  cases s with
  | ask k => exact engine_ask t k
  | report k s => exact engine_report t k s
  | proceed g => exact engine_proceed t g
  | ingest k =>
    cases hfix : k.fix with
    | none =>
      simp only [run, stageCalls, hfix]
      rfl
    | some fix =>
      cases he : t.engine.ingest fix <;> simp only [run, stageCalls, hfix, he, asked] <;>
        simp [EngineCall.apply, he, Except.toOption, pushStages, count, mapDispatch]
  | announce k =>
    cases hfix : k.fix with
    | none =>
      simp only [run, hfix]
      rfl
    | some fix =>
      simp only [run, hfix, Option.isSome_some, ↓reduceIte]
      split <;> rfl
  | recompute cause =>
    simp only [run]
    split <;> split <;> rfl
  | conclude k answer =>
    cases answer with
    | ok s => rfl
    | error e =>
      simp only [run]
      split <;> rfl
  | enter | leaveOffRoute | locate | arrive =>
    simp only [run]
    split <;> rfl
  | flag k s =>
    simp only [run]
    split
    · split <;> rfl
    · rfl
  | cue k s =>
    simp only [run]
    split
    · rfl
    · split
      · rfl
      · split
        · split <;> rfl
        · rfl
  | reply | register | subscribe | forgetTrip | tally => rfl

/-! ## Steps -/

/-- **What happens by itself does to the engine what it asks of it.** -/
theorem engine_of_tick? (h : t.tick? = some t') : t'.engine = t.asked (t.engineCalls none) := by
  unfold tick? at h
  split at h
  · rename_i s below top
    cases h
    simp only [engineCalls, top]
    exact engine_run t.pop s
  · rename_i top
    cases h
    simp only [engineCalls, top]
    split <;> rfl
  · rename_i hno _
    obtain ⟨d, -, rfl⟩ := Option.map_eq_some_iff.mp h
    have hnone : t.engineCalls none = [] := by
      cases hst : t.dispatch.stack with
      | nil => simp only [engineCalls, hst]
      | cons x below =>
        cases x with
        | owner s => exact (hno s below hst).elim
        | _ => simp only [engineCalls, hst]
    rw [hnone]
    rfl

@[simp] theorem engine_mapManual (t : Trip) (f : ManualSource → ManualSource) :
    (t.mapManual f).engine = t.engine := by
  unfold mapManual; split <;> rfl

@[simp] theorem engine_send (t : Trip) (d : Delivery) : (t.send d).1.engine = t.engine := by
  unfold send
  split
  · split
    · split <;> rfl
    · rfl
  · rfl

theorem engine_start (t : Trip) : t.start.trip.engine = t.engine := by
  unfold start
  split
  · rfl
  · simp only
    split <;> rfl

/-- A call does to the engine what it asks of it, unless it tells the engine what to do next. -/
theorem engine_perform (t : Trip) {c : Call} (hc : ∀ d, c ≠ .control d) :
    (t.perform c).trip.engine = t.asked (t.engineCalls (some (.decide (.call c)))) := by
  unfold perform
  split
  · rename_i hlate
    cases c with
    | setRoutes routes =>
      have hclosed : t.closed = true := (Bool.and_eq_true_iff.mp hlate).1
      simp only [engineCalls, hclosed, ↓reduceIte]
      rfl
    | _ => rfl
  · rename_i hopen
    cases c with
    | setRoutes routes =>
      have hclosed : t.closed = false := by simpa [Call.onSession] using hopen
      simp only [engineCalls, hclosed, Bool.false_eq_true, ↓reduceIte, setRoutes]
      cases he : t.engine.setRoutes routes <;>
        simp [asked, EngineCall.apply, he, Except.toOption, mapDispatch, withFacts]
    | start => exact engine_start t
    | stop => simp only [stop]; split <;> rfl
    | close => simp only [close]; split <;> rfl
    | control d => exact absurd rfl (hc d)
    | push fix => exact (engine_send _ _).trans (engine_mapManual t _)
    | pushError cause => exact engine_send t _
    | setLastKnown | failNextStart => exact engine_mapManual t _
    | haltSource =>
      simp only [haltSource]
      split <;> exact engine_mapManual t _
    | setGuidance | setDestination | observe | unobserve | subscribe | release | detach | query =>
      rfl

/-- A worker that takes a turn does to the engine what it asks of it. -/
theorem engine_resume (t : Trip) (w : Worker) : (t.resume w).engine = t.asked (t.turnCalls w) := by
  have awake : (t.mapWorker w.generation fun w => { w with wait := .working }).engine = t.engine :=
    engine_mapWorker _ _ _
  cases hwait : w.wait with
  | status k asked ready deadline =>
    simp only [resume, turnCalls, hwait]
    split
    · show ((t.mapWorker w.generation _).engine.collect asked).1 = _
      rw [awake]
      rfl
    · exact awake
  | turn | delivery | beat | working | ended =>
    simp only [resume, turnCalls, hwait]
    exact awake

/-- **A move does to the engine what it asks of it**, unless it tells the engine what to do next. -/
theorem engine_of_move? {m : Move} (h : t.move? m = some t')
    (hm : ∀ d, m ≠ .decide (.call (.control d))) :
    t'.engine = t.asked (t.engineCalls (some m)) := by
  cases m with
  | decide d =>
    have h : t.decide? d = some t' := h
    unfold decide? at h
    split at h <;> cases h
    · rename_i caller c word
      exact engine_perform t fun d hd => hm d (by rw [hd])
    · rfl
    · rfl
  | work =>
    have h : t.work? = some t' := h
    unfold work? at h
    split at h
    · obtain ⟨w, hw, rfl⟩ := Option.map_eq_some_iff.mp h
      simp only [engineCalls, hw, Option.toList_some, List.flatMap_singleton]
      exact engine_resume t w
    · cases h
  | replay =>
    have h : t.replay? = some t' := h
    unfold replay? at h
    split at h
    · obtain ⟨⟨s, r⟩, -, rfl⟩ := Option.map_eq_some_iff.mp h
      cases t.worker <;> rfl
    · cases h
  | elapse later =>
    have h : t.elapse? later = some t' := h
    unfold elapse? at h
    split at h <;> cases h
    rfl

end Trip
end LiveTrip
