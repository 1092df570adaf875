import LiveTrip.Proofs.Session.TripData

/-!
# What becomes of what is remembered

The last value of a category stays until another is told, or until it is forgotten. A stop forgets
what was told of the trip, and routes that are taken forget the progress and the cues.

* `Trip.Retains`: every last value is the same, and nothing has been told anew. `Trip.Remembers`:
  that, and then one value is told.
* `Trip.remembers_run`, `Trip.retains_call`: what stages and calls do.
* `Trip.Takes`: a step, with the moves made in it. `Trip.Forgets`: the steps that forget a category.
* `Trip.Takes.recalls`: in any other step, what is remembered stays or is replaced by what is told.
* `Trip.Reaches.state_remembered`: on every run, the lifecycle state that is remembered is the
  present one.
-/

namespace LiveTrip

/-- What is told in these categories is of the routes, and is forgotten when they are replaced. -/
def Category.ofRoutes : List Category := [.routeProgress, .instructionCues]

namespace Trip

variable {t t' u : Trip}

/-! ## Nothing told, nothing forgotten -/

/-- Every last value is the same, and nothing has been told anew. -/
structure Retains (t u : Trip) : Prop where
  last : ∀ c, u.dispatch.last c = t.dispatch.last c
  log : ∃ events, u.log = events ++ t.log ∧ ∀ e ∈ events, ∀ c, e.tells? c = none

namespace Retains

theorem of_alike (table : u.dispatch.table = t.dispatch.table) (log : u.log = t.log) :
    Retains t u where
  last c := by simp only [Dispatch.last, Dispatch.registry, table]
  log := ⟨[], log, List.forall_mem_nil _⟩

theorem refl (t : Trip) : Retains t t := .of_alike rfl rfl

theorem trans (h : Retains t u) (h' : Retains u t') : Retains t t' where
  last c := (h'.last c).trans (h.last c)
  log := by
    obtain ⟨events, hlog, hquiet⟩ := h.log
    obtain ⟨events', hlog', hquiet'⟩ := h'.log
    refine ⟨events' ++ events, by rw [hlog', hlog, List.append_assoc], ?_⟩
    exact List.forall_mem_append.mpr ⟨hquiet', hquiet⟩

theorem of_dispatch (h : u.dispatch = t.dispatch) : Retains t u :=
  .of_alike (congrArg Dispatch.table h) (congrArg Dispatch.log h)

/-- Something else is changed besides. -/
theorem congr (h : Retains t u) (hd : t'.dispatch = u.dispatch) : Retains t t' :=
  h.trans (.of_dispatch hd)

theorem note (h : Retains t u) (n : Note) : Retains t (u.note n) where
  last := h.last
  log := by
    obtain ⟨events, hlog, hquiet⟩ := h.log
    refine ⟨.owner n :: events, congrArg (List.cons _) hlog, ?_⟩
    exact List.forall_mem_cons.mpr ⟨fun _ => rfl, hquiet⟩

/-- Something is noted, and nothing else is done to the dispatch. -/
theorem noted (h : Retains t u) {n : Note} (hd : t'.dispatch = u.dispatch.note n) : Retains t t' :=
  (h.note n).congr hd

theorem pushStages (h : Retains t u) (ss : List Stage) : Retains t (u.pushStages ss) :=
  h.trans (.of_alike rfl rfl)

theorem begin (h : Retains t u) (g : Nat) (scope : Scope) (fix : Option Fix) :
    Retains t (u.begin g scope fix) :=
  (h.noted (n := .ticked ⟨u.ticks, g, u.epoch, scope, fix⟩) rfl).pushStages _

end Retains

/-- A new observer is owed the last value, which tells nothing anew. -/
theorem quiet_owed (t : Trip) (l : Listener) (c : Category) :
    ∀ e ∈ ((t.owed l c).toList.map fun p => Event.began p.1 p.2 : List SessionEvent),
      ∀ b, e.tells? b = none := by
  intro e he b
  cases ho : t.owed l c with
  | none => simp [ho] at he
  | some p =>
    obtain ⟨f, audience⟩ := p
    obtain ⟨v, id, rfl, -, -⟩ := owed_eq_some ho
    simp only [ho, Option.toList_some, List.map_cons, List.map_nil, List.mem_singleton] at he
    subst he
    simp [Event.tells?]

theorem retains_register (t : Trip) (l : Listener) (c : Category) :
    Retains t (t.mapDispatch fun d => (d.register c l).1) where
  last b := Dispatch.last_register _ c l b
  log := ⟨_, (shows_register t l c).log, by simpa using quiet_owed t l c⟩

theorem retains_subscribe (t : Trip) (l : Listener) (c : Category) (slot : Slot) :
    Retains t (t.mapDispatch (·.subscribe c l slot)) where
  last b := Dispatch.last_subscribe _ c l slot b
  log := ⟨_, (shows_subscribe t l c slot).log, by simpa using quiet_owed t l c⟩

theorem retains_pop (t : Trip) : Retains t t.pop := .of_alike rfl rfl

theorem retains_finish (t : Trip) : Retains t (t.mapDispatch (·.finish)) where
  last c := Dispatch.last_finish _ c
  log := by
    have hlog : t.dispatch.finish.log = t.dispatch.log := by
      unfold Dispatch.finish
      split <;> rfl
    exact ⟨[], hlog, List.forall_mem_nil _⟩

theorem retains_fail (t : Trip) : Retains t (t.mapDispatch (·.fail)) where
  last c := Dispatch.last_fail _ c
  log := by
    show ∃ events, t.dispatch.fail.log = events ++ t.dispatch.log ∧ _
    unfold Dispatch.fail
    split
    · exact ⟨[.failed _ _ _], rfl, by simp [Event.tells?]⟩
    · exact ⟨[], rfl, List.forall_mem_nil _⟩

/-! ## Stages -/

theorem retains_readLine (t : Trip) (w : Worker) : Retains t (t.readLine w).1 :=
  (Retains.of_dispatch (dispatch_mapWorker t w.generation _)).noted
    (n := .read w.generation w.line.drain.2) rfl

theorem retains_proceed (t : Trip) (g : Nat) : Retains t (t.proceed g) := by
  have h := proceeds t g
  generalize t.proceed g = u at h ⊢
  cases h with
  | rests => exact .of_dispatch (dispatch_mapWorker _ _ _)
  | rereads w => exact ((retains_readLine t w).congr (dispatch_mapWorker _ _ _)).pushStages _
  | begins w => exact ((retains_readLine t w).congr (dispatch_mapWorker _ _ _)).begin _ _ _

theorem retains_ask (t : Trip) (k : Tick) : Retains t (t.ask k) := by
  have h := asks t k
  generalize t.ask k = u at h ⊢
  cases h with
  | orphaned => exact .refl t
  | answered => exact .of_alike rfl rfl
  | waits => exact .of_dispatch (dispatch_await _ _ _)

theorem retains_progress (t : Trip) (report : ProgressReport) (how : Tracking) :
    Retains t (t.progress report how).1 where
  last c := by simp only [Dispatch.last, Dispatch.registry, table_progress]
  log := by
    rcases progress_cases t report how with ⟨-, hp⟩ | ⟨-, u, progress, hp, hsm⟩
    · rw [hp]
      exact ⟨[], rfl, List.forall_mem_nil _⟩
    · obtain ⟨notes, -, hshows⟩ := hsm.shows
      rw [hp]
      refine ⟨notes.map .owner, hshows.log, fun e he c => ?_⟩
      obtain ⟨n, -, rfl⟩ := List.mem_map.mp he
      rfl

/-- What is remembered stays, or one value is told at the end. -/
def Remembers (t t' : Trip) : Prop :=
  Retains t t' ∨ ∃ u cause c v, Retains t u ∧ cause ≠ .replay ∧ t' = u.tell cause c v

/-- A value is told at the end. -/
theorem Retains.tell (h : Retains t u) {cause : Cause} (fresh : cause ≠ .replay) (c : Category)
    (v : c.Value) : Remembers t (u.tell cause c v) := .inr ⟨u, cause, c, v, h, fresh, rfl⟩

theorem Remembers.after (h : Remembers u t') (ht : Retains t u) : Remembers t t' := by
  rcases h with h | ⟨w, cause, c, v, h, told⟩
  · exact .inl (ht.trans h)
  · exact .inr ⟨w, cause, c, v, ht.trans h, told⟩

theorem remembers_report (t : Trip) (k : Tick) (s : Status) :
    Remembers t (t.run (.report k s)) := by
  have h := reports t k s
  generalize t.run (.report k s) = u at h ⊢
  cases h with
  | nothing => exact .inl ((Retains.refl t).pushStages _)
  | unknown report => exact .inl ((retains_progress t report s.tracking).pushStages _)
  | stale report => exact .inl ((retains_progress t report s.tracking).trans (.of_alike rfl rfl))
  | tells report => exact ((retains_progress t report s.tracking).pushStages _).tell (by simp) _ _

/-- **A stage retains what is remembered and may tell a value at the end**, unless it is the one
that forgets. -/
theorem remembers_run (t : Trip) {s : Stage} (hs : s ≠ .forgetTrip) (hr : s ≠ .recompute .replay) :
    Remembers t (t.run s) := by
  have same := Retains.refl t
  cases s with
  | reply r => exact .inl (same.note _)
  | register l c => exact .inl (retains_register t l c)
  | subscribe l c slot => exact .inl (retains_subscribe t l c slot)
  | enter s =>
    simp only [run]
    split
    · exact .inl same
    · have entered : Retains t (t.withFacts fun f => { f with state := s }) := .of_alike rfl rfl
      exact entered.tell (by simp) _ _
  | recompute cause =>
    have fresh : cause ≠ .replay := fun h => hr (by rw [h])
    simp only [run]
    split
    · refine Retains.tell ?_ fresh _ _
      split <;> exact .of_alike rfl rfl
    · refine .inl ?_
      split <;> exact .of_alike rfl rfl
  | leaveOffRoute =>
    simp only [run]
    split
    · exact same.tell (by simp) _ _
    · exact .inl same
  | forgetTrip => exact absurd rfl hs
  | announce k =>
    cases hfix : k.fix with
    | none =>
      simp only [run, hfix]
      exact .inl (same.pushStages _)
    | some fix =>
      simp only [run, hfix, Option.isSome_some, ↓reduceIte]
      split
      · exact (same.pushStages _).tell (by simp) _ _
      · exact .inl (.of_alike rfl rfl)
  | ingest k =>
    simp only [run]
    split
    · split <;> exact .inl (.of_alike rfl rfl)
    · exact .inl (same.pushStages _)
  | ask k => exact .inl (retains_ask t k)
  | conclude k answer =>
    cases answer with
    | ok s => exact .inl ((same.note _).pushStages _)
    | error e =>
      simp only [run]
      refine .inl (Retains.pushStages (.note ?_ _) _)
      split <;> exact .of_alike rfl rfl
  | locate k s =>
    simp only [run]
    split
    · exact (same.pushStages _).tell (by simp) _ _
    · exact .inl (.of_alike rfl rfl)
  | flag k s =>
    simp only [run]
    split
    · split
      · exact .inl (same.pushStages _)
      · exact (same.pushStages _).tell (by simp) _ _
    · exact .inl (.of_alike rfl rfl)
  | cue k s =>
    simp only [run]
    split
    · exact .inl (.of_alike rfl rfl)
    · split
      · exact .inl (same.pushStages _)
      · split
        · split
          · exact .inl (same.pushStages _)
          · exact (same.pushStages _).tell (by simp) _ _
        · exact .inl (.of_alike rfl rfl)
  | report k s => exact remembers_report t k s
  | arrive k complete =>
    simp only [run]
    split <;> exact .inl (.of_alike rfl rfl)
  | tally k => exact .inl (.of_alike rfl rfl)
  | proceed g => exact .inl (retains_proceed t g)

/-! ## Calls -/

theorem retains_send (h : Retains t u) (d : Delivery) : Retains t (u.send d).1 := by
  unfold send
  split
  · split
    · split
      · exact h.noted rfl
      · exact h
    · exact h
  · exact h

theorem retains_halt (t : Trip) : Retains t t.halt :=
  (Retains.refl t).noted (n := .stopped t.generation) rfl

theorem retains_start (t : Trip) : Retains t t.start.trip := by
  unfold start
  split
  · exact .refl t
  · simp only
    split
    · exact .of_alike rfl rfl
    · exact (Retains.refl t).noted (n := .started (t.generation + 1)) rfl

/-- A call retains what is remembered, unless routes are taken. -/
theorem retains_call {c : Call} (hc : ∀ routes, c = .setRoutes routes → ¬ Accepts t routes)
    (caller : Option Listener) : Retains t (t.call caller c) := by
  refine Retains.pushStages (u := (t.perform c).trip) ?_ _
  unfold perform
  split
  · exact .refl t
  · rename_i hopen
    cases c with
    | setRoutes routes =>
      cases he : t.engine.setRoutes routes with
      | error e =>
        simp only [setRoutes, he]
        exact .refl t
      | ok engine =>
        have hclosed : t.closed = false := by simpa [Call.onSession] using hopen
        exact absurd (accepts_iff.mpr ⟨hclosed, engine, he⟩) (hc routes rfl)
    | start => exact retains_start t
    | stop =>
      simp only [stop]
      split
      · exact retains_halt t
      · exact .refl t
    | close =>
      simp only [close]
      split
      · exact (retains_halt t).congr rfl
      · exact .of_alike rfl rfl
    | unobserve l c =>
      obtain ⟨-, hlog, -⟩ := Dispatch.unregisterObserver_alike t.dispatch c l
      exact ⟨fun b => Dispatch.last_unregisterObserver _ c l b, [], hlog, List.forall_mem_nil _⟩
    | release slot =>
      obtain ⟨-, hlog, -⟩ := Dispatch.release_alike t.dispatch slot
      exact ⟨fun b => Dispatch.last_release _ slot b, [], hlog, List.forall_mem_nil _⟩
    | push fix => exact retains_send (.of_dispatch (dispatch_mapManual t _)) _
    | pushError cause => exact retains_send (.refl t) _
    | setLastKnown fix => exact .of_dispatch (dispatch_mapManual t _)
    | failNextStart => exact .of_dispatch (dispatch_mapManual t _)
    | haltSource => exact .of_dispatch (haltSource_dispatch t)
    | setGuidance | setDestination | observe | subscribe | detach | query | control =>
      exact .of_alike rfl rfl

/-- Routes that are taken forget the progress and the cues, and retain the rest. -/
theorem last_call_of_accepts {routes : List Route} (accepts : Accepts t routes)
    (caller : Option Listener) (c : Category) :
    (t.call caller (.setRoutes routes)).dispatch.last c =
        (if c ∈ Category.ofRoutes then none else t.dispatch.last c) ∧
      (t.call caller (.setRoutes routes)).log = t.log := by
  obtain ⟨hopen, engine, he⟩ := accepts_iff.mp accepts
  have hperform : t.perform (.setRoutes routes) = t.setRoutes routes := by
    simp only [perform, hopen, Bool.false_and, Bool.false_eq_true, ↓reduceIte]
  simp only [call, hperform, setRoutes_eq he]
  cases c <;> exact ⟨rfl, rfl⟩

/-! ## Tasks -/

theorem retains_resume (t : Trip) (w : Worker) : Retains t (t.resume w) := by
  have awake : Retains t (t.mapWorker w.generation fun w => { w with wait := .working }) :=
    .of_dispatch (dispatch_mapWorker _ _ _)
  unfold resume
  simp only
  split
  · exact awake.begin _ _ _
  · split
    · exact awake.trans (.of_alike rfl rfl)
    · exact awake.pushStages _
  · exact awake.pushStages _

/-- A task that takes a turn, or time that passes, retains what is remembered. -/
theorem retains_task {m : Move} (hm : ∀ d, m ≠ .decide d) (h : t.move? m = some t') :
    Retains t t' := by
  cases m with
  | decide d => exact absurd rfl (hm d)
  | work =>
    have h : t.work? = some t' := h
    unfold work? at h
    split at h
    · obtain ⟨w, -, rfl⟩ := Option.map_eq_some_iff.mp h
      exact retains_resume t w
    · cases h
  | replay =>
    have h : t.replay? = some t' := h
    unfold replay? at h
    split at h
    · obtain ⟨⟨s, r⟩, -, rfl⟩ := Option.map_eq_some_iff.mp h
      cases t.worker <;> exact .of_alike rfl rfl
    · cases h
  | elapse later =>
    have h : t.elapse? later = some t' := h
    unfold elapse? at h
    split at h <;> cases h
    exact .of_alike rfl rfl

/-! ## Steps -/

/-- A step of a session, with the moves made in it. -/
inductive Takes (a : Trip) : List Move → Trip → Prop
  | tick {b : Trip} (h : a.tick? = some b) : Takes a [] b
  | move {b : Trip} {m : Move} (h : a.move? m = some b) : Takes a [m] b

variable {ms : List Move}

theorem Takes.step (h : Takes t ms t') : Step t t' := by
  cases h with
  | tick h => exact .tick h
  | move h => exact .move _ h

theorem Takes.reaches (h : Takes t ms t') : Reaches t ms t' := by
  cases h with
  | tick h => exact .tick h (.refl _)
  | move h => exact .move h (.refl _)

/-- A property of the rest of a run, by induction on the run from its start. -/
theorem Reaches.head_induct {P : Trip → List Move → Prop} (h₀ : P t' [])
    (step : ∀ a b ns ms, Takes a ns b → Reaches b ms t' → P b ms → P a (ns ++ ms))
    (h : Reaches t ms t') : P t ms := by
  induction h with
  | refl => exact h₀
  | tick hs hr ih => exact step _ _ [] _ (.tick hs) hr (ih h₀ step)
  | move hs hr ih => exact step _ _ [_] _ (.move hs) hr (ih h₀ step)

/-- A step that forgets what is told in a category, with the moves made in it: a stop forgets the
trip, or routes are taken. -/
inductive Forgets (t : Trip) (c : Category) : List Move → Trip → Prop
  | trip (below : List SessionFrame) (top : t.stack = .owner .forgetTrip :: below)
      (told : c ∈ Category.ofTrip) : Forgets t c [] (t.pop.run .forgetTrip)
  | routes (caller : Option Listener) (routes : List Route) (word : t.speaker = some caller)
      (accepts : Accepts t routes) (told : c ∈ Category.ofRoutes) :
      Forgets t c [.decide (.call (.setRoutes routes))] (t.call caller (.setRoutes routes))

/-- What becomes in a step of what is remembered in a category. -/
inductive Recalls (t : Trip) (c : Category) (ms : List Move) (t' : Trip) : Prop
  /-- It stays, and nothing is told anew. -/
  | stays (last : t'.dispatch.last c = t.dispatch.last c)
      (log : ∃ events, t'.log = events ++ t.log ∧ ∀ e ∈ events, e.tells? c = none)
  /-- A value is told anew. -/
  | told (n : Nat) (cause : Cause) (v : c.Value) (audience : List (ObserverId × Listener))
      (fresh : cause ≠ .replay) (last : t'.dispatch.last c = some v)
      (log : ∃ events, t'.log = .began ⟨n, cause, c, v⟩ audience :: (events ++ t.log) ∧
        ∀ e ∈ events, e.tells? c = none)
  | forgotten (forgets : Forgets t c ms t') (last : t'.dispatch.last c = none)
      (log : t'.log = t.log)

theorem Retains.recalls (h : Retains t t') (c : Category) : Recalls t c ms t' := by
  obtain ⟨events, hlog, hquiet⟩ := h.log
  exact .stays (h.last c) ⟨events, hlog, fun e he => hquiet e he c⟩

theorem Remembers.recalls (h : Remembers t t') (c : Category) : Recalls t c ms t' := by
  rcases h with h | ⟨u, cause, b, v, h, fresh, rfl⟩
  · exact h.recalls c
  · obtain ⟨events, hlog, hquiet⟩ := h.log
    have hbegan : (u.tell cause b v).log =
        .began ⟨u.dispatch.serial, cause, b, v⟩ (u.dispatch.registry b).entries ::
          (events ++ t.log) := congrArg (List.cons _) hlog
    by_cases hc : c = b
    · subst hc
      exact .told _ cause v _ fresh (Dispatch.last_publish _ cause c v)
        ⟨events, hbegan, fun e he => hquiet e he c⟩
    · refine .stays ((Dispatch.last_publish_of_ne _ cause hc v).trans (h.last c)) ⟨_ :: events,
        hbegan, List.forall_mem_cons.mpr ⟨?_, fun e he => hquiet e he c⟩⟩
      simp [Event.tells?, Ne.symm hc]

/-- What happens by itself retains what is remembered and may tell a value, or forgets the trip. -/
theorem recalls_of_tick? (h : t.tick? = some t') (hl : ∃ b, Laid b t.stack) (c : Category) :
    Recalls t c [] t' := by
  unfold tick? at h
  split at h
  · rename_i s below top
    cases h
    by_cases hs : s = .forgetTrip
    · subst hs
      by_cases hc : c ∈ Category.ofTrip
      · refine .forgotten (.trip below top hc) (last_of_forgetTrip _ ?_ ?_) rfl
        · rintro rfl; simp [Category.ofTrip] at hc
        · rintro rfl; simp [Category.ofTrip] at hc
      · refine .stays ?_ ⟨[], rfl, List.forall_mem_nil _⟩
        cases c <;> first | rfl | simp [Category.ofTrip] at hc
    · have hr : s ≠ .recompute .replay := by
        -- No stage derives the phase for the sake of a replay.
        rintro rfl
        obtain ⟨b, hl⟩ := hl
        rw [stack, top] at hl
        cases hl with
        | work work => simp [Stage.IsWork, Stage.tick?] at work
        | own own => exact own
      exact ((remembers_run t.pop hs hr).after (retains_pop t)).recalls c
  · cases h
    split
    · have observed (signal : Signal) : Retains t { t with signal } := .of_alike rfl rfl
      exact ((observed _).trans (retains_finish _)).recalls c
    · exact (retains_finish t).recalls c
  · obtain ⟨d, hd, rfl⟩ := Option.map_eq_some_iff.mp h
    refine Retains.recalls ⟨fun b => Dispatch.last_advance? hd b, ?_⟩ c
    obtain ⟨f, below, -, rfl⟩ | ⟨f, id, l, rest, below, -, rfl⟩ | ⟨slot, g, below, -, rfl⟩ :=
      Dispatch.advance?_cases hd
    · exact ⟨[], rfl, List.forall_mem_nil _⟩
    · exact ⟨[.delivered f id l], rfl, fun e he b => by rw [List.mem_singleton.mp he]; rfl⟩
    · obtain ⟨-, hlog, -⟩ := Dispatch.keep_alike { t.dispatch with stack := below } slot g
      exact ⟨[], hlog, List.forall_mem_nil _⟩

/-- A move retains what is remembered, unless it is a call by which routes are taken. -/
theorem recalls_of_move? {m : Move} (h : t.move? m = some t') (c : Category) :
    Recalls t c [m] t' := by
  cases m with
  | decide d =>
    have h : t.decide? d = some t' := h
    unfold decide? at h
    split at h <;> cases h
    · rename_i caller call word
      by_cases ha : ∃ routes, call = .setRoutes routes ∧ Accepts t routes
      · obtain ⟨routes, rfl, accepts⟩ := ha
        obtain ⟨hlast, hlog⟩ := last_call_of_accepts accepts caller c
        by_cases hc : c ∈ Category.ofRoutes
        · rw [if_pos hc] at hlast
          exact .forgotten (.routes caller routes word accepts hc) hlast hlog
        · rw [if_neg hc] at hlast
          exact .stays hlast ⟨[], hlog, List.forall_mem_nil _⟩
      · exact (retains_call (fun routes hr ha' => ha ⟨routes, hr, ha'⟩) caller).recalls c
    · exact (retains_finish t).recalls c
    · exact (retains_fail t).recalls c
  | work | replay | elapse => exact (retains_task (by simp) h).recalls c

/-- **In a step, what is remembered in a category stays, or is replaced by what is told, or is
forgotten.** -/
theorem Takes.recalls (h : Takes t ms t') (hl : ∃ b, Laid b t.stack) (c : Category) :
    Recalls t c ms t' := by
  cases h with
  | tick h => exact recalls_of_tick? h hl c
  | move h => exact recalls_of_move? h c

/-! ## The lifecycle state -/

/-- The lifecycle state changes where one is entered, and nowhere else. -/
theorem Change.state {made : Option Call} (h : Change t t' made) :
    t'.facts.state = t.facts.state ∨ ∃ s below, t.stack = .owner (.enter s) :: below := by
  cases h with
  | stage s below o top goes _ _ outline =>
    obtain ⟨_, _, state, _, ho, -, -, hstate, -⟩ := goes.outline_of
    rw [ho] at outline
    rcases hstate with ⟨-, hstate⟩ | rfl
    · exact .inl ((congrArg Outline.state outline).trans hstate)
    · exact .inr ⟨state, below, top⟩
  | deliver _ _ _ _ _ _ _ _ outline => exact .inl (congrArg Outline.state outline)
  | ends _ _ _ _ _ _ _ _ _ outline => exact .inl (congrArg Outline.state outline)
  | call caller c r stages notes o word hmade performs shows =>
    refine .inl ((congrArg Outline.state shows.outline).trans ?_)
    cases performs <;> rfl
  | turn o idle turn shows =>
    refine .inl ((congrArg Outline.state shows.outline).trans ?_)
    cases turn <;> rfl

/-- A lifecycle state is told anew where it is entered. -/
theorem Goes.enter_of_told {s : Stage} {o : Outcome} (h : Goes t s o) {f : SessionFanout}
    {audience : List (ObserverId × Listener)} (ho : o.told = some (f, audience))
    (fresh : f.cause ≠ .replay) (hc : f.category = .sessionState) : ∃ x, s = .enter x := by
  cases h with
  | enters s => exact ⟨s, rfl⟩
  | registered l c | subscribed l c =>
    obtain ⟨v, id, rfl, -⟩ := owed_eq_some ho
    exact absurd rfl fresh
  | derives | leaves | announces | locates | flags | cues | reports =>
    cases ho
    cases hc
  | _ => cases ho

theorem Takes.state_remembered (h : Takes t ms t') (hl : ∃ b, Laid b t.stack)
    (hlast : t.dispatch.last .sessionState = some t.facts.state) :
    t'.dispatch.last .sessionState = some t'.facts.state := by
  by_cases henter : ∃ s below, t.stack = .owner (.enter s) :: below
  · obtain ⟨s, below, top⟩ := henter
    rw [h.step.eq_of_top top]
    simp only [run]
    split
    · exact hlast
    · exact Dispatch.last_publish _ _ _ _
  · obtain ⟨made, hchange⟩ := change_of_step h.step
    rw [hchange.state.resolve_right henter]
    cases h.recalls hl .sessionState with
    | stays last => exact last.trans hlast
    | told n cause v audience fresh _ log =>
      obtain ⟨events, hlog, -⟩ := log
      obtain ⟨s, below, o, top, goes, ho⟩ := hchange.tells ⟨_ :: events, hlog, List.mem_cons_self⟩
      obtain ⟨x, rfl⟩ := goes.enter_of_told ho fresh rfl
      exact absurd ⟨x, below, top⟩ henter
    | forgotten forgets =>
      cases forgets with
      | trip _ _ told => simp [Category.ofTrip] at told
      | routes _ _ _ _ told => simp [Category.ofRoutes] at told

/-- **On every run, the lifecycle state that is remembered is the present one.** -/
theorem Reaches.state_remembered {settings : Settings} {engine : Engine} {source : Source}
    {signal : Signal} {ms : List Move} (h : Reaches (.new settings engine source signal) ms t) :
    t.dispatch.last .sessionState = some t.facts.state :=
  h.induct (P := fun _ t => t.dispatch.last .sessionState = some t.facts.state) rfl
    (fun _ _ _ hr ih hs => Takes.state_remembered (.tick hs) (hr.laid rfl) ih)
    fun _ _ _ _ hr ih hs => Takes.state_remembered (.move hs) (hr.laid rfl) ih

end Trip
end LiveTrip
