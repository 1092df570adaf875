import LiveTrip.Proofs.Dispatch.Numbers
import LiveTrip.Proofs.Session.TripData

/-!
# Observers of a session keep their numbers

* `Trip.grows_run`, `Trip.grows_perform`: whatever a stage or a call does, it gives no number twice.
* `Trip.Step.grows`: no step does.
* `Trip.Reaches.wellFormed`: on every run, numbers rise in each registry and are below the next.
-/

namespace LiveTrip.Trip

variable {t t' u : Trip}

/-- A value that is told is recorded, and nobody comes or goes. -/
theorem grows_tell (h : u.dispatch.table = t.dispatch.table) (cause : Cause) (c : Category)
    (v : c.Value) : t.dispatch.Grows (u.tell cause c v).dispatch :=
  (Dispatch.Grows.of_table h).trans (Dispatch.grows_publish u.dispatch cause c v)

@[simp] theorem table_mapWorker (t : Trip) (g : Nat) (f : Worker → Worker) :
    (t.mapWorker g f).dispatch.table = t.dispatch.table :=
  congrArg Dispatch.table (dispatch_mapWorker t g f)

theorem table_ask (t : Trip) (k : Tick) : (t.ask k).dispatch.table = t.dispatch.table := by
  have h := asks t k
  generalize t.ask k = u at h ⊢
  cases h with
  | orphaned | answered => rfl
  | waits => exact table_mapWorker _ _ _

theorem table_readLine (t : Trip) (w : Worker) :
    (t.readLine w).1.dispatch.table = t.dispatch.table :=
  table_mapWorker t w.generation _

theorem table_proceed (t : Trip) (g : Nat) : (t.proceed g).dispatch.table = t.dispatch.table := by
  have h := proceeds t g
  generalize t.proceed g = u at h ⊢
  cases h with
  | rests => exact table_mapWorker _ _ _
  | rereads w | begins w => exact (table_mapWorker _ g _).trans (table_readLine t w)

theorem grows_report (t : Trip) (k : Tick) (s : Status) :
    t.dispatch.Grows (t.run (.report k s)).dispatch := by
  have h := reports t k s
  generalize t.run (.report k s) = u at h ⊢
  cases h with
  | nothing => exact .of_table rfl
  | unknown report | stale report => exact .of_table (table_progress t report s.tracking)
  | tells report => exact grows_tell (u := pushStages _ _) (table_progress t report s.tracking) _ _ _

/-- Whatever a stage does, it gives no number twice. -/
theorem grows_run (t : Trip) (s : Stage) : t.dispatch.Grows (t.run s).dispatch := by
  cases s with
  | register l c => exact Dispatch.grows_register t.dispatch c l
  | subscribe l c slot => exact Dispatch.grows_subscribe t.dispatch c l slot
  | forgetTrip =>
    exact ((((Dispatch.grows_forget _ _).trans (Dispatch.grows_forget _ _)).trans
      (Dispatch.grows_forget _ _)).trans (Dispatch.grows_forget _ _)).trans
      (Dispatch.grows_forget _ _)
  | reply | tally => exact .of_table rfl
  | enter s =>
    simp only [run]
    split
    · exact .of_table rfl
    · exact grows_tell (u := t.withFacts _) rfl _ _ _
  | recompute cause =>
    simp only [run]
    split
    · split
      · exact grows_tell (u := (t.withFacts _).count _) rfl _ _ _
      · exact grows_tell (u := t.withFacts _) rfl _ _ _
    · split <;> exact .of_table rfl
  | leaveOffRoute =>
    simp only [run]
    split
    · exact grows_tell rfl _ _ _
    · exact .of_table rfl
  | announce k =>
    cases hfix : k.fix with
    | none =>
      simp only [run, hfix]
      exact .of_table rfl
    | some fix =>
      simp only [run, hfix, Option.isSome_some, ↓reduceIte]
      split
      · exact grows_tell (u := t.pushStages _) rfl _ _ _
      · exact .of_table rfl
  | ingest k =>
    simp only [run]
    split
    · split <;> exact .of_table rfl
    · exact .of_table rfl
  | ask k => exact .of_table (table_ask t k)
  | conclude k answer =>
    cases answer with
    | ok s => exact .of_table rfl
    | error e =>
      simp only [run]
      split <;> exact .of_table rfl
  | locate k s =>
    simp only [run]
    split
    · exact grows_tell (u := t.pushStages _) rfl _ _ _
    · exact .of_table rfl
  | flag k s =>
    simp only [run]
    split
    · split
      · exact .of_table rfl
      · exact grows_tell (u := t.pushStages _) rfl _ _ _
    · exact .of_table rfl
  | cue k s =>
    simp only [run]
    split
    · exact .of_table rfl
    · split
      · exact .of_table rfl
      · split
        · split
          · exact .of_table rfl
          · exact grows_tell (u := t.pushStages _) rfl _ _ _
        · exact .of_table rfl
  | report k s => exact grows_report t k s
  | arrive k complete =>
    simp only [run]
    split <;> exact .of_table rfl
  | proceed g => exact .of_table (table_proceed t g)

theorem table_send (t : Trip) (d : Delivery) :
    (t.send d).1.dispatch.table = t.dispatch.table := by
  unfold send
  split
  · split
    · split <;> rfl
    · rfl
  · rfl

/-- Whatever a call does at once, it gives no number twice. -/
theorem grows_perform (t : Trip) (c : Call) : t.dispatch.Grows (t.perform c).trip.dispatch := by
  unfold perform
  split
  · exact .of_table rfl
  · cases c with
    | start =>
      refine .of_table ?_
      simp only [start]
      split
      · rfl
      · split <;> rfl
    | stop =>
      simp only [stop]
      split <;> exact .of_table rfl
    | close =>
      simp only [close]
      split <;> exact .of_table rfl
    | setRoutes routes =>
      simp only [setRoutes]
      split
      · exact .of_table rfl
      · exact (Dispatch.grows_forget _ _).trans (Dispatch.grows_forget _ _)
    | unobserve l c => exact Dispatch.grows_unregisterObserver t.dispatch c l
    | release slot => exact Dispatch.grows_release t.dispatch slot
    | push fix =>
      exact .of_table ((table_send _ _).trans (congrArg Dispatch.table (dispatch_mapManual t _)))
    | pushError cause => exact .of_table (table_send t _)
    | setLastKnown fix => exact .of_table (congrArg Dispatch.table (dispatch_mapManual t _))
    | failNextStart => exact .of_table (congrArg Dispatch.table (dispatch_mapManual t _))
    | haltSource => exact .of_table (congrArg Dispatch.table (haltSource_dispatch t))
    | setGuidance | setDestination | observe | subscribe | detach | query | control =>
      exact .of_table rfl

theorem table_resume (t : Trip) (w : Worker) :
    (t.resume w).dispatch.table = t.dispatch.table := by
  have awake := table_mapWorker t w.generation fun w => { w with wait := .working }
  unfold resume
  simp only
  split
  · exact awake
  · split <;> exact awake
  · exact awake

/-- **No step gives a number twice.** -/
theorem Step.grows (h : Step t t') : t.dispatch.Grows t'.dispatch := by
  cases h with
  | tick h =>
    unfold tick? at h
    split at h
    · cases h
      exact grows_run t.pop _
    · cases h
      have finished : t.dispatch.Grows t.dispatch.finish := Dispatch.grows_finish _
      split <;> exact finished
    · obtain ⟨d, hd, rfl⟩ := Option.map_eq_some_iff.mp h
      exact Dispatch.grows_advance? _ hd
  | move m h =>
    cases m with
    | decide d =>
      have h : t.decide? d = some t' := h
      unfold decide? at h
      split at h <;> cases h
      · exact grows_perform t _
      · exact Dispatch.grows_finish _
      · exact Dispatch.grows_fail _
    | work =>
      have h : t.work? = some t' := h
      unfold work? at h
      split at h
      · obtain ⟨w, -, rfl⟩ := Option.map_eq_some_iff.mp h
        exact .of_table (table_resume t w)
      · cases h
    | replay =>
      have h : t.replay? = some t' := h
      unfold replay? at h
      split at h
      · obtain ⟨⟨s, r⟩, -, rfl⟩ := Option.map_eq_some_iff.mp h
        cases t.worker <;> exact .of_table rfl
      · cases h
    | elapse later =>
      have h : t.elapse? later = some t' := h
      unfold elapse? at h
      split at h <;> cases h
      exact .of_table rfl

theorem Reaches.wellFormed {settings : Settings} {engine : Engine} {source : Source}
    {signal : Signal} {ms : List Move} (h : Reaches (.new settings engine source signal) ms t)
    (c : Category) : (t.dispatch.registry c).WellFormed :=
  (h.steps ⟨_, .nil⟩).wellFormed (fun b => by cases b <;> exact ⟨.nil, nofun, .nil⟩) c

end LiveTrip.Trip
