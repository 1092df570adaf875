import LiveTrip.Proofs.Dispatch.Account
import LiveTrip.Proofs.Session.Working
import LiveTrip.Proofs.Session.Ticks

/-!
# A session as a dispatch

Whatever a session does, its dispatch takes steps of its own, so that what holds of every dispatch
holds of sessions.

* `Trip.run_steps`, `Trip.call_steps`: what stages and calls do.
* `Trip.Reaches.steps`, `Trip.Reaches.accounted`: every run, and every fan-out on it.
-/

namespace LiveTrip.Trip

open Dispatch (Steps)

variable {t t' : Trip} {d : SessionDispatch}

/-! ## Stages -/

theorem pushOwners_steps (d : SessionDispatch) (ss : List Stage) :
    Steps d { d with stack := ss.map .owner ++ d.stack } := by
  induction ss with
  | nil => exact .refl
  | cons s ss ih =>
    exact ih.trans
      (Dispatch.Step.push { d with stack := ss.map .owner ++ d.stack } (.owner s) rfl).steps

/-- Stages are put on top. -/
theorem pushStages_steps (h : Steps d t.dispatch) (ss : List Stage) :
    Steps d (t.pushStages ss).dispatch := h.trans (pushOwners_steps _ ss)

/-- Something is noted. -/
theorem note_steps (h : Steps d t.dispatch) (n : Note) : Steps d (t.note n).dispatch :=
  h.trans (Dispatch.Step.note _ n).steps

/-- A value is told anew. -/
theorem tell_steps (h : Steps d t.dispatch) {cause : Cause} (fresh : cause ≠ .replay)
    (c : Category) (v : c.Value) : Steps d (t.tell cause c v).dispatch :=
  h.trans (Dispatch.publish_steps _ c v fresh)

/-- A tick begins. -/
theorem begin_steps (h : Steps d t.dispatch) (g : Nat) (scope : Scope) (fix : Option Fix) :
    Steps d (t.begin g scope fix).dispatch := pushStages_steps (note_steps h _) _

@[simp] theorem dispatch_await (t : Trip) (g : Nat) (wait : Wait) :
    (t.await g wait).dispatch = t.dispatch := dispatch_mapWorker _ _ _

theorem readLine_steps (t : Trip) (w : Worker) : Steps t.dispatch (t.readLine w).1.dispatch := by
  refine note_steps (t := (t.mapWorker w.generation _).count _) ?_ _
  show Steps t.dispatch (t.mapWorker w.generation _).dispatch
  rw [dispatch_mapWorker]

theorem proceed_steps (t : Trip) (g : Nat) : Steps t.dispatch (t.proceed g).dispatch := by
  have read (w : Worker) (f : Worker → Worker) :
      Steps t.dispatch ((t.readLine w).1.mapWorker g f).dispatch := by
    rw [dispatch_mapWorker]
    exact readLine_steps t w
  have h := proceeds t g
  generalize t.proceed g = u at h ⊢
  cases h with
  | rests => rw [dispatch_mapWorker]
  | rereads w f => exact pushStages_steps (read w f) _
  | begins w f => exact begin_steps (read w f) _ _ _

theorem ask_steps (t : Trip) (k : Tick) : Steps t.dispatch (t.ask k).dispatch := by
  have h := asks t k
  generalize t.ask k = u at h ⊢
  cases h with
  | orphaned => exact .refl
  | answered => exact pushOwners_steps _ _
  | waits => rw [dispatch_await]

theorem report_steps (t : Trip) (k : Tick) (s : Status) :
    Steps t.dispatch (t.run (.report k s)).dispatch := by
  cases hprogress : s.progress with
  | none =>
    simp only [run, hprogress]
    exact pushOwners_steps _ _
  | some report =>
    rcases progress_cases t report s.tracking with ⟨-, hp⟩ | ⟨-, t', progress, hp, hsm⟩
    · simp only [run, hprogress, hp]
      exact pushOwners_steps _ _
    · simp only [run, hprogress, hp]
      split
      · exact tell_steps (pushStages_steps hsm.steps _) (by simp) _ _
      · exact pushStages_steps (t := t'.discard) hsm.steps _

/-- What a stage does, it does by steps of the dispatch. -/
theorem run_steps (t : Trip) {s : Stage} (hs : s ≠ .recompute .replay) :
    Steps t.dispatch (t.run s).dispatch := by
  have stages (ss : List Stage) : Steps t.dispatch (t.pushStages ss).dispatch :=
    pushOwners_steps _ ss
  cases s with
  | reply r => exact note_steps .refl _
  | register l c => exact Dispatch.register_steps _ c l
  | subscribe l c slot => exact Dispatch.subscribe_steps _ c l slot
  | enter s =>
    simp only [run]
    split
    · exact .refl
    · exact tell_steps (t := t.withFacts fun f => { f with state := s }) .refl (by simp) _ _
  | recompute cause =>
    have fresh : cause ≠ .replay := fun h => hs (by rw [h])
    simp only [run]
    split
    · split
      · exact tell_steps (t := (t.withFacts _).count _) .refl fresh _ _
      · exact tell_steps (t := t.withFacts _) .refl fresh _ _
    · split
      · exact .refl
      · exact .refl
  | leaveOffRoute =>
    simp only [run]
    split
    · exact tell_steps .refl (by simp) _ _
    · exact .refl
  | forgetTrip =>
    exact ((((Dispatch.forget_steps _ _).trans (Dispatch.forget_steps _ _)).trans
      (Dispatch.forget_steps _ _)).trans (Dispatch.forget_steps _ _)).trans
      (Dispatch.forget_steps _ _)
  | announce k =>
    cases hfix : k.fix with
    | none =>
      simp only [run, hfix]
      exact stages _
    | some fix =>
      simp only [run, hfix, Option.isSome_some, ↓reduceIte]
      split
      · exact tell_steps (stages _) (by simp) _ _
      · exact stages _
  | ingest k =>
    simp only [run]
    split
    · split
      · exact stages _
      · exact stages _
    · exact stages _
  | ask k => exact ask_steps t k
  | conclude k answer =>
    cases answer with
    | ok s => exact pushStages_steps (note_steps .refl _) _
    | error e =>
      simp only [run]
      split
      · exact pushStages_steps (note_steps (t := t.count _) .refl _) _
      · exact pushStages_steps (note_steps .refl _) _
  | locate k s =>
    simp only [run]
    split
    · exact tell_steps (stages _) (by simp) _ _
    · exact stages _
  | flag k s =>
    simp only [run]
    split
    · split
      · exact stages _
      · exact tell_steps (stages _) (by simp) _ _
    · exact stages _
  | cue k s =>
    simp only [run]
    split
    · exact stages _
    · split
      · exact stages _
      · split
        · split
          · exact stages _
          · exact tell_steps (stages _) (by simp) _ _
        · exact stages _
  | report k s => exact report_steps t k s
  | arrive k complete =>
    simp only [run]
    split
    · exact stages _
    · exact stages _
  | tally k => exact stages _
  | proceed g => exact proceed_steps t g

/-! ## Calls -/

@[simp] theorem dispatch_mapManual (t : Trip) (f : ManualSource → ManualSource) :
    (t.mapManual f).dispatch = t.dispatch := by
  unfold mapManual; split <;> rfl

theorem send_steps (h : Steps d t.dispatch) (x : Delivery) : Steps d (t.send x).1.dispatch := by
  unfold send
  split
  · split
    · split
      · exact note_steps (t := { t with worker := _ }) h _
      · exact h
    · exact h
  · exact h

theorem halt_steps (t : Trip) : Steps t.dispatch t.halt.dispatch :=
  note_steps (t := { t.advanceGeneration with worker := none, source := t.source.stop }) .refl _

theorem start_steps (t : Trip) : Steps t.dispatch t.start.trip.dispatch := by
  unfold start
  split
  · exact .refl
  · simp only
    split
    · exact .refl
    · exact (Dispatch.Step.note _ _).steps

theorem stop_steps (t : Trip) : Steps t.dispatch t.stop.trip.dispatch := by
  unfold stop
  split
  · exact halt_steps t
  · exact .refl

theorem close_steps (t : Trip) : Steps t.dispatch t.close.trip.dispatch := by
  unfold close
  split
  · exact halt_steps t
  · exact .refl

theorem setRoutes_steps (t : Trip) (routes : List Route) :
    Steps t.dispatch (t.setRoutes routes).trip.dispatch := by
  unfold setRoutes
  split
  · exact .refl
  · exact (Dispatch.forget_steps _ _).trans (Dispatch.forget_steps _ _)

theorem haltSource_dispatch (t : Trip) : t.haltSource.dispatch = t.dispatch := by
  unfold haltSource
  simp only
  split
  · exact dispatch_mapManual t _
  · exact dispatch_mapManual t _

/-- What a call does, it does by steps of the dispatch. -/
theorem call_steps (t : Trip) (caller : Option Listener) (c : Call) :
    Steps t.dispatch (t.call caller c).dispatch := by
  refine pushStages_steps (t := (t.perform c).trip) ?_ _
  unfold perform
  split
  · exact .refl
  · cases c with
    | start => exact start_steps t
    | stop => exact stop_steps t
    | close => exact close_steps t
    | setRoutes routes => exact setRoutes_steps t routes
    | unobserve l c => exact Dispatch.unregisterObserver_steps _ c l
    | release slot => exact Dispatch.release_steps _ slot
    | detach slot => exact Dispatch.guards_steps _ _
    | push fix =>
      refine send_steps (t := t.mapManual _) ?_ _
      rw [dispatch_mapManual]
    | pushError cause => exact send_steps .refl _
    | setLastKnown fix =>
      show Steps t.dispatch (t.mapManual _).dispatch
      rw [dispatch_mapManual]
    | failNextStart =>
      show Steps t.dispatch (t.mapManual _).dispatch
      rw [dispatch_mapManual]
    | haltSource =>
      show Steps t.dispatch t.haltSource.dispatch
      rw [haltSource_dispatch]
    | setGuidance | setDestination | observe | subscribe | query | control => exact .refl

/-! ## Steps -/

theorem tick?_steps (hl : ∃ b, Laid b t.stack) (h : t.tick? = some t') :
    Steps t.dispatch t'.dispatch := by
  unfold tick? at h
  split at h
  · rename_i s below top
    cases h
    refine (Dispatch.Step.pop t.dispatch (.owner s) below top fun _ => rfl).steps.trans ?_
    have hpop : t.pop.dispatch = { t.dispatch with stack := below } := by
      simp [pop, mapDispatch, top]
    rw [← hpop]
    refine run_steps t.pop fun hs => ?_
    obtain ⟨b, hl⟩ := hl
    -- No stage derives the phase for the sake of a replay.
    rw [stack, top, hs] at hl
    cases hl with
    | work work => simp [Stage.IsWork, Stage.tick?] at work
    | own own => exact own
  · cases h
    split <;> exact Dispatch.finish_steps _
  · obtain ⟨d, hd, rfl⟩ := Option.map_eq_some_iff.mp h
    exact Dispatch.advance?_steps hd

theorem resume_steps (t : Trip) (w : Worker) : Steps t.dispatch (t.resume w).dispatch := by
  have awake : Steps t.dispatch
      (t.mapWorker w.generation fun w => { w with wait := .working }).dispatch := by
    rw [dispatch_mapWorker]
  unfold resume
  simp only
  split
  · exact begin_steps awake _ _ _
  · split
    · exact pushStages_steps (t := { t.mapWorker w.generation _ with engine := _ }) awake _
    · exact pushStages_steps awake _
  · exact pushStages_steps awake _

theorem move?_steps {m : Move} (h : t.move? m = some t') : Steps t.dispatch t'.dispatch := by
  cases m with
  | decide d =>
    have h : t.decide? d = some t' := h
    unfold decide? at h
    split at h <;> cases h
    · exact call_steps t _ _
    · exact Dispatch.finish_steps _
    · exact Dispatch.fail_steps _
  | work =>
    have h : t.work? = some t' := h
    unfold work? at h
    split at h
    · obtain ⟨w, -, rfl⟩ := Option.map_eq_some_iff.mp h
      exact resume_steps t w
    · cases h
  | replay =>
    have h : t.replay? = some t' := h
    unfold replay? at h
    split at h
    · obtain ⟨⟨s, r⟩, -, rfl⟩ := Option.map_eq_some_iff.mp h
      cases t.worker <;> exact .refl
    · cases h
  | elapse later =>
    have h : t.elapse? later = some t' := h
    unfold elapse? at h
    split at h <;> cases h
    exact .refl

/-- **What a session does on a run, it does by steps of its dispatch.** -/
theorem Reaches.steps {t₀ : Trip} {ms : List Move} (h₀ : ∃ b, Laid b t₀.stack)
    (h : Reaches t₀ ms t) : Steps t₀.dispatch t.dispatch := by
  have hboth := h.induct (P := fun _ t => (∃ b, Laid b t.stack) ∧ Steps t₀.dispatch t.dispatch)
    ⟨h₀, .refl⟩
    (fun _ _ _ _ ⟨hl, hd⟩ hs => ⟨(change_of_tick? hs).laid hl, hd.trans (tick?_steps hl hs)⟩)
    fun _ _ _ _ _ ⟨hl, hd⟩ hs => by
      obtain ⟨made, hc, -⟩ := change_of_move? hs
      exact ⟨hc.laid hl, hd.trans (move?_steps hs)⟩
  exact hboth.2

/-- On every run, every fan-out is accounted for. -/
theorem Reaches.accounted {settings : Settings} {engine : Engine} {source : Source}
    {signal : Signal} {ms : List Move} (h : Reaches (.new settings engine source signal) ms t) :
    t.dispatch.Accounted :=
  (Dispatch.Accounted.nil rfl rfl).steps (h.steps ⟨_, .nil⟩)

end LiveTrip.Trip
