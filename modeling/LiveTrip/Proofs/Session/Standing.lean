import LiveTrip.Proofs.Dispatch.Last
import LiveTrip.Proofs.Phase
import LiveTrip.Proofs.Session.Epoch
import LiveTrip.Proofs.Session.Working

/-!
# What the phase hangs on

* `Standing`: the facts that the phase depends on, the tracker, the phase told last, and the
  contradictions counted.
* `Trip.standing_run`, `Trip.standing_recompute`, `Trip.standing_arrive`: what stages do to it.
* `Trip.Sets`, `Trip.standing_perform`: the calls that set a fact, and that no others do.
* `Trip.Stands`: what a step does to the standing, one case for each way. A fact that is set is taken
  in by the tracker next.
* `Trip.stands_of_tick?`, `Trip.stands_of_move?`: every step goes one of these ways.
-/

namespace LiveTrip

/-- What the phase hangs on. -/
structure Standing where
  facts : PhaseFacts
  tracker : PhaseTracker
  /-- The phase told last. -/
  told : Option Phase
  /-- Contradictory facts counted. -/
  contradictions : Nat

namespace Standing

/-- The tracker takes the facts in, a phase that is new is told, and a contradiction is counted. -/
def derived (s : Standing) : Standing where
  facts := s.facts
  tracker := (s.tracker.update s.facts).1
  told := if (s.tracker.update s.facts).2.changed then
    some (s.tracker.update s.facts).2.phase else s.told
  contradictions := if s.facts.Contradictory then s.contradictions + 1 else s.contradictions

/-- A tick marks that its progress is complete, or that it is not. Only guidance arrives. -/
def marked (s : Standing) (complete : Bool) : Standing :=
  { s with facts := { s.facts with arrived := complete && s.facts.guidance } }

end Standing

namespace Trip

variable {t t' : Trip}

def standing (t : Trip) : Standing where
  facts := t.facts.phaseFacts
  tracker := t.facts.phase
  told := t.dispatch.last .navigationPhase
  contradictions := t.counters.invalidPhases

/-- All that makes up the standing is as it was. -/
theorem standing_congr (hf : t'.facts.phaseFacts = t.facts.phaseFacts)
    (hp : t'.facts.phase = t.facts.phase)
    (hl : t'.dispatch.last .navigationPhase = t.dispatch.last .navigationPhase)
    (hc : t'.counters.invalidPhases = t.counters.invalidPhases) : t'.standing = t.standing := by
  simp only [standing, hf, hp, hl, hc]

/-! ## What leaves it alone -/

@[simp] theorem standing_pop (t : Trip) : t.pop.standing = t.standing := rfl

@[simp] theorem standing_pushStages (t : Trip) (ss : List Stage) :
    (t.pushStages ss).standing = t.standing := rfl

@[simp] theorem standing_discard (t : Trip) : t.discard.standing = t.standing := rfl

@[simp] theorem standing_begin (t : Trip) (g : Nat) (scope : Scope) (fix : Option Fix) :
    (t.begin g scope fix).standing = t.standing := rfl

theorem standing_count (t : Trip) {f : Counters → Counters}
    (hf : ∀ c, (f c).invalidPhases = c.invalidPhases) : (t.count f).standing = t.standing :=
  standing_congr rfl rfl rfl (hf _)

@[simp] theorem standing_mapWorker (t : Trip) (g : Nat) (f : Worker → Worker) :
    (t.mapWorker g f).standing = t.standing := by
  unfold mapWorker; split <;> rfl

@[simp] theorem standing_await (t : Trip) (g : Nat) (wait : Wait) :
    (t.await g wait).standing = t.standing := standing_mapWorker _ _ _

@[simp] theorem standing_readLine (t : Trip) (w : Worker) :
    (t.readLine w).1.standing = t.standing :=
  (standing_count _ fun _ => rfl).trans (standing_mapWorker _ _ _)

theorem standing_tell_of_ne (t : Trip) (cause : Cause) {c : Category} (h : c ≠ .navigationPhase)
    (v : c.Value) : (t.tell cause c v).standing = t.standing :=
  standing_congr rfl rfl (Dispatch.last_publish_of_ne _ _ (Ne.symm h) _) rfl

/-- A phase is told. -/
theorem standing_tell_phase (t : Trip) (cause : Cause) (phase : Phase) :
    (t.tell cause .navigationPhase phase).standing = { t.standing with told := some phase } := by
  have hlast : (t.tell cause .navigationPhase phase).dispatch.last .navigationPhase = some phase :=
    Dispatch.last_publish t.dispatch cause .navigationPhase phase
  rw [standing, hlast]
  rfl

theorem standing_proceed (t : Trip) (g : Nat) : (t.proceed g).standing = t.standing := by
  have h := proceeds t g
  generalize t.proceed g = u at h ⊢
  cases h with
  | rests => exact standing_mapWorker _ _ _
  | rereads w | begins w => exact (standing_mapWorker _ g _).trans (standing_readLine t w)

theorem standing_ask (t : Trip) (k : Tick) : (t.ask k).standing = t.standing := by
  have h := asks t k
  generalize t.ask k = u at h ⊢
  cases h with
  | orphaned | answered => rfl
  | waits => exact (standing_await _ _ _).trans rfl

/-- Smoothing the congestion of a route leaves as many routes as there were. -/
theorem standing_progress (t : Trip) (report : ProgressReport) (how : Tracking) :
    (t.progress report how).1.standing = t.standing := by
  obtain ⟨signal, routes, blends, log, h, hroutes⟩ := progress_eq t report how
  have hempty : routes.isEmpty = t.facts.routes.isEmpty := by
    rcases hroutes with rfl | ⟨i, leg, -, rfl⟩
    · rfl
    · cases t.facts.routes <;> cases i <;> rfl
  rw [h]
  exact standing_congr (by simp only [Facts.phaseFacts, hempty]) rfl rfl rfl

/-! ## Stages -/

theorem standing_report (t : Trip) (k : Tick) (s : Status) :
    (t.run (.report k s)).standing = t.standing := by
  have h := reports t k s
  generalize t.run (.report k s) = u at h ⊢
  cases h with
  | nothing => rfl
  | unknown report | stale report => exact standing_progress t report s.tracking
  | tells report =>
    exact (standing_tell_of_ne _ _ (by simp) _).trans (standing_progress t report s.tracking)

/-- Stages leave the standing alone, but for the derivation of the phase and for an arrival. -/
theorem standing_run (t : Trip) {s : Stage} (derives : ∀ cause, s ≠ .recompute cause)
    (arrives : ∀ k complete, s = .arrive k complete → t.current k = false) :
    (t.run s).standing = t.standing := by
  cases s with
  | recompute cause => exact absurd rfl (derives cause)
  | arrive k complete => simp [run, arrives k complete rfl]
  | register l c =>
    exact standing_congr rfl rfl (Dispatch.last_register t.dispatch c l .navigationPhase) rfl
  | subscribe l c slot =>
    exact standing_congr rfl rfl (Dispatch.last_subscribe t.dispatch c l slot .navigationPhase) rfl
  | enter s =>
    simp only [run]
    split
    · rfl
    · exact (standing_tell_of_ne _ _ (by simp) _).trans rfl
  | leaveOffRoute =>
    simp only [run]
    split
    · exact standing_tell_of_ne _ _ (by simp) _
    · rfl
  | announce k =>
    cases hfix : k.fix with
    | none => simp only [run, hfix]; rfl
    | some fix =>
      simp only [run, hfix, Option.isSome_some, ↓reduceIte]
      split
      · exact standing_tell_of_ne _ _ (by simp) _
      · rfl
  | ingest k =>
    simp only [run]
    split
    · split <;> rfl
    · rfl
  | ask k => exact standing_ask t k
  | conclude k answer =>
    simp only [run]
    split
    · rfl
    · split <;> rfl
  | locate k s =>
    simp only [run]
    split
    · exact standing_tell_of_ne _ _ (by simp) _
    · rfl
  | flag k s =>
    simp only [run]
    split
    · split
      · rfl
      · exact standing_tell_of_ne _ _ (by simp) _
    · rfl
  | cue k s =>
    simp only [run]
    split
    · rfl
    · split
      · rfl
      · split
        · split
          · rfl
          · exact standing_tell_of_ne _ _ (by simp) _
        · rfl
  | report k s => exact standing_report t k s
  | reply | forgetTrip | tally => rfl
  | proceed g => exact standing_proceed t g

/-- Deriving the phase takes the facts in. -/
theorem standing_recompute (t : Trip) (cause : Cause) :
    (t.run (.recompute cause)).standing = t.standing.derived := by
  -- The facts are taken in and a contradiction is counted before anything is told.
  have taken : (if (t.facts.phase.update t.facts.phaseFacts).2.contradictory then
        (t.withFacts fun f => { f with phase := (t.facts.phase.update t.facts.phaseFacts).1 }).count
          fun c => { c with invalidPhases := c.invalidPhases + 1 }
      else t.withFacts fun f =>
        { f with phase := (t.facts.phase.update t.facts.phaseFacts).1 }).standing =
      { t.standing.derived with told := t.standing.told } := by
    by_cases hx : t.facts.phaseFacts.Contradictory
    · have hmet : (t.facts.phase.update t.facts.phaseFacts).2.contradictory = true :=
        decide_eq_true hx
      simp only [hmet, ↓reduceIte, Standing.derived, standing, hx]
      rfl
    · have hmet : (t.facts.phase.update t.facts.phaseFacts).2.contradictory = false :=
        decide_eq_false hx
      simp only [hmet, Bool.false_eq_true, ↓reduceIte, Standing.derived, standing, hx]
      rfl
  simp only [run]
  split
  · rename_i hc
    rw [standing_tell_phase, taken]
    simp only [Standing.derived, standing, hc, ↓reduceIte]
  · rename_i hc
    rw [taken]
    simp only [Standing.derived, standing, hc, Bool.false_eq_true, ↓reduceIte]

/-- A tick that may still tell something marks whether it has arrived. -/
theorem standing_arrive {k : Tick} (current : t.current k = true) (complete : Bool) :
    (t.run (.arrive k complete)).standing = t.standing.marked complete := by
  simp only [run, current]
  rfl

/-! ## Calls -/

/-- The calls that set a fact of the phase, and the facts that they leave. -/
inductive Sets (t : Trip) : Call → PhaseFacts → Prop
  | destination (point : Option Point) (opened : t.closed = false) :
      Sets t (.setDestination point)
        { t.facts.phaseFacts with hasDestination := point.isSome }
  | routes (routes : List Route) (accepts : Accepts t routes) :
      Sets t (.setRoutes routes)
        { t.facts.phaseFacts with hasRoutes := !routes.isEmpty, arrived := false }
  /-- Guidance that ends drops the arrival. -/
  | guidance (on : Bool) (opened : t.closed = false) :
      Sets t (.setGuidance on)
        { t.facts.phaseFacts with guidance := on, arrived := t.facts.arrived && on }

@[simp] theorem standing_mapManual (t : Trip) (f : ManualSource → ManualSource) :
    (t.mapManual f).standing = t.standing := by
  unfold mapManual; split <;> rfl

@[simp] theorem standing_send (t : Trip) (d : Delivery) : (t.send d).1.standing = t.standing := by
  unfold send
  split
  · split
    · split <;> rfl
    · rfl
  · rfl

theorem standing_haltSource (t : Trip) : t.haltSource.standing = t.standing := by
  simp only [haltSource]
  split
  · exact (standing_congr rfl rfl rfl rfl).trans (standing_mapManual t _)
  · exact standing_mapManual t _

theorem standing_start (t : Trip) : t.start.trip.standing = t.standing := by
  unfold start
  split
  · rfl
  · simp only
    split <;> rfl

theorem standing_setRoutes {routes : List Route} (accepts : Accepts t routes) :
    (t.setRoutes routes).trip.standing = { t.standing with
        facts := { t.facts.phaseFacts with hasRoutes := !routes.isEmpty, arrived := false } } ∧
      (t.setRoutes routes).stages = [.recompute .call] := by
  obtain ⟨-, engine, he⟩ := accepts_iff.mp accepts
  simp only [setRoutes, he, and_true]
  rw [standing, mapDispatch, Dispatch.last_forget_of_ne _ (by simp),
    Dispatch.last_forget_of_ne _ (by simp)]
  rfl

/-- A call sets a fact of the phase, which is then derived, or leaves the standing alone. -/
theorem standing_perform (t : Trip) (c : Call) :
    (t.perform c).trip.standing = t.standing ∨
    ∃ facts, Sets t c facts ∧ (t.perform c).trip.standing = { t.standing with facts } ∧
      (t.perform c).stages = [.recompute .call] := by
  unfold perform
  split
  · exact .inl rfl
  · rename_i hopen
    have opened : c.onSession = true → t.closed = false := by
      intro hc
      simpa [hc] using hopen
    cases c with
    | setDestination point => exact .inr ⟨_, .destination point (opened rfl), rfl, rfl⟩
    | setGuidance on => exact .inr ⟨_, .guidance on (opened rfl), rfl, rfl⟩
    | setRoutes routes =>
      cases he : t.engine.setRoutes routes with
      | error e => simp only [setRoutes, he, true_or]
      | ok engine =>
        have accepts : Accepts t routes := accepts_iff.mpr ⟨opened rfl, engine, he⟩
        exact .inr ⟨_, .routes routes accepts, standing_setRoutes accepts⟩
    | start => exact .inl (standing_start t)
    | stop => left; simp only [stop]; split <;> rfl
    | close => left; simp only [close]; split <;> rfl
    | unobserve l c =>
      exact .inl (standing_congr rfl rfl
        (Dispatch.last_unregisterObserver t.dispatch c l .navigationPhase) rfl)
    | release slot =>
      exact .inl (standing_congr rfl rfl (Dispatch.last_release t.dispatch slot .navigationPhase)
        rfl)
    | push fix => exact .inl ((standing_send _ _).trans (standing_mapManual t _))
    | pushError cause => exact .inl (standing_send t _)
    | setLastKnown fix => exact .inl (standing_mapManual t _)
    | failNextStart => exact .inl (standing_mapManual t _)
    | haltSource => exact .inl (standing_haltSource t)
    | observe | subscribe | detach | query | control => exact .inl rfl

/-! ## Steps -/

/-- What a step does to the standing, with the call that is made in it if it is one. -/
inductive Stands (t t' : Trip) : Option Call → Prop
  | keeps {made : Option Call} (other : ∀ cause below, t.stack ≠ .owner (.recompute cause) :: below)
      (standing : t'.standing = t.standing) : Stands t t' made
  /-- The phase is derived. -/
  | derives (cause : Cause) (below : List SessionFrame)
      (top : t.stack = .owner (.recompute cause) :: below)
      (standing : t'.standing = t.standing.derived) : Stands t t' none
  /-- A tick marks whether it has arrived, and derives the phase next. -/
  | arrives (k : Tick) (complete : Bool) (below : List SessionFrame)
      (top : t.stack = .owner (.arrive k complete) :: below) (current : t.current k = true)
      (next : ∃ below', t'.stack = .owner (.recompute (.tick k.number)) :: below')
      (standing : t'.standing = t.standing.marked complete) : Stands t t' none
  /-- A call sets a fact, and derives the phase next. -/
  | sets (caller : Option Listener) (c : Call) (facts : PhaseFacts)
      (word : t.speaker = some caller) (made : t' = t.call caller c) (sets : Sets t c facts)
      (next : ∃ below', t'.stack = .owner (.recompute .call) :: below')
      (standing : t'.standing = { t.standing with facts }) : Stands t t' (some c)

theorem stands_of_owner {s : Stage} {below : List SessionFrame}
    (top : t.stack = .owner s :: below) :
    Stands t (t.pop.run s) none := by
  have other (hs : ∀ cause, s ≠ .recompute cause) :
      ∀ cause below, t.stack ≠ .owner (.recompute cause) :: below := by
    intro cause below' h
    rw [top] at h
    cases h
    exact hs cause rfl
  cases s with
  | recompute cause => exact .derives cause below top (standing_recompute t.pop cause)
  | arrive k complete =>
    cases hcurrent : t.current k with
    | true =>
      have hpop : t.pop.current k = true := hcurrent
      refine .arrives k complete below top hcurrent ?_ (standing_arrive hpop complete)
      simp only [run, hpop, ↓reduceIte]
      exact ⟨_, rfl⟩
    | false =>
      exact .keeps (other (by simp)) (standing_run t.pop (by simp) fun k' _ h => by
        cases h
        exact hcurrent)
  | _ => exact .keeps (other (by simp)) (standing_run t.pop (by simp) (by simp))

theorem stands_of_tick? (h : t.tick? = some t') : Stands t t' none := by
  unfold tick? at h
  split at h
  · rename_i s below top
    cases h
    exact stands_of_owner top
  · rename_i f id below top
    cases h
    refine .keeps (by simp [stack, top]) ?_
    split <;> exact standing_congr rfl rfl (Dispatch.last_finish _ _) rfl
  · rename_i hno _
    obtain ⟨d, hd, rfl⟩ := Option.map_eq_some_iff.mp h
    exact .keeps (fun cause below top => hno _ _ top)
      (standing_congr rfl rfl (Dispatch.last_advance? hd _) rfl)

theorem stands_of_call {caller : Option Listener} (word : t.speaker = some caller) (c : Call) :
    Stands t (t.call caller c) (some c) := by
  have other : ∀ cause below, t.stack ≠ .owner (.recompute cause) :: below := by
    intro cause below top
    rcases stack_of_speaker word with h | ⟨_, _, _, _, h⟩ <;> rw [h] at top <;> cases top
  rcases standing_perform t c with h | ⟨facts, sets, h, hstages⟩
  · exact .keeps other h
  · refine .sets caller c facts word rfl sets ?_ h
    simp only [stack, call, hstages]
    exact ⟨_, rfl⟩

theorem stands_of_idle (idle : t.stack = []) (h : t'.standing = t.standing) : Stands t t' none :=
  .keeps (by simp [idle]) h

theorem standing_resume (t : Trip) (w : Worker) : (t.resume w).standing = t.standing := by
  unfold resume
  simp only
  split
  · exact (standing_begin _ _ _ _).trans (standing_mapWorker _ _ _)
  · split
    · exact (standing_congr rfl rfl rfl rfl).trans (standing_mapWorker t w.generation _)
    · exact (standing_pushStages _ _).trans (standing_mapWorker _ _ _)
  · exact (standing_pushStages _ _).trans (standing_mapWorker _ _ _)

theorem stands_of_move? {m : Move} (h : t.move? m = some t') :
    ∃ made, Stands t t' made ∧ ∀ c, made = some c → m = .decide (.call c) := by
  cases m with
  | decide d =>
    have h : t.decide? d = some t' := h
    unfold decide? at h
    split at h <;> cases h
    · exact ⟨_, stands_of_call ‹_› _, fun c hc => by cases hc; rfl⟩
    · obtain ⟨f, id, below, top⟩ := acting_of_speaker ‹_›
      exact ⟨none, .keeps (by simp [top]) (standing_congr rfl rfl (Dispatch.last_finish _ _) rfl),
        by simp⟩
    · obtain ⟨f, id, below, top⟩ := acting_of_speaker ‹_›
      exact ⟨none, .keeps (by simp [top]) (standing_congr rfl rfl (Dispatch.last_fail _ _) rfl),
        by simp⟩
  | work =>
    have h : t.work? = some t' := h
    unfold work? at h
    split at h
    · rename_i hready
      obtain ⟨w, -, rfl⟩ := Option.map_eq_some_iff.mp h
      exact ⟨none, stands_of_idle (stack_of_idle (Bool.and_eq_true_iff.mp hready).1)
        (standing_resume t w), by simp⟩
    · cases h
  | replay =>
    have h : t.replay? = some t' := h
    unfold replay? at h
    split at h
    · rename_i hready
      obtain ⟨⟨s, r⟩, -, rfl⟩ := Option.map_eq_some_iff.mp h
      refine ⟨none, stands_of_idle (stack_of_idle (Bool.and_eq_true_iff.mp hready).1) ?_, by simp⟩
      cases t.worker <;> rfl
    · cases h
  | elapse later =>
    have h : t.elapse? later = some t' := h
    unfold elapse? at h
    split at h
    · rename_i hready
      cases h
      exact ⟨none, stands_of_idle (stack_of_idle (Bool.and_eq_true_iff.mp hready).1) rfl, by simp⟩
    · cases h

end Trip
end LiveTrip
