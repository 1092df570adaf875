import LiveTrip.Proofs.Session.Standing

/-!
# The phase of a session

A fact that is set is taken in by the tracker before anyone gets the word, so whoever looks finds the
phase up to date. An arrival is latched, and only a call that clears the destination or the routes
ends it.

* `Trip.InView`: someone other than the session has the word: the outside or a listener.
* `Trip.UpToDate`: the phase told last is the current one, and the facts are taken in, unless that
  comes next. `Trip.Reaches.upToDate`: this holds on every run.
* `Standing.Arrived`: arrival is reached and latched. `Trip.Clears`: the calls that end it.
* `Trip.Reaches.arrived_or_cleared`: an arrival is held until such a call is made.
* `Trip.phase_up_to_date`: the whole account.
-/

namespace LiveTrip

namespace Standing

variable {s : Standing}

/-- A phase that is derived is told unless it was told before. -/
theorem derived_told (h : s.told = some s.tracker.current) :
    s.derived.told = some s.derived.tracker.current := by
  cases hc : (s.tracker.update s.facts).2.changed with
  | true => simp [derived, hc]
  | false =>
    have hcurrent := PhaseTracker.current_of_unchanged hc
    simp [derived, hc, hcurrent, h]

/-- Arrival is reached and latched, and nothing is missing for it. -/
structure Arrived (s : Standing) : Prop where
  phase : s.tracker.current = .arrival
  latched : s.tracker.latched = true
  destination : s.facts.hasDestination = true
  routes : s.facts.hasRoutes = true

theorem arrived_of_settled (h : s.tracker.Settled s.facts) (ha : s.tracker.current = .arrival) :
    s.Arrived := by
  obtain ⟨latched, destination, routes⟩ := h.latched ha
  exact ⟨ha, latched, destination, routes⟩

theorem Arrived.derived (h : s.Arrived) : s.derived.Arrived := by
  obtain ⟨phase, latched⟩ := PhaseTracker.update_of_latched h.latched h.destination h.routes
  exact ⟨phase, latched, h.destination, h.routes⟩

theorem Arrived.marked (h : s.Arrived) (complete : Bool) : (s.marked complete).Arrived :=
  ⟨h.phase, h.latched, h.destination, h.routes⟩

end Standing

namespace Trip

variable {t t' : Trip} {made : Option Call}

/-! ## Who can look -/

/-- Someone other than the session has the word: the outside while nothing is going on, or a
listener that is told something. -/
def InView (t : Trip) : Prop :=
  t.stack = [] ∨ ∃ f id l below, t.stack = .acting f id l :: below

/-- The phase is derived next. -/
def Deriving (t : Trip) : Prop := ∃ cause below, t.stack = .owner (.recompute cause) :: below

theorem InView.not_deriving (h : InView t) : ¬ Deriving t := by
  rintro ⟨cause, below, top⟩
  rcases h with h | ⟨f, id, l, below', h⟩ <;> rw [h] at top <;> cases top

/-! ## The phase is up to date -/

/-- The phase told last is the current one, and the facts are taken in, unless that comes next. -/
structure UpToDate (t : Trip) : Prop where
  told : t.standing.told = some t.standing.tracker.current
  settled : Deriving t ∨ t.standing.tracker.Settled t.standing.facts

theorem UpToDate.new (settings : Settings) (engine : Engine) (source : Source) (signal : Signal) :
    (Trip.new settings engine source signal).UpToDate where
  told := rfl
  settled := .inr ⟨rfl, rfl⟩

/-- A step takes the facts in or leaves them, or has them taken in next. -/
theorem UpToDate.step (h : UpToDate t) (hs : Stands t t' made) : UpToDate t' := by
  cases hs with
  | keeps other standing =>
    have hsettled := h.settled.resolve_left fun ⟨cause, below, top⟩ => other cause below top
    exact ⟨by rw [standing]; exact h.told, .inr (by rw [standing]; exact hsettled)⟩
  | derives cause below top standing =>
    refine ⟨by rw [standing]; exact Standing.derived_told h.told, .inr ?_⟩
    rw [standing]
    exact PhaseTracker.settled_update _ _
  | arrives k complete below top current next standing =>
    obtain ⟨below', hnext⟩ := next
    exact ⟨by rw [standing]; exact h.told, .inl ⟨_, below', hnext⟩⟩
  | sets caller c facts word made sets next standing =>
    obtain ⟨below', hnext⟩ := next
    exact ⟨by rw [standing]; exact h.told, .inl ⟨_, below', hnext⟩⟩

section Runs

variable {settings : Settings} {engine : Engine} {source : Source} {signal : Signal}
  {ms ns : List Move}

/-- **On every run, the phase is up to date, unless it is derived next.** -/
theorem Reaches.upToDate (h : Reaches (.new settings engine source signal) ms t) : UpToDate t := by
  refine h.induct (P := fun _ t => UpToDate t) (.new settings engine source signal) ?_ ?_
  · intro ms t t' _ ih hs
    exact ih.step (stands_of_tick? hs)
  · intro ms m t t' _ ih hs
    obtain ⟨made, hstands, -⟩ := stands_of_move? hs
    exact ih.step hstands

end Runs

/-! ## Arrival is held -/

/-- The calls that end an arrival: the destination is cleared, or an empty set of routes is taken. -/
def Clears (t : Trip) (c : Call) : Prop :=
  c = .setDestination none ∧ t.closed = false ∨ c = .setRoutes [] ∧ Accepts t []

/-- An arrival is held in a step unless the step is a call that ends it. -/
theorem arrived_step (h : t.standing.Arrived) (hs : Stands t t' made) :
    t'.standing.Arrived ∨
      ∃ caller c, made = some c ∧ t.speaker = some caller ∧ t' = t.call caller c ∧ Clears t c := by
  cases hs with
  | keeps other standing => rw [standing]; exact .inl h
  | derives cause below top standing => rw [standing]; exact .inl h.derived
  | arrives k complete below top current next standing =>
    rw [standing]
    exact .inl (h.marked complete)
  | sets caller c facts word made sets next standing =>
    rw [standing]
    cases sets with
    | destination point opened =>
      cases point with
      | none => exact .inr ⟨caller, _, rfl, word, made, .inl ⟨rfl, opened⟩⟩
      | some point => exact .inl ⟨h.phase, h.latched, rfl, h.routes⟩
    | routes routes accepts =>
      cases routes with
      | nil => exact .inr ⟨caller, _, rfl, word, made, .inr ⟨rfl, accepts⟩⟩
      | cons r routes => exact .inl ⟨h.phase, h.latched, h.destination, rfl⟩
    | guidance on opened => exact .inl ⟨h.phase, h.latched, h.destination, h.routes⟩

/-- **An arrival is held until a call that ends it is made.** -/
theorem Reaches.arrived_or_cleared {ns : List Move} (h : Reaches t ns t')
    (ha : t.standing.Arrived) :
    t'.standing.Arrived ∨ ∃ a caller c, Made t ns t' a caller c ∧ Clears a c := by
  refine h.induct (P := fun ns t' => t'.standing.Arrived ∨
    ∃ a caller c, Made t ns t' a caller c ∧ Clears a c) (.inl ha) ?_ ?_
  · rintro ns b b' hr (hb | ⟨a, caller, c, hmade, hclears⟩) hs
    · rcases arrived_step hb (stands_of_tick? hs) with h | ⟨caller, c, hnone, -⟩
      · exact .inl h
      · cases hnone
    · have hmade' := hmade.trans (.tick hs (.refl _))
      rw [List.append_nil] at hmade'
      exact .inr ⟨a, caller, c, hmade', hclears⟩
  · rintro ns m b b' hr (hb | ⟨a, caller, c, hmade, hclears⟩) hs
    · obtain ⟨made, hstands, hm⟩ := stands_of_move? hs
      rcases arrived_step hb hstands with h | ⟨caller, c, rfl, word, rfl, hclears⟩
      · exact .inl h
      · rw [hm c rfl]
        exact .inr ⟨b, caller, c, made_call hr word, hclears⟩
    · exact .inr ⟨a, caller, c, hmade.trans (.move hs (.refl _)), hclears⟩

/-! ## The whole account -/

/-- **Whenever the outside or a listener has the word, the phase is the one told last, and the facts
make for no other. Once it is arrival, it stays so until the destination is cleared or an empty set
of routes is taken.** -/
theorem phase_up_to_date {settings : Settings} {engine : Engine} {source : Source} {signal : Signal}
    {ms : List Move} (h : Reaches (.new settings engine source signal) ms t) (hv : InView t) :
    t.dispatch.last .navigationPhase = some t.facts.phase.current ∧
    (t.facts.phase.update t.facts.phaseFacts).2.phase = t.facts.phase.current ∧
    (t.facts.phase.current = .arrival → ∀ ns t', Reaches t ns t' →
      t'.facts.phase.current = .arrival ∨
        ∃ a caller c, Made t ns t' a caller c ∧ Clears a c) := by
  have hup := h.upToDate
  have hsettled := hup.settled.resolve_left hv.not_deriving
  refine ⟨hup.told, hsettled.phase, fun ha ns t' hr => ?_⟩
  rcases hr.arrived_or_cleared (Standing.arrived_of_settled hsettled ha) with h | h
  · exact .inl h.phase
  · exact .inr h

/-- A session whose first fix is at the end of the route. -/
def endingTrip : Trip :=
  scripted [
    { location := sampleLocation, tracking := .complete, progress := some ⟨"r", 0, 0, 0, 0, 0, 0⟩ }]

/-- A tick of it arrives, and an observer is told so. -/
def toldOfArrival : Trip :=
  (play tick? move? 40
    [.decide (.call (.setDestination (some ⟨1, 1⟩))), .decide (.call (.setRoutes [{ id := "r" }])),
      .decide (.call (.setGuidance true)),
      .decide (.call (.observe (.named "a") .navigationPhase)), .decide .finish,
      .decide (.call .start), .decide (.call (.push sampleFix)), .work]
    endingTrip).get rfl

/-- The observer ends guidance, stops the session and starts it again. -/
def restartedAfterArrival : Trip :=
  (play tick? move? 40
    [.decide (.call (.setGuidance false)), .decide (.call .stop), .decide (.call .start)]
    toldOfArrival).get rfl

/-- Then it clears the destination, and is told of the free drive. -/
def clearedAfterArrival : Trip :=
  (play tick? move? 40 [.decide (.call (.setDestination none))] restartedAfterArrival).get rfl

/-- An observer that is told of the arrival finds the phase up to date, and finds it so after it has
ended guidance and restarted the session. Only when it clears the destination the phase changes. -/
theorem phase_up_to_date_of_arrival :
    (∃ ms, Reaches endingTrip ms toldOfArrival) ∧ InView toldOfArrival ∧
      toldOfArrival.dispatch.last .navigationPhase = some .arrival ∧
      restartedAfterArrival.facts.phase.current = .arrival ∧
      restartedAfterArrival.facts.phaseFacts = ⟨true, true, false, false⟩ ∧
      clearedAfterArrival.facts.phase.current = .freeDrive ∧
      ∃ ns a caller c, Made restartedAfterArrival ns clearedAfterArrival a caller c ∧
        Clears a c := by
  have h := reaches_of_runs (run_of_play (b := toldOfArrival) 40 (Option.some_get _).symm)
  have hrestart :=
    reaches_of_runs (run_of_play (b := restartedAfterArrival) 40 (Option.some_get _).symm)
  have hclear :=
    reaches_of_runs (run_of_play (b := clearedAfterArrival) 40 (Option.some_get _).symm)
  have hword : toldOfArrival.speaker = some (some (.named "a")) := rfl
  have hword' : restartedAfterArrival.speaker = some (some (.named "a")) := rfl
  have hview : InView toldOfArrival := stack_of_speaker hword
  have hview' : InView restartedAfterArrival := stack_of_speaker hword'
  obtain ⟨htold, -, -⟩ := phase_up_to_date h hview
  obtain ⟨-, -, hstays⟩ := phase_up_to_date (h.trans hrestart) hview'
  have hcleared : clearedAfterArrival.facts.phase.current = .freeDrive := rfl
  have hmade := (hstays rfl _ _ hclear).resolve_left (by simp [hcleared])
  exact ⟨⟨_, h⟩, hview, htold, rfl, rfl, hcleared, _, hmade⟩

end Trip
end LiveTrip
