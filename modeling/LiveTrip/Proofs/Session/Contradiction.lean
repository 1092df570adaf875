import LiveTrip.Proofs.Session.Boundary
import LiveTrip.Proofs.Session.Phase

/-!
# Contradictory facts

An arrival needs guidance and routes. Guidance is looked at when a tick marks the arrival, but the
routes are not: they were there when the tick told its progress, and an observer that was told it may
have cleared them. Then the arrival is marked without routes, and the tracker meets a contradiction.

* `Trip.ClearedWithin`: an observer of the progress of a tick cleared the routes, and none were taken
  since. `Trip.Reaches.routed`: a tick that is about to mark an arrival has routes, or they were
  cleared in this way.
* `Trip.Slipped`: an arrival was marked without routes.
* `Trip.contradictory_iff_cleared_within`: the whole account.
-/

namespace LiveTrip.Trip

variable {t t' t₀ a : Trip} {made : Option Call} {ms ns : List Move}

/-! ## Routes change with the epoch -/

theorem hasRoutes_of_accepts {routes : List Route} (accepts : Accepts t routes)
    (caller : Option Listener) :
    (t.call caller (.setRoutes routes)).standing.facts.hasRoutes = !routes.isEmpty := by
  obtain ⟨hopen, -⟩ := accepts_iff.mp accepts
  have hperform : t.perform (.setRoutes routes) = t.setRoutes routes := by
    simp [perform, hopen]
  have hstanding : (t.call caller (.setRoutes routes)).standing =
      (t.perform (.setRoutes routes)).trip.standing := rfl
  rw [hstanding, hperform, (standing_setRoutes accepts).1]

/-- A step that takes no routes leaves none away and adds none. -/
theorem hasRoutes_of_epoch (hs : Stands t t' made) (he : t'.epoch = t.epoch) :
    t'.standing.facts.hasRoutes = t.standing.facts.hasRoutes := by
  cases hs with
  | keeps other standing => rw [standing]
  | derives cause below top standing => rw [standing]; rfl
  | arrives k complete below top current next standing => rw [standing]; rfl
  | sets caller c facts word made sets next standing =>
    rw [standing]
    cases sets with
    | routes routes accepts =>
      rw [made, epoch_of_accepts accepts] at he
      omega
    | destination | guidance => rfl

/-- While no routes are taken, there are as many as before or none as before. -/
theorem Reaches.hasRoutes_of_epoch (h : Reaches a ns t) (he : t.epoch = a.epoch) :
    t.standing.facts.hasRoutes = a.standing.facts.hasRoutes := by
  have along {ns : List Move} {b b' : Trip} {made made' : Option Call} (hr : Reaches a ns b)
      (hc : Change b b' made) (hs : Stands b b' made')
      (ih : b.epoch = a.epoch → b.standing.facts.hasRoutes = a.standing.facts.hasRoutes)
      (he : b'.epoch = a.epoch) : b'.standing.facts.hasRoutes = a.standing.facts.hasRoutes := by
    have hbefore : a.epoch ≤ b.epoch := hr.le.2
    have hafter : b.epoch ≤ b'.epoch := hc.advances.epoch
    rw [Trip.hasRoutes_of_epoch hs (by omega)]
    exact ih (by omega)
  refine h.induct (P := fun _ b => b.epoch = a.epoch →
    b.standing.facts.hasRoutes = a.standing.facts.hasRoutes) (fun _ => rfl) ?_ ?_ he
  · intro ns b b' hr ih hs
    exact along hr (change_of_tick? hs) (stands_of_tick? hs) ih
  · intro ns m b b' hr ih hs
    obtain ⟨_, hc, -⟩ := change_of_move? hs
    obtain ⟨_, hstands, -⟩ := stands_of_move? hs
    exact along hr hc hstands ih

/-! ## Routes cleared from inside a tick -/

/-- On the run by `ms` from `t₀` to `t`, an observer that was told the progress of the tick cleared
the routes, and none were taken since. -/
def ClearedWithin (t₀ : Trip) (ms : List Move) (t : Trip) (k : Tick) : Prop :=
  ∃ a caller f rest, Made t₀ ms t a caller (.setRoutes []) ∧ Accepts a [] ∧
    .fanout f rest ∈ a.stack ∧ f.cause = .tick k.number ∧ f.category = .routeProgress ∧
    t.epoch = a.epoch + 1

theorem ClearedWithin.trans {k : Tick} (h : ClearedWithin t₀ ms t k) (hr : Reaches t ns t')
    (he : t'.epoch = t.epoch) : ClearedWithin t₀ (ms ++ ns) t' k := by
  obtain ⟨a, caller, f, rest, hm, accepts, hf, hcause, hcat, hepoch⟩ := h
  exact ⟨a, caller, f, rest, hm.trans hr, accepts, hf, hcause, hcat, he.trans hepoch⟩

/-- There are no routes then. -/
theorem ClearedWithin.hasRoutes {k : Tick} (h : ClearedWithin t₀ ms t k) :
    t.standing.facts.hasRoutes = false := by
  obtain ⟨a, caller, f, rest, ⟨before, after, -, -, -, hr⟩, accepts, -, -, -, hepoch⟩ := h
  rw [hr.hasRoutes_of_epoch (by rw [epoch_of_accepts accepts, hepoch]),
    hasRoutes_of_accepts accepts]
  rfl

/-- A tick that is about to mark an arrival has routes, or an observer of its progress has cleared
them. -/
def Routed (t₀ : Trip) (ms : List Move) (t : Trip) : Prop :=
  ∀ k complete, .owner (.arrive k complete) ∈ t.stack →
    t.standing.facts.hasRoutes = true ∨ ClearedWithin t₀ ms t k

/-- Progress is told only of an active route. -/
theorem Goes.routes_of_arrive {s : Stage} {o : Outcome} (h : Goes t s o) {k : Tick}
    {complete : Bool} (hs : .owner (.arrive k complete) ∈ o.own) :
    t.standing.facts.hasRoutes = true := by
  obtain ⟨status, rfl, -⟩ := h.report_of_arrive hs
  cases h with
  | unreported => simp at hs
  | reports _ _ report progress notes _ _ active =>
    obtain ⟨r, hr, -⟩ := active
    simpa [standing, Facts.phaseFacts] using List.ne_nil_of_mem hr

/-- What was so of a tick that is about to mark an arrival is so after a step. -/
theorem routed_of_staged (hr : Reaches t₀ ms t) (hl : ∃ b, Laid b t.stack) (hc : Change t t' made)
    {made' : Option Call} (hs : Stands t t' made') (hn : Reaches t ns t')
    (hm : ∀ c, made = some c → ns = [.decide (.call c)]) {k : Tick} {complete : Bool}
    (hk : .owner (.arrive k complete) ∈ t.stack)
    (h : t.standing.facts.hasRoutes = true ∨ ClearedWithin t₀ ms t k) :
    t'.standing.facts.hasRoutes = true ∨ ClearedWithin t₀ (ms ++ ns) t' k := by
  rcases hc.epoch with he | ⟨caller, routes, rfl, word, rfl, accepts⟩
  · rcases h with h | h
    · exact .inl ((hasRoutes_of_epoch hs he).trans h)
    · exact .inr (h.trans hn he)
  · rw [hm _ rfl]
    cases routes with
    | cons r routes => exact .inl (hasRoutes_of_accepts accepts caller)
    | nil =>
      -- It is made by an observer of what the tick has told right before: its progress.
      obtain ⟨b, hl⟩ := hl
      have word' := laid_of_speaker hl word
      obtain ⟨hb, -⟩ | ⟨hb, -⟩ | ⟨upper, f, rest, k', hst, hk', hf, hcat⟩ :=
        word'.above_work hk (.inl rfl)
      · cases hb
      · cases hb
      · cases hk'
        have hcat : f.category = .routeProgress := List.mem_singleton.mp hcat
        exact .inr ⟨t, caller, f, rest, made_call hr word, accepts, by rw [hst]; simp, hf, hcat,
          epoch_of_accepts accepts caller⟩

theorem Routed.step (h : Routed t₀ ms t) (hr : Reaches t₀ ms t) (hl : ∃ b, Laid b t.stack)
    (hc : Change t t' made) {made' : Option Call} (hs : Stands t t' made') (hn : Reaches t ns t')
    (hm : ∀ c, made = some c → ns = [.decide (.call c)]) : Routed t₀ (ms ++ ns) t' := by
  intro k complete hk
  rcases hc.work_cases hk (.inl rfl) with
    hk | ⟨s, below, o, top, goes, hk, -, ho⟩ | ⟨o, turn, hk, -⟩
  · exact routed_of_staged hr hl hc hs hn hm hk (h k complete hk)
  · obtain ⟨_, _, _, _, hout, -⟩ := goes.outline_of
    have he : t'.epoch = t.epoch := congrArg Outline.epoch (ho.trans hout)
    exact .inl ((hasRoutes_of_epoch hs he).trans (goes.routes_of_arrive hk))
  · have := turn.own_of hk
    simp at this

/-- **On every run, a tick that is about to mark an arrival has routes, or an observer of its progress
has cleared them.** -/
theorem Reaches.routed (h : Reaches t₀ ms t) (h₀ : t₀.stack = []) : Routed t₀ ms t := by
  have start : Routed t₀ [] t₀ := fun k complete hk => by rw [h₀] at hk; cases hk
  refine h.induct start (fun ms t t' hr ih hs => ?_) fun ms m t t' hr ih hs => ?_
  · simpa using ih.step hr (hr.laid h₀) (change_of_tick? hs) (stands_of_tick? hs)
      (.tick hs (.refl _)) (by simp)
  · obtain ⟨_, hc, hm⟩ := change_of_move? hs
    obtain ⟨_, hstands, -⟩ := stands_of_move? hs
    exact ih.step hr (hr.laid h₀) hc hstands (.move hs (.refl _)) fun c h => by rw [hm c h]

/-! ## An arrival without routes -/

/-- On the run by `ms` from `t₀` to `t`, a tick marked an arrival under guidance after an observer of
its progress had cleared the routes. -/
def Slipped (t₀ : Trip) (ms : List Move) (t : Trip) : Prop :=
  ∃ before m after k below, ms = before ++ after ∧ Reaches t₀ before m ∧
    m.stack = .owner (.arrive k true) :: below ∧ m.current k = true ∧ m.facts.guidance = true ∧
    ClearedWithin t₀ before m k ∧ Reaches (m.pop.run (.arrive k true)) after t

theorem Slipped.trans (h : Slipped t₀ ms t) (hr : Reaches t ns t') : Slipped t₀ (ms ++ ns) t' := by
  obtain ⟨before, m, after, k, below, rfl, hm, top, current, guidance, cleared, ht⟩ := h
  exact ⟨before, m, after ++ ns, k, below, by simp, hm, top, current, guidance, cleared,
    ht.trans hr⟩

/-- Contradictory facts have been counted, or are about to be. -/
def Contradicted (t : Trip) : Prop :=
  t.standing.facts.Contradictory ∨ t.standing.contradictions ≠ 0

/-- Where guidance is missing, there is no arrival. -/
def Guided (t : Trip) : Prop :=
  t.standing.facts.arrived = true → t.standing.facts.guidance = true

theorem Guided.step (h : Guided t) (hs : Stands t t' made) : Guided t' := by
  cases hs with
  | keeps other standing => rw [Guided, standing]; exact h
  | derives cause below top standing => rw [Guided, standing]; exact h
  | arrives k complete below top current next standing =>
    rw [Guided, standing]
    exact fun h => (Bool.and_eq_true_iff.mp h).2
  | sets caller c facts word made sets next standing =>
    rw [Guided, standing]
    cases sets with
    | destination => exact h
    | routes => intro h; cases h
    | guidance on => exact fun h => (Bool.and_eq_true_iff.mp h).2

/-- A step that makes the facts contradictory, or counts them, marks an arrival without routes. -/
theorem contradicted_step (h : Contradicted t') (hs : Stands t t' made) :
    Contradicted t ∨ ∃ k below, t.stack = .owner (.arrive k true) :: below ∧ t.current k = true ∧
      t.facts.guidance = true ∧ t.standing.facts.hasRoutes = false := by
  cases hs with
  | keeps other standing => rw [Contradicted, standing] at h; exact .inl h
  | derives cause below top standing =>
    rw [Contradicted, standing] at h
    by_cases hx : t.standing.facts.Contradictory
    · exact .inl (.inl hx)
    · simp only [Standing.derived, hx, ↓reduceIte, false_or] at h
      exact .inl (.inr h)
  | arrives k complete below top current next standing =>
    rw [Contradicted, standing] at h
    rcases h with ⟨harrived, hmissing⟩ | h
    · obtain ⟨rfl, hguidance⟩ := Bool.and_eq_true_iff.mp harrived
      refine .inr ⟨k, below, top, current, hguidance, ?_⟩
      exact Bool.eq_false_iff.mpr fun hr => hmissing ⟨hr, hguidance⟩
    · exact .inl (.inr h)
  | sets caller c facts word made sets next standing =>
    rw [Contradicted, standing] at h
    rcases h with ⟨harrived, hmissing⟩ | h
    · cases sets with
      | destination => exact .inl (.inl ⟨harrived, hmissing⟩)
      | routes => cases harrived
      | guidance on =>
        obtain ⟨hbefore, rfl⟩ := Bool.and_eq_true_iff.mp harrived
        exact .inl (.inl ⟨hbefore, fun hr => hmissing ⟨hr.1, rfl⟩⟩)
    · exact .inl (.inr h)

/-- **Facts are contradictory, or counted as such, only after an arrival without routes.** -/
theorem Reaches.slipped (h : Reaches t₀ ms t) (h₀ : t₀.stack = []) (hno : ¬ Contradicted t₀)
    (hx : Contradicted t) : Slipped t₀ ms t := by
  refine h.induct (P := fun ms t => Contradicted t → Slipped t₀ ms t) (fun h => absurd h hno) ?_ ?_
    hx
  · intro ms t t' hr ih hs hx
    rcases contradicted_step hx (stands_of_tick? hs) with
      h | ⟨k, below, top, current, guidance, hroutes⟩
    · simpa using (ih h).trans (.tick hs (.refl _))
    · -- The routes were there when the progress was told, so they were cleared since.
      have hcleared := (hr.routed h₀ k true (by rw [top]; exact List.mem_cons_self)).resolve_left
        (by simp [hroutes])
      rw [tick?_of_owner top] at hs
      cases hs
      exact ⟨ms, t, [], k, below, by simp, hr, top, current, guidance, hcleared, .refl _⟩
  · intro ms m t t' hr ih hs hx
    obtain ⟨made, hstands, -⟩ := stands_of_move? hs
    rcases contradicted_step hx hstands with h | ⟨k, below, top, -⟩
    · exact (ih h).trans (.move hs (.refl _))
    · rw [move?_of_owner top] at hs
      cases hs

/-- Contradictory facts that are taken in next are counted, and stay so. -/
theorem counted_step
    (h : Deriving t ∧ t.standing.facts.Contradictory ∨ t.standing.contradictions ≠ 0)
    (hs : Stands t t' made) : t'.standing.contradictions ≠ 0 := by
  cases hs with
  | keeps other standing =>
    rw [standing]
    exact h.resolve_left fun ⟨⟨cause, below, top⟩, _⟩ => other cause below top
  | derives cause below top standing =>
    rw [standing]
    by_cases hx : t.standing.facts.Contradictory
    · simp [Standing.derived, hx]
    · simp only [Standing.derived, hx, ↓reduceIte]
      exact h.resolve_left fun h => hx h.2
  | arrives k complete below top current next standing =>
    rw [standing]
    refine h.resolve_left fun ⟨⟨cause, below', top'⟩, _⟩ => ?_
    rw [top] at top'
    cases top'
  | sets caller c facts word made sets next standing =>
    rw [standing]
    exact h.resolve_left fun h => (InView.not_deriving (stack_of_speaker word)) h.1

/-- **After an arrival without routes, contradictory facts are counted before anyone has the word.**
-/
theorem Slipped.counted (h : Slipped t₀ ms t) (hv : InView t) : t.counters.invalidPhases ≠ 0 := by
  obtain ⟨before, m, after, k, below, -, -, top, current, guidance, cleared, ht⟩ := h
  have hcurrent : m.pop.current k = true := current
  have hfacts : (m.pop.run (.arrive k true)).standing.facts.Contradictory := by
    rw [standing_arrive hcurrent]
    exact ⟨Bool.and_eq_true_iff.mpr ⟨rfl, guidance⟩, fun ⟨hr, _⟩ => by
      rw [Standing.marked, standing_pop, cleared.hasRoutes] at hr
      cases hr⟩
  have hderiving : Deriving (m.pop.run (.arrive k true)) := by
    simp only [run, hcurrent, ↓reduceIte]
    exact ⟨_, _, rfl⟩
  have hcounted := ht.induct (P := fun _ b => Deriving b ∧ b.standing.facts.Contradictory ∨
    b.standing.contradictions ≠ 0) (.inl ⟨hderiving, hfacts⟩)
    (fun _ b b' _ ih hs => .inr (counted_step ih (stands_of_tick? hs)))
    fun _ _ b b' _ ih hs => by
      obtain ⟨made, hstands, -⟩ := stands_of_move? hs
      exact .inr (counted_step ih hstands)
  exact hcounted.resolve_left fun h => hv.not_deriving h.1

/-! ## The whole account -/

/-- **An arrival is never marked without guidance, and facts are contradictory just when one was
marked without routes: when an observer that was told the progress of a tick has cleared the routes,
and the tick marks the arrival all the same.** -/
theorem contradictory_iff_cleared_within {settings : Settings} {engine : Engine} {source : Source}
    {signal : Signal} (h : Reaches (.new settings engine source signal) ms t) :
    (t.facts.arrived = true → t.facts.guidance = true) ∧
    (¬ Slipped (.new settings engine source signal) ms t →
      (t.facts.arrived = true → t.facts.routes ≠ []) ∧ t.metrics.invalidPhases = 0) ∧
    (InView t → Slipped (.new settings engine source signal) ms t →
      t.metrics.invalidPhases ≠ 0) := by
  have hguided : Guided t := by
    refine h.induct (P := fun _ t => Guided t) (fun h => by cases h) ?_ ?_
    · intro ms t t' _ ih hs
      exact ih.step (stands_of_tick? hs)
    · intro ms m t t' _ ih hs
      obtain ⟨made, hstands, -⟩ := stands_of_move? hs
      exact ih.step hstands
  refine ⟨hguided, fun hno => ?_, fun hv hs => hs.counted hv⟩
  have hfine : ¬ Contradicted t := fun hx =>
    hno (h.slipped rfl (by simp [Contradicted, standing, Trip.new, Facts.phaseFacts,
      PhaseFacts.Contradictory]) hx)
  refine ⟨fun harrived hnone => hfine (.inl ⟨harrived, fun hr => ?_⟩), ?_⟩
  · have hr : (!t.facts.routes.isEmpty) = true := hr.1
    rw [hnone] at hr
    cases hr
  · exact Decidable.not_not.mp fun h => hfine (.inr h)

/-- A session at the end of the route: its observer is told the progress. -/
def toldOfEnd : Trip :=
  (play tick? move? 40
    [.decide (.call (.setDestination (some ⟨1, 1⟩))), .decide (.call (.setRoutes [{ id := "r" }])),
      .decide (.call (.setGuidance true)), .decide (.call (.observe (.named "a") .routeProgress)),
      .decide (.call .start), .decide (.call (.push sampleFix)), .work]
    endingTrip).get rfl

/-- The observer clears the routes, and the tick goes on to mark the arrival. -/
def clearedAtEnd : Trip :=
  (play tick? move? 40 [.decide (.call (.setRoutes [])), .decide .finish] toldOfEnd).get rfl

/-- An observer that clears the routes when it is told the progress of an arrival makes the facts
contradictory. -/
theorem contradictory_of_cleared_at_end :
    (∃ ms, Reaches endingTrip ms clearedAtEnd ∧ Slipped endingTrip ms clearedAtEnd) ∧
      clearedAtEnd.facts.arrived = true ∧ clearedAtEnd.facts.guidance = true ∧
      clearedAtEnd.facts.routes.length = 0 ∧ clearedAtEnd.metrics.invalidPhases ≠ 0 := by
  have hend := reaches_of_runs (run_of_play (b := toldOfEnd) 40 (Option.some_get _).symm)
  have hclear := reaches_of_runs (run_of_play (b := clearedAtEnd) 40 (Option.some_get _).symm)
  have h := hend.trans hclear
  have harrived : clearedAtEnd.facts.arrived = true := rfl
  obtain ⟨hguided, hfine, hcounted⟩ := contradictory_iff_cleared_within h
  have hslipped : Slipped endingTrip _ clearedAtEnd := Classical.byContradiction fun hno => by
    have hroutes := (hfine hno).1 harrived
    exact hroutes rfl
  exact ⟨⟨_, h, hslipped⟩, harrived, hguided harrived, rfl, hcounted (.inl rfl) hslipped⟩

end LiveTrip.Trip
