import LiveTrip.Proofs.Dispatch.Last
import LiveTrip.Proofs.Session.Boundary
import LiveTrip.Proofs.Session.Routes

/-!
# What is remembered of a trip

Ticks tell observers of the trip, and what they have told is remembered. Both may be crossed by
observers that stop the session, start it again or replace its routes.

* `Category.ofTrip`: the categories of the trip.
* `Trip.Manned`: a tick that may still tell something has its worker running.
* `Trip.Forgotten`: without a worker nothing of the trip is remembered, unless a stop has still to
  forget it.
* `Trip.Fitting`: remembered progress is along one of the active routes.
* `Trip.trip_data_only_while_running`: both hold on every run.
-/

namespace LiveTrip

/-- What is told in these categories is of the trip, and is forgotten at its end. -/
def Category.ofTrip : List Category :=
  [.rawLocation, .location, .offRoute, .instructionCues, .routeProgress]

namespace Trip

variable {t t' : Trip} {made : Option Call}

/-! ## Ticks and their workers -/

/-- A tick of the present generation has its worker running. -/
def Manned (t : Trip) : Prop :=
  ∀ k, Ticked t k → k.generation < t.generation ∨ t.outline.running = some k.generation

/-- A worker stays unless the generation advances. -/
theorem Change.running_or_advanced (h : Change t t' made) :
    t'.outline.running = t.outline.running ∨ t.generation < t'.generation := by
  cases h with
  | stage s below o top goes _ _ outline =>
    obtain ⟨_, _, _, _, ho, -⟩ := goes.outline_of
    exact .inl (by rw [outline, ho])
  | deliver _ _ _ _ _ _ _ _ outline => exact .inl (by rw [outline])
  | ends _ _ _ _ _ _ _ _ _ outline => exact .inl (by rw [outline])
  | call caller c r stages notes o word hmade performs shows =>
    have hgen : t'.generation = o.generation := congrArg Outline.generation shows.outline
    rw [shows.outline, hgen]
    cases performs with
    | refused | starts | stops | closes => exact .inr (Nat.lt_succ_self _)
    | _ => exact .inl rfl
  | turn o idle turn shows =>
    rw [shows.outline]
    cases turn <;> exact .inl rfl

theorem Change.manned (h : Change t t' made) (hs : Sound t) (hm : Manned t) : Manned t' := by
  obtain ⟨events, ha⟩ := h.adds
  have hle : t.generation ≤ t'.generation := h.advances.generation
  intro k hk
  have hbefore : k.generation < t.generation ∨ t.outline.running = some k.generation := by
    rcases ha.mem.mp hk with hk | hk
    · exact .inr (ha.ticked k hk).2.1
    · exact hm k hk
  rcases hbefore with hlt | hrun
  · exact .inl (Nat.lt_of_lt_of_le hlt hle)
  · rcases h.running_or_advanced with hsame | hlt
    · exact .inr (hsame.trans hrun)
    · exact .inl (hs.running _ hrun ▸ hlt)

/-- What is told of a tick is told while a worker is running. -/
theorem Tells.running_of_tick {f : SessionFanout} {audience : List (ObserverId × Listener)}
    (h : Tells t f audience) (hs : Sound t) (hm : Manned t) {n : Nat} (hc : f.cause = .tick n) :
    ∃ g, t.outline.running = some g := by
  obtain ⟨-, k, hk, -, hg⟩ := h.of_tick hs hc
  rcases hm k hk with hlt | hrun
  · omega
  · exact ⟨_, hrun⟩

/-! ## What is told of the trip -/

/-- Of the trip, calls tell nothing but that the session is no longer off route. -/
theorem Goes.told_of_trip {s : Stage} {o : Outcome} (h : Goes t s o) {f : SessionFanout}
    {audience : List (ObserverId × Listener)} (ho : o.told = some (f, audience))
    (hc : f.category ∈ Category.ofTrip) :
    (∃ n, f.cause = .tick n) ∨ f.cause = .replay ∨ t.dispatch.last .offRoute = some true := by
  cases h with
  | leaves set => exact .inr (.inr set)
  | registered l c | subscribed l c =>
    obtain ⟨v, id, rfl, -⟩ := owed_eq_some ho
    exact .inr (.inl rfl)
  | announces | locates | flags | cues | reports =>
    cases ho
    exact .inl ⟨_, rfl⟩
  | enters | derives =>
    cases ho
    simp [Category.ofTrip] at hc
  | _ => cases ho

/-- What is remembered of the trip after a step was told in it by a tick, or something of the trip
was remembered before. -/
theorem Change.last_of_trip (h : Change t t' made) (hd : Dispatch.Steps t.dispatch t'.dispatch)
    (hl : ∃ b, Laid b t.stack) (hs : Sound t) (hm : Manned t) {c : Category}
    (hc : c ∈ Category.ofTrip) {v : c.Value} (hv : t'.dispatch.last c = some v) :
    (∃ g, t.outline.running = some g) ∨ ∃ b ∈ Category.ofTrip, t.dispatch.last b ≠ none := by
  rcases hd.last_cases hv with ⟨n, cause, audience, events, hlog, hbegan, -⟩ | ⟨hlast, -⟩
  · have ht : Tells t ⟨n, cause, c, v⟩ audience := h.tells ⟨events, hlog, hbegan⟩
    obtain ⟨s, below, o, top, goes, ho⟩ := id ht
    rcases goes.told_of_trip ho hc with ⟨n, hcause⟩ | hcause | hset
    · exact .inl (ht.running_of_tick hs hm hcause)
    · obtain ⟨id, l, -, hlast⟩ := ht.of_replay hl hcause
      exact .inr ⟨c, hc, by rw [hlast]; simp⟩
    · exact .inr ⟨.offRoute, by simp [Category.ofTrip], by rw [hset]; simp⟩
  · exact .inr ⟨c, hc, by rw [hlast]; simp⟩

/-! ## Without a worker -/

/-- Without a worker nothing of the trip is remembered, unless a stop has still to forget it. -/
def Forgotten (t : Trip) : Prop :=
  t.closed = false → t.outline.running = none →
    .owner .forgetTrip ∈ t.stack ∨ ∀ c ∈ Category.ofTrip, t.dispatch.last c = none

/-- A worker is let go by a stop, which has then to forget the trip, or when the session is given
up. -/
theorem Change.lets_go (h : Change t t' made) (hopen : t'.closed = false)
    (hnone : t'.outline.running = none) :
    t.closed = false ∧ t.outline.running = none ∨ .owner .forgetTrip ∈ t'.stack := by
  have same {o : Outline} (ho : t'.outline = o) (hclosed : o.closed = t.closed)
      (hrun : o.running = t.outline.running) : t.closed = false ∧ t.outline.running = none := by
    have : t'.closed = o.closed := congrArg Outline.closed ho
    rw [← hclosed, ← this, ← hrun, ← ho]
    exact ⟨hopen, hnone⟩
  cases h with
  | stage s below o top goes _ _ outline =>
    obtain ⟨_, _, _, _, ho, -⟩ := goes.outline_of
    rw [ho] at outline
    exact .inl (same outline rfl rfl)
  | deliver _ _ _ _ _ _ _ _ outline => exact .inl (same outline rfl rfl)
  | ends _ _ _ _ _ _ _ _ _ outline => exact .inl (same outline rfl rfl)
  | call caller c r stages notes o word hmade performs shows =>
    have hclosed : t'.closed = o.closed := congrArg Outline.closed shows.outline
    cases performs with
    | stops =>
      right
      rw [shows.stack]
      simp
    | closes | closesIdle => rw [hclosed] at hopen; cases hopen
    | starts => rw [shows.outline] at hnone; cases hnone
    | refused | routes | guides | others => exact .inl (same shows.outline rfl rfl)
  | turn o idle turn shows =>
    cases turn <;> exact .inl (same shows.outline rfl rfl)

/-- What stands on the stack is uppermost, or stands there after a step. -/
theorem Change.mem_or_top (h : Change t t' made) {s : Stage} (hs : .owner s ∈ t.stack) :
    .owner s ∈ t'.stack ∨ ∃ below, t.stack = .owner s :: below := by
  cases hst : t.stack with
  | nil => rw [hst] at hs; cases hs
  | cons x below =>
    obtain ⟨upper, hupper⟩ := h.above hst
    rw [hst] at hs
    rcases List.mem_cons.mp hs with rfl | hs
    · exact .inr ⟨below, rfl⟩
    · exact .inl (by rw [hupper]; exact List.mem_append_right _ hs)

/-- A step runs the stage that is uppermost. -/
theorem Step.eq_of_top (h : Step t t') {s : Stage} {below : List SessionFrame}
    (top : t.stack = .owner s :: below) : t' = t.pop.run s := by
  cases h with
  | tick h => rw [tick?_of_owner top] at h; exact (Option.some.inj h).symm
  | move m h => rw [move?_of_owner top] at h; cases h

theorem Step.dispatch_steps (h : Step t t') (hl : ∃ b, Laid b t.stack) :
    Dispatch.Steps t.dispatch t'.dispatch := by
  cases h with
  | tick h => exact tick?_steps hl h
  | move m h => exact move?_steps h

theorem Step.forgotten (h : Step t t') (hl : ∃ b, Laid b t.stack) (hs : Sound t) (hm : Manned t)
    (hf : Forgotten t) : Forgotten t' := by
  intro hopen hnone
  obtain ⟨made, hc⟩ := change_of_step h
  refine Classical.or_iff_not_imp_left.mpr fun hnot c hcat => ?_
  cases hv : t'.dispatch.last c with
  | none => rfl
  | some v =>
    exfalso
    obtain ⟨hopen', hnone'⟩ := (hc.lets_go hopen hnone).resolve_right hnot
    -- Something was remembered before, so it had still to be forgotten: this is the step that does.
    have hforget : .owner .forgetTrip ∈ t.stack := by
      refine (hf hopen' hnone').resolve_right fun hall => ?_
      rcases hc.last_of_trip (h.dispatch_steps hl) hl hs hm hcat hv with ⟨g, hrun⟩ | ⟨b, hb, hlast⟩
      · rw [hrun] at hnone'
        cases hnone'
      · exact hlast (hall b hb)
    obtain ⟨below, top⟩ := (hc.mem_or_top hforget).resolve_left hnot
    rw [h.eq_of_top top, last_of_forgetTrip] at hv
    · cases hv
    · rintro rfl; simp [Category.ofTrip] at hcat
    · rintro rfl; simp [Category.ofTrip] at hcat

/-! ## Progress along an active route -/

/-- Remembered progress is along one of the active routes. -/
def Fitting (t : Trip) : Prop :=
  ∀ p, t.dispatch.last .routeProgress = some p → ∃ r ∈ t.facts.routes, r.id = p.report.route

/-- It is fitting whichever routes of these names are active. -/
theorem route_of_held {name : String} (h : t'.held = t.held) :
    (∃ r ∈ t'.facts.routes, r.id = name) ↔ ∃ r ∈ t.facts.routes, r.id = name := by
  have hids := map_id_of_bare (congrArg Held.session h)
  have hmem (rs : List Route) : (∃ r ∈ rs, r.id = name) ↔ name ∈ rs.map (·.id) := by simp
  rw [hmem, hids, ← hmem]

theorem report_of_progress {report : ProgressReport} {how : Tracking} {p : Progress}
    (h : t.progress report how = (t', some p)) : p.report = report := by
  unfold progress at h
  split at h
  · cases h
  · split at h <;> · cases h; rfl

theorem table_progress (t : Trip) (report : ProgressReport) (how : Tracking) :
    (t.progress report how).1.dispatch.table = t.dispatch.table := by
  obtain ⟨_, _, _, _, h, -⟩ := progress_eq t report how
  rw [h]

/-- Progress that is told is along an active route. -/
theorem fitting_run_report (h : Fitting t) (k : Tick) (s : Status) :
    Fitting (t.run (.report k s)) := by
  intro p hp
  rw [route_of_held (held_run t _)]
  cases hprogress : s.progress with
  | none =>
    simp only [run, hprogress] at hp
    exact h p hp
  | some report =>
    rcases progress_cases t report s.tracking with ⟨-, hq⟩ | ⟨active, u, q, hq, -⟩
    · simp only [run, hprogress, hq] at hp
      exact h p hp
    · have htable : u.dispatch.table = t.dispatch.table := by
        have := table_progress t report s.tracking
        rwa [hq] at this
      simp only [run, hprogress, hq] at hp
      split at hp
      · have hlast := Dispatch.last_publish (u.pushStages [.arrive k q.isComplete]).dispatch
          (.tick k.number) .routeProgress q
        obtain rfl : p = q := Option.some.inj (hp.symm.trans hlast)
        rw [report_of_progress hq]
        exact active
      · refine h p ?_
        have hsame : u.dispatch.last .routeProgress = t.dispatch.last .routeProgress := by
          simp only [Dispatch.last, Dispatch.registry, htable]
        exact hsame.symm.trans hp

/-- Routes that are taken leave no progress remembered. -/
theorem last_of_accepts {routes : List Route} (accepts : Accepts t routes)
    (caller : Option Listener) :
    (t.call caller (.setRoutes routes)).dispatch.last .routeProgress = none := by
  obtain ⟨hopen, engine, he⟩ := accepts_iff.mp accepts
  have hperform : t.perform (.setRoutes routes) = t.setRoutes routes := by
    simp [perform, hopen]
  show (t.perform (.setRoutes routes)).trip.dispatch.last .routeProgress = none
  rw [hperform, setRoutes_eq he]
  rfl

/-- Nothing but a report tells progress anew. -/
theorem Change.last_progress (h : Change t t' made)
    (hd : Dispatch.Steps t.dispatch t'.dispatch) (hl : ∃ b, Laid b t.stack)
    (hno : ∀ k s below, t.stack ≠ .owner (.report k s) :: below) {p : Progress}
    (hp : t'.dispatch.last .routeProgress = some p) :
    t.dispatch.last .routeProgress = some p := by
  rcases hd.last_cases hp with ⟨n, cause, audience, events, hlog, hbegan, -⟩ | ⟨hlast, -⟩
  · have ht : Tells t ⟨n, cause, .routeProgress, p⟩ audience := h.tells ⟨events, hlog, hbegan⟩
    obtain ⟨s, below, o, top, goes, ho⟩ := id ht
    cases cause with
    | tick n =>
      obtain ⟨k, status, rfl, -⟩ := (goes.route_data ho rfl).2 rfl
      exact absurd top (hno k status below)
    | replay =>
      obtain ⟨id, l, -, hlast⟩ := ht.of_replay hl rfl
      exact hlast
    | call =>
      cases goes with
      | registered l c | subscribed l c =>
        obtain ⟨v, id, hf, -⟩ := owed_eq_some ho
        cases hf
      | _ => cases ho
  · exact hlast

theorem Step.fitting (h : Step t t') (hl : ∃ b, Laid b t.stack) (hf : Fitting t) :
    Fitting t' := by
  by_cases htop : ∃ k s below, t.stack = .owner (.report k s) :: below
  · obtain ⟨k, s, below, top⟩ := htop
    rw [h.eq_of_top top]
    exact fitting_run_report (t := t.pop) hf k s
  · obtain ⟨made, hc⟩ := change_of_step h
    intro p hp
    have hlast := hc.last_progress (h.dispatch_steps hl) hl
      (fun k s below top => htop ⟨k, s, below, top⟩) hp
    rcases held_step h with hheld | ⟨caller, routes, -, accepts, rfl⟩
    · exact (route_of_held hheld).mpr (hf p hlast)
    · rw [last_of_accepts accepts] at hp
      cases hp

/-! ## The whole account -/

section Runs

variable {settings : Settings} {engine : Engine} {source : Source} {signal : Signal}
  {ms : List Move}

theorem Reaches.manned (h : Reaches (.new settings engine source signal) ms t) : Manned t :=
  h.invariant (fun _ _ _ _ hr hm hc => hc.manned hr.sound hm) fun _ hk => by cases hk

theorem forgotten_new : Forgotten (.new settings engine source signal) := fun _ _ =>
  .inr (by simp [Category.ofTrip]; exact ⟨rfl, rfl, rfl, rfl, rfl⟩)

/-- **A session without a running worker remembers nothing of a trip, and what progress it remembers
is along one of its active routes.** A worker that has come to the end of its line is the session's
until it is stopped. A session that has been given up is not asked any more. -/
theorem trip_data_only_while_running (h : Reaches (.new settings engine source signal) ms t) :
    (t.idle = true → t.closed = false → t.worker = none →
      ∀ c ∈ Category.ofTrip, t.dispatch.last c = none) ∧
    ∀ p, t.dispatch.last .routeProgress = some p →
      ∃ r ∈ t.facts.routes, r.id = p.report.route := by
  have hboth := h.induct (P := fun _ t => Forgotten t ∧ Fitting t) ⟨forgotten_new, nofun⟩
    (fun _ _ _ hr ⟨hf, hp⟩ hs => ⟨Step.forgotten (.tick hs) (hr.laid rfl) hr.sound hr.manned hf,
      Step.fitting (.tick hs) (hr.laid rfl) hp⟩)
    fun _ m _ _ hr ⟨hf, hp⟩ hs => ⟨Step.forgotten (.move m hs) (hr.laid rfl) hr.sound hr.manned hf,
      Step.fitting (.move m hs) (hr.laid rfl) hp⟩
  refine ⟨fun hidle hopen hw => ?_, hboth.2⟩
  refine (hboth.1 hopen (by simp [outline, hw])).resolve_left ?_
  rw [stack_of_idle hidle]
  exact List.not_mem_nil

end Runs

/-- A session that an observer stops from inside a tick remembers the progress of the tick before
until then, and nothing afterwards. -/
theorem trip_data_off_route :
    (∃ ms, Reaches arrivingTrip ms offRoute) ∧
    (∃ p, offRoute.dispatch.last .routeProgress = some p ∧
      ∃ r ∈ offRoute.facts.routes, r.id = p.report.route) ∧
    ∃ ms t, Reaches (offRoute.call (some (.named "a")) .stop) ms t ∧ t.idle = true ∧
      t.worker = none ∧ ∀ c ∈ Category.ofTrip, t.dispatch.last c = none := by
  obtain ⟨ms, ha⟩ := reaches_offRoute
  obtain ⟨p, hp⟩ : ∃ p, offRoute.dispatch.last .routeProgress = some p := ⟨_, rfl⟩
  obtain ⟨t, ht, hall⟩ := exists_of_play 40 (offRoute.call (some (.named "a")) .stop)
    [.decide .finish, .decide .finish, .decide .finish, .decide .finish]
    (p := fun t => t.idle && !t.closed && t.worker.isNone) rfl
  simp only [Bool.and_eq_true, Bool.not_eq_true', Option.isNone_iff_eq_none] at hall
  obtain ⟨⟨hidle, hopen⟩, hworker⟩ := hall
  have hstop : Reaches offRoute [.decide (.call .stop)] (offRoute.call (some (.named "a")) .stop) :=
    reaches_call rfl .stop
  have hrun := ha.trans (hstop.trans ht)
  exact ⟨⟨ms, ha⟩, ⟨p, hp, (trip_data_only_while_running ha).2 p hp⟩, _, t, ht, hidle, hworker,
    (trip_data_only_while_running hrun).1 hidle hopen hworker⟩

end Trip
end LiveTrip
