import LiveTrip.Proofs.Session.Ticks

/-!
# Route data of replaced routes

A tick's route data holds for the routes of the epoch in which it began. The epoch is compared
before the cues, so data of earlier routes takes effect only where an observer replaces them after
that: when it is told the cues or the progress of the very tick.

* `Trip.Accepts`: the session takes new routes.
* `Trip.ReplacedWithin`: routes were replaced from inside a fan-out of a tick.
* `Trip.InTime`: what is left to do of a tick is of the present epoch, or routes were replaced from
  inside its fan-outs. `Trip.Reaches.inTime`: this holds on every run.
* `Trip.stale_route_data_iff_replaced_within`: the whole account.
-/

namespace LiveTrip.Trip

variable {t t' t₀ : Trip} {made : Option Call} {ms : List Move}

/-! ## New routes -/

/-- Routes offered now are taken. -/
def Accepts (t : Trip) (routes : List Route) : Prop :=
  (t.perform (.setRoutes routes)).answer = .done

theorem accepts_iff {routes : List Route} :
    Accepts t routes ↔ t.closed = false ∧ ∃ engine, t.engine.setRoutes routes = .ok engine := by
  unfold Accepts perform setRoutes
  cases hc : t.closed <;> cases he : t.engine.setRoutes routes <;> simp [Call.onSession, he]

/-- New routes that are taken advance the epoch. -/
theorem epoch_of_accepts {routes : List Route} (h : Accepts t routes) (caller : Option Listener) :
    (t.call caller (.setRoutes routes)).epoch = t.epoch + 1 := by
  obtain ⟨hopen, engine, he⟩ := accepts_iff.mp h
  obtain ⟨r, stages, notes, o, performs, shows⟩ := call_performs t caller (.setRoutes routes)
  have hepoch : (t.call caller (.setRoutes routes)).epoch = o.epoch :=
    congrArg Outline.epoch shows.outline
  cases performs with
  | routes => exact hepoch
  | others _ _ _ _ spares =>
    rcases spares with h | ⟨e, h⟩
    · rw [hopen] at h; cases h
    · rw [he] at h; cases h

/-- The epoch advances when new routes are taken, and at no other time. -/
theorem Change.epoch (h : Change t t' made) :
    t'.epoch = t.epoch ∨ ∃ caller routes, made = some (.setRoutes routes) ∧
      t.speaker = some caller ∧ t' = t.call caller (.setRoutes routes) ∧ Accepts t routes := by
  cases h with
  | stage s below o top goes stack log outline =>
    obtain ⟨pending, ticks, state, arrived, ho, -⟩ := goes.outline_of
    rw [ho] at outline
    exact .inl (congrArg Outline.epoch outline)
  | deliver _ _ _ _ _ _ _ _ outline => exact .inl (congrArg Outline.epoch outline)
  | ends _ _ _ _ _ _ _ _ _ outline => exact .inl (congrArg Outline.epoch outline)
  | call caller c r stages notes o word hmade performs shows =>
    have hepoch : t'.epoch = o.epoch := congrArg Outline.epoch shows.outline
    cases performs with
    | routes routes engine opened accepted =>
      exact .inr ⟨caller, routes, rfl, word, hmade, accepts_iff.mpr ⟨opened, engine, accepted⟩⟩
    | _ => exact .inl hepoch
  | turn o idle turn shows =>
    have hepoch : t'.epoch = o.outline.epoch := congrArg Outline.epoch shows.outline
    cases turn <;> exact .inl hepoch

/-- On the run by `ms` from `t₀` to `t`, an observer that was told something of these categories by
the tick replaced the routes. -/
def ReplacedWithin (t₀ : Trip) (ms : List Move) (t : Trip) (k : Tick) (cs : List Category) : Prop :=
  ∃ a caller routes f rest, Made t₀ ms t a caller (.setRoutes routes) ∧ Accepts a routes ∧
    .fanout f rest ∈ a.stack ∧ f.cause = .tick k.number ∧ f.category ∈ cs

theorem ReplacedWithin.trans {k : Tick} {cs : List Category} {ns : List Move}
    (h : ReplacedWithin t₀ ms t k cs) (hr : Reaches t ns t') :
    ReplacedWithin t₀ (ms ++ ns) t' k cs := by
  obtain ⟨a, caller, routes, f, rest, hm, h⟩ := h
  exact ⟨a, caller, routes, f, rest, hm.trans hr, h⟩

theorem ReplacedWithin.mono {k : Tick} {cs ds : List Category} (h : ReplacedWithin t₀ ms t k cs)
    (hcs : ∀ c ∈ cs, c ∈ ds) : ReplacedWithin t₀ ms t k ds := by
  obtain ⟨a, caller, routes, f, rest, hm, ha, hf, hc, hcat⟩ := h
  exact ⟨a, caller, routes, f, rest, hm, ha, hf, hc, hcs _ hcat⟩

/-- Routes replaced while a stage of a tick waits on the stack are replaced by an observer of what
the tick has told right before. -/
theorem replacedWithin_of_call (hr : Reaches t₀ ms t) (hl : ∃ b, Laid b t.stack) {s : Stage}
    {k : Tick} (hs : .owner s ∈ t.stack) (hk : s.tick? = some k) {caller : Option Listener}
    {routes : List Route} (word : t.speaker = some caller) (accepts : Accepts t routes) :
    ReplacedWithin t₀ (ms ++ [.decide (.call (.setRoutes routes))])
      (t.call caller (.setRoutes routes)) k s.after := by
  obtain ⟨b, hl⟩ := hl
  obtain ⟨hb, -⟩ | ⟨hb, -⟩ | ⟨upper, f, rest, k', hst, hk', hf, hcat⟩ :=
    (laid_of_speaker hl word).above_work hs (Stage.isWork_of_tick? hk)
  · cases hb
  · cases hb
  · rw [hk] at hk'
    cases hk'
    exact ⟨t, caller, routes, f, rest, made_call hr word, accepts, by rw [hst]; simp, hf, hcat⟩

/-! ## Data that is in time -/

/-- What is left to do of a tick after its cues is of the present epoch, or the routes were replaced
by an observer of its cues or its progress. -/
structure InTime (t₀ : Trip) (ms : List Move) (t : Trip) : Prop where
  report : ∀ k s, .owner (.report k s) ∈ t.stack → s.progress.isSome || s.cues.isSome →
    k.epoch = t.epoch ∨ ReplacedWithin t₀ ms t k [.instructionCues]
  arrive : ∀ k complete, .owner (.arrive k complete) ∈ t.stack →
    k.epoch = t.epoch ∨ ReplacedWithin t₀ ms t k [.instructionCues, .routeProgress]

/-- A report that is put on the stack has passed the check of the epoch. -/
theorem Goes.epoch_of_report {s' s : Stage} {o : Outcome} {k : Tick} {status : Status}
    (h : Goes t s' o) (hs : .owner s ∈ o.own) (hr : s = .report k status)
    (data : status.progress.isSome || status.cues.isSome) : k.epoch = t.epoch := by
  subst hr
  cases h with
  | cues _ _ _ _ epoch =>
    cases List.mem_singleton.mp hs
    exact epoch
  | cued _ _ epoch =>
    cases List.mem_singleton.mp hs
    exact epoch data
  | locates k' =>
    have := List.mem_singleton.mp hs
    by_cases hscope : k'.scope = .full <;> simp [hscope] at this
  | _ => simp at hs

/-- An arrival comes after the progress of its tick. -/
theorem Goes.report_of_arrive {s' : Stage} {o : Outcome} {k : Tick} {complete : Bool}
    (h : Goes t s' o) (hs : .owner (.arrive k complete) ∈ o.own) :
    ∃ s, s' = .report k s ∧ s.progress.isSome := by
  cases h with
  | reports _ s report _ _ _ known =>
    cases List.mem_singleton.mp hs
    exact ⟨s, rfl, by rw [known]; rfl⟩
  | locates k' =>
    have := List.mem_singleton.mp hs
    by_cases hscope : k'.scope = .full <;> simp [hscope] at this
  | _ => simp at hs

/-- A turn begins or concludes a tick, or goes on with the next. -/
theorem Turn.own_of {o : Outcome} (h : Turn t o) {s : Stage} (hs : .owner s ∈ o.own) :
    (∃ k, s = .announce k) ∨ (∃ k answer, s = .conclude k answer) ∨ ∃ g, s = .proceed g := by
  cases h <;> simp at hs <;> simp [hs]

/-- What was of the present epoch, or of routes replaced from inside the tick, still is after a
step. -/
theorem inTime_of_staged (hr : Reaches t₀ ms t) (hl : ∃ b, Laid b t.stack) (hc : Change t t' made)
    {ns : List Move} (hn : Reaches t ns t')
    (hm : ∀ c, made = some c → ns = [.decide (.call c)]) {s : Stage} {k : Tick}
    (hs : .owner s ∈ t.stack) (hk : s.tick? = some k) {cs : List Category}
    (hcs : ∀ c ∈ s.after, c ∈ cs) (h : k.epoch = t.epoch ∨ ReplacedWithin t₀ ms t k cs) :
    k.epoch = t'.epoch ∨ ReplacedWithin t₀ (ms ++ ns) t' k cs := by
  rcases h with h | h
  · rcases hc.epoch with he | ⟨caller, routes, rfl, word, rfl, accepts⟩
    · exact .inl (h.trans he.symm)
    · rw [hm _ rfl]
      exact .inr ((replacedWithin_of_call hr hl hs hk word accepts).mono hcs)
  · exact .inr (h.trans hn)

theorem InTime.step (h : InTime t₀ ms t) (hr : Reaches t₀ ms t) (hl : ∃ b, Laid b t.stack)
    (hc : Change t t' made) {ns : List Move} (hn : Reaches t ns t')
    (hm : ∀ c, made = some c → ns = [.decide (.call c)]) : InTime t₀ (ms ++ ns) t' := by
  have top {s : Stage} {below : List SessionFrame} (ht : t.stack = .owner s :: below) :
      .owner s ∈ t.stack := by
    rw [ht]; exact List.mem_cons_self
  have epoch {s : Stage} {o : Outcome} (goes : Goes t s o) (ho : t'.outline = o.outline) :
      t'.epoch = t.epoch := by
    obtain ⟨_, _, _, _, hout, -⟩ := goes.outline_of
    exact congrArg Outline.epoch (ho.trans hout)
  refine ⟨?_, ?_⟩
  · intro k s hs data
    rcases hc.work_cases hs (.inl rfl) with
      hs | ⟨s', below, o, ht, goes, hs, -, ho⟩ | ⟨o, turn, hs, -⟩
    · exact inTime_of_staged hr hl hc hn hm hs rfl (fun _ => id) (h.report k s hs data)
    · exact .inl ((goes.epoch_of_report hs rfl data).trans (epoch goes ho).symm)
    · have := turn.own_of hs
      simp at this
  · intro k complete hs
    rcases hc.work_cases hs (.inl rfl) with
      hs | ⟨s', below, o, ht, goes, hs, -, ho⟩ | ⟨o, turn, hs, -⟩
    · exact inTime_of_staged hr hl hc hn hm hs rfl (by simp [Stage.after]) (h.arrive k complete hs)
    · obtain ⟨s, rfl, data⟩ := goes.report_of_arrive hs
      rcases h.report k s (top ht) (by simp [data]) with h | h
      · exact .inl (h.trans (epoch goes ho).symm)
      · exact .inr ((h.trans hn).mono (by simp))
    · have := turn.own_of hs
      simp at this

/-- **On every run, what is left to do of a tick is in time.** -/
theorem Reaches.inTime (h : Reaches t₀ ms t) (h₀ : t₀.stack = []) : InTime t₀ ms t := by
  have start : InTime t₀ [] t₀ :=
    ⟨fun k s hs => (by rw [h₀] at hs; cases hs), fun k complete hs => (by rw [h₀] at hs; cases hs)⟩
  refine h.induct start (fun ms t t' hr ih hs => ?_) fun ms m t t' hr ih hs => ?_
  · simpa using ih.step hr (hr.laid h₀) (change_of_tick? hs) (.tick hs (.refl _)) (by simp)
  · obtain ⟨made, hc, hm⟩ := change_of_move? hs
    exact ih.step hr (hr.laid h₀) hc (.move hs (.refl _)) fun c h => by rw [hm c h]

/-! ## What takes effect -/

/-- Route data is told by the stages of its tick, and cues only in the epoch of the tick. -/
theorem Goes.route_data {s : Stage} {o : Outcome} (h : Goes t s o) {f : SessionFanout}
    {audience : List (ObserverId × Listener)} (ho : o.told = some (f, audience)) {n : Nat}
    (hc : f.cause = .tick n) :
    (f.category = .instructionCues →
      ∃ k status, s = .cue k status ∧ k.number = n ∧ k.epoch = t.epoch) ∧
    (f.category = .routeProgress →
      ∃ k status, s = .report k status ∧ k.number = n ∧ status.progress.isSome) := by
  cases h with
  | cues k status cues _ epoch =>
    cases ho
    cases hc
    exact ⟨fun _ => ⟨k, status, rfl, rfl, epoch⟩, fun h => (by cases h)⟩
  | reports k status report _ _ _ known =>
    cases ho
    cases hc
    exact ⟨fun h => (by cases h), fun _ => ⟨k, status, rfl, rfl, by rw [known]; rfl⟩⟩
  | registered l c | subscribed l c =>
    obtain ⟨v, id, rfl, -⟩ := owed_eq_some ho
    cases hc
  | enters | derives | leaves | announces | locates | flags =>
    cases ho
    exact ⟨fun h => (by cases h), fun h => (by cases h)⟩
  | _ => cases ho

/-- Progress of an active route is told while the tick may tell something, whatever its epoch. -/
theorem Goes.reports_iff {k : Tick} {s : Status} {o : Outcome} (h : Goes t (.report k s) o) :
    (∃ f audience, o.told = some (f, audience) ∧ f.cause = .tick k.number ∧
        f.category = .routeProgress) ↔
      (∃ report, s.progress = some report ∧ ∃ r ∈ t.facts.routes, r.id = report.route) ∧
        t.current k = true := by
  cases h with
  | unreported _ _ notes _ nothing =>
    refine ⟨fun ⟨f, audience, ho, _⟩ => (by cases ho), ?_⟩
    rintro ⟨⟨report, known, r, hr, hid⟩, current⟩
    rcases nothing report known with h | h
    · exact absurd hid (h r hr)
    · rw [current] at h; cases h
  | reports _ _ report progress _ _ known active current =>
    exact ⟨fun _ => ⟨⟨report, known, active⟩, current⟩, fun _ => ⟨_, _, rfl, rfl, rfl⟩⟩

/-- An arrival is marked while the tick may tell something, whatever its epoch. -/
theorem Goes.arrived {k : Tick} {complete : Bool} {o : Outcome}
    (h : Goes t (.arrive k complete) o) :
    o.outline.arrived = if t.current k then complete && t.facts.guidance else t.facts.arrived := by
  cases h with
  | arrives _ _ current => simp [current]
  | arriveStale _ _ stale => simp [stale, outline]

/-- Only a tick marks an arrival. -/
theorem Change.arrives (h : Change t t' made) (hno : t.facts.arrived = false)
    (hyes : t'.facts.arrived = true) :
    ∃ k below, t.stack = .owner (.arrive k true) :: below ∧ t.current k = true := by
  have same {o : Outline} (ho : t'.outline = o) (h : o.arrived = t.facts.arrived) : False := by
    have : t'.facts.arrived = o.arrived := congrArg Outline.arrived ho
    rw [this, h, hno] at hyes
    cases hyes
  cases h with
  | stage s below o top goes stack log outline =>
    obtain ⟨_, _, _, arrived, hout, -, -, -, ha⟩ := goes.outline_of
    rw [hout] at outline
    obtain h | ⟨k, rfl, current, -⟩ := ha ((congrArg Outline.arrived outline).symm.trans hyes)
    · rw [hno] at h; cases h
    · exact ⟨k, below, top, current⟩
  | deliver _ _ _ _ _ _ _ _ outline => exact (same outline rfl).elim
  | ends _ _ _ _ _ _ _ _ _ outline => exact (same outline rfl).elim
  | call caller c r stages notes o word hmade performs shows =>
    refine (same shows.outline ?_).elim
    cases performs <;> simp [outline, hno]
  | turn o idle turn shows =>
    refine (same shows.outline ?_).elim
    cases turn <;> rfl

variable {settings : Settings} {engine : Engine} {source : Source} {signal : Signal}

/-- A tick from inside of which the routes were replaced is of an earlier epoch. -/
theorem ReplacedWithin.epoch_lt {k : Tick} {cs : List Category}
    (h : ReplacedWithin (.new settings engine source signal) ms t k cs)
    (hr : Reaches (.new settings engine source signal) ms t) (hk : Ticked t k) :
    k.epoch < t.epoch := by
  obtain ⟨a, caller, routes, f, rest, ⟨before, after, -, ha, word, hb⟩, accepts, hf, hc, -⟩ := h
  obtain ⟨b, hl⟩ := ha.laid rfl
  obtain ⟨upper, s, k', hst, hk', hn, -⟩ := hl.below_tick hf hc
  have hka : Ticked a k' := ha.sound.staged s k' (by rw [hst]; simp) hk'
  obtain rfl := hr.sound.distinct k' k (((reaches_call word _).trans hb).ticked hka) hk hn
  have hbefore := ha.sound.epoch k' hka
  have hafter := hb.le.2
  rw [epoch_of_accepts accepts caller] at hafter
  omega

/-- What is in time is of an earlier epoch just when the routes were replaced from inside it. -/
theorem epoch_lt_iff {k : Tick} {cs : List Category}
    (hr : Reaches (.new settings engine source signal) ms t) (hk : Ticked t k)
    (h : k.epoch = t.epoch ∨ ReplacedWithin (.new settings engine source signal) ms t k cs) :
    k.epoch < t.epoch ↔ ReplacedWithin (.new settings engine source signal) ms t k cs :=
  ⟨fun hlt => h.resolve_left (Nat.ne_of_lt hlt), fun h => h.epoch_lt hr hk⟩

/-- **Route data of replaced routes takes effect just when an observer has replaced them while it
was told the cues of the tick or, for the arrival, the progress.** Cues never are of an earlier
epoch. Progress is told of any active route and of any epoch, and an arrival is marked in any. -/
theorem stale_route_data_iff_replaced_within
    (h : Reaches (.new settings engine source signal) ms t) (hs : Step t t') {k : Tick}
    (hk : Ticked t k) :
    (∀ f audience, Begins t t' f audience → f.cause = .tick k.number →
      (f.category = .instructionCues → k.epoch = t.epoch) ∧
      (f.category = .routeProgress → (k.epoch < t.epoch ↔
        ReplacedWithin (.new settings engine source signal) ms t k [.instructionCues]))) ∧
    (∀ s below, t.stack = .owner (.report k s) :: below →
      ((∃ f audience, Begins t t' f audience ∧ f.cause = .tick k.number ∧
          f.category = .routeProgress) ↔
        (∃ report, s.progress = some report ∧ ∃ r ∈ t.facts.routes, r.id = report.route) ∧
          t.current k = true)) ∧
    (∀ complete below, t.stack = .owner (.arrive k complete) :: below →
      t'.facts.arrived =
        (if t.current k then complete && t.facts.guidance else t.facts.arrived) ∧
      (k.epoch < t.epoch ↔ ReplacedWithin (.new settings engine source signal) ms t k
        [.instructionCues, .routeProgress])) ∧
    (t.facts.arrived = false → t'.facts.arrived = true →
      ∃ k' below, t.stack = .owner (.arrive k' true) :: below ∧ Ticked t k') := by
  obtain ⟨made, hc⟩ := change_of_step hs
  have hin := h.inTime rfl
  have mem {s : Stage} {below : List SessionFrame} (top : t.stack = .owner s :: below) :
      .owner s ∈ t.stack := by
    rw [top]; exact List.mem_cons_self
  have same {k' : Tick} {s : Stage} {below : List SessionFrame} (top : t.stack = .owner s :: below)
      (hk' : s.tick? = some k') (hn : k'.number = k.number) : k' = k :=
    h.sound.distinct k' k (h.sound.staged s k' (mem top) hk') hk hn
  refine ⟨?_, ?_, ?_, ?_⟩
  · intro f audience hf hcause
    obtain ⟨s, below, o, top, goes, ho⟩ := hc.tells hf
    obtain ⟨hcues, hprogress⟩ := goes.route_data ho hcause
    refine ⟨?_, ?_⟩
    · intro hcat
      obtain ⟨k', status, rfl, hn, hepoch⟩ := hcues hcat
      obtain rfl := same top rfl hn
      exact hepoch
    · intro hcat
      obtain ⟨k', status, rfl, hn, data⟩ := hprogress hcat
      obtain rfl := same top rfl hn
      exact epoch_lt_iff h hk (hin.report k' status (mem top) (by simp [data]))
  · intro s below top
    obtain ⟨o, goes, -, hbegins⟩ := hc.goes_of_top top
    simp only [hbegins]
    exact goes.reports_iff
  · intro complete below top
    obtain ⟨o, goes, outline, -⟩ := hc.goes_of_top top
    have harrived : t'.facts.arrived = o.outline.arrived := congrArg Outline.arrived outline
    exact ⟨harrived.trans goes.arrived, epoch_lt_iff h hk (hin.arrive k complete (mem top))⟩
  · intro hno hyes
    obtain ⟨k', below, top, -⟩ := hc.arrives hno hyes
    exact ⟨k', below, top, h.sound.staged _ k' (mem top) rfl⟩

/-- The progress of a tick is about to be told, and the routes are of a later epoch. -/
def reportsStale (t : Trip) : Bool :=
  match t.stack with
  | .owner (.report k s) :: _ =>
    k.epoch < t.epoch && t.current k && s.progress.any fun report =>
      t.facts.routes.any fun r => r.id = report.route
  | _ => false

theorem of_reportsStale (h : t.reportsStale = true) :
    ∃ k s below, t.stack = .owner (.report k s) :: below ∧ k.epoch < t.epoch ∧
      (∃ report, s.progress = some report ∧ ∃ r ∈ t.facts.routes, r.id = report.route) ∧
      t.current k = true := by
  unfold reportsStale at h
  split at h
  · rename_i k s below top
    simp only [Bool.and_eq_true, decide_eq_true_eq, Option.any_eq_true, List.any_eq_true] at h
    exact ⟨k, s, below, top, h.1.1, h.2, h.1.2⟩
  · cases h

/-- An observer that replaces the routes when it is told the cues is followed by progress along the
routes of before. -/
theorem stale_route_data_of_replaced_in_cues :
    ∃ trip ms t t' k f audience, Reaches trip ms t ∧ Step t t' ∧ Ticked t k ∧
      Begins t t' f audience ∧ f.cause = .tick k.number ∧ f.category = .routeProgress ∧
      k.epoch < t.epoch ∧ ReplacedWithin trip ms t k [.instructionCues] := by
  obtain ⟨b, hb, hp⟩ := exists_of_play 40
    (scripted [{
      location := sampleLocation, tracking := .tracking, progress := some ⟨"r", 0, 0, 0, 0, 0, 0⟩
      cues := some ⟨"r", 0, 0, none, none⟩ }])
    [.decide (.call (.setRoutes [{ id := "r" }])),
      .decide (.call (.observe (.named "a") .instructionCues)), .decide (.call .start),
      .decide (.call (.push sampleFix)), .work, .decide (.call (.setRoutes [{ id := "r" }]))]
    (p := fun b => ((b.move? (.decide .finish)).bind tick?).any fun t =>
      t.reportsStale && t.tick?.isSome) rfl
  obtain ⟨t, hbt, ht⟩ := (Option.any_eq_true _ _).mp hp
  obtain ⟨c, hbc, hct⟩ := Option.bind_eq_some_iff.mp hbt
  obtain ⟨hstale, hnext⟩ := Bool.and_eq_true_iff.mp ht
  obtain ⟨t', hs⟩ := Option.isSome_iff_exists.mp hnext
  obtain ⟨k, s, below, top, hlt, hreport⟩ := of_reportsStale hstale
  have h := hb.trans (.move hbc (.tick hct (.refl t)))
  have hk : Ticked t k := h.sound.staged _ k (by rw [top]; exact List.mem_cons_self) rfl
  obtain ⟨hbegins, hreports, -⟩ := stale_route_data_iff_replaced_within h (.tick hs) hk
  obtain ⟨f, audience, hf, hcause, hcat⟩ := (hreports s below top).mpr hreport
  exact ⟨_, _, t, t', k, f, audience, h, .tick hs, hk, hf, hcause, hcat, hlt,
    ((hbegins f audience hf hcause).2 hcat).mp hlt⟩

end LiveTrip.Trip
