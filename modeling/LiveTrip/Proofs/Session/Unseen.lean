import LiveTrip.Proofs.Session.Indistinct

/-!
# Bystanders go unseen

Observers that call nothing may be registered or not, come and go, and fail: to all others, and to
whoever looks at the session, this makes no difference but in the count of failures.

* `Event.seen?`: what others than the bystanders see of an event.
* `Trip.Attended.unique`: without bystanders, moves lead to one end.
* `Trip.Undisturbed`: the ends of two runs tell nothing of their bystanders.
* `Trip.bystanders_unseen`: neither do any two attended runs of the same moves.
-/

namespace LiveTrip

/-! ## What others see -/

/-- The last values of a hub, without the observers and the failures. -/
def Hub.lasts (h : Hub) : Hub where
  rawLocation := { last := h.rawLocation.last }
  location := { last := h.location.last }
  routeProgress := { last := h.routeProgress.last }
  sessionState := { last := h.sessionState.last }
  navigationPhase := { last := h.navigationPhase.last }
  offRoute := { last := h.offRoute.last }
  instructionCues := { last := h.instructionCues.last }

theorem Hub.lasts_eq {a b : Hub} (h : ∀ c, (a.get c).last = (b.get c).last) :
    a.lasts = b.lasts := by
  simp only [lasts, show a.rawLocation.last = _ from h .rawLocation,
    show a.location.last = _ from h .location,
    show a.routeProgress.last = _ from h .routeProgress,
    show a.sessionState.last = _ from h .sessionState,
    show a.navigationPhase.last = _ from h .navigationPhase,
    show a.offRoute.last = _ from h .offRoute,
    show a.instructionCues.last = _ from h .instructionCues]
  rfl

/-- The counters without the failures of observers. -/
def Counters.seen (c : Counters) : Counters := { c with observerFailures := 0 }

/-- An answer without what it tells of the observers. -/
def Answer.seen : Answer → Answer
  | .id _ => .id 0
  | .snapshot s => .snapshot { s with hub := s.hub.lasts, counters := s.counters.seen }
  | a => a

section Seen

variable (A : Bystanders Category Listener)

/-- The observers of a category who are no bystanders, in the order they registered. -/
def Registry.others {V : Type} (r : Registry Listener V) (c : Category) : List Listener :=
  r.entries.filterMap fun e => if A.who c e.2 then none else some e.2

/-- What others than the bystanders see of an event: what they are told, and when they fail; what is
answered to calls that are about no bystander; and everything else that the session does. That a
fan-out begins is seen by whom it tells. -/
def Event.seen? : SessionEvent → Option SessionEvent
  | .began _ _ => none
  | .delivered f _ l =>
    if A.who f.category l then none else some (.delivered { f with serial := 0 } 0 l)
  | .failed f _ l => if A.who f.category l then none else some (.failed { f with serial := 0 } 0 l)
  | .owner (.replied r) =>
    if r.call.Aside A then none else some (.owner (.replied { r with answer := r.answer.seen }))
  | .owner n => some (.owner n)

end Seen

/-- The comparison of a session in which there are bystanders with one in which there are none. -/
def Comparison.ofBystanders (A : Bystanders Category Listener)
    (signal : ∀ c, A.who c .speedSignal = false) : Comparison := { aside := A, signal }

section Mirrors

variable {A : Bystanders Category Listener} {signal : ∀ c, A.who c .speedSignal = false}

theorem Cause.Mirrors.eq {k k' : Cause} (h : k.Mirrors (.ofBystanders A signal) k') : k = k' := by
  cases h with
  | tick number => exact congrArg _ (Origins.same_zero.mp number)
  | _ => rfl

theorem Tick.Mirrors.eq {k k' : Tick} (h : k.Mirrors (.ofBystanders A signal) k') : k = k' := by
  obtain ⟨number, generation, epoch, scope, fix⟩ := h
  cases k
  cases k'
  have number := Origins.same_zero.mp number
  have generation := Origins.tied_zero.mp generation
  have epoch := Origins.tied_zero.mp epoch
  simp_all

theorem Source.Mirrors.eq {s s' : Source} (h : s.Mirrors .zero s') : s = s' := by
  cases h with
  | manual m => rfl
  | replay s run =>
    obtain ⟨fixes, interval, run₀, finished⟩ := s
    cases run with
    | none => rfl
    | @some r r' hr =>
      obtain ⟨next, due⟩ := hr
      have due := Origins.same_zero.mp due
      cases r
      cases r'
      simp_all

theorem Answer.Mirrors.seen_eq {a a' : Answer} (h : a.Mirrors (.ofBystanders A signal) a') :
    a.seen = a'.seen := by
  cases h with
  | snapshot shown =>
    simp only [Answer.seen, Hub.lasts_eq shown.last, shown.facts, shown.ingested, Counters.seen,
      shown.counters, shown.source.eq]
  | _ => rfl

theorem Event.Mirrors.seen?_eq {p : Category → Pairing} {e e' : SessionEvent}
    (h : e.Mirrors (Comparison.ofBystanders A signal).mirror p e') : e.seen? A = e'.seen? A := by
  cases h with
  | began => rfl
  | delivered cause | failed cause =>
    simp only [Event.seen?, Cause.Mirrors.eq cause]
  | owner event =>
    cases event with
    | replied reply =>
      simp only [Event.seen?, reply.caller, reply.call, reply.answer.seen_eq]
    | started generation | stopped generation | sent generation | read generation =>
      rw [Origins.tied_zero.mp generation]
    | ticked tick | answered tick => rw [tick.eq]
    | estimated | blended => rfl

theorem Event.Aside.seen?_eq_none {e : SessionEvent}
    (h : e.Aside (Comparison.ofBystanders A signal).mirror) : e.seen? A = none := by
  cases h with
  | began => rfl
  | delivered who | failed who => exact if_pos who
  | owner event =>
    cases event with
    | replied about => exact if_pos about

end Mirrors

namespace Trip

variable {t t' u u' : Trip}

/-! ## Without bystanders -/

/-- While something happens by itself, nobody has the word. -/
theorem speaker_of_tick? (h : t.tick? = some t') : t.speaker = none := by
  unfold tick? at h
  unfold speaker Dispatch.speaker
  split at h
  · rename_i top
    simp [top]
  · rename_i top
    simp [top]
  · cases hst : t.dispatch.stack with
    | nil => simp [Dispatch.advance?, hst] at h
    | cons x below =>
      cases x with
      | acting f id l => simp [Dispatch.advance?, hst] at h
      | _ => rfl

/-- While something happens by itself, no move is made. -/
theorem move?_of_tick? (h : t.tick? = some t') (m : Move) : t.move? m = none := by
  have hidle : t.idle = false := by
    cases hi : t.idle with
    | false => rfl
    | true => simp [tick?, Dispatch.advance?, show t.dispatch.stack = _ from stack_of_idle hi] at h
  cases m with
  | decide d => simp only [move?, decide?, speaker_of_tick? h]
  | work => simp [move?, work?, hidle]
  | replay => simp [move?, replay?, hidle]
  | elapse later => simp [move?, elapse?, hidle]

/-- **Without bystanders, the same moves lead to the same end**, if somebody has the word there, and
ask the same of the engine. -/
theorem Attended.unique {ms : List Move} {calls calls' : List EngineCall}
    (h : Attended .nobody t ms calls u) (h' : Attended .nobody t ms calls' u')
    (word : u.speaker ≠ none) (word' : u'.speaker ≠ none) : calls = calls' ∧ u = u' := by
  induction h generalizing calls' with
  | refl t =>
    cases h' with
    | refl => exact ⟨rfl, rfl⟩
    | tick step => exact absurd (speaker_of_tick? step) word
    | bystander aside => exact absurd aside (not_aside_nobody _ _)
  | tick step _ ih =>
    cases h' with
    | refl => exact absurd (speaker_of_tick? step) word'
    | tick step' rest' =>
      cases step.symm.trans step'
      obtain ⟨rfl, rfl⟩ := ih rest' word
      exact ⟨rfl, rfl⟩
    | bystander aside => exact absurd aside (not_aside_nobody _ _)
    | move _ step' => rw [move?_of_tick? step] at step'; cases step'
  | bystander aside => exact absurd aside (not_aside_nobody _ _)
  | move _ step _ ih =>
    cases h' with
    | tick step' => rw [move?_of_tick? step'] at step; cases step
    | bystander aside => exact absurd aside (not_aside_nobody _ _)
    | move _ step' rest' =>
      cases step.symm.trans step'
      obtain ⟨rfl, rfl⟩ := ih rest' word
      exact ⟨rfl, rfl⟩

/-! ## With bystanders -/

/-- The outside has the word, or an observer that is no bystander. -/
structure Heeding (A : Bystanders Category Listener) (t : Trip) : Prop where
  word : t.speaker ≠ none
  others : t.bystanding A = false

/-- The ends of two runs tell nothing of their bystanders. -/
structure Undisturbed (A : Bystanders Category Listener) (u u' : Trip) : Prop where
  facts : u.facts = u'.facts
  last : ∀ c, u.dispatch.last c = u'.dispatch.last c
  metrics : u.metrics.seen = u'.metrics.seen
  engine : u.engine = u'.engine
  signal : u.signal = u'.signal
  source : u.source = u'.source
  now : u.now = u'.now
  closed : u.closed = u'.closed
  speaker : u.speaker = u'.speaker
  /-- The others are registered in the same order. -/
  others : ∀ c, (u.dispatch.registry c).others A c = (u'.dispatch.registry c).others A c
  log : u.log.filterMap (Event.seen? A) = u'.log.filterMap (Event.seen? A)

theorem Undisturbed.symm {A : Bystanders Category Listener} (h : Undisturbed A u u') :
    Undisturbed A u' u where
  facts := h.facts.symm
  last c := (h.last c).symm
  metrics := h.metrics.symm
  engine := h.engine.symm
  signal := h.signal.symm
  source := h.source.symm
  now := h.now.symm
  closed := h.closed.symm
  speaker := h.speaker.symm
  others c := (h.others c).symm
  log := h.log.symm

theorem Undisturbed.trans {A : Bystanders Category Listener} (h : Undisturbed A t u)
    (h' : Undisturbed A u u') : Undisturbed A t u' where
  facts := h.facts.trans h'.facts
  last c := (h.last c).trans (h'.last c)
  metrics := h.metrics.trans h'.metrics
  engine := h.engine.trans h'.engine
  signal := h.signal.trans h'.signal
  source := h.source.trans h'.source
  now := h.now.trans h'.now
  closed := h.closed.trans h'.closed
  speaker := h.speaker.trans h'.speaker
  others c := (h.others c).trans (h'.others c)
  log := h.log.trans h'.log

variable {A : Bystanders Category Listener} {signal : ∀ c, A.who c .speedSignal = false}

/-- A new session mirrors itself. -/
theorem mirrors_new (signal : ∀ c, A.who c .speedSignal = false) (settings : Settings)
    (engine : Engine) (source : Source) (sig : Signal) :
    (Trip.new settings engine source sig).Mirrors (.ofBystanders A signal)
      (.new settings engine source sig) where
  settings := rfl
  engine := rfl
  source := Source.mirrors_iff.mpr rfl
  signal := rfl
  dispatch := by
    refine ⟨fun _ _ _ => False, fun c => ?_, .nil, .nil, [], [], rfl, rfl, .nil⟩
    cases c <;> exact ⟨rfl, .nil, Pairing.fits_empty _ _ _, fun _ => rfl⟩
  facts := rfl
  counters := rfl
  generation := Origins.since_zero _
  epoch := Origins.since_zero _
  worker := .none
  ticks := Origins.same_zero.mpr rfl
  now := Origins.same_zero.mpr rfl
  closed := rfl

theorem Mirrors.undisturbed (h : u.Mirrors (.ofBystanders A signal) u') (heeding : u.Heeding A) :
    Undisturbed A u u' where
  facts := h.facts
  last := h.last
  metrics := by simp only [Trip.metrics, Counters.seen, h.counters]
  engine := h.engine
  signal := h.signal
  source := h.source.eq
  now := Origins.same_zero.mp h.now
  closed := h.closed
  speaker := by
    obtain ⟨caller, hw⟩ := Option.ne_none_iff_exists'.mp heeding.word
    rw [hw, h.speaker heeding.others hw]
  others c := by
    obtain ⟨p, hp⟩ := h.dispatch
    refine (hp.registries c).entries.filterMap_eq (fun e e' he => ?_) fun e he => ?_
    · rw [he.observer]
    · exact if_pos he.bystander
  log := by
    obtain ⟨p, -, -, -, es, es', hlog, hlog', hm⟩ := h.dispatch
    have hlog : u.log = es := hlog.trans (List.append_nil _)
    have hlog' : u'.log = es' := hlog'.trans (List.append_nil _)
    rw [hlog, hlog']
    exact hm.filterMap_eq (fun _ _ he => he.seen?_eq) fun _ he => he.seen?_eq_none

/-- A run with bystanders ends like the run of the same moves without. -/
theorem Attended.undisturbed {settings : Settings} {engine : Engine} {source : Source}
    {sig : Signal} {ms : List Move} {calls : List EngineCall}
    (h : Attended A (.new settings engine source sig) ms calls u)
    (signal : ∀ c, A.who c .speedSignal = false) (heeding : u.Heeding A) :
    ∃ u', Attended .nobody (.new settings engine source sig) ms calls u' ∧
      Undisturbed A u u' := by
  obtain ⟨u', hu', hm⟩ := (mirrors_new signal settings engine source sig).attended h
  have hms : ms.map (·.later (Comparison.ofBystanders A signal).clock) = ms :=
    (List.map_congr_left fun m _ => m.later_zero).trans (List.map_id ms)
  rw [hms] at hu'
  exact ⟨u', hu', hm.undisturbed heeding⟩

/-- **Bystanders go unseen.** Two runs of the same moves, on which other bystanders come and go at
other times and fail at will, ask the same of the engine, and their ends tell nothing of the
bystanders. -/
theorem bystanders_unseen {settings : Settings} {engine : Engine} {source : Source} {sig : Signal}
    {ms : List Move} {calls calls' : List EngineCall}
    (signal : ∀ c, A.who c .speedSignal = false)
    (h : Attended A (.new settings engine source sig) ms calls u) (heeding : u.Heeding A)
    (h' : Attended A (.new settings engine source sig) ms calls' u') (heeding' : u'.Heeding A) :
    calls = calls' ∧ Undisturbed A u u' := by
  obtain ⟨v, hv, hu⟩ := h.undisturbed signal heeding
  obtain ⟨v', hv', hu'⟩ := h'.undisturbed signal heeding'
  obtain ⟨rfl, rfl⟩ := hv.unique hv' (hu.speaker ▸ heeding.word) (hu'.speaker ▸ heeding'.word)
  exact ⟨rfl, hu.trans hu'.symm⟩

/-! ## An observer that passes by -/

/-- Everybody but this observer counts. -/
def passerby : Bystanders Category Listener where
  who _ l := l = .named "p"
  slot _ := false

/-- A session that tells its location once. -/
def locatingTrip : Trip := scripted [{ location := sampleLocation }]

/-- A bystander is told the fix and the location before the other observer, and fails both times.
The other observer removes it. -/
def passedBefore : Trip :=
  (attend? passerby 40
    [(true, .decide (.call (.observe (.named "p") .rawLocation))),
      (true, .decide (.call (.observe (.named "p") .location))),
      (false, .decide (.call (.observe (.named "a") .location))),
      (false, .decide (.call .start)), (false, .decide (.call (.push sampleFix))),
      (false, .work), (true, .decide .fail), (true, .decide .fail),
      (true, .decide (.call (.unobserve (.named "p") .location))), (false, .decide .finish),
      (false, .decide (.call .stop)), (false, .decide (.call .query))] locatingTrip).get rfl

/-- A bystander comes later, is told that the session is started and that it is stopped, and fails
once. -/
def passedAfter : Trip :=
  (attend? passerby 40
    [(false, .decide (.call (.observe (.named "a") .location))),
      (false, .decide (.call .start)), (false, .decide (.call (.push sampleFix))),
      (false, .work), (false, .decide .finish),
      (true, .decide (.call (.observe (.named "p") .sessionState))), (true, .decide .finish),
      (false, .decide (.call .stop)), (true, .decide .fail),
      (false, .decide (.call .query))] locatingTrip).get rfl

/-- Failures aside, the two runs end alike. -/
theorem bystanders_unseen_passing_by :
    passedBefore.metrics.observerFailures = 2 ∧ passedAfter.metrics.observerFailures = 1 ∧
      ∃ ms calls calls', Attended passerby locatingTrip ms calls passedBefore ∧
        Attended passerby locatingTrip ms calls' passedAfter ∧
        calls = calls' ∧ Undisturbed passerby passedBefore passedAfter := by
  obtain ⟨calls, h⟩ := attended_of_attend? (u := passedBefore) (Option.some_get _).symm
  obtain ⟨calls', h'⟩ := attended_of_attend? (u := passedAfter) (Option.some_get _).symm
  have heeding : passedBefore.Heeding passerby := ⟨nofun, rfl⟩
  have heeding' : passedAfter.Heeding passerby := ⟨nofun, rfl⟩
  have signal (c : Category) : passerby.who c .speedSignal = false := rfl
  exact ⟨rfl, rfl, _, calls, calls', h, h', bystanders_unseen signal h heeding h' heeding'⟩

end Trip
end LiveTrip
