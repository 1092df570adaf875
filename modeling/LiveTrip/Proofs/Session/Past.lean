import LiveTrip.Proofs.Session.Indistinct
import LiveTrip.Proofs.Session.Phase
import LiveTrip.Proofs.Session.Remembered

/-!
# The past of a stopped session

A session that has been stopped has gone through ticks, routes and stops, and its counts of
generations, epochs and ticks tell of it, as does its clock. What it does from then on hangs on what
it knows, on its observers and on what belongs to it, and on nothing else.

* `Trip.AtRest`: a session that is stopped, with nothing going on.
* `Trip.Agree`: what two such sessions have to have in common.
* `Trip.Reaches.last_at_rest`: what a session at rest remembers, it knows.
* `Trip.past_reduced_to_facts`: sessions at rest that agree have the same future.
-/

namespace LiveTrip.Trip

variable {t t' : Trip}

/-- The session is stopped, without a worker and with no call in progress. -/
structure AtRest (t : Trip) : Prop where
  opened : t.closed = false
  stopped : t.facts.state = .stopped
  noWorker : t.worker = none
  idle : t.idle = true

/-- The sessions agree on their settings, on what they know, on their observers, on what is counted,
and on their engine, signal and source. Replays are as far from their next fix. -/
structure Agree (t t' : Trip) : Prop where
  settings : t.settings = t'.settings
  facts : t.facts = t'.facts
  entries : ∀ c, (t.dispatch.registry c).entries = (t'.dispatch.registry c).entries
  nextId : ∀ c, (t.dispatch.registry c).nextId = (t'.dispatch.registry c).nextId
  failures : ∀ c, (t.dispatch.registry c).failures = (t'.dispatch.registry c).failures
  guards : t.dispatch.guards = t'.dispatch.guards
  counters : t.counters = t'.counters
  engine : t.engine = t'.engine
  signal : t.signal = t'.signal
  source : t.source.later t'.now = t'.source.later t.now

theorem Agree.symm (h : Agree t t') : Agree t' t where
  settings := h.settings.symm
  facts := h.facts.symm
  entries c := (h.entries c).symm
  nextId c := (h.nextId c).symm
  failures c := (h.failures c).symm
  guards := h.guards.symm
  counters := h.counters.symm
  engine := h.engine.symm
  signal := h.signal.symm
  source := h.source.symm

/-! ## What is remembered at rest -/

section Runs

variable {settings settings' : Settings} {engine engine' : Engine} {source source' : Source}
  {signal signal' : Signal} {ms ms' : List Move}

theorem Reaches.forgotten (h : Reaches (.new settings engine source signal) ms t) : Forgotten t :=
  h.induct (P := fun _ t => Forgotten t) forgotten_new
    (fun _ _ _ hr hf hs => Step.forgotten (.tick hs) (hr.laid rfl) hr.sound hr.manned hf)
    fun _ m _ _ hr hf hs => Step.forgotten (.move m hs) (hr.laid rfl) hr.sound hr.manned hf

/-- A session at rest remembers nothing of a trip. -/
theorem Reaches.last_of_trip_at_rest (h : Reaches (.new settings engine source signal) ms t)
    (rest : t.AtRest) {c : Category} (hc : c ∈ Category.ofTrip) : t.dispatch.last c = none := by
  have hforgotten := h.forgotten rest.opened (by simp [outline, rest.noWorker])
  rw [stack_of_idle rest.idle] at hforgotten
  exact hforgotten.resolve_left List.not_mem_nil c hc

/-- **What sessions at rest remember is the same if what they know is.** -/
theorem Reaches.last_eq_at_rest (h : Reaches (.new settings engine source signal) ms t)
    (h' : Reaches (.new settings' engine' source' signal') ms' t') (rest : t.AtRest)
    (rest' : t'.AtRest) (facts : t.facts = t'.facts) (c : Category) :
    t.dispatch.last c = t'.dispatch.last c := by
  have trip (hc : c ∈ Category.ofTrip) : t.dispatch.last c = t'.dispatch.last c :=
    (h.last_of_trip_at_rest rest hc).trans (h'.last_of_trip_at_rest rest' hc).symm
  cases c with
  | sessionState => rw [h.state_remembered, h'.state_remembered, facts]
  | navigationPhase =>
    have told : t.dispatch.last .navigationPhase = some t.facts.phase.current := h.upToDate.told
    have told' : t'.dispatch.last .navigationPhase = some t'.facts.phase.current :=
      h'.upToDate.told
    rw [told, told', facts]
  | rawLocation | location | routeProgress | offRoute | instructionCues =>
    exact trip (by simp [Category.ofTrip])

/-! ## The same future -/

/-- The comparison of two sessions from where they stand. -/
def fromHere (t t' : Trip) : Comparison where
  clock := ⟨t.now, t'.now⟩
  generation := ⟨t.generation, t'.generation⟩
  epoch := ⟨t.epoch, t'.epoch⟩
  ticks := ⟨t.ticks, t'.ticks⟩
  past := t.log
  past' := t'.log

theorem follows_of_agree (h : Reaches (.new settings engine source signal) ms t)
    (h' : Reaches (.new settings' engine' source' signal') ms' t') (rest : t.AtRest)
    (rest' : t'.AtRest) (agree : Agree t t') :
    Follows ⟨t.now, t'.now⟩ ⟨t.ticks, t'.ticks⟩ t t' := by
  have registries (c : Category) : t.dispatch.registry c = t'.dispatch.registry c := by
    have hlast := h.last_eq_at_rest h' rest rest' agree.facts c
    cases hr : t.dispatch.registry c
    cases hr' : t'.dispatch.registry c
    have hentries := agree.entries c
    have hnext := agree.nextId c
    have hfailures := agree.failures c
    simp only [Dispatch.last, hr, hr'] at hlast hentries hnext hfailures
    rw [hentries, hlast, hnext, hfailures]
  have stack : List.Forall₂ (Frame.Mirrors (fromHere t t').mirror fun _ => Pairing.same)
      t.stack t'.stack := by
    rw [stack_of_idle rest.idle, stack_of_idle rest'.idle]
    exact .nil
  have mirrors : t.Mirrors (fromHere t t') t' := {
    settings := agree.settings
    engine := agree.engine
    source := Source.mirrors_iff.mpr agree.source
    signal := agree.signal
    dispatch := .of_same Bystanders.isEmpty_nobody registries agree.guards stack rfl rfl
    facts := agree.facts
    counters := agree.counters
    generation := Origins.since_self _ _
    epoch := Origins.since_self _ _
    worker := by
      rw [rest.noWorker, rest'.noWorker]
      exact .none
    ticks := (Origins.since_self _ _).same
    now := (Origins.since_self _ _).same
    closed := rest.opened.trans rest'.opened.symm }
  exact mirrors.follows rfl rfl rfl

/-- **The past of a stopped session is reduced to what it knows.** Two sessions at rest that agree
have the same future, whatever ticks, routes, starts and stops either has gone through. -/
theorem past_reduced_to_facts (h : Reaches (.new settings engine source signal) ms t)
    (h' : Reaches (.new settings' engine' source' signal') ms' t') (rest : t.AtRest)
    (rest' : t'.AtRest) (agree : Agree t t') :
    SameFuture ⟨t.now, t'.now⟩ ⟨t.ticks, t'.ticks⟩ t t' :=
  ⟨follows_of_agree h h' rest rest' agree, follows_of_agree h' h rest' rest agree.symm⟩

end Runs

/-! ## A busy past and a quiet one -/

/-- A session whose engine has these answers to give. -/
def answering (script : List ScriptedAnswer) : Trip :=
  .new {} (.scripted { script }) (.manual {}) .none

/-- A session that has been started, and stopped at once. -/
def restedAtOnce : Trip :=
  (play tick? move? 40
    [.decide (.call (.observe (.named "a") .location)), .decide (.call .start),
      .decide (.call .stop)] (answering [])).get rfl

/-- A session that was refused a start, had its routes replaced twice, and has been stopped while it
waited for a status. -/
def restedWhileAsking : Trip :=
  (play tick? move? 40
    [.elapse 100, .decide (.call .failNextStart), .decide (.call .start),
      .decide (.call (.setRoutes [{ id := "r" }])),
      .decide (.call (.observe (.named "a") .location)), .decide (.call .start), .work,
      .decide (.call (.setRoutes [])), .elapse 120, .decide (.call .stop)]
    (answering [{ delay := 50, answer := .error (.status "none") }])).get rfl

/-- The two sessions have gone through different things, and have the same future. -/
theorem past_reduced_to_facts_at_once :
    (∃ ms, Reaches (answering []) ms restedAtOnce) ∧
      (∃ ms, Reaches (answering [{ delay := 50, answer := .error (.status "none") }]) ms
        restedWhileAsking) ∧
      restedAtOnce.AtRest ∧ restedWhileAsking.AtRest ∧ Agree restedAtOnce restedWhileAsking ∧
      restedAtOnce.generation = 2 ∧ restedWhileAsking.generation = 3 ∧
      SameFuture ⟨0, 120⟩ ⟨0, 1⟩ restedAtOnce restedWhileAsking := by
  have h := reaches_of_runs (run_of_play (b := restedAtOnce) 40 (Option.some_get _).symm)
  have h' := reaches_of_runs (run_of_play (b := restedWhileAsking) 40 (Option.some_get _).symm)
  have rest : restedAtOnce.AtRest := ⟨rfl, rfl, rfl, rfl⟩
  have rest' : restedWhileAsking.AtRest := ⟨rfl, rfl, rfl, rfl⟩
  have table : restedAtOnce.dispatch.table = restedWhileAsking.dispatch.table :=
    Eq.trans (b := { Hub.initial with
      location := { entries := [(0, .named "a")], nextId := 1 } }) rfl rfl
  have registry (c : Category) :
      restedAtOnce.dispatch.registry c = restedWhileAsking.dispatch.registry c := by
    simp only [Dispatch.registry, table]
  have agree : Agree restedAtOnce restedWhileAsking := {
    settings := Eq.trans (b := {}) rfl rfl
    facts := Eq.trans (b := {}) rfl rfl
    entries := fun c => by rw [registry]
    nextId := fun c => by rw [registry]
    failures := fun c => by rw [registry]
    guards := Eq.trans (b := []) rfl rfl
    counters := Eq.trans (b := { started := 1 }) rfl rfl
    engine := Eq.trans (b := .scripted {}) rfl rfl
    signal := Eq.trans (b := .none) rfl rfl
    source := Eq.trans (b := .manual { starts := 1, stops := 1 }) rfl rfl }
  exact ⟨⟨_, h⟩, ⟨_, h'⟩, rest, rest', agree, rfl, rfl, past_reduced_to_facts h h' rest rest' agree⟩

end LiveTrip.Trip
