import LiveTrip.Proofs.Session.Attended
import LiveTrip.Proofs.Session.Boundary
import LiveTrip.Proofs.Session.MirrorStages

/-!
# Runs of sessions that go through the same

What happens in a session, and what is decided there, happens and is decided in one that mirrors it;
bystanders change nothing that the other has.

* `Trip.Mirrors.call`, `Trip.Mirrors.move?`: a call, or another move, is made in both.
  `Trip.Mirrors.callAside`, `Trip.Mirrors.bystander`: a move that has to do with bystanders is made
  in the first alone.
* `Trip.Mirrors.tick?`: what happens by itself in the first happens in both, or to a bystander.
* `Trip.Mirrors.attended`: **a run of the first, with bystanders, is a run of the second without.**
-/

namespace LiveTrip

/-- The same move in a session whose clock shows another time. -/
def Move.later (clock : Origins) : Move → Move
  | .elapse later => .elapse (later + clock.right - clock.left)
  | m => m

variable {K : Comparison} {t t' : Trip}

theorem Hub.eq_of_get {a b : Hub} (h : ∀ c, a.get c = b.get c) : a = b := by
  cases a
  cases b
  simpa [Hub.get] using And.intro (h .rawLocation) (And.intro (h .location) (And.intro
    (h .routeProgress) (And.intro (h .sessionState) (And.intro (h .navigationPhase)
    (And.intro (h .offRoute) (h .instructionCues))))))

/-! ## Sources -/

namespace Source.Mirrors

variable {clock : Origins} {s s' : Source}

theorem stop (h : s.Mirrors clock s') : s.stop.Mirrors clock s'.stop := by
  cases h with
  | manual m => exact .manual _
  | replay s run => exact .replay s.stop .none

theorem lastKnown (h : s.Mirrors clock s') : s.lastKnown = s'.lastKnown := by
  cases h <;> rfl

/-- Both sources start, or refuse for the same reason. -/
theorem start (h : s.Mirrors clock s') {now now' : Nat} (hnow : clock.Same now now') :
    (s.start now).1.Mirrors clock (s'.start now').1 ∧ (s.start now).2 = (s'.start now').2 := by
  cases h with
  | manual m => exact ⟨.manual _, rfl⟩
  | replay s run =>
    simp only [Source.start, ReplaySource.start]
    split
    · exact ⟨.replay s run, rfl⟩
    · exact ⟨.replay { s with run := some { due := now } } (.some ⟨rfl, hnow⟩), rfl⟩

end Source.Mirrors

namespace Trip.Mirrors

theorem withSource (h : t.Mirrors K t') {s s' : Source} (hs : s.Mirrors K.clock s') :
    Trip.Mirrors K { t with source := s } { t' with source := s' } :=
  { h with source := hs }

theorem advanceGeneration (h : t.Mirrors K t') :
    t.advanceGeneration.Mirrors K t'.advanceGeneration :=
  { h with generation := h.generation.succ }

theorem mapManual (h : t.Mirrors K t') (f : ManualSource → ManualSource) :
    (t.mapManual f).Mirrors K (t'.mapManual f) := by
  have hs := h.source
  unfold Trip.mapManual
  generalize t.source = s at hs
  generalize t'.source = s' at hs
  cases hs with
  | manual m => exact h.withSource (.manual _)
  | replay s run => exact h

/-! ## Calls -/

/-- A worker starts to wait for its first turn in both. -/
theorem spawn (h : t.Mirrors K t') : t.spawn.Mirrors K t'.spawn := by
  have hw : Worker.Mirrors K
      { generation := t.generation, hasFix := t.source.lastKnown.isSome
        wait := .turn t.source.lastKnown, stamp := t.stamp + 1 }
      { generation := t'.generation, hasFix := t'.source.lastKnown.isSome
        wait := .turn t'.source.lastKnown, stamp := t'.stamp + 1 } := by
    rw [← h.source.lastKnown]
    exact ⟨h.generation, rfl, rfl, .none, .turn _⟩
  have hspawn : Trip.Mirrors K
      { t with
        worker := some
          { generation := t.generation, hasFix := t.source.lastKnown.isSome
            wait := .turn t.source.lastKnown, stamp := t.stamp + 1 }
        replayStamp := t.stamp, stamp := t.stamp + 2 }
      { t' with
        worker := some
          { generation := t'.generation, hasFix := t'.source.lastKnown.isSome
            wait := .turn t'.source.lastKnown, stamp := t'.stamp + 1 }
        replayStamp := t'.stamp, stamp := t'.stamp + 2 } := { h with worker := .some hw }
  exact hspawn.note (.started h.generation.tied)

theorem halt (h : t.Mirrors K t') : t.halt.Mirrors K t'.halt := by
  have hhalt : Trip.Mirrors K
      { t.advanceGeneration with worker := none, source := t.source.stop }
      { t'.advanceGeneration with worker := none, source := t'.source.stop } :=
    { h.advanceGeneration with worker := .none, source := h.source.stop }
  exact hhalt.note (.stopped h.generation.tied)

theorem isSome_worker (h : t.Mirrors K t') : t.worker.isSome = t'.worker.isSome := by
  have hw := h.worker
  generalize t.worker = w at hw
  generalize t'.worker = w' at hw
  cases hw <;> rfl

end Trip.Mirrors

/-- What a call comes to in both sessions. -/
structure Effect.Mirrors (K : Comparison) (e e' : Effect) : Prop where
  trip : e.trip.Mirrors K e'.trip
  answer : e.answer.Mirrors K e'.answer
  stages : List.Forall₂ (Stage.Mirrors K) e.stages e'.stages

namespace Trip.Mirrors

/-- The call changes nothing. -/
theorem same (h : t.Mirrors K t') {a a' : Answer} (ha : a.Mirrors K a') :
    Effect.Mirrors K { trip := t, answer := a } { trip := t', answer := a' } := ⟨h, ha, .nil⟩

theorem start (h : t.Mirrors K t') : Effect.Mirrors K t.start t'.start := by
  have hg := h.advanceGeneration
  obtain ⟨hs, hanswer⟩ := hg.source.start hg.now
  unfold Trip.start
  rw [← h.isSome_worker]
  split
  · exact h.same .done
  · rcases hx : t.advanceGeneration.source.start t.advanceGeneration.now with ⟨s, answer⟩
    rcases hy : t'.advanceGeneration.source.start t'.advanceGeneration.now with ⟨s', answer'⟩
    rw [hx, hy] at hs hanswer
    obtain rfl : answer = answer' := hanswer
    simp only [hx, hy]
    have hsource := hg.withSource hs
    cases answer with
    | error cause => exact ⟨hsource, .refused _, .nil⟩
    | ok done =>
      cases done
      have hstarted := hsource.spawn.count fun c => { c with started := c.started + 1 }
      exact ⟨hstarted, .done, .cons (.enter .started) (.cons (.recompute .call) .nil)⟩

theorem stop (h : t.Mirrors K t') : Effect.Mirrors K t.stop t'.stop := by
  unfold Trip.stop
  rw [← h.isSome_worker]
  split
  · exact ⟨h.halt, .done, .cons .leaveOffRoute (.cons .forgetTrip (.cons (.enter .stopped) .nil))⟩
  · exact h.same .done

theorem close (h : t.Mirrors K t') : Effect.Mirrors K t.close t'.close := by
  unfold Trip.close
  rw [← h.isSome_worker]
  refine ⟨?_, .done, .nil⟩
  split
  · exact { h.halt with closed := rfl }
  · exact { h with closed := rfl }

theorem setRoutes (h : t.Mirrors K t') (routes : List Route) :
    Effect.Mirrors K (t.setRoutes routes) (t'.setRoutes routes) := by
  have hengine : t'.engine.setRoutes routes = t.engine.setRoutes routes := by rw [h.engine]
  unfold Trip.setRoutes
  rw [hengine]
  split
  · exact h.same (.refused _)
  · rename_i engine _
    have hfacts := h.withFacts fun f => { f with routes, arrived := false }
    have hepoch : Trip.Mirrors K
        { t.withFacts fun f => { f with routes, arrived := false } with
          engine, epoch := t.epoch + 1 }
        { t'.withFacts fun f => { f with routes, arrived := false } with
          engine, epoch := t'.epoch + 1 } :=
      { hfacts with engine := rfl, epoch := h.epoch.succ }
    exact ⟨hepoch.withDispatch ((h.dispatch.forget .routeProgress).forget .instructionCues), .done,
      .cons (.recompute .call) .nil⟩

/-- Something is sent down the line of both workers, or of none. -/
theorem send (h : t.Mirrors K t') (d : Delivery) :
    (t.send d).1.Mirrors K (t'.send d).1 ∧ (t.send d).2 = (t'.send d).2 := by
  cases t
  cases t'
  have hs := h.source
  have hw := h.worker
  simp only at hs hw
  cases hs with
  | replay s run => exact ⟨h, rfl⟩
  | manual m =>
    cases hw with
    | none => exact ⟨h, rfl⟩
    | @some w w' hw =>
      have hsent := (h.withWorker (x := some { w with line := (w.line.send d).1 })
        (y := some { w' with line := (w.line.send d).1 })
        (.some ⟨hw.generation, rfl, hw.hasFix, hw.due, hw.wait⟩)).note
          (.sent hw.generation.tied d)
      simp only [Trip.send, ← hw.line]
      split
      · rcases hline : w.line.send d with ⟨line, sent⟩
        rw [hline] at hsent
        cases sent with
        | true => exact ⟨hsent, rfl⟩
        | false => exact ⟨h, rfl⟩
      · exact ⟨h, rfl⟩

theorem haltSource (h : t.Mirrors K t') : t.haltSource.Mirrors K t'.haltSource := by
  have hm := h.mapManual (·.stop)
  unfold Trip.haltSource
  generalize t.mapManual (·.stop) = u at hm
  generalize t'.mapManual (·.stop) = u' at hm
  cases u
  cases u'
  have hs := hm.source
  have hw := hm.worker
  simp only at hs hw
  cases hs with
  | replay s run => exact hm
  | manual m =>
    cases hw with
    | none => exact hm
    | @some w w' hw =>
      exact hm.withWorker (x := some { w with line := { w.line with writing := false } })
        (y := some { w' with line := { w'.line with writing := false } })
        (.some ⟨hw.generation, congrArg (fun l => { l with writing := false }) hw.line, hw.hasFix,
          hw.due, hw.wait⟩)

/-- Everything that can be looked up in both. -/
theorem snapshot (h : t.Mirrors K t') : t.snapshot.Mirrors K t'.snapshot where
  last := h.last
  facts := h.facts
  counters := by simp only [Trip.snapshot, metrics, h.counters]
  source := h.source
  ingested := by simp only [Trip.snapshot, h.engine]
  equal he := by
    have htable : t.dispatch.table = t'.dispatch.table := Hub.eq_of_get (h.dispatch.registry_eq he)
    exact ⟨htable, by simp only [Trip.snapshot, metrics, htable, h.counters]⟩

/-- **What a call comes to in one session it comes to in the other.** -/
theorem perform (h : t.Mirrors K t') {c : Call} (hc : c.Ordinary K.aside) :
    Effect.Mirrors K (t.perform c) (t'.perform c) := by
  have hclosed : (t'.closed && c.onSession) = (t.closed && c.onSession) := by rw [h.closed]
  unfold Trip.perform
  rw [hclosed]
  split
  · exact h.same .closed
  · cases c with
    | start => exact h.start
    | stop => exact h.stop
    | close => exact h.close
    | setRoutes routes => exact h.setRoutes routes
    | setGuidance on =>
      exact ⟨h.withFacts fun f => { f with guidance := on, arrived := f.arrived && on }, .done,
        .cons (.recompute .call) .nil⟩
    | setDestination destination =>
      exact ⟨h.withFacts fun f => { f with destination }, .done, .cons (.recompute .call) .nil⟩
    | observe l c =>
      refine ⟨h, .id fun he => ?_, .cons (.register hc) .nil⟩
      rw [h.dispatch.registry_eq he]
    | unobserve l c =>
      obtain ⟨hd, hremoved⟩ := h.dispatch.unregisterObserver (c := c) (o := l) hc
      have hanswer : Answer.Mirrors K (.flag (t.dispatch.unregisterObserver c l).2)
          (.flag (t'.dispatch.unregisterObserver c l).2) := by
        rw [hremoved]
        exact .flag _
      exact ⟨h.withDispatch hd, hanswer, .nil⟩
    | subscribe l c slot => exact ⟨h, .done, .cons (.subscribe hc.1 hc.2) .nil⟩
    | release slot =>
      refine ⟨h.withDispatch (h.dispatch.release hc), ?_, .nil⟩
      simp only [← h.dispatch.isSome_guard? hc]
      split
      · exact .done
      · exact .noGuard
    | detach slot =>
      refine ⟨h.withDispatch (h.dispatch.detach slot), ?_, .nil⟩
      simp only [← h.dispatch.isSome_guard? hc]
      split
      · exact .done
      · exact .noGuard
    | query => exact h.same (.snapshot h.snapshot)
    | control c => exact ⟨{ h with engine := congrArg (·.control c) h.engine }, .done, .nil⟩
    | push fix =>
      obtain ⟨hsent, hflag⟩ := (h.mapManual (·.know (some fix))).send (.ok fix)
      exact ⟨hsent, by simp only [hflag]; exact .flag _, .nil⟩
    | pushError cause =>
      obtain ⟨hsent, hflag⟩ := h.send (.error cause)
      exact ⟨hsent, by simp only [hflag]; exact .flag _, .nil⟩
    | setLastKnown fix => exact ⟨h.mapManual _, .done, .nil⟩
    | failNextStart => exact ⟨h.mapManual _, .done, .nil⟩
    | haltSource => exact ⟨h.haltSource, .done, .nil⟩

/-- **A call is made in both sessions.** -/
theorem call (h : t.Mirrors K t') {c : Call} (hc : c.Ordinary K.aside)
    (caller : Option Listener) : (t.call caller c).Mirrors K (t'.call caller c) := by
  have he := h.perform hc
  exact he.trip.pushStages
    (List.rel_append he.stages (.cons (.reply ⟨rfl, rfl, hc, he.answer⟩) .nil))

/-- A call on behalf of a bystander is made in the first session alone. -/
theorem callAside (h : t.Mirrors K t') {c : Call} (hc : c.Aside K.aside)
    (caller : Option Listener) : (t.call caller c).Mirrors K t' := by
  -- Its stages are those of the call, and its answer.
  have push {u : Trip} {stages : List Stage} {a : Answer} (hu : u.Mirrors K t')
      (hs : ∀ s ∈ stages, s.Aside K) :
      (u.pushStages (stages ++ [.reply ⟨caller, c, a⟩])).Mirrors K t' := by
    refine hu.withDispatchAside (hu.dispatch.pushOwnersAside fun s hmem => ?_)
    rcases List.mem_append.mp hmem with hmem | hmem
    · exact hs s hmem
    · rw [List.mem_singleton.mp hmem]
      exact .reply hc
  unfold Trip.call Trip.perform
  split
  · exact push h (List.forall_mem_nil _)
  · cases c with
    | observe l c => exact push h (by simpa using .register hc)
    | unobserve l c =>
      exact push (h.withDispatchAside (h.dispatch.unregisterObserverAside hc))
        (List.forall_mem_nil _)
    | subscribe l c slot => exact push h (by simpa using .subscribe hc.1 hc.2)
    | release slot =>
      exact push (h.withDispatchAside (h.dispatch.releaseAside hc)) (List.forall_mem_nil _)
    | detach slot =>
      exact push (h.withDispatchAside (h.dispatch.detachAside hc)) (List.forall_mem_nil _)
    | _ => exact hc.elim

/-! ## What happens by itself -/

theorem pop_eq {x : SessionFrame} {below : List SessionFrame} (top : t.stack = x :: below) :
    t.pop = { t with dispatch := { t.dispatch with stack := below } } := by
  simp only [pop, mapDispatch, show t.dispatch.stack = x :: below from top, List.tail_cons]

theorem engineCalls_of_owner {s : Stage} {below : List SessionFrame}
    (top : t.stack = .owner s :: below) : t.engineCalls none = t.stageCalls s := by
  simp only [engineCalls, show t.dispatch.stack = .owner s :: below from top]

/-- A fan-out or a guard goes on. -/
theorem tick?_of_advance? {d : SessionDispatch} (h : t.dispatch.advance? = some d) :
    t.tick? = some { t with dispatch := d } ∧ t.engineCalls none = [] := by
  obtain ⟨f, below, top, -⟩ | ⟨f, id, l, rest, below, top, -⟩ | ⟨slot, g, below, top, -⟩ :=
    Dispatch.advance?_cases h <;>
  · simp only [Trip.tick?, engineCalls, top, h, Option.map_some]
    trivial

/-- A stage asks the same of the engine in both. -/
theorem stageCalls (h : t.Mirrors K t') {s s' : Stage} (hs : s.Mirrors K s') :
    t.stageCalls s = t'.stageCalls s' := by
  cases hs with
  | ingest tick => simp only [Trip.stageCalls, tick.fix]
  | ask tick => simp only [Trip.stageCalls, h.isNone_workerOf? tick.generation, h.engine]
  | _ => rfl

/-- The signal is told a value in both. -/
theorem takesIn (h : t.Mirrors K t') {f : SessionFanout} {id : ObserverId}
    {below : List SessionFrame} (top : t.stack = .acting f id .speedSignal :: below) {u : Trip}
    (hu : t.tick? = some u) :
    ∃ u', t'.tick? = some u' ∧ u.Mirrors K u' ∧ t.engineCalls none = t'.engineCalls none := by
  obtain ⟨n, k, id', below', top', hfinish, -⟩ := h.dispatch.pop_acting top (K.signal _)
  have hcalls : t.engineCalls none = t'.engineCalls none := by
    simp only [engineCalls, show t.dispatch.stack = _ from top, top']
  obtain ⟨m, j, c, v⟩ := f
  simp only [Trip.tick?, show t.dispatch.stack = _ from top, Option.some.injEq] at hu
  subst hu
  simp only [Trip.tick?, top']
  refine ⟨_, rfl, ?_, hcalls⟩
  cases c with
  | location =>
    have hsignal : Trip.Mirrors K { t with signal := t.signal.observe v }
        { t' with signal := t'.signal.observe v } :=
      { h with signal := congrArg (·.observe v) h.signal }
    exact hsignal.withDispatch hfinish
  | _ => exact h.withDispatch hfinish

/-- **What happens by itself in the first session happens in the other, or has to do with a
bystander.** -/
theorem tick? (h : t.Mirrors K t') {u : Trip} (hu : t.tick? = some u) :
    u.Mirrors K t' ∧ t.engineCalls none = [] ∨
    ∃ u', t'.tick? = some u' ∧ u.Mirrors K u' ∧ t.engineCalls none = t'.engineCalls none := by
  unfold Trip.tick? at hu
  split at hu
  · rename_i s below top
    cases hu
    rw [engineCalls_of_owner top, pop_eq top]
    rcases h.dispatch.pop_owner top with ⟨haside, hd⟩ | ⟨s', below', top', hs, hd⟩
    · refine .inl ⟨(h.withDispatchAside hd).runAside haside, ?_⟩
      cases haside <;> rfl
    · refine .inr ⟨_, tick?_of_owner top', ?_, ?_⟩
      · rw [pop_eq top']
        exact (h.withDispatch hd).run hs
      · rw [engineCalls_of_owner top']
        exact h.stageCalls hs
  · rename_i f id below top
    exact .inr (h.takesIn top (by simp only [Trip.tick?, top]; exact hu))
  · obtain ⟨d, hd, rfl⟩ := Option.map_eq_some_iff.mp hu
    obtain ⟨-, hcalls⟩ := tick?_of_advance? hd
    rcases h.dispatch.advance? hd with haside | ⟨d', hd', hm⟩
    · exact .inl ⟨h.withDispatchAside haside, hcalls⟩
    · obtain ⟨hstep, hcalls'⟩ := tick?_of_advance? hd'
      exact .inr ⟨_, hstep, h.withDispatch hm, by rw [hcalls, hcalls']⟩

/-! ## What is decided -/

/-- Unless a bystander is at work, the same one has the word in both. -/
theorem speaker (h : t.Mirrors K t') (hb : t.bystanding K.aside = false)
    {caller : Option Listener} (hw : t.speaker = some caller) : t'.speaker = some caller := by
  rcases stack_of_speaker hw with top | ⟨f, id, l, below, top⟩
  · have top' := h.dispatch.stack_nil top
    simpa only [Trip.speaker, Dispatch.speaker, top', show t.dispatch.stack = _ from top] using hw
  · have ho : K.aside.who f.category l = false := by
      simpa only [bystanding, show t.dispatch.stack = _ from top] using hb
    obtain ⟨n, k, id', below', top', -⟩ := h.dispatch.pop_acting top ho
    simpa only [Trip.speaker, Dispatch.speaker, top', show t.dispatch.stack = _ from top] using hw

theorem decide? (h : t.Mirrors K t') {d : Decision Call} (hd : t.Ordinary K.aside (.decide d))
    {u : Trip} (hu : t.decide? d = some u) :
    ∃ u', t'.decide? d = some u' ∧ u.Mirrors K u' := by
  cases hw : t.speaker with
  | none => simp [Trip.decide?, hw] at hu
  | some caller =>
    have hb : t.bystanding K.aside = false := by
      cases d with
      | call c => exact hd.1
      | finish | fail => exact hd
    have hw' := h.speaker hb hw
    cases d with
    | call c =>
      simp only [Trip.decide?, hw, hw', Option.some.injEq] at hu ⊢
      subst hu
      exact ⟨_, rfl, h.call hd.2 caller⟩
    | finish | fail =>
      cases caller with
      | none => simp [Trip.decide?, hw] at hu
      | some l =>
        obtain ⟨f, id, below, top⟩ := acting_of_speaker hw
        have ho : K.aside.who f.category l = false := by
          simpa only [bystanding, show t.dispatch.stack = _ from top] using hb
        obtain ⟨n, k, id', below', top', hfinish, hfail⟩ := h.dispatch.pop_acting top ho
        simp only [Trip.decide?, hw, hw', Option.some.injEq] at hu ⊢
        subst hu
        first
          | exact ⟨_, rfl, h.withDispatch hfinish⟩
          | exact ⟨_, rfl, h.withDispatch hfail⟩

/-- A move that has to do with bystanders is made in the first session alone. -/
theorem bystander (h : t.Mirrors K t') {m : Move} (hm : t.Aside K.aside m) {u : Trip}
    (hu : t.move? m = some u) : u.Mirrors K t' := by
  cases m with
  | decide d =>
    cases hw : t.speaker with
    | none => simp [Trip.move?, Trip.decide?, hw] at hu
    | some caller =>
      cases d with
      | call c =>
        simp only [Trip.move?, Trip.decide?, hw, Option.some.injEq] at hu
        subst hu
        exact h.callAside hm.2 caller
      | finish | fail =>
        cases caller with
        | none => simp [Trip.move?, Trip.decide?, hw] at hu
        | some l =>
          obtain ⟨f, id, below, top⟩ := acting_of_speaker hw
          have ho : K.aside.who f.category l = true := by
            simpa only [Trip.Aside, bystanding, show t.dispatch.stack = _ from top] using hm
          obtain ⟨hfinish, hfail⟩ := h.dispatch.pop_bystander top ho
          simp only [Trip.move?, Trip.decide?, hw, Option.some.injEq] at hu
          subst hu
          first
            | exact h.withDispatchAside hfinish
            | exact h.withDispatchAside hfail
  | _ => exact hm.elim

/-! ## Tasks -/

theorem idle (h : t.Mirrors K t') (hi : t.idle = true) : t'.idle = true :=
  List.isEmpty_iff.mpr (h.dispatch.stack_nil (stack_of_idle hi))

end Trip.Mirrors

/-- What two workers wait for has come to both or to neither. -/
theorem Worker.Mirrors.ready {w w' : Worker} (h : w.Mirrors K w') {now now' : Nat}
    (hnow : K.clock.Same now now') : w.ready now = w'.ready now' := by
  have hwait := h.wait
  have hdue := h.due
  unfold Worker.ready
  generalize w.wait = x at hwait
  generalize w'.wait = y at hwait
  cases hwait with
  | status asked tick isReady isLate =>
    simp only [isReady.le_iff hnow, isLate.le_iff hnow]
  | delivery => simp only [h.line]
  | beat =>
    generalize w.due = a at hdue
    generalize w'.due = b at hdue
    cases hdue with
    | none => rfl
    | some hdue => simp only [Option.all_some, hdue.le_iff hnow]
  | _ => rfl

namespace Trip.Mirrors

/-- The worker takes a turn in both. -/
theorem resume (h : t.Mirrors K t') {w w' : Worker} (hw : w.Mirrors K w') :
    (t.resume w).Mirrors K (t'.resume w') ∧ t.turnCalls w = t'.turnCalls w' := by
  have hg := hw.generation.tied
  have hwait := hw.wait
  have hawake := h.mapWorker hg (f := fun w => { w with wait := .working })
    (k := fun w => { w with wait := .working })
    fun _ _ hm => ⟨hm.generation, hm.line, hm.hasFix, hm.due, .working⟩
  unfold Trip.resume turnCalls
  generalize t.mapWorker w.generation _ = awake at hawake
  generalize t'.mapWorker w'.generation _ = awake' at hawake
  generalize w.wait = x at hwait
  generalize w'.wait = y at hwait
  cases hwait with
  | turn fix => exact ⟨hawake.begin hg _ _, rfl⟩
  | status asked tick isReady isLate =>
    have hcollect : awake'.engine.collect asked = awake.engine.collect asked := by
      rw [hawake.engine]
    have htimeout : t'.settings.polling.timeout = t.settings.polling.timeout := by rw [h.settings]
    simp only [isReady.le_iff h.now, hcollect, htimeout]
    refine ⟨?_, trivial⟩
    split
    · exact (hawake.withEngine (awake.engine.collect asked).1).pushStage (.conclude tick _)
    · exact hawake.pushStage (.conclude tick _)
  | _ => exact ⟨hawake.pushStage (.proceed hg), rfl⟩

theorem work? (h : t.Mirrors K t') {u : Trip} (hu : t.work? = some u) :
    ∃ u', t'.work? = some u' ∧ u.Mirrors K u' ∧
      t.engineCalls (some .work) = t'.engineCalls (some .work) := by
  have hw := h.worker
  unfold Trip.work? at hu
  split at hu
  · rename_i hready
    obtain ⟨hi, hready⟩ := Bool.and_eq_true_iff.mp hready
    obtain ⟨w, hworker, rfl⟩ := Option.map_eq_some_iff.mp hu
    rw [hworker] at hw
    generalize hworker' : t'.worker = x at hw
    cases hw with
    | @some w w' hw =>
      obtain ⟨hresume, hcalls⟩ := h.resume hw
      have hready' : t'.workReady = true := by
        simpa only [workReady, hworker, hworker', Option.any_some, hw.ready h.now] using hready
      refine ⟨t'.resume w', ?_, hresume, ?_⟩
      · simp only [Trip.work?, h.idle hi, hready', hworker', Bool.and_self, ↓reduceIte,
          Option.map_some]
      · simp only [engineCalls, hworker, hworker', Option.toList_some, List.flatMap_singleton,
          hcalls]
  · cases hu

end Trip.Mirrors

/-- Both replays send the same, and wait as long for their next fix. -/
theorem ReplayRun.Mirrors.send {clock : Origins} {r r' : ReplayRun} (h : r.Mirrors clock r')
    (s : ReplaySource) (run' : Option ReplayRun) (line : Line) :
    (Source.replay (s.send r line).1).Mirrors clock
        (.replay ({ s with run := run' }.send r' line).1) ∧
      (s.send r line).2 = ({ s with run := run' }.send r' line).2 := by
  have hfix : { s with run := run' }.fix? r' = s.fix? r := by
    simp only [ReplaySource.fix?, h.next]
  have hstop : (Source.replay s.stop).Mirrors clock (.replay { s with run := run' }.stop) :=
    .replay s.stop .none
  unfold ReplaySource.send
  rw [hfix]
  split
  · exact ⟨hstop, rfl⟩
  · split
    · exact ⟨hstop, rfl⟩
    · split
      · simp only [ReplaySource.advance, ← h.next]
        split
        · exact ⟨.replay { s with run := some { next := r.next + 1, due := r.due + s.interval } }
            (.some ⟨rfl, h.due.add _⟩), rfl⟩
        · exact ⟨.replay { s with run := none, finished := true } .none, rfl⟩
      · exact ⟨hstop, rfl⟩

namespace Trip.Mirrors

theorem replay? (h : t.Mirrors K t') {u : Trip} (hu : t.replay? = some u) :
    ∃ u', t'.replay? = some u' ∧ u.Mirrors K u' := by
  cases hi : t.idle with
  | false => simp [Trip.replay?, hi] at hu
  | true =>
    have hi' := h.idle hi
    cases t
    cases t'
    have hs := h.source
    have hw := h.worker
    simp only at hs hw
    cases hs with
    | manual m => simp [Trip.replay?, replayReady, replayRun?] at hu
    | replay s run =>
      obtain ⟨fixes, interval, r, finished⟩ := s
      cases run with
      | none => simp [Trip.replay?, replayReady, replayRun?] at hu
      | @some r r' hr =>
        simp only [Trip.replay?, hi, hi', replayReady, replayRun?, Option.map_some,
          Option.any_some, Bool.true_and, hr.due.le_iff h.now] at hu ⊢
        split at hu
        · rename_i hdue
          cases hw with
          | none =>
            obtain ⟨hsent, hline⟩ := hr.send ⟨fixes, interval, some r, finished⟩ (some r')
              { reading := false }
            cases hu
            simp only [hdue, ↓reduceIte]
            exact ⟨_, rfl, { h with source := hsent }⟩
          | @some w w' hw =>
            obtain ⟨hsent, hline⟩ := hr.send ⟨fixes, interval, some r, finished⟩ (some r') w.line
            cases hu
            simp only [hdue, ↓reduceIte, ← hw.line]
            refine ⟨_, rfl, { h with source := hsent, worker := .some ?_ }⟩
            exact ⟨hw.generation, hline, hw.hasFix, hw.due, hw.wait⟩
        · cases hu

theorem elapse? (h : t.Mirrors K t') {later : Nat} {u : Trip} (hu : t.elapse? later = some u) :
    ∃ u', t'.elapse? (later + K.clock.right - K.clock.left) = some u' ∧ u.Mirrors K u' := by
  unfold Trip.elapse? at hu
  split at hu
  · rename_i hready
    obtain ⟨hi, hle⟩ := Bool.and_eq_true_iff.mp hready
    have hle : t.now ≤ later := of_decide_eq_true hle
    cases hu
    have hnow := h.now
    unfold Origins.Same at hnow
    have hle' : t'.now ≤ later + K.clock.right - K.clock.left := by omega
    refine ⟨{ t' with now := later + K.clock.right - K.clock.left }, ?_, { h with now := ?_ }⟩
    · simp only [Trip.elapse?, h.idle hi, hle', decide_true, Bool.and_self, ↓reduceIte]
    · show later + K.clock.right = later + K.clock.right - K.clock.left + K.clock.left
      omega
  · cases hu

/-- **A move is made in both sessions.** -/
theorem move? (h : t.Mirrors K t') {m : Move} (hm : t.Ordinary K.aside m) {u : Trip}
    (hu : t.move? m = some u) :
    ∃ u', t'.move? (m.later K.clock) = some u' ∧ u.Mirrors K u' ∧
      t.engineCalls (some m) = t'.engineCalls (some (m.later K.clock)) := by
  cases m with
  | decide d =>
    obtain ⟨u', hu', hm⟩ := h.decide? hm hu
    refine ⟨u', hu', hm, ?_⟩
    cases d with
    | call c =>
      cases c with
      | setRoutes routes => simp only [engineCalls, Move.later, h.closed]
      | _ => rfl
    | finish | fail => rfl
  | work => exact h.work? hu
  | replay =>
    obtain ⟨u', hu', hm⟩ := h.replay? hu
    exact ⟨u', hu', hm, rfl⟩
  | elapse later =>
    obtain ⟨u', hu', hm⟩ := h.elapse? hu
    exact ⟨u', hu', hm, rfl⟩

/-! ## Runs -/

/-- **A run of the first session, with bystanders, is a run of the second without.** It asks the
same of the engine. -/
theorem attended (h : t.Mirrors K t') {ms : List Move} {calls : List EngineCall} {u : Trip}
    (hr : Attended K.aside t ms calls u) :
    ∃ u', Attended .nobody t' (ms.map (·.later K.clock)) calls u' ∧ u.Mirrors K u' := by
  induction hr generalizing t' with
  | refl t => exact ⟨t', .refl t', h⟩
  | tick step _ ih =>
    rcases h.tick? step with ⟨hm, hcalls⟩ | ⟨b', step', hm, hcalls⟩
    · rw [hcalls]
      exact ih hm
    · obtain ⟨u', hu', hu⟩ := ih hm
      rw [hcalls]
      exact ⟨u', .tick step' hu', hu⟩
  | bystander aside step _ ih => exact ih (h.bystander aside step)
  | move ordinary step _ ih =>
    obtain ⟨b', step', hm, hcalls⟩ := h.move? ordinary step
    obtain ⟨u', hu', hu⟩ := ih hm
    rw [hcalls]
    exact ⟨u', .move (ordinary_nobody _ _) step' hu', hu⟩

end Trip.Mirrors
end LiveTrip
