import LiveTrip.Proofs.Session.Comparison
import LiveTrip.Proofs.Session.Stages

/-!
# Stages of sessions that go through the same

What a stage does in one session it does in one that mirrors it.

* `Trip.Mirrors.tell`, `note`, `pushStages`, `count` and so on: what stages are made of, done in
  both.
* `Trip.Mirrors.begin`, `ask`, `proceed`, `progress`: the parts of a tick.
* `Trip.Mirrors.run`: a stage is run in both. `Trip.Mirrors.runAside`: a stage of a bystander's call
  is run in the first alone.
-/

namespace LiveTrip.Trip

variable {K : Comparison} {t t' : Trip}

/-! ## A pass over a leg -/

/-- What a report makes of the `i`-th active route, of which a pass has gone over a leg. -/
def passed (t : Trip) (i : Nat) (report : ProgressReport) (o : Outlook) : Trip :=
  let routes := t.facts.routes.modify i fun r => { r with legs := r.legs.set report.leg o.leg }
  let t := { t with signal := o.signal }.withFacts fun f => { f with routes }
  let t := match o.asked with
    | some n => t.note n
    | none => t
  if o.blended then
    (t.count fun c => { c with blends := c.blends + 1 }).note (.blended report.route report.leg)
  else t

/-- What is told of a report after a pass over a leg. -/
def reported (t : Trip) (report : ProgressReport) (how : Tracking) (o : Outlook) : Progress :=
  let start := min report.segment o.leg.congestion.length
  { report, tracking := how
    congestion := t.settings.smoother.thresholds.classify start (o.leg.congestion.drop start) }

theorem settings_passed (t : Trip) (i : Nat) (report : ProgressReport) (o : Outlook) :
    (t.passed i report o).settings = t.settings := by
  unfold passed
  cases o.asked <;> simp only <;> split <;> rfl

theorem progress_of_leg {report : ProgressReport} (how : Tracking) {i : Nat} {leg : Leg}
    (hi : t.facts.routes.findIdx? (·.id = report.route) = some i)
    (hleg : (t.facts.routes[i]?).bind (·.legs[report.leg]?) = some leg) :
    t.progress report how =
      (t.passed i report (outlook t.settings.smoother t.signal leg report.segment),
        some (t.reported report how
          (outlook t.settings.smoother t.signal leg report.segment))) := by
  have hafter : t.progress report how =
      (t.passed i report (outlook t.settings.smoother t.signal leg report.segment),
        some ((t.passed i report (outlook t.settings.smoother t.signal leg report.segment)).reported
          report how (outlook t.settings.smoother t.signal leg report.segment))) := by
    simp only [progress, hi, hleg]
    rfl
  rw [hafter]
  unfold reported
  rw [settings_passed]

namespace Mirrors

/-! ## What stages are made of -/

theorem withDispatch (h : t.Mirrors K t') {d d' : SessionDispatch}
    (hd : Dispatch.Mirrors K.mirror d d') :
    Trip.Mirrors K { t with dispatch := d } { t' with dispatch := d' } :=
  { h with dispatch := hd }

/-- The dispatch of the first alone changes. -/
theorem withDispatchAside (h : t.Mirrors K t') {d : SessionDispatch}
    (hd : Dispatch.Mirrors K.mirror d t'.dispatch) :
    Trip.Mirrors K { t with dispatch := d } t' :=
  { h with dispatch := hd }

theorem withEngine (h : t.Mirrors K t') (engine : Engine) :
    Trip.Mirrors K { t with engine } { t' with engine } :=
  { h with engine := rfl }

theorem withSignal (h : t.Mirrors K t') (signal : Signal) :
    Trip.Mirrors K { t with signal } { t' with signal } :=
  { h with signal := rfl }

theorem note (h : t.Mirrors K t') {n n' : Note} (hn : n.Mirrors K n') :
    (t.note n).Mirrors K (t'.note n') :=
  h.withDispatch (h.dispatch.note hn)

theorem count (h : t.Mirrors K t') (f : Counters → Counters) :
    (t.count f).Mirrors K (t'.count f) :=
  { h with counters := congrArg f h.counters }

theorem discard (h : t.Mirrors K t') : t.discard.Mirrors K t'.discard := h.count _

theorem withFacts (h : t.Mirrors K t') (f : Facts → Facts) :
    (t.withFacts f).Mirrors K (t'.withFacts f) :=
  { h with facts := congrArg f h.facts }

theorem tell (h : t.Mirrors K t') {k k' : Cause} (hk : k.Mirrors K k') (c : Category)
    (v : c.Value) : (t.tell k c v).Mirrors K (t'.tell k' c v) :=
  h.withDispatch (h.dispatch.publish hk c v)

theorem pushStages (h : t.Mirrors K t') {ss ss' : List Stage}
    (hs : List.Forall₂ (Stage.Mirrors K) ss ss') :
    (t.pushStages ss).Mirrors K (t'.pushStages ss') :=
  h.withDispatch (h.dispatch.pushOwners hs)

theorem pushStage (h : t.Mirrors K t') {s s' : Stage} (hs : s.Mirrors K s') :
    (t.pushStages [s]).Mirrors K (t'.pushStages [s']) :=
  h.pushStages (.cons hs .nil)

theorem last (h : t.Mirrors K t') (c : Category) : t.dispatch.last c = t'.dispatch.last c :=
  h.dispatch.last c

/-! ## Ticks and workers -/

/-- A tick may still tell something in both sessions or in neither. -/
theorem current_eq (h : t.Mirrors K t') {k k' : Tick} (hk : k.Mirrors K k') :
    t.current k = t'.current k' := by
  simp only [current, h.generation.eq_iff hk.generation]

theorem workerOf? (h : t.Mirrors K t') {g g' : Nat} (hg : K.generation.Tied g g') :
    Option.Rel (Worker.Mirrors K) (t.workerOf? g) (t'.workerOf? g') := by
  have hw := h.worker
  unfold Trip.workerOf?
  generalize t.worker = x at hw
  generalize t'.worker = y at hw
  cases hw with
  | none => exact .none
  | some hw =>
    rw [Option.filter_some, Option.filter_some]
    have := hw.generation.eq_iff hg
    simp only [this]
    split
    · exact .some hw
    · exact .none

theorem isNone_workerOf? (h : t.Mirrors K t') {g g' : Nat} (hg : K.generation.Tied g g') :
    (t.workerOf? g).isNone = (t'.workerOf? g').isNone := by
  have hw := h.workerOf? hg
  generalize t.workerOf? g = x at hw
  generalize t'.workerOf? g' = y at hw
  cases hw <;> rfl

theorem withWorker (h : t.Mirrors K t') {x y : Option Worker}
    (hw : Option.Rel (Worker.Mirrors K) x y) :
    Trip.Mirrors K { t with worker := x } { t' with worker := y } :=
  { h with worker := hw }

theorem withStamp (h : t.Mirrors K t') (stamp stamp' : Nat) :
    Trip.Mirrors K { t with stamp } { t' with stamp := stamp' } :=
  { h with }

theorem mapWorker (h : t.Mirrors K t') {g g' : Nat} (hg : K.generation.Tied g g')
    {f k : Worker → Worker} (hf : ∀ w w', w.Mirrors K w' → (f w).Mirrors K (k w')) :
    (t.mapWorker g f).Mirrors K (t'.mapWorker g' k) := by
  have hw := h.workerOf? hg
  unfold Trip.mapWorker
  generalize t.workerOf? g = x at hw
  generalize t'.workerOf? g' = y at hw
  cases hw with
  | none => exact h
  | some hw => exact h.withWorker (.some (hf _ _ hw))

theorem await (h : t.Mirrors K t') {g g' : Nat} (hg : K.generation.Tied g g') {wait wait' : Wait}
    (hw : wait.Mirrors K wait') : (t.await g wait).Mirrors K (t'.await g' wait') :=
  (h.withStamp (t.stamp + 1) (t'.stamp + 1)).mapWorker hg fun _ _ hm =>
    ⟨hm.generation, hm.line, hm.hasFix, hm.due, hw⟩

theorem endWorker (h : t.Mirrors K t') {g g' : Nat} (hg : K.generation.Tied g g') :
    (t.mapWorker g (·.ended)).Mirrors K (t'.mapWorker g' (·.ended)) :=
  h.mapWorker hg fun _ _ hm =>
    ⟨hm.generation, congrArg (fun l => { l with reading := false }) hm.line, hm.hasFix, hm.due,
      .ended⟩

/-- Both workers read the same. -/
theorem readLine (h : t.Mirrors K t') {w w' : Worker} (hw : w.Mirrors K w') :
    (t.readLine w).1.Mirrors K (t'.readLine w').1 ∧ (t.readLine w).2 = (t'.readLine w').2 := by
  refine ⟨?_, by simp only [Trip.readLine, hw.line]⟩
  simp only [Trip.readLine, hw.line]
  refine ((h.mapWorker hw.generation.tied fun _ _ hm => ?_).count _).note
    (.read hw.generation.tied _)
  exact ⟨hm.generation, rfl, by simp only [hm.hasFix], hm.due, hm.wait⟩

/-- Both workers read at the same time. -/
theorem now_readLine (t : Trip) (w : Worker) : (t.readLine w).1.now = t.now := by
  simp only [Trip.readLine, Trip.note, mapDispatch, Trip.count, Trip.mapWorker]
  split <;> rfl

/-- A tick begins in both. -/
theorem begin (h : t.Mirrors K t') {g g' : Nat} (hg : K.generation.Tied g g') (scope : Scope)
    (fix : Option Fix) : (t.begin g scope fix).Mirrors K (t'.begin g' scope fix) := by
  have hticks : Trip.Mirrors K { t with ticks := t.ticks + 1 } { t' with ticks := t'.ticks + 1 } :=
    { h with ticks := h.ticks.add 1 }
  have htick : Tick.Mirrors K ⟨t.ticks, g, t.epoch, scope, fix⟩
      ⟨t'.ticks, g', t'.epoch, scope, fix⟩ := ⟨h.ticks, hg, h.epoch.tied, rfl, rfl⟩
  exact (hticks.note (.ticked htick)).pushStage (.announce htick)

/-- The next beat is as far away in both. -/
theorem nextBeat {period due due' now now' : Nat} (hdue : K.clock.Same due due')
    (hnow : K.clock.Same now now') (hle : due ≤ now) :
    K.clock.Same (nextBeat period due now) (nextBeat period due' now') := by
  have hlate : now - due = now' - due' := by
    unfold Origins.Same at *; omega
  have hmod : (now' - due') % period ≤ now' - due' := Nat.mod_le ..
  unfold Trip.nextBeat
  rw [hlate]
  unfold Origins.Same at *
  split <;> omega

/-- A worker that has read its line begins a tick, or goes on if there was nothing in it. -/
theorem proceed (h : t.Mirrors K t') {g g' : Nat} (hg : K.generation.Tied g g') :
    (t.proceed g).Mirrors K (t'.proceed g') := by
  have hw := h.workerOf? hg
  unfold Trip.proceed
  generalize t.workerOf? g = x at hw
  generalize t'.workerOf? g' = y at hw
  cases hw with
  | none => exact h
  | @some w w' hw =>
    simp only [← h.settings, ← hw.line]
    split
    · split
      · split
        · exact h.await hg .delivery
        · exact h.endWorker hg
      · obtain ⟨hread, hbatch⟩ := h.readLine hw
        simp only [← hbatch]
        split
        · exact hread.begin hg _ _
        · exact hread.pushStage (.proceed hg)
    · exact h.endWorker hg
    · rename_i period _ _
      obtain ⟨hread, hbatch⟩ := h.readLine hw
      have hdue : K.clock.Same (w.due.getD t.now) (w'.due.getD t'.now) := by
        have := hw.due
        generalize w.due = x at this
        generalize w'.due = y at this
        cases this with
        | none => exact h.now
        | some hdue => exact hdue
      have hle := hdue.le_iff h.now
      simp only [← hbatch, ← hw.hasFix, hle]
      split
      · have hbeat := hread.mapWorker hg (f := fun w₁ => { w₁ with
            due := some (Trip.nextBeat period (w.due.getD t.now) (t.readLine w).1.now) })
          (k := fun w₁ => { w₁ with
            due := some (Trip.nextBeat period (w'.due.getD t'.now) (t'.readLine w').1.now) })
          fun _ _ hm => ⟨hm.generation, hm.line, hm.hasFix,
            .some (nextBeat hdue hread.now (by rw [now_readLine]; exact hle.mpr ‹_›)), hm.wait⟩
        split
        · exact hbeat.begin hg _ _
        · exact hbeat.pushStage (.proceed hg)
      · exact h.await hg .beat

/-- The engine is asked in both. -/
theorem ask (h : t.Mirrors K t') {k k' : Tick} (hk : k.Mirrors K k') :
    (t.ask k).Mirrors K (t'.ask k') := by
  have htimeout : t'.settings.polling.timeout = t.settings.polling.timeout := by rw [h.settings]
  have hengine : t'.engine.ask = t.engine.ask := by rw [h.engine]
  unfold Trip.ask
  rw [← h.isNone_workerOf? hk.generation, hengine]
  split
  · exact h
  · rcases t.engine.ask with ⟨engine, asked, delay⟩
    simp only [htimeout]
    split
    · exact (h.withEngine (engine.collect asked).1).pushStage (.conclude hk _)
    · split
      · exact (h.withEngine engine).pushStage (.conclude hk _)
      · exact (h.withEngine engine).await hk.generation
          (.status asked hk (h.now.add delay) (h.now.add t.settings.polling.timeout))

/-! ## Progress -/

/-- What is asked of the signal is noted alike. -/
theorem of_asked {s : SmootherSettings} {signal : Signal} {leg : Leg} {start : Nat} {n : Note}
    (h : (outlook s signal leg start).asked = some n) : n.Mirrors K n := by
  obtain ⟨a, b, congestion, value, rfl⟩ := asked_of_outlook h
  exact .estimated a b congestion value

theorem passed (h : t.Mirrors K t') (i : Nat) (report : ProgressReport) {o : Outlook}
    (ho : ∀ n, o.asked = some n → n.Mirrors K n) :
    (t.passed i report o).Mirrors K (t'.passed i report o) := by
  have hfacts : t'.facts.routes = t.facts.routes := by rw [h.facts]
  have hroutes := (h.withSignal o.signal).withFacts fun f => { f with
    routes := t.facts.routes.modify i fun r => { r with legs := r.legs.set report.leg o.leg } }
  unfold Trip.passed
  rw [hfacts]
  -- The signal may have been asked, and the leg may have changed.
  cases hasked : o.asked with
  | none =>
    simp only
    split
    · exact (hroutes.count _).note (.blended _ _)
    · exact hroutes
  | some n =>
    have hnote := hroutes.note (ho n hasked)
    simp only
    split
    · exact (hnote.count _).note (.blended _ _)
    · exact hnote

/-- A report makes the same progress in both. -/
theorem progress (h : t.Mirrors K t') (report : ProgressReport) (how : Tracking) :
    (t.progress report how).1.Mirrors K (t'.progress report how).1 ∧
      (t.progress report how).2 = (t'.progress report how).2 := by
  have hroutes : t'.facts.routes = t.facts.routes := by rw [h.facts]
  have hreported (o : Outlook) : t'.reported report how o = t.reported report how o := by
    simp only [reported, h.settings]
  cases hi : t.facts.routes.findIdx? (·.id = report.route) with
  | none =>
    simp only [Trip.progress, hroutes, hi]
    exact ⟨h, trivial⟩
  | some i =>
    cases hleg : (t.facts.routes[i]?).bind (·.legs[report.leg]?) with
    | none =>
      simp only [Trip.progress, hroutes, hi, hleg]
      exact ⟨h, trivial⟩
    | some leg =>
      rw [progress_of_leg how hi hleg, progress_of_leg how (hroutes ▸ hi) (hroutes ▸ hleg),
        hreported, ← h.settings, ← h.signal]
      exact ⟨h.passed i report fun n hn => of_asked hn, rfl⟩

/-! ## Stages -/

theorem run_enter (h : t.Mirrors K t') (s : SessionState) :
    (t.run (.enter s)).Mirrors K (t'.run (.enter s)) := by
  simp only [run, ← h.facts]
  split
  · exact h
  · exact (h.withFacts fun f => { f with state := s }).tell .call .sessionState s

theorem run_recompute (h : t.Mirrors K t') {k k' : Cause} (hk : k.Mirrors K k') :
    (t.run (.recompute k)).Mirrors K (t'.run (.recompute k')) := by
  have hphase : t'.facts.phase.update t'.facts.phaseFacts =
      t.facts.phase.update t.facts.phaseFacts := by rw [h.facts]
  have hfacts := h.withFacts fun f => { f with
    phase := (t.facts.phase.update t.facts.phaseFacts).1 }
  have hcount := hfacts.count fun c => { c with invalidPhases := c.invalidPhases + 1 }
  simp only [run, hphase]
  split
  · split
    · exact hcount.tell hk _ _
    · exact hfacts.tell hk _ _
  · split
    · exact hcount
    · exact hfacts

theorem run_forgetTrip (h : t.Mirrors K t') :
    (t.run .forgetTrip).Mirrors K (t'.run .forgetTrip) :=
  h.withDispatch (((((h.dispatch.forget .rawLocation).forget .location).forget
    .routeProgress).forget .offRoute).forget .instructionCues)

theorem run_announce (h : t.Mirrors K t') {k k' : Tick} (hk : k.Mirrors K k') :
    (t.run (.announce k)).Mirrors K (t'.run (.announce k')) := by
  simp only [run, ← hk.fix]
  cases k.fix with
  | none => exact h.pushStage (.ask hk)
  | some fix =>
    have hnext := h.pushStage (.ingest hk)
    simp only [Option.isSome_some, ↓reduceIte, ← hnext.current_eq hk]
    split
    · exact hnext.tell (.tick hk.number) _ _
    · exact hnext.discard

theorem run_ingest (h : t.Mirrors K t') {k k' : Tick} (hk : k.Mirrors K k') :
    (t.run (.ingest k)).Mirrors K (t'.run (.ingest k')) := by
  simp only [run, ← hk.fix]
  cases k.fix with
  | none => exact h.pushStage (.ask hk)
  | some fix =>
    have hengine : t'.engine.ingest fix = t.engine.ingest fix := by rw [h.engine]
    simp only [hengine]
    split
    · exact (h.withEngine _).pushStage (.ask hk)
    · exact (h.count _).pushStage (.proceed hk.generation)

theorem run_conclude (h : t.Mirrors K t') {k k' : Tick} (hk : k.Mirrors K k')
    (answer : Except EngineError Status) :
    (t.run (.conclude k answer)).Mirrors K (t'.run (.conclude k' answer)) := by
  have hcounted : k'.counted = k.counted := by simp only [Tick.counted, hk.scope, hk.fix]
  cases answer with
  | ok s => exact (h.note (.answered hk false)).pushStage (.locate hk s)
  | error e =>
    simp only [run, hcounted]
    split
    · exact ((h.count _).note (.answered hk true)).pushStage (.proceed hk.generation)
    · exact (h.note (.answered hk true)).pushStage (.proceed hk.generation)

theorem run_locate (h : t.Mirrors K t') {k k' : Tick} (hk : k.Mirrors K k') (s : Status) :
    (t.run (.locate k s)).Mirrors K (t'.run (.locate k' s)) := by
  simp only [run, ← h.current_eq hk, ← hk.scope]
  split
  · refine (h.pushStage ?_).tell (.tick hk.number) _ _
    split
    · exact .flag hk s
    · exact .tally hk
  · exact h.discard.pushStage (.proceed hk.generation)

theorem run_flag (h : t.Mirrors K t') {k k' : Tick} (hk : k.Mirrors K k') (s : Status) :
    (t.run (.flag k s)).Mirrors K (t'.run (.flag k' s)) := by
  have hnext := h.pushStage (.cue hk s)
  simp only [run, ← h.current_eq hk, ← hnext.last]
  split
  · split
    · exact hnext
    · exact hnext.tell (.tick hk.number) _ _
  · exact h.discard.pushStage (.tally hk)

theorem run_cue (h : t.Mirrors K t') {k k' : Tick} (hk : k.Mirrors K k') (s : Status) :
    (t.run (.cue k s)).Mirrors K (t'.run (.cue k' s)) := by
  have hnext := h.pushStage (.report hk s)
  have hepoch : (k'.epoch = t'.epoch) = (k.epoch = t.epoch) := by
    exact propext (eq_comm.trans ((h.epoch.eq_iff hk.epoch).symm.trans eq_comm))
  simp only [run, hepoch, ← h.current_eq hk, ← hnext.last, ne_eq]
  split
  · exact h.discard.pushStage (.tally hk)
  · split
    · exact hnext
    · split
      · split
        · exact hnext
        · exact hnext.tell (.tick hk.number) _ _
      · exact h.discard.pushStage (.tally hk)

theorem run_report (h : t.Mirrors K t') {k k' : Tick} (hk : k.Mirrors K k') (s : Status) :
    (t.run (.report k s)).Mirrors K (t'.run (.report k' s)) := by
  cases hprogress : s.progress with
  | none =>
    simp only [run, hprogress]
    exact h.pushStage (.tally hk)
  | some report =>
    obtain ⟨hp, hsame⟩ := h.progress report s.tracking
    rcases hx : t.progress report s.tracking with ⟨u, progress⟩
    rcases hy : t'.progress report s.tracking with ⟨u', progress'⟩
    rw [hx, hy] at hp hsame
    obtain rfl : progress = progress' := hsame
    cases progress with
    | none =>
      simp only [run, hprogress, hx, hy]
      exact hp.pushStage (.tally hk)
    | some progress =>
      simp only [run, hprogress, hx, hy, ← hp.current_eq hk]
      split
      · exact (hp.pushStage (.arrive hk _)).tell (.tick hk.number) _ _
      · exact hp.discard.pushStage (.tally hk)

theorem run_arrive (h : t.Mirrors K t') {k k' : Tick} (hk : k.Mirrors K k') (complete : Bool) :
    (t.run (.arrive k complete)).Mirrors K (t'.run (.arrive k' complete)) := by
  simp only [run, ← h.current_eq hk]
  split
  · exact (h.withFacts _).pushStages (.cons (.recompute (.tick hk.number)) (.cons (.tally hk) .nil))
  · exact h.discard.pushStage (.tally hk)

/-- **What a stage does in one session it does in the other.** -/
theorem run (h : t.Mirrors K t') {s s' : Stage} (hs : s.Mirrors K s') :
    (t.run s).Mirrors K (t'.run s') := by
  cases hs with
  | reply reply => exact h.note (.replied reply)
  | register ordinary => exact h.withDispatch (h.dispatch.register ordinary)
  | subscribe ordinary own => exact h.withDispatch (h.dispatch.subscribe ordinary own)
  | enter s => exact h.run_enter s
  | recompute cause => exact h.run_recompute cause
  | leaveOffRoute =>
    simp only [Trip.run, ← h.last]
    split
    · exact h.tell .call _ _
    · exact h
  | forgetTrip => exact h.run_forgetTrip
  | announce tick => exact h.run_announce tick
  | ingest tick => exact h.run_ingest tick
  | ask tick => exact h.ask tick
  | conclude tick answer => exact h.run_conclude tick answer
  | locate tick s => exact h.run_locate tick s
  | flag tick s => exact h.run_flag tick s
  | cue tick s => exact h.run_cue tick s
  | report tick s => exact h.run_report tick s
  | arrive tick complete => exact h.run_arrive tick complete
  | tally tick => exact (h.count _).pushStage (.proceed tick.generation)
  | proceed generation => exact h.proceed generation

/-- A stage of a bystander's call changes nothing that the second session has. -/
theorem runAside (h : t.Mirrors K t') {s : Stage} (hs : s.Aside K) : (t.run s).Mirrors K t' := by
  cases hs with
  | reply about => exact h.withDispatchAside (h.dispatch.noteAside (.replied about))
  | register bystander => exact h.withDispatchAside (h.dispatch.registerAside bystander)
  | subscribe bystander reserved =>
    exact h.withDispatchAside (h.dispatch.subscribeAside bystander reserved)

end Mirrors
end LiveTrip.Trip
