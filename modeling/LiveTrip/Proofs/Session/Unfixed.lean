import LiveTrip.Proofs.Session.Workers

/-!
# A worker without a fix

A worker that is started without a fix asks the engine once for what it has already, tells the
location if there is one, and then only counts the errors that it reads.

* `Trip.GoesOn`, `Trip.proceed_of_unfixed`: it goes on without a tick.
* `Trip.Idles`: what a step of a worker without a fix leaves alone. `Trip.Silent`: a step in which
  it asks for nothing and tells nothing as well.
* `Trip.Unfixed`: how far such a worker has come with the tick that starts it. `Trip.Starting`,
  `Trip.Awaits`, `Trip.Settled`: where it stands then.
* `Trip.Unfixed.step`, `Trip.Trail.unfixed`: every step takes it further, or leaves it where it is.
* `Trip.quiet_without_fix`: the whole account.
-/

namespace LiveTrip

open Category

/-- The tick is that at the start of the worker, and there was no fix. -/
structure Tick.Opens (k : Tick) (g : Nat) : Prop where
  generation : k.generation = g
  scope : k.scope = .locationOnly
  fix : k.fix = none

/-- Ticks aside, all that is counted is `n` failures of positioning. -/
def Counters.AddsErrors (c c' : Counters) (n : Nat) : Prop :=
  c' = { c with ticks := c'.ticks, ingestionFailures := c.ingestionFailures + n }

/-- The worker waits neither for its first turn nor for a status. -/
def Wait.isOpen : Wait → Bool
  | .turn _ | .status _ _ _ _ => false
  | _ => true

namespace Engine

theorem ingested_ask (e : Engine) : e.ask.1.ingested = e.ingested := by
  cases e with
  | simulated => rfl
  | scripted e =>
    simp only [ask, Scripted.next]
    split <;> rfl

theorem ingested_collect (e : Engine) (asked : Asked) :
    (e.collect asked).1.ingested = e.ingested := by
  cases asked with
  | known => rfl
  | later =>
    cases e with
    | scripted => rfl
    | simulated e =>
      simp only [collect, Simulated.status]
      split
      · rfl
      · split <;> rfl

end Engine

namespace Trip

variable {t t' : Trip} {ms ns : List Move} {ps : List Passage} {g : Nat} {k : Tick}

/-! ## A worker that goes on without a fix -/

theorem reads_of_reads? {ds : List Delivery} (h : t.reads? g = some ds) :
    .owner (.read g ds) ∈ (t.proceed g).log := by
  have hlog (w : Worker) (f : Worker → Worker) (hw : t.workerOf? g = some w)
      (hds : t.reads? g = some w.line.queue) :
      ((t.readLine w).1.mapWorker g f).log = .owner (.read g ds) :: t.log := by
    obtain ⟨-, rfl⟩ := workerOf?_eq_some.mp hw
    cases h.symm.trans hds
    exact (congrArg Dispatch.log (dispatch_mapWorker _ _ _)).trans (log_readLine t w)
  have hp := proceeds t g
  generalize t.proceed g = u at hp ⊢
  cases hp with
  | rests _ _ none => rw [h] at none; cases none
  | rereads w f hw reads =>
    show _ ∈ ((t.readLine w).1.mapWorker g f).log
    rw [hlog w f hw reads]
    exact List.mem_cons_self
  | begins w f hw reads =>
    refine List.mem_cons_of_mem _ ?_
    show _ ∈ ((t.readLine w).1.mapWorker g f).log
    rw [hlog w f hw reads]
    exact List.mem_cons_self

/-- How a worker without a fix goes on. -/
inductive GoesOn (t : Trip) (w : Worker) : Trip → Prop
  /-- It waits or ends. -/
  | waits (w' : Worker) (stamp : Nat) (same : w'.generation = w.generation)
      (unfixed : w'.hasFix = false) (isOpen : w'.wait.isOpen = true) :
      GoesOn t w { t with worker := some w', stamp }
  /-- It reads its line, and goes on again. -/
  | reads (w' : Worker) (same : w'.generation = w.generation) (unfixed : w'.hasFix = false)
      (wait : w'.wait = w.wait) (fixless : newestIn w.line.queue = none) :
      GoesOn t w ((({ t with worker := some w' }.count (Batch.ofList w.line.queue).count).note
        (.read w.generation w.line.queue)).pushStages [.proceed w.generation])

/-- **A worker that has no fix, and reads none, goes on without a tick.** -/
theorem proceed_of_unfixed {w : Worker} (running : t.worker = some w) (unfixed : w.hasFix = false)
    (fixless : ∀ ds, t.reads? w.generation = some ds → newestIn ds = none) :
    GoesOn t w (t.proceed w.generation) := by
  have hw : t.workerOf? w.generation = some w := workerOf?_eq_some.mpr ⟨running, rfl⟩
  have ends : t.mapWorker w.generation (·.ended) = { t with worker := some w.ended } :=
    mapWorker_of_running running _
  have waits := await_of_running running
  have read := readLine_of_running running
  unfold proceed
  simp only [hw]
  split
  · rename_i hpolicy
    by_cases hq : w.line.queue.isEmpty = true
    · simp only [hq, ↓reduceIte, ends, waits]
      split
      · exact .waits _ _ rfl unfixed rfl
      · exact .waits w.ended _ rfl unfixed rfl
    · have hnone : newestIn w.line.queue = none := by
        refine fixless _ ?_
        simp only [reads?, hw, hpolicy, hq, Option.bind_some, Bool.false_eq_true, ↓reduceIte]
      have hnewest := (Batch.newest_ofList w.line.queue).trans hnone
      simp only [hq, Bool.false_eq_true, ↓reduceIte, read, hnewest]
      exact .reads _ rfl (by simp [unfixed]) rfl hnone
  · rw [ends]
    exact .waits w.ended _ rfl unfixed rfl
  · rename_i period _ hpolicy
    by_cases hdue : w.due.getD t.now ≤ t.now
    · have hnone : newestIn w.line.queue = none := by
        refine fixless _ ?_
        simp only [reads?, hw, hpolicy, hdue, Option.bind_some, ↓reduceIte]
      have hnewest := (Batch.newest_ofList w.line.queue).trans hnone
      simp only [hdue, ↓reduceIte, read, hnewest, unfixed, Option.isSome_none, Bool.or_self,
        Bool.false_eq_true]
      have next : GoesOn t w _ := .reads { w with
        line := w.line.drain.1
        hasFix := false
        due := some (nextBeat period (w.due.getD t.now) t.now) } rfl rfl rfl hnone
      -- The next beat is set after the line has been read.
      refine Eq.mpr (congrArg (GoesOn t w) (congrArg (pushStages · _) ?_)) next
      exact mapWorker_of_running (w := { w with line := w.line.drain.1, hasFix := false }) rfl _
    · simp only [hdue, ↓reduceIte, waits]
      exact .waits _ _ rfl unfixed rfl

/-- What is read without a fix counts errors, and nothing else. -/
theorem count_ofList_of_fixless {ds : List Delivery} (fixless : newestIn ds = none) (c : Counters) :
    (Batch.ofList ds).count c =
      { c with ingestionFailures := c.ingestionFailures + errorsIn ds } := by
  have none : fixesIn ds = [] := List.getLast?_eq_none_iff.mp fixless
  have superseded := Batch.superseded_ofList ds
  rw [fixless, none] at superseded
  have superseded : (Batch.ofList ds).superseded = 0 := superseded
  rw [Batch.count, Batch.received_ofList, none, superseded, Batch.errors_ofList]
  rfl

theorem newestIn_of_fixless {ds : List Delivery} {log : List SessionEvent}
    (fixless : fixesIn (readBy g log).flatten = []) (h : .owner (.read g ds) ∈ log) :
    newestIn ds = none := by
  have hread : ds ∈ readBy g log :=
    List.mem_filterMap.mpr ⟨_, List.mem_reverse.mpr h, if_pos rfl⟩
  obtain ⟨before, after, hsplit⟩ := List.append_of_mem hread
  rw [hsplit] at fixless
  simp only [List.flatten_append, List.flatten_cons, fixesIn_append, List.append_eq_nil_iff]
    at fixless
  rw [newestIn, fixless.2.1]
  rfl

/-! ## What it leaves alone -/

/-- What a step of a worker without a fix leaves alone: the facts, and what is remembered but the
location. Ticks are counted, and the errors that are read. Only the tick at the start asks for a
status. -/
structure Idles (g : Nat) (p : Passage) : Prop where
  facts : p.after.facts = p.before.facts
  caches : ∀ c, c ≠ location → p.after.dispatch.registry c = p.before.dispatch.registry c
  ingested : p.after.engine.ingested = p.before.engine.ingested
  metrics : p.before.metrics.AddsErrors p.after.metrics (errorsIn (readBy g p.events).flatten)
  asks : .ask ∈ p.calls → ∃ k : Tick, p.stage? = some (.ask k) ∧ k.Opens g

/-- A step in which it asks for nothing and tells nothing as well. -/
structure Silent (g : Nat) (p : Passage) : Prop where
  idles : Idles g p
  calls : p.calls = []
  told : p.told = []

section Idles

variable {events : List SessionEvent}

theorem Idles.of_failures (log : t'.log = events ++ t.log) (facts : t'.facts = t.facts)
    (caches : ∀ c, c ≠ location → t'.dispatch.registry c = t.dispatch.registry c)
    (failures : t'.dispatch.table.failures = t.dispatch.table.failures)
    (ingested : t'.engine.ingested = t.engine.ingested)
    (counters : t.counters.AddsErrors t'.counters (errorsIn (readBy g events).flatten))
    (asks : .ask ∈ (⟨t, ms, t'⟩ : Passage).calls →
      ∃ k : Tick, (⟨t, ms, t'⟩ : Passage).stage? = some (.ask k) ∧ k.Opens g) :
    Idles g ⟨t, ms, t'⟩ := by
  refine ⟨facts, caches, ingested, ?_, asks⟩
  rw [events_of_log log]
  show { t'.counters with observerFailures := t'.dispatch.table.failures } = _
  rw [show t'.counters = _ from counters, failures]
  rfl

theorem Idles.of_table (log : t'.log = events ++ t.log) (facts : t'.facts = t.facts)
    (table : t'.dispatch.table = t.dispatch.table)
    (ingested : t'.engine.ingested = t.engine.ingested)
    (counters : t.counters.AddsErrors t'.counters (errorsIn (readBy g events).flatten))
    (asks : .ask ∈ (⟨t, ms, t'⟩ : Passage).calls →
      ∃ k : Tick, (⟨t, ms, t'⟩ : Passage).stage? = some (.ask k) ∧ k.Opens g) :
    Idles g ⟨t, ms, t'⟩ :=
  .of_failures log facts (fun c _ => congrArg (·.get c) table) (congrArg Hub.failures table)
    ingested counters asks

theorem Silent.of_table (calls : (⟨t, ms, t'⟩ : Passage).calls = [])
    (log : t'.log = events ++ t.log) (quiet : events.reverse.filterMap Event.fresh? = [])
    (facts : t'.facts = t.facts) (table : t'.dispatch.table = t.dispatch.table)
    (ingested : t'.engine.ingested = t.engine.ingested)
    (counters : t.counters.AddsErrors t'.counters (errorsIn (readBy g events).flatten)) :
    Silent g ⟨t, ms, t'⟩ where
  idles := .of_table log facts table ingested counters fun h => by rw [calls] at h; cases h
  calls := calls
  told := (told_of_log log).trans quiet

/-- A step in which nothing happens that the log tells of. -/
theorem Silent.of_log (calls : (⟨t, ms, t'⟩ : Passage).calls = []) (log : t'.log = t.log)
    (facts : t'.facts = t.facts) (table : t'.dispatch.table = t.dispatch.table)
    (ingested : t'.engine.ingested = t.engine.ingested)
    (counters : t.counters.AddsErrors t'.counters 0) :
    Silent g ⟨t, ms, t'⟩ :=
  .of_table calls (log.trans (List.nil_append t.log).symm) rfl facts table ingested counters

end Idles

/-! ## How far it has come -/

/-- A stage of the tick that starts the worker is all that is going on. -/
structure Starting (g : Nat) (t : Trip) (k : Tick) (s : Stage) : Prop where
  stack : t.stack = [.owner s]
  stance : t.stance? g = some (.working, false)
  current : t.generation = g
  opens : k.Opens g

/-- The worker waits, if it has not been let go, and no stage of its own stands on the stack. -/
structure Awaits (g : Nat) (t : Trip) (wait : Wait) : Prop where
  stance : ∀ x, t.stance? g = some x → x = (wait, false)
  absent : ∀ s, .owner s ∈ t.stack → s.worker? ≠ some g

/-- The tick that starts the worker is over, or has only to be counted, and no other has begun. -/
structure Settled (g : Nat) (t : Trip) : Prop where
  stance : ∀ x, t.stance? g = some x → x.1.isOpen = true ∧ x.2 = false
  left : ∀ s, .owner s ∈ t.stack → s.worker? = some g →
    s = .proceed g ∨ ∃ k, s = .tally k ∧ k.scope = .locationOnly

/-- The worker of a generation has asked the engine for one status at most, and for nothing else. -/
def AsksOnce (g : Nat) (ps : List Passage) : Prop :=
  ∃ asked, callsOf g ps <+: [.ask, .collect asked]

/-- The worker of a generation has told one value at most, the location with which the engine has
answered the tick at its start. -/
def TellsOnce (g : Nat) (ps : List Passage) : Prop :=
  toldOf g ps = [] ∨ ∃ n k s q, q ∈ ps ∧ q.Answers k (.ok s) ∧ k.Opens g ∧
    toldOf g ps = [⟨n, .tick k.number, location, s.location⟩]

/-- How far a worker that was started without a fix has come along the steps `ps`. One that has been
let go stays where it was. -/
inductive Unfixed (g : Nat) (ps : List Passage) (t : Trip) : Prop
  /-- It has not had its first turn. -/
  | waits (awaits : Awaits g t (.turn none)) (calls : callsOf g ps = []) (told : toldOf g ps = [])
  | announces {k : Tick} (starting : Starting g t k (.announce k)) (calls : callsOf g ps = [])
      (told : toldOf g ps = [])
  | asks {k : Tick} (starting : Starting g t k (.ask k)) (calls : callsOf g ps = [])
      (told : toldOf g ps = [])
  /-- It waits for the status. -/
  | pends {k : Tick} {asked : Asked} {ready deadline : Nat}
      (awaits : Awaits g t (.status k asked ready deadline)) (opens : k.Opens g)
      (calls : callsOf g ps = [.ask]) (told : toldOf g ps = [])
  | concludes {k : Tick} {answer : Except EngineError Status}
      (starting : Starting g t k (.conclude k answer)) (answered : ∃ q ∈ ps, q.Answers k answer)
      (calls : AsksOnce g ps) (told : toldOf g ps = [])
  | locates {k : Tick} {s : Status} (starting : Starting g t k (.locate k s))
      (answered : ∃ q ∈ ps, q.Answers k (.ok s)) (calls : AsksOnce g ps) (told : toldOf g ps = [])
  | settled (settled : Settled g t) (calls : AsksOnce g ps) (told : TellsOnce g ps)

theorem Unfixed.asksOnce (h : Unfixed g ps t) : AsksOnce g ps := by
  cases h with
  | waits _ calls | announces _ calls | asks _ calls =>
    exact ⟨.later, by rw [calls]; exact List.nil_prefix⟩
  | pends _ _ calls => exact ⟨.later, by rw [calls]; exact ⟨_, rfl⟩⟩
  | concludes _ _ calls | locates _ _ calls | settled _ calls => exact calls

theorem Unfixed.tellsOnce (h : Unfixed g ps t) : TellsOnce g ps := by
  cases h with
  | waits _ _ told | announces _ _ told | asks _ _ told | pends _ _ _ told
  | concludes _ _ _ told | locates _ _ _ told => exact .inl told
  | settled _ _ told => exact told

section Silent

variable {q : Passage}

theorem Silent.callsOf (h : Silent g q) (own : q.worker? = some g) :
    callsOf g (ps ++ [q]) = callsOf g ps := by
  rw [callsOf_of_own own, h.calls, List.append_nil]

theorem Silent.toldOf (h : Silent g q) (own : q.worker? = some g) :
    toldOf g (ps ++ [q]) = toldOf g ps := by
  rw [toldOf_of_own own, h.told, List.append_nil]

theorem AsksOnce.congr (h : AsksOnce g ps) (calls : callsOf g (ps ++ [q]) = callsOf g ps) :
    AsksOnce g (ps ++ [q]) := by
  rwa [AsksOnce, calls]

theorem TellsOnce.congr (h : TellsOnce g ps) (told : toldOf g (ps ++ [q]) = toldOf g ps) :
    TellsOnce g (ps ++ [q]) := by
  rw [TellsOnce, told]
  refine h.imp_right ?_
  rintro ⟨n, k, s, p, hp, h⟩
  exact ⟨n, k, s, p, List.mem_append_left _ hp, h⟩

end Silent

/-! ## The steps of others -/

section Other

variable (taken : Takes t ms t') (hf : Faithful t) (hg : g ≤ t.generation)
  (other : (⟨t, ms, t'⟩ : Passage).worker? ≠ some g)

include taken hg other in
theorem stance?_of_stance?_other {x : Wait × Bool} (hx : t'.stance? g = some x) :
    t.stance? g = some x := by
  rcases taken.stance?_of_other hg other with h | h
  · rw [h] at hx
    cases hx
  · rw [← h]
    exact hx

include taken hf hg other in
theorem Awaits.of_other {wait : Wait} (h : Awaits g t wait) : Awaits g t' wait where
  stance x hx := h.stance x (stance?_of_stance?_other taken hg other hx)
  absent s hs own := h.absent s (taken.staged_of_other hf other hs own) own

include taken hf hg other in
theorem Settled.of_other (h : Settled g t) : Settled g t' where
  stance x hx := h.stance x (stance?_of_stance?_other taken hg other hx)
  left s hs own := h.left s (taken.staged_of_other hf other hs own) own

theorem Starting.worker? {s : Stage} (h : Starting g t k s) (tick : s.tick? = some k) :
    (⟨t, ms, t'⟩ : Passage).worker? = some g := by
  rw [Passage.worker?_of_top (p := ⟨t, ms, t'⟩) h.stack]
  exact frameWorker?_of_worker?
    ((Stage.worker?_of_tick? tick).trans (congrArg some h.opens.generation))

include taken hf hg other in
/-- The steps of others leave it where it is. -/
theorem Unfixed.of_other (h : Unfixed g ps t) : Unfixed g (ps ++ [⟨t, ms, t'⟩]) t' := by
  have hcalls : callsOf g (ps ++ [⟨t, ms, t'⟩]) = callsOf g ps := callsOf_of_other other ps
  have htold : toldOf g (ps ++ [⟨t, ms, t'⟩]) = toldOf g ps := toldOf_of_other other ps
  cases h with
  | waits awaits calls told =>
    exact .waits (awaits.of_other taken hf hg other) (hcalls.trans calls) (htold.trans told)
  | pends awaits opens calls told =>
    exact .pends (awaits.of_other taken hf hg other) opens (hcalls.trans calls) (htold.trans told)
  | settled settled calls told =>
    exact .settled (settled.of_other taken hf hg other) (calls.congr hcalls) (told.congr htold)
  | announces starting | asks starting | concludes starting | locates starting =>
    exact absurd (starting.worker? rfl) other

end Other

/-! ## The tick at the start -/

namespace Starting

variable {s : Stage}

/-- The next stage of the tick follows at once. -/
theorem next {s' : Stage} (h : Starting g t k s) (stack : t'.stack = [.owner s'])
    (worker : t'.worker = t.worker) (generation : t'.generation = t.generation) :
    Starting g t' k s' :=
  ⟨stack, (stance?_congr worker g).trans h.stance, generation.trans h.current, h.opens⟩

/-- The tick is over. -/
theorem settled (h : Starting g t k s) (worker : t'.worker = t.worker)
    (left : ∀ s, .owner s ∈ t'.stack → s = .proceed g ∨ s = .tally k) : Settled g t' where
  stance x hx := by
    rw [stance?_congr worker, h.stance] at hx
    cases hx
    exact ⟨rfl, rfl⟩
  left s hs _ := (left s hs).imp_right fun hs => ⟨k, hs, h.opens.scope⟩

/-- The tick goes on in a turn. -/
theorem of_turn {w : Worker} (hs : Sound t) (running : t.worker = some w)
    (unfixed : w.hasFix = false) (opens : k.Opens w.generation) (stack : t'.stack = [.owner s])
    (awake : t'.worker = some { w with wait := .working })
    (generation : t'.generation = t.generation) : Starting w.generation t' k s where
  stack := stack
  stance := (stance?_of_worker awake).trans (by rw [unfixed])
  current := by
    rw [generation, ← hs.running w.generation (by simp only [outline, running, Option.map_some])]
  opens := opens

theorem pop_stack (h : Starting g t k s) : t.pop.stack = [] := by
  rw [stack_pop, h.stack, List.tail_cons]

/-- There is no fix to tell or to ingest. -/
theorem announce (h : Starting g t k (.announce k)) (taken : Takes t ms t') :
    Starting g t' k (.ask k) ∧ Silent g ⟨t, ms, t'⟩ := by
  have calls := taken.calls_of_top h.stack
  obtain rfl : t' = t.pop.pushStages [.ask k] := by
    rw [taken.step.eq_of_top h.stack]
    simp only [run, h.opens.fix]
    rfl
  exact ⟨h.next (congrArg (List.cons _) h.pop_stack) rfl rfl, .of_log calls rfl rfl rfl rfl rfl⟩

end Starting

/-- A status that the worker has to wait for. -/
theorem ask_of_slow {w : Worker} (running : t.worker = some w) (own : w.generation = k.generation)
    (slow : t.engine.ask.2.2 ≠ 0) (patient : t.settings.polling.timeout ≠ 0) :
    t.ask k = { t with
      engine := t.engine.ask.1
      worker := some { w with
        wait := .status k t.engine.ask.2.1 (t.now + t.engine.ask.2.2)
          (t.now + t.settings.polling.timeout)
        stamp := t.stamp }
      stamp := t.stamp + 1 } := by
  have hw : (t.workerOf? k.generation).isNone = false := by
    rw [workerOf?_eq_some.mpr ⟨running, own⟩, Option.isNone_some]
  simp only [ask, hw, slow, patient, Bool.false_eq_true, ↓reduceIte]
  rw [← own]
  exact await_of_running (t := { t with engine := t.engine.ask.1 }) running _

namespace Starting

/-- The engine answers at once, or there is no time to wait for it. -/
theorem ask_of_answered {engine : Engine} {answer : Except EngineError Status}
    (h : Starting g t k (.ask k)) (ms : List Move) (ingested : engine.ingested = t.engine.ingested)
    (hrun : t' = { t.pop with engine }.pushStages [.conclude k answer]) :
    Starting g t' k (.conclude k answer) ∧ (⟨t, ms, t'⟩ : Passage).told = [] ∧
      Idles g ⟨t, ms, t'⟩ := by
  subst hrun
  have hlog : ({ t.pop with engine }.pushStages [.conclude k answer]).log = [] ++ t.log := rfl
  exact ⟨h.next (congrArg (List.cons _) h.pop_stack) rfl rfl, told_of_log hlog,
    .of_table hlog rfl rfl ingested rfl
      fun _ => ⟨k, Passage.stage?_eq_some.mpr ⟨[], h.stack⟩, h.opens⟩⟩

/-- The worker has to wait for the answer. -/
theorem ask_of_slow (h : Starting g t k (.ask k)) (ms : List Move) (slow : t.engine.ask.2.2 ≠ 0)
    (patient : t.settings.polling.timeout ≠ 0) (hrun : t' = t.pop.ask k) :
    Awaits g t' (.status k t.engine.ask.2.1 (t.now + t.engine.ask.2.2)
        (t.now + t.settings.polling.timeout)) ∧
      (⟨t, ms, t'⟩ : Passage).told = [] ∧ Idles g ⟨t, ms, t'⟩ := by
  obtain ⟨w, running, hg, hstance⟩ := stance?_eq_some.mp h.stance
  have unfixed : w.hasFix = false := congrArg Prod.snd hstance
  rw [Trip.ask_of_slow (t := t.pop) running (hg.trans h.opens.generation.symm) slow patient] at hrun
  have hlog : t'.log = [] ++ t.log := by rw [hrun]; rfl
  refine ⟨⟨fun x hx => ?_, fun s hs => ?_⟩, told_of_log hlog, ?_⟩
  · obtain ⟨w', running', -, rfl⟩ := stance?_eq_some.mp hx
    rw [hrun] at running'
    cases running'
    exact Prod.ext rfl unfixed
  · rw [hrun] at hs
    have hs : .owner s ∈ t.pop.stack := hs
    rw [h.pop_stack] at hs
    cases hs
  · subst hrun
    exact .of_table hlog rfl rfl (Engine.ingested_ask _) rfl
      fun _ => ⟨k, Passage.stage?_eq_some.mpr ⟨[], h.stack⟩, h.opens⟩

/-- The engine is asked for the status. -/
theorem ask (h : Starting g t k (.ask k)) (taken : Takes t ms t') (calls : callsOf g ps = [])
    (told : toldOf g ps = []) :
    Unfixed g (ps ++ [⟨t, ms, t'⟩]) t' ∧ Idles g ⟨t, ms, t'⟩ := by
  have own : (⟨t, ms, t'⟩ : Passage).worker? = some g := h.worker? rfl
  have stage : (⟨t, ms, t'⟩ : Passage).stage? = some (.ask k) :=
    Passage.stage?_eq_some.mpr ⟨[], h.stack⟩
  obtain ⟨w, running, hg, -⟩ := stance?_eq_some.mp h.stance
  have manned : (t.workerOf? k.generation).isSome = true := by
    rw [workerOf?_eq_some.mpr ⟨running, hg.trans h.opens.generation.symm⟩, Option.isSome_some]
  have hrun : t' = t.pop.ask k := taken.step.eq_of_top h.stack
  have hcalls : callsOf g (ps ++ [⟨t, ms, t'⟩]) =
      if t.engine.ask.2.2 = 0 then [.ask, .collect t.engine.ask.2.1] else [.ask] := by
    have unmanned : (t.workerOf? k.generation).isNone = false := by
      rw [← Option.not_isSome, manned, Bool.not_true]
    rw [callsOf_of_own own, calls, taken.calls_of_top h.stack, List.nil_append]
    simp only [stageCalls, unmanned, Bool.false_eq_true, ↓reduceIte]
  have htold (silent : (⟨t, ms, t'⟩ : Passage).told = []) :
      toldOf g (ps ++ [⟨t, ms, t'⟩]) = [] := by
    rw [toldOf_of_own own, told, silent, List.append_nil]
  by_cases ready : t.engine.ask.2.2 = 0
  · rw [if_pos ready] at hcalls
    obtain ⟨next, silent, idles⟩ := h.ask_of_answered ms
      ((Engine.ingested_collect _ _).trans (Engine.ingested_ask _))
      (hrun.trans (ask_of_ready (t := t.pop) manned ready))
    exact ⟨.concludes next ⟨_, by simp, .atOnce stage manned ready⟩
      ⟨t.engine.ask.2.1, hcalls ▸ List.prefix_rfl⟩ (htold silent), idles⟩
  · rw [if_neg ready] at hcalls
    by_cases limit : t.settings.polling.timeout = 0
    · obtain ⟨next, silent, idles⟩ := h.ask_of_answered ms (Engine.ingested_ask _)
        (hrun.trans (ask_of_noTime (t := t.pop) manned ready limit))
      exact ⟨.concludes next ⟨_, by simp, .noTime stage manned ready limit⟩
        ⟨.later, by rw [hcalls]; exact ⟨_, rfl⟩⟩ (htold silent), idles⟩
    · obtain ⟨awaits, silent, idles⟩ := h.ask_of_slow ms ready limit hrun
      exact ⟨.pends awaits h.opens hcalls (htold silent), idles⟩

/-- The tick has its status. -/
theorem conclude {s : Status} (h : Starting g t k (.conclude k (.ok s))) (taken : Takes t ms t') :
    Starting g t' k (.locate k s) ∧ Silent g ⟨t, ms, t'⟩ := by
  have calls := taken.calls_of_top h.stack
  obtain rfl : t' = (t.pop.note (.answered k false)).pushStages [.locate k s] :=
    taken.step.eq_of_top h.stack
  exact ⟨h.next (congrArg (List.cons _) h.pop_stack) rfl rfl,
    .of_table calls (show _ = [.owner (.answered k false)] ++ t.log from rfl) rfl rfl rfl rfl rfl⟩

/-- The engine has none for it, which is not counted. -/
theorem fail {e : EngineError} (h : Starting g t k (.conclude k (.error e)))
    (taken : Takes t ms t') : Settled g t' ∧ Silent g ⟨t, ms, t'⟩ := by
  have calls := taken.calls_of_top h.stack
  have uncounted : k.counted = false := by simp [Tick.counted, h.opens.scope, h.opens.fix]
  obtain rfl : t' = (t.pop.note (.answered k true)).pushStages [.proceed g] := by
    rw [taken.step.eq_of_top h.stack, ← h.opens.generation]
    simp only [run, uncounted, Bool.false_eq_true, ↓reduceIte]
  refine ⟨h.settled rfl fun s hs => ?_,
    .of_table calls (show _ = [.owner (.answered k true)] ++ t.log from rfl) rfl rfl rfl rfl rfl⟩
  have hs : .owner s ∈ .owner (.proceed g) :: t.pop.stack := hs
  rw [h.pop_stack] at hs
  cases List.mem_singleton.mp hs
  exact .inl rfl

/-- The location is told. -/
theorem locate {s : Status} (h : Starting g t k (.locate k s)) (taken : Takes t ms t') :
    Settled g t' ∧ (⟨t, ms, t'⟩ : Passage).calls = [] ∧ Idles g ⟨t, ms, t'⟩ ∧
      (⟨t, ms, t'⟩ : Passage).told =
        [⟨t.dispatch.serial, .tick k.number, location, s.location⟩] := by
  have calls : (⟨t, ms, t'⟩ : Passage).calls = [] := taken.calls_of_top h.stack
  have current : t.pop.current k = true := by
    simp only [Trip.current, decide_eq_true_eq, h.opens.generation]
    exact h.current
  obtain rfl : t' = (t.pop.pushStages [.tally k]).tell (.tick k.number) location s.location := by
    rw [taken.step.eq_of_top h.stack]
    simp only [run, current, h.opens.scope, ↓reduceIte, reduceCtorEq]
  have hlog : ((t.pop.pushStages [.tally k]).tell (.tick k.number) location s.location).log =
      [.began ⟨t.dispatch.serial, .tick k.number, location, s.location⟩
        (t.dispatch.registry location).entries] ++ t.log := rfl
  refine ⟨h.settled rfl fun s' hs => ?_, calls, ?_, told_of_log hlog⟩
  · have hs : .owner s' ∈ .owner (.tally k) :: t.pop.stack := by
      rcases List.mem_cons.mp hs with hs | hs
      · cases hs
      · exact hs
    rw [h.pop_stack] at hs
    cases List.mem_singleton.mp hs
    exact .inr rfl
  · exact .of_failures hlog rfl (fun c hc => Hub.get_set_of_ne _ _ _ c hc)
      (failures_record t.dispatch.table location s.location) rfl rfl
      (fun h => by rw [calls] at h; cases h)

end Starting

/-! ## Turns -/

/-- A worker none of whose stages stands on the stack takes a turn, or no step. -/
theorem Awaits.turn {wait : Wait} (h : Awaits g t wait) (acts : Acts g ⟨t, ms, t'⟩) :
    ∃ w, t.stack = [] ∧ ms = [.work] ∧ t.worker = some w ∧ w.generation = g ∧ w.wait = wait ∧
      w.hasFix = false := by
  cases acts with
  | stage top own =>
    exact absurd own (h.absent _ (by rw [show t.stack = _ from top]; exact List.mem_cons_self))
  | @derives k stack own =>
    exact absurd (congrArg some own)
      (h.absent (.tally k) (by rw [show t.stack = _ from stack]; simp))
  | delivers top next own =>
    exact absurd own
      (h.absent _ (by rw [show t.stack = _ from top]; exact List.mem_cons_of_mem _ next))
  | @turn w idle moves running own =>
    subst own
    obtain ⟨hwait, unfixed⟩ := Prod.ext_iff.mp (h.stance _ (stance?_of_worker running))
    exact ⟨w, idle, moves, running, rfl, hwait, unfixed⟩

section Turn

variable {w : Worker}

/-- The first turn. -/
theorem Takes.wakes (taken : Takes t [.work] t') (hs : Sound t) (idle : t.stack = [])
    (running : t.worker = some w) (hwait : w.wait = .turn none) (unfixed : w.hasFix = false) :
    ∃ k, Starting w.generation t' k (.announce k) ∧ Silent w.generation ⟨t, [.work], t'⟩ := by
  obtain ⟨resumed, hcalls⟩ := taken.turn running
  have calls : (⟨t, [.work], t'⟩ : Passage).calls = [] := by rw [hcalls, turnCalls, hwait]
  obtain ⟨k, opens, rfl⟩ : ∃ k : Tick, k.Opens w.generation ∧ t' = ({ t with
      worker := some { w with wait := .working }
      ticks := t.ticks + 1 }.note (.ticked k)).pushStages [.announce k] := by
    refine ⟨⟨t.ticks, w.generation, t.epoch, .locationOnly, none⟩, ⟨rfl, rfl, rfl⟩, ?_⟩
    rw [resumed]
    simp only [resume, hwait, mapWorker_of_running running, begin]
  exact ⟨k, .of_turn hs running unfixed opens (congrArg (List.cons _) idle) rfl rfl,
    .of_table calls (show _ = [.owner (.ticked k)] ++ t.log from rfl) rfl rfl rfl rfl rfl⟩

/-- The turn in which the status has come, or time has run out. -/
theorem Takes.takes_in (taken : Takes t [.work] t') (hs : Sound t) {asked : Asked}
    {ready deadline : Nat} (idle : t.stack = []) (running : t.worker = some w)
    (hwait : w.wait = .status k asked ready deadline) (unfixed : w.hasFix = false)
    (opens : k.Opens w.generation) :
    ∃ answer, Starting w.generation t' k (.conclude k answer) ∧
      (⟨t, [.work], t'⟩ : Passage).Answers k answer ∧
      (⟨t, [.work], t'⟩ : Passage).calls <+: [.collect asked] ∧
      (⟨t, [.work], t'⟩ : Passage).told = [] ∧ Idles w.generation ⟨t, [.work], t'⟩ := by
  obtain ⟨resumed, hcalls⟩ := taken.turn running
  simp only [turnCalls, hwait] at hcalls
  have asks : .ask ∉ (⟨t, [.work], t'⟩ : Passage).calls := by
    rw [hcalls]
    split <;> simp
  have hprefix : (⟨t, [.work], t'⟩ : Passage).calls <+: [.collect asked] := by
    rw [hcalls]
    split
    · exact List.prefix_rfl
    · exact List.nil_prefix
  obtain ⟨engine, answer, answers, ingested, hrun⟩ : ∃ engine answer,
      (⟨t, [.work], t'⟩ : Passage).Answers k answer ∧ engine.ingested = t.engine.ingested ∧
      t' = { t with
        engine
        worker := some { w with wait := .working } }.pushStages [.conclude k answer] := by
    by_cases come : ready ≤ t.now
    · refine ⟨_, _, .inTime rfl running hwait come, Engine.ingested_collect t.engine asked, ?_⟩
      rw [resumed]
      simp only [resume, hwait, mapWorker_of_running running, come, ↓reduceIte]
    · refine ⟨t.engine, _, .late rfl running hwait (Nat.lt_of_not_le come), rfl, ?_⟩
      rw [resumed]
      simp only [resume, hwait, mapWorker_of_running running, come, ↓reduceIte]
  have hlog : t'.log = [] ++ t.log := by rw [hrun]; rfl
  refine ⟨answer, ?_, answers, hprefix, told_of_log hlog, ?_⟩
  · subst hrun
    exact .of_turn hs running unfixed opens (congrArg (List.cons _) idle) rfl rfl
  · subst hrun
    exact .of_table hlog rfl rfl ingested rfl fun h => absurd h asks

end Turn

/-! ## After the tick at the start -/

/-- A tick at the start derives no phase. -/
theorem Tiled.not_derives (h : Tiled t) (scope : k.scope = .locationOnly) :
    t.stack ≠ [.owner (.recompute (.tick k.number)), .owner (.tally k)] := by
  intro stack
  have horder := (h.fits k _ (.derive stack)).order
  rw [scope] at horder
  have hmem := horder.subset (List.mem_append_right _ (List.mem_singleton_self navigationPhase))
  simp [Scope.order] at hmem

namespace Settled

/-- The tick is counted. -/
theorem tally (h : Settled g t) (taken : Takes t ms t') {below : List SessionFrame}
    (top : t.stack = .owner (.tally k) :: below) (own : k.generation = g) :
    Settled g t' ∧ Silent g ⟨t, ms, t'⟩ := by
  have calls := taken.calls_of_top top
  have hbelow : t.pop.stack = below := by rw [stack_pop, top, List.tail_cons]
  obtain rfl : t' = t.pop.run (.tally k) := taken.step.eq_of_top top
  refine ⟨⟨h.stance, fun s hs hown => ?_⟩, .of_log calls rfl rfl rfl rfl rfl⟩
  have hs : .owner s ∈ .owner (.proceed k.generation) :: t.pop.stack := hs
  rw [hbelow, own] at hs
  rcases List.mem_cons.mp hs with hs | hs
  · cases hs
    exact .inl rfl
  · exact h.left s (by rw [top]; exact List.mem_cons_of_mem _ hs) hown

/-- The worker goes on, and may read its line. -/
theorem proceed (h : Settled g t) (taken : Takes t ms t') {below : List SessionFrame}
    (top : t.stack = .owner (.proceed g) :: below)
    (fixless : fixesIn (readBy g t'.log).flatten = []) :
    Settled g t' ∧ Silent g ⟨t, ms, t'⟩ := by
  have calls := taken.calls_of_top top
  have hrun : t' = t.pop.proceed g := taken.step.eq_of_top top
  have left {s : Stage} (hs : .owner s ∈ t.pop.stack) (hown : s.worker? = some g) := by
    rw [stack_pop, top, List.tail_cons] at hs
    exact h.left s (by rw [top]; exact List.mem_cons_of_mem _ hs) hown
  cases hw : t.workerOf? g with
  | none =>
    -- The worker has been let go, and this is what it has left behind.
    rw [Trip.proceed, show t.pop.workerOf? g = none from hw] at hrun
    subst hrun
    exact ⟨⟨h.stance, fun s => left⟩, .of_log calls rfl rfl rfl rfl rfl⟩
  | some w =>
    obtain ⟨running, rfl⟩ := workerOf?_eq_some.mp hw
    obtain ⟨hopen, unfixed⟩ := h.stance _ (stance?_of_worker running)
    have goes : GoesOn t.pop w (t.pop.proceed w.generation) :=
      proceed_of_unfixed running unfixed fun ds hds =>
        newestIn_of_fixless fixless (by rw [hrun]; exact reads_of_reads? hds)
    rw [← hrun] at goes
    cases goes with
    | waits w' stamp same unfixed' hopen' =>
      have stance := stance?_of_worker (t := { t.pop with worker := some w', stamp }) rfl
      rw [same] at stance
      refine ⟨⟨fun x hx => ?_, fun s => left⟩, .of_log calls rfl rfl rfl rfl rfl⟩
      cases stance.symm.trans hx
      exact ⟨hopen', unfixed'⟩
    | reads w' same unfixed' wait none =>
      have stance := stance?_of_worker (t := { t.pop with worker := some w' }) rfl
      rw [same, wait] at stance
      have counters := count_ofList_of_fixless none t.counters
      have reads : (readBy w.generation [.owner (.read w.generation w.line.queue)]).flatten =
          w.line.queue := by simp [readBy, Event.readBy?]
      refine ⟨⟨fun x hx => ?_, fun s hs hown => ?_⟩, .of_table calls
        (show _ = [.owner (.read w.generation w.line.queue)] ++ t.log from rfl) rfl rfl rfl rfl ?_⟩
      · cases stance.symm.trans hx
        exact ⟨hopen, unfixed'⟩
      · rcases List.mem_cons.mp hs with hs | hs
        · cases hs
          exact .inl rfl
        · exact left hs hown
      · rw [reads]
        exact counters

/-- What the tick has told is delivered. -/
theorem deliver (h : Settled g t) (taken : Takes t ms t') {f : SessionFanout}
    {rest : List (ObserverId × Listener)} {below : List SessionFrame}
    (top : t.stack = .fanout f rest :: below) : Settled g t' ∧ Silent g ⟨t, ms, t'⟩ := by
  have hs : t.dispatch.stack = .fanout f rest :: below := top
  cases taken with
  | move h => rw [move?_of_fanout top] at h; cases h
  | tick htick =>
    have calls : (⟨t, [], t'⟩ : Passage).calls = [] := by
      simp only [Passage.calls, List.head?_nil, engineCalls, hs]
    simp only [tick?, hs] at htick
    obtain ⟨d, hd, rfl⟩ := Option.map_eq_some_iff.mp htick
    obtain ⟨f', below', htop, rfl⟩ | ⟨f', id, l, rest', below', htop, rfl⟩ | ⟨_, _, _, htop, -⟩ :=
      Dispatch.advance?_cases hd
    · refine ⟨⟨h.stance, fun s hs => h.left s ?_⟩, .of_log calls rfl rfl rfl rfl rfl⟩
      rw [show t.stack = _ from htop]
      exact List.mem_cons_of_mem _ hs
    · refine ⟨⟨h.stance, fun s hs => h.left s ?_⟩,
        .of_table calls (show _ = [.delivered f' id l] ++ t.log from rfl) rfl rfl rfl rfl rfl⟩
      have hs : .owner s ∈ .acting f' id l :: .fanout f' rest' :: below' := hs
      rw [show t.stack = _ from htop]
      simpa using hs
    · rw [hs] at htop
      cases htop

/-- The worker takes up what it has waited for, and goes on. -/
theorem turn {w : Worker} (h : Settled w.generation t) (taken : Takes t [.work] t')
    (idle : t.stack = []) (running : t.worker = some w) :
    Settled w.generation t' ∧ Silent w.generation ⟨t, [.work], t'⟩ := by
  obtain ⟨hopen, unfixed⟩ := h.stance _ (stance?_of_worker running)
  obtain ⟨resumed, hcalls⟩ := taken.turn running
  have goes : t.turnCalls w = [] ∧ t.resume w =
      { t with worker := some { w with wait := .working } }.pushStages
        [.proceed w.generation] := by
    simp only [turnCalls, resume, mapWorker_of_running running]
    cases hwait : w.wait with
    | turn | status =>
      rw [hwait] at hopen
      cases hopen
    | delivery | beat | working | ended => exact ⟨rfl, rfl⟩
  have calls : (⟨t, [.work], t'⟩ : Passage).calls = [] := hcalls.trans goes.1
  obtain rfl := resumed.trans goes.2
  refine ⟨⟨fun x hx => ?_, fun s hs _ => ?_⟩, .of_log calls rfl rfl rfl rfl rfl⟩
  · obtain ⟨w', running', -, rfl⟩ := stance?_eq_some.mp hx
    cases running'
    exact ⟨rfl, unfixed⟩
  · have hs : .owner s ∈ .owner (.proceed w.generation) :: t.stack := hs
    rw [idle] at hs
    cases List.mem_singleton.mp hs
    exact .inl rfl

/-- **No step of the worker begins another tick.** -/
theorem step (h : Settled g t) (taken : Takes t ms t') (acts : Acts g ⟨t, ms, t'⟩)
    (tiled : Tiled t) (fixless : fixesIn (readBy g t'.log).flatten = []) :
    Settled g t' ∧ Silent g ⟨t, ms, t'⟩ := by
  cases acts with
  | @stage s below top own =>
    have top : t.stack = .owner s :: below := top
    rcases h.left s (by rw [top]; exact List.mem_cons_self) own with rfl | ⟨k, rfl, -⟩
    · exact h.proceed taken top fixless
    · exact h.tally taken top (Option.some.inj own)
  | @derives k stack own =>
    have hmem : .owner (.tally k) ∈ t.stack := by rw [show t.stack = _ from stack]; simp
    rcases h.left _ hmem (congrArg some own) with htally | ⟨k', htally, scope⟩
    · cases htally
    · cases htally
      exact absurd stack (tiled.not_derives scope)
  | delivers top => exact h.deliver taken top
  | turn idle moves running own =>
    obtain rfl : ms = [.work] := moves
    subst own
    exact h.turn taken idle running

end Settled

/-- **Every step takes a worker without a fix further, or leaves it where it is.** -/
theorem Unfixed.step (h : Unfixed g ps t) (taken : Takes t ms t') (hl : ∃ b, Laid b t.stack)
    (hs : Sound t) (hf : Faithful t) (tiled : Tiled t) (hg : g ≤ t.generation)
    (fixless : fixesIn (readBy g t'.log).flatten = []) :
    Unfixed g (ps ++ [⟨t, ms, t'⟩]) t' ∧
      ((⟨t, ms, t'⟩ : Passage).worker? = some g → Idles g ⟨t, ms, t'⟩) := by
  by_cases own : (⟨t, ms, t'⟩ : Passage).worker? = some g
  swap
  · exact ⟨h.of_other taken hf hg own, fun h => absurd h own⟩
  have acts := Passage.acts hl hs own
  refine (?_ : Unfixed g (ps ++ [⟨t, ms, t'⟩]) t' ∧ Idles g ⟨t, ms, t'⟩).imp_right fun h _ => h
  -- A stage that stands alone on the stack is run. A worker that waits can only take its turn.
  cases h with
  | waits awaits calls told =>
    obtain ⟨w, idle, rfl, running, rfl, hwait, unfixed⟩ := awaits.turn acts
    obtain ⟨k, starting, silent⟩ := taken.wakes hs idle running hwait unfixed
    exact ⟨.announces starting ((silent.callsOf own).trans calls) ((silent.toldOf own).trans told),
      silent.idles⟩
  | announces starting calls told =>
    obtain ⟨next, silent⟩ := starting.announce taken
    exact ⟨.asks next ((silent.callsOf own).trans calls) ((silent.toldOf own).trans told),
      silent.idles⟩
  | asks starting calls told => exact starting.ask taken calls told
  | @pends k asked ready deadline awaits opens calls told =>
    obtain ⟨w, idle, rfl, running, rfl, hwait, unfixed⟩ := awaits.turn acts
    obtain ⟨answer, starting, answers, hcalls, htold, idles⟩ :=
      taken.takes_in hs idle running hwait unfixed opens
    refine ⟨.concludes starting ⟨_, by simp, answers⟩ ⟨asked, ?_⟩ ?_, idles⟩
    · rw [callsOf_of_own own, calls]
      exact (List.prefix_append_right_inj _).mpr hcalls
    · rw [toldOf_of_own own, told, htold, List.append_nil]
  | @concludes k answer starting answered calls told =>
    cases answer with
    | ok s =>
      obtain ⟨next, silent⟩ := starting.conclude taken
      obtain ⟨q, hq, answers⟩ := answered
      exact ⟨.locates next ⟨q, List.mem_append_left _ hq, answers⟩
        (calls.congr (silent.callsOf own)) ((silent.toldOf own).trans told), silent.idles⟩
    | error e =>
      obtain ⟨settled, silent⟩ := starting.fail taken
      exact ⟨.settled settled (calls.congr (silent.callsOf own))
        (.inl ((silent.toldOf own).trans told)), silent.idles⟩
  | @locates k s starting answered calls told =>
    obtain ⟨settled, hcalls, idles, htold⟩ := starting.locate taken
    obtain ⟨q, hq, answers⟩ := answered
    have hcalls : callsOf g (ps ++ [⟨t, ms, t'⟩]) = callsOf g ps := by
      rw [callsOf_of_own own, hcalls, List.append_nil]
    have htold : toldOf g (ps ++ [⟨t, ms, t'⟩]) =
        [⟨t.dispatch.serial, .tick k.number, location, s.location⟩] := by
      rw [toldOf_of_own own, told, htold, List.nil_append]
    exact ⟨.settled settled (calls.congr hcalls)
      (.inr ⟨_, k, s, q, List.mem_append_left _ hq, answers, starting.opens, htold⟩), idles⟩
  | settled settled calls told =>
    obtain ⟨settled, silent⟩ := settled.step taken acts tiled fixless
    exact ⟨.settled settled (calls.congr (silent.callsOf own)) (told.congr (silent.toldOf own)),
      silent.idles⟩

/-! ## Runs -/

/-- A start that makes a worker is no step of a worker. -/
theorem Takes.worker?_of_creates (h : Takes t ms t')
    (created : (⟨t, ms, t'⟩ : Passage).creates = true) :
    (⟨t, ms, t'⟩ : Passage).worker? = none := by
  simp only [Passage.creates, Bool.and_eq_true] at created
  obtain ⟨⟨started, -⟩, -⟩ := created
  cases h with
  | tick => cases started
  | @move _ m h =>
    have hstart : m.isStart = true := by simpa using started
    unfold Move.isStart at hstart
    split at hstart
    · cases hword : t.speaker with
      | none =>
        have h : t.decide? (.call .start) = some t' := h
        simp [decide?, hword] at h
      | some caller =>
        rcases stack_of_speaker hword with idle | ⟨f, id, l, below, top⟩
        · simp only [Passage.worker?, idle]
        · exact Passage.worker?_of_top (p := ⟨t, _, t'⟩) top
    · cases hstart

section Run

variable {a : Trip} {settings : Settings} {engine : Engine} {source : Source} {signal : Signal}

/-- A worker that is made without a fix has its first turn ahead of it. -/
theorem Takes.unfixed (h : Takes t ms t') (ht : Reaches (.new settings engine source signal) ns t)
    (created : (⟨t, ms, t'⟩ : Passage).creates = true) (unknown : t.source.lastKnown = none) :
    Unfixed t'.generation [] t' := by
  have newer : t.generation < t'.generation := (h.born created).2
  have strange := h.worker?_of_creates created
  refine .waits ⟨fun x hx => ?_, fun s hs own => ?_⟩ rfl rfl
  · simp only [Passage.creates, Bool.and_eq_true, Option.isNone_iff_eq_none] at created
    obtain ⟨⟨-, vacant⟩, manned⟩ := created
    have vacant : t.worker = none := vacant
    have manned : t'.worker.isSome = true := manned
    cases h.tends with
    | keeps worker | releases worker => simp [worker, vacant] at manned
    | feeds w line running | acts w w' running => rw [vacant] at running; cases running
    | makes w _ worker generation _ wait hasFix =>
      rw [← generation, stance?_of_worker worker, wait, hasFix, unknown] at hx
      exact (Option.some.inj hx).symm
  · have other : (⟨t, ms, t'⟩ : Passage).worker? ≠ some t'.generation := by
      rw [strange]
      exact (Option.some_ne_none _).symm
    have hs := h.staged_of_other ht.faithful other hs own
    -- A stage of the new generation would be of a tick that has begun before it.
    obtain ⟨k, hk, hg⟩ : HasTicked t t'.generation := by
      rcases Stage.worker?_eq_some.mp own with rfl | ⟨k, tick, hg⟩
      · exact ht.opening.proceeds _ hs
      · exact ⟨k, ht.sound.staged s k hs tick, hg⟩
    have hle := ht.sound.generation k hk
    omega

/-- **Along every run a worker without a fix comes no further than its first tick, and idles.** -/
theorem Trail.unfixed (h : Trail a ps t) (ha : Reaches (.new settings engine source signal) ns a)
    (start : Unfixed g [] a) (hg : g ≤ a.generation)
    (fixless : fixesIn (readBy g t.log).flatten = []) :
    Unfixed g ps t ∧ ∀ q ∈ ps, q.worker? = some g → Idles g q := by
  induction h with
  | refl => exact ⟨start, fun q hq => by cases hq⟩
  | @step ps b c ms before taken ih =>
    have hb := ha.trans before.reaches
    have hread : readBy g c.log = readBy g b.log ++ readBy g (⟨b, ms, c⟩ : Passage).events := by
      rw [taken.log_eq, readBy_append]
    have fixlessBefore : fixesIn (readBy g b.log).flatten = [] := by
      rw [hread, List.flatten_append, fixesIn_append, List.append_eq_nil_iff] at fixless
      exact fixless.1
    obtain ⟨unfixed, idles⟩ := ih fixlessBefore
    obtain ⟨further, idlesNow⟩ := unfixed.step taken (hb.laid rfl) hb.sound hb.faithful hb.tiled
      (Nat.le_trans hg before.reaches.le.1) fixless
    refine ⟨further, fun q hq own => ?_⟩
    rcases List.mem_append.mp hq with hq | hq
    · exact idles q hq own
    · obtain rfl := List.mem_singleton.mp hq
      exact idlesNow own

/-- The steps of the worker count each error that it reads. -/
theorem Trail.raisedOf_eq (h : Trail a ps t) (unread : readBy g a.log = [])
    (idles : ∀ q ∈ ps, q.worker? = some g → Idles g q) :
    raisedOf g ps = errorsIn (readBy g t.log).flatten := by
  induction h with
  | refl => rw [unread]; rfl
  | @step ps b c ms before taken ih =>
    have ih := ih fun q hq => idles q (List.mem_append_left _ hq)
    by_cases own : (⟨b, ms, c⟩ : Passage).worker? = some g
    · have hmetrics := congrArg Counters.ingestionFailures (idles _ (by simp) own).metrics
      have hraised : (⟨b, ms, c⟩ : Passage).raised =
          errorsIn (readBy g (⟨b, ms, c⟩ : Passage).events).flatten := by
        rw [Passage.raised, hmetrics, Nat.add_sub_cancel_left]
      rw [raisedOf_of_own own, ih, hraised, taken.log_eq, readBy_append, List.flatten_append,
        errorsIn_append]
    · rw [raisedOf_of_other own, ih, taken.readBy_of_other own]

/-- **A session without a fix is quiet.** Let a worker be started without a fix, and let no fix be
among what it has read, whatever errors are, however it is polled and whatever else goes on. Then it
has asked for one status at most, at its start, and has ingested nothing. It has told one value at
most, the location with which it was answered. Its steps have left the facts, the routes and the
phase among them, and all counters but ticks as they were, except that each error read has been
counted as a failure. What observers do when they are told, and that one panics, is not of these
steps. -/
theorem quiet_without_fix {p : Passage}
    (hp : Reaches (.new settings engine source signal) ms p.before)
    (taken : Takes p.before p.moves p.after) (created : p.creates = true)
    (unknown : p.before.source.lastKnown = none) (h : Trail p.after ps t)
    (fixless : fixesIn (readBy p.after.generation t.log).flatten = []) :
    AsksOnce p.after.generation ps ∧ TellsOnce p.after.generation ps ∧
    (∀ q ∈ ps, q.worker? = some p.after.generation → Idles p.after.generation q) ∧
    raisedOf p.after.generation ps = errorsIn (readBy p.after.generation t.log).flatten := by
  obtain ⟨qs, hqs, -⟩ := hp.trail
  have ha := hp.trans taken.reaches
  obtain ⟨unfixed, idles⟩ := h.unfixed ha (taken.unfixed hp created unknown) (Nat.le_refl _) fixless
  have strange : p.worker? ≠ some p.after.generation := by
    rw [taken.worker?_of_creates created]
    exact (Option.some_ne_none _).symm
  have unread : readBy p.after.generation p.after.log = [] := by
    rw [taken.readBy_of_other strange]
    exact readBy_eq_nil fun ds hds => Nat.not_le_of_lt (taken.born created).2 (hqs.read_le hds)
  exact ⟨unfixed.asksOnce, unfixed.tellsOnce, idles, h.raisedOf_eq unread idles⟩

end Run

/-- A session with a beat of ten milliseconds. Its engine has a location, its source no fix. -/
def lostTrip : Trip :=
  .new { polling := { policy := .fixedCadence 10 } }
    (.scripted { script := [{ answer := .ok { location := sampleLocation } }] }) (.manual {}) .none

/-- It is started. -/
def lostStart : Passage := ⟨lostTrip, [.decide (.call .start)], lostTrip.call none .start⟩

/-- The location is told, and two errors are counted on the next beat. -/
theorem quiet_without_fix_lost :
    ∃ ps t, Trail lostStart.after ps t ∧
      (fixesIn (readBy lostStart.after.generation t.log).flatten).isEmpty ∧
      AsksOnce lostStart.after.generation ps ∧ TellsOnce lostStart.after.generation ps ∧
      (t.dispatch.last location).isSome ∧
      raisedOf lostStart.after.generation ps = 2 := by
  obtain ⟨t, h, ht⟩ := exists_of_play 40 lostStart.after
    [.work, .decide (.call (.pushError (.source "lost"))),
      .decide (.call (.pushError (.source "lost"))), .elapse 10, .work]
    (p := fun t => (fixesIn (readBy lostStart.after.generation t.log).flatten).isEmpty &&
      (t.dispatch.last location).isSome &&
      errorsIn (readBy lostStart.after.generation t.log).flatten = 2) rfl
  simp only [Bool.and_eq_true, decide_eq_true_eq] at ht
  obtain ⟨⟨fixless, located⟩, errors⟩ := ht
  obtain ⟨ps, hps, -⟩ := h.trail
  obtain ⟨asks, tells, -, raised⟩ := quiet_without_fix (p := lostStart) (.refl lostTrip) (.move rfl)
    rfl rfl hps (List.isEmpty_iff.mp fixless)
  exact ⟨ps, t, hps, fixless, asks, tells, located, raised.trans errors⟩

end Trip
end LiveTrip
