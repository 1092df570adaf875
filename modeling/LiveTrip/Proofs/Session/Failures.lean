import LiveTrip.Proofs.Session.Blocks
import LiveTrip.Proofs.Session.Counted
import LiveTrip.Proofs.Session.EngineCalls
import LiveTrip.Proofs.Session.Numbers

/-!
# Ticks that fail

A tick fails when the engine refuses its fix, and when its status is an error or takes too long.
Before that it has told the raw location at most. The rest is left as it was, and one failure is
counted.

* `Trip.Passage.IsOf`: the steps of a tick. Between them observers make their calls, time passes,
  and the outside does what it likes.
* `Trip.Passage.Answers`, `Trip.Failure`: the step in which the engine answers a tick, or time runs
  out, and the steps in which a tick fails.
* `Trip.KeepsState`: what a step of a tick leaves alone that tells the raw location at most.
* `Trip.Reaches.ahead_of`, `Trip.Reaches.ended`: what is ahead of a tick was ahead of it before, and
  a tick that is over stays so.
* `Trip.failed_tick_keeps_state`: the whole account.
-/

namespace LiveTrip

open Category

/-- The stages of a tick before it has its status. -/
def Stage.isEarly : Stage → Bool
  | .announce _ | .ingest _ | .ask _ | .conclude _ _ => true
  | _ => false

/-- Whether the location may still be told hangs on the stage. -/
theorem Stage.early_of_ahead {s : Stage} (h : location ∈ s.ahead) :
    s.isEarly = true ∨ ∃ k status, s = .locate k status := by
  cases s with
  | announce | ingest | ask | conclude => exact .inl rfl
  | locate k status => exact .inr ⟨k, status, rfl⟩
  | _ => simp [Stage.ahead] at h

/-- Nothing lies on a tick that has just begun. -/
theorem Laid.bare_announce {b : Bool} {x : SessionFrame} {k : Tick} {st : List SessionFrame}
    (h : Laid b (x :: .owner (.announce k) :: st)) : False := by
  cases h with
  | told _ _ after => simp [Stage.after] at after
  | fanout _ _ h | own _ h | keep h =>
    cases h with
    | own own => exact own

namespace Trip

variable {t t' a : Trip} {ms : List Move} {k : Tick}

/-! ## What is ahead of a tick was ahead of it before -/

/-- Nothing is ahead of the tick. -/
def IsOver (t : Trip) (k : Tick) : Prop := ∀ b, ¬ Ahead t k b

theorem Works.ahead_of (h : Works t t') (hk : k.number < t.ticks) {b : List Category}
    (hb : Ahead t' k b) : ∃ a, Ahead t k a ∧ b.Sublist a := by
  cases h with
  | keeps ahead =>
    obtain ⟨a, ha, hsub, -⟩ := ahead k b hb
    exact ⟨a, ha, hsub⟩
  | tells f k' a cause was still ahead =>
    obtain ⟨rfl, hsub, -⟩ := ahead k b hb
    exact ⟨a, was, (List.sublist_cons_self _ b).trans hsub⟩
  | begins k' number later ahead =>
    obtain ⟨rfl, -⟩ := ahead k b hb
    exact absurd number (Nat.ne_of_lt hk)

/-- Nothing is told of a tick that is over. -/
theorem Works.shape_of_over (h : Works t t') (hs : Sound t) (hk : Ticked t k)
    (ended : IsOver t k) : shape k.number t'.log = shape k.number t.log := by
  cases h with
  | keeps _ told | begins _ _ _ _ told => exact shape_congr told _
  | tells f k' a cause was _ _ told =>
    refine shape_of_other told fun hcause => ?_
    have hnumber : k'.number = k.number := Cause.tick.inj (cause.symm.trans hcause)
    obtain rfl := hs.distinct k' k (was.ticked hs) hk hnumber
    exact ended a was

section Run

variable {settings : Settings} {engine : Engine} {source : Source} {signal : Signal}
  {ns : List Move}

/-- What is ahead of a tick at the end of a run was ahead of it at its start, if it had begun. -/
theorem Reaches.ahead_of (h₀ : Reaches (.new settings engine source signal) ms a)
    (h : Reaches a ns t) (hk : Ticked a k) {b : List Category} (hb : Ahead t k b) :
    ∃ c, Ahead a k c ∧ b.Sublist c := by
  refine h.invariant (P := fun t => ∀ b, Ahead t k b → ∃ c, Ahead a k c ∧ b.Sublist c) ?_
    (fun b hb => ⟨b, hb, List.Sublist.refl b⟩) b hb
  intro ns t t' made hr ih hc b hb
  have hreach := h₀.trans hr
  have hworks := hc.works (hreach.laid rfl) (hreach.quiet rfl)
  obtain ⟨c, hahead, hsub⟩ := hworks.ahead_of (hreach.sound.numbered k (hr.ticked hk)) hb
  obtain ⟨d, hd, hsub'⟩ := ih c hahead
  exact ⟨d, hd, hsub.trans hsub'⟩

/-- **A tick that is over stays so and tells nothing more.** -/
theorem Reaches.ended (h₀ : Reaches (.new settings engine source signal) ms a)
    (h : Reaches a ns t) (hk : Ticked a k) (ended : IsOver a k) :
    IsOver t k ∧ shape k.number t.log = shape k.number a.log := by
  refine h.invariant (P := fun t => IsOver t k ∧ shape k.number t.log = _) ?_ ⟨ended, rfl⟩
  intro ns t t' made hr ih hc
  obtain ⟨hover, hshape⟩ := ih
  have hreach := h₀.trans hr
  have hsound := hreach.sound
  have hticked := hr.ticked hk
  have hworks := hc.works (hreach.laid rfl) (hreach.quiet rfl)
  refine ⟨fun b hb => ?_, (hworks.shape_of_over hsound hticked hover).trans hshape⟩
  obtain ⟨c, hahead, -⟩ := hworks.ahead_of (hsound.numbered k hticked) hb
  exact hover c hahead

end Run

/-! ## A tick that begins is of the session's generation -/

theorem Goes.begins_of_announce {s : Stage} {o : Outcome} (h : Goes t s o)
    (hk : .owner (.announce k) ∈ o.own) :
    t.outline.running = some k.generation ∧ o.outline.generation = t.generation := by
  cases h with
  | begins g ds scope fix running =>
    cases List.mem_singleton.mp hk
    exact ⟨running, rfl⟩
  | locates k' s =>
    have hk := List.mem_singleton.mp hk
    split at hk <;> cases hk
  | _ => simp at hk

theorem Change.announces {made : Option Call} (h : Change t t' made) (hl : ∃ b, Laid b t.stack)
    (hs : Sound t) {below : List SessionFrame} (top : t'.stack = .owner (.announce k) :: below) :
    t'.current k = true := by
  obtain ⟨b, hl⟩ := hl
  have begun (running : t.outline.running = some k.generation)
      (generation : t'.generation = t.generation) : t'.current k = true :=
    decide_eq_true (generation.trans (hs.running _ running).symm)
  cases h with
  | stage s below' o top' goes stack log outline =>
    rw [stack] at top
    cases ho : o.told with
    | some p => simp [ho] at top
    | none =>
      cases hown : o.own with
      | nil =>
        have hbelow : below' = .owner (.announce k) :: below := by simpa [ho, hown] using top
        rw [top', hbelow] at hl
        exact hl.bare_announce.elim
      | cons x rest =>
        have hx : x = .owner (.announce k) := by
          simp only [ho, hown, Option.toList_none, List.map_nil, List.nil_append,
            List.cons_append, List.cons.injEq] at top
          exact top.1
        obtain ⟨running, generation⟩ := goes.begins_of_announce (k := k) (by simp [hown, hx])
        exact begun running ((congrArg Outline.generation outline).trans generation)
  | deliver _ _ _ _ _ _ stack => rw [stack] at top; cases top
  | ends x below' events top' _ _ stack =>
    rw [stack] at top
    rw [top', top] at hl
    exact hl.bare_announce.elim
  | call caller c r stages notes o word hmade performs shows =>
    rw [shows.stack] at top
    cases stages with
    | nil => cases top
    | cons s stages =>
      cases top
      exact (performs.isOwn _ List.mem_cons_self).elim
  | turn o idle turn shows =>
    rw [shows.stack, idle] at top
    cases turn with
    | begins g fix running =>
      cases top
      exact begun running (congrArg Outline.generation shows.outline)
    | _ => cases top

/-- **The fix of a tick is told in the generation of the tick.** -/
theorem Reaches.announces {settings : Settings} {engine : Engine} {source : Source}
    {signal : Signal} (h : Reaches (.new settings engine source signal) ms t)
    {below : List SessionFrame} (top : t.stack = .owner (.announce k) :: below) :
    t.current k = true :=
  h.invariant
    (P := fun t => ∀ k below, t.stack = .owner (.announce k) :: below → t.current k = true)
    (fun _ _ _ _ hr _ hc _ _ top => hc.announces (hr.laid rfl) hr.sound top)
    (fun _ _ top => by cases top) k below top

/-! ## What the steps of a tick leave alone -/

/-- Facts stay, and what is remembered but the raw location. So much is counted. -/
structure KeepsState (t t' : Trip) (cost : Counters) : Prop where
  facts : t'.facts = t.facts
  caches : ∀ c, c ≠ rawLocation → t'.dispatch.registry c = t.dispatch.registry c
  metrics : t'.metrics = t.metrics + cost

/-- A step that counts nothing comes before. -/
theorem KeepsState.after {b : Trip} {cost : Counters} (h : KeepsState t t' cost)
    (hb : KeepsState b t {}) : KeepsState b t' cost where
  facts := h.facts.trans hb.facts
  caches c hc := (h.caches c hc).trans (hb.caches c hc)
  metrics := h.metrics.trans (congrArg (· + cost) hb.metrics)

theorem KeepsState.of_pop {cost : Counters} (h : KeepsState t.pop t' cost) : KeepsState t t' cost :=
  ⟨h.facts, h.caches, h.metrics⟩

theorem KeepsState.of_failures {cost : Counters} (facts : t'.facts = t.facts)
    (caches : ∀ c, c ≠ rawLocation → t'.dispatch.registry c = t.dispatch.registry c)
    (failures : t'.dispatch.table.failures = t.dispatch.table.failures)
    (counters : t'.counters = t.counters + cost) (unfailed : cost.observerFailures = 0) :
    KeepsState t t' cost := by
  refine ⟨facts, caches, ?_⟩
  have hmetrics : t'.metrics =
      { t.counters + cost with observerFailures := t.dispatch.table.failures } := by
    rw [Trip.metrics, counters, failures]
  exact hmetrics.trans (congrArg (fun n => { t.counters + cost with
    observerFailures := t.dispatch.table.failures + n }) unfailed.symm)

theorem KeepsState.of_table {cost : Counters} (facts : t'.facts = t.facts)
    (table : t'.dispatch.table = t.dispatch.table) (counters : t'.counters = t.counters + cost)
    (unfailed : cost.observerFailures = 0) : KeepsState t t' cost :=
  .of_failures facts (fun c _ => congrArg (·.get c) table) (congrArg Hub.failures table) counters
    unfailed

@[simp] theorem facts_mapWorker (t : Trip) (g : Nat) (f : Worker → Worker) :
    (t.mapWorker g f).facts = t.facts := by
  unfold mapWorker; split <;> rfl

theorem facts_ask (t : Trip) (k : Tick) : (t.ask k).facts = t.facts := by
  have h := asks t k
  generalize t.ask k = u at h ⊢
  cases h with
  | orphaned | answered => rfl
  | waits => exact facts_mapWorker _ _ _

theorem facts_resume (t : Trip) (w : Worker) : (t.resume w).facts = t.facts := by
  have awake := facts_mapWorker t w.generation fun w => { w with wait := .working }
  unfold resume
  simp only
  split
  · exact awake
  · split <;> exact awake
  · exact awake

/-- A value that is told is no failure. -/
theorem failures_record (h : Hub) (c : Category) (v : c.Value) :
    (h.set c ((h.get c).record v)).failures = h.failures := by
  cases c <;> rfl

/-- **Before a tick has its status, its stages leave all but the raw location alone.** -/
theorem keepsState_run (t : Trip) {s : Stage} (early : s.isEarly = true) :
    KeepsState t (t.run s) (t.toll s) := by
  have counters := counters_run t s
  cases s with
  | announce k =>
    cases hfix : k.fix with
    | none =>
      refine .of_table ?_ ?_ counters rfl <;> simp only [run, hfix] <;> rfl
    | some fix =>
      cases hcurrent : (t.pushStages [.ingest k]).current k with
      | true =>
        have hrun : t.run (.announce k) =
            (t.pushStages [.ingest k]).tell (.tick k.number) .rawLocation fix := by
          simp only [run, hfix, Option.isSome_some, ↓reduceIte, hcurrent]
        rw [hrun] at counters ⊢
        exact .of_failures rfl (fun c hc => Hub.get_set_of_ne _ _ _ c hc)
          (failures_record t.dispatch.table .rawLocation fix) counters rfl
      | false =>
        have hrun : t.run (.announce k) = (t.pushStages [.ingest k]).discard := by
          simp only [run, hfix, Option.isSome_some, ↓reduceIte, hcurrent, Bool.false_eq_true]
        rw [hrun] at counters ⊢
        exact .of_table rfl rfl counters rfl
  | ingest k =>
    refine .of_table ?_ ?_ counters rfl <;>
    · simp only [run]
      split
      · split <;> rfl
      · rfl
  | ask k => exact .of_table (facts_ask t k) (table_ask t k) counters rfl
  | conclude k answer =>
    refine .of_table ?_ ?_ counters rfl <;>
    · simp only [run]
      split
      · rfl
      · split <;> rfl
  | _ => cases early

/-! ## The steps of a tick -/

namespace Passage

variable {p q : Passage} {cost : Counters}

/-- The step is one of a tick: a stage of it is run, what it tells is delivered, or its worker takes
the turn for which it waited with the tick. -/
inductive IsOf (p : Passage) (k : Tick) : Prop
  | stage {s : Stage} (stage : p.stage? = some s) (tick : s.tick? = some k)
  | derives (stage : p.stage? = some (.recompute (.tick k.number)))
  | delivers {f : SessionFanout} {rest : List (ObserverId × Listener)} {below : List SessionFrame}
      (top : p.before.stack = .fanout f rest :: below) (cause : f.cause = .tick k.number)
  | wakes (moves : p.moves = [.work]) (asked : p.before.outline.pending = some k)

/-- The engine answers the tick, or time runs out. -/
inductive Answers (p : Passage) (k : Tick) : Except EngineError Status → Prop
  /-- The status is ready as it is asked for. -/
  | atOnce (stage : p.stage? = some (.ask k))
      (running : (p.before.workerOf? k.generation).isSome = true)
      (ready : p.before.engine.ask.2.2 = 0) :
      Answers p k (p.before.engine.ask.1.collect p.before.engine.ask.2.1).2
  /-- It is not, and there is no time to wait for it. -/
  | noTime (stage : p.stage? = some (.ask k))
      (running : (p.before.workerOf? k.generation).isSome = true)
      (slow : p.before.engine.ask.2.2 ≠ 0) (limit : p.before.settings.polling.timeout = 0) :
      Answers p k (.error (.timeout 0))
  /-- The worker has waited for it. -/
  | inTime {w : Worker} {asked : Asked} {ready deadline : Nat} (moves : p.moves = [.work])
      (running : p.before.worker = some w) (waits : w.wait = .status k asked ready deadline)
      (come : ready ≤ p.before.now) : Answers p k (p.before.engine.collect asked).2
  /-- It has waited for as long as it may. -/
  | late {w : Worker} {asked : Asked} {ready deadline : Nat} (moves : p.moves = [.work])
      (running : p.before.worker = some w) (waits : w.wait = .status k asked ready deadline)
      (out : p.before.now < ready) :
      Answers p k (.error (.timeout p.before.settings.polling.timeout))

/-- The step takes in that a tick fails, and this is counted. -/
inductive Closes (p : Passage) (k : Tick) : Counters → Prop
  | refuses {fix : Fix} (stage : p.stage? = some (.ingest k)) (known : k.fix = some fix)
      (refused : p.before.refuses fix = true) : Closes p k { ingestionFailures := 1 }
  | fails {e : EngineError} (stage : p.stage? = some (.conclude k (.error e))) :
      Closes p k { statusFailures := k.counted.toNat }

/-- The steps of a tick are taken while it is not over. -/
theorem IsOf.ahead (h : p.IsOf k) (hl : ∃ b, Laid b p.before.stack) :
    ∃ k' b, k'.number = k.number ∧ Ahead p.before k' b := by
  obtain ⟨b, hl⟩ := hl
  cases h with
  | stage stage tick =>
    obtain ⟨below, top⟩ := stage?_eq_some.mp stage
    exact ⟨k, _, rfl, .stage (by rw [top]; exact List.mem_cons_self) tick⟩
  | derives stage =>
    obtain ⟨below, top⟩ := stage?_eq_some.mp stage
    obtain ⟨-, k', number, hst⟩ := hl.eq_of_mem_derive (by rw [top]; exact List.mem_cons_self)
    exact ⟨k', _, number, .derive hst⟩
  | delivers top cause =>
    obtain ⟨upper, s, k', hst, tick, number, -⟩ :=
      hl.below_tick (by rw [top]; exact List.mem_cons_self) cause
    exact ⟨k', _, number, .stage (by rw [hst]; simp) tick⟩
  | wakes _ asked => exact ⟨k, _, rfl, .pending asked⟩

end Passage

/-- While a fan-out is under way, nobody has the word and no task takes a turn. -/
theorem move?_of_fanout {f : SessionFanout} {rest : List (ObserverId × Listener)}
    {below : List SessionFrame} (top : t.stack = .fanout f rest :: below) (m : Move) :
    t.move? m = none := by
  have hs : t.dispatch.stack = .fanout f rest :: below := top
  cases m with
  | decide d => simp [move?, decide?, speaker, Dispatch.speaker, hs]
  | _ => simp [move?, work?, replay?, elapse?, idle, hs]

/-- A value that is delivered changes nothing else. -/
theorem Takes.keepsState_of_fanout (h : Takes t ms t') {f : SessionFanout}
    {rest : List (ObserverId × Listener)} {below : List SessionFrame}
    (top : t.stack = .fanout f rest :: below) : KeepsState t t' {} := by
  cases h with
  | tick h =>
    have hs : t.dispatch.stack = .fanout f rest :: below := top
    simp only [tick?, hs] at h
    obtain ⟨d, hd, rfl⟩ := Option.map_eq_some_iff.mp h
    obtain ⟨_, _, -, rfl⟩ | ⟨_, _, _, _, _, -, rfl⟩ | ⟨_, _, _, hkeep, -⟩ :=
      Dispatch.advance?_cases hd
    · exact .of_table rfl rfl rfl rfl
    · exact .of_table rfl rfl rfl rfl
    · rw [hs] at hkeep
      cases hkeep
  | move h => rw [move?_of_fanout top] at h; cases h

/-- The worker takes its turn. -/
theorem Takes.resumes (h : Takes t [.work] t') : ∃ w, t.worker = some w ∧ t' = t.resume w := by
  cases h with
  | move h =>
    have h : t.work? = some t' := h
    unfold work? at h
    split at h
    · obtain ⟨w, running, rfl⟩ := Option.map_eq_some_iff.mp h
      exact ⟨w, running, rfl⟩
    · cases h

theorem Takes.keepsState_of_work (h : Takes t [.work] t') : KeepsState t t' {} := by
  obtain ⟨w, -, rfl⟩ := h.resumes
  exact .of_table (facts_resume t w) (table_resume t w) (counters_resume t w) rfl

/-! ## Before a tick has its status -/

/-- While the worker waits for no status, the location is ahead at a stage. -/
theorem Ahead.located {b : List Category} (h : Ahead t k b) (hb : location ∈ b)
    (pending : t.outline.pending = none) : ∃ s, .owner s ∈ t.stack ∧ location ∈ s.ahead := by
  cases h with
  | stage mem => exact ⟨_, mem, hb⟩
  | derive => simp at hb
  | pending asked =>
    rw [pending] at asked
    cases asked

/-- Once the location is told, or dropped, it is not ahead any more. -/
theorem not_located_after_locate (hl : ∃ b, Laid b t.stack) (hq : Quiet t) {status : Status}
    {below : List SessionFrame} (top : t.stack = .owner (.locate k status) :: below)
    {b : List Category} (h : Ahead (t.pop.run (.locate k status)) k b) : location ∉ b := by
  intro hb
  obtain ⟨c, hl⟩ := hl
  have pending : t.outline.pending = none :=
    hq _ (by rw [top]; exact List.mem_cons_self) (.inl rfl)
  rw [top] at hl
  have hbelow : t.pop.stack = [] := by rw [stack_pop, top]; exact below_work hl (.inl rfl)
  obtain ⟨o, goes, shows⟩ := run_goes t.pop (.locate k status)
  have houtline := congrArg Outline.pending shows.outline
  have hstack := shows.stack
  rw [hbelow] at hstack
  cases goes with
  | locates =>
    obtain ⟨s, mem, hs⟩ := h.located hb (houtline.trans pending)
    rw [hstack] at mem
    split at mem <;>
    · obtain rfl : s = _ := by simpa using mem
      simp [Stage.ahead] at hs
  | locateStale =>
    obtain ⟨s, mem, hs⟩ := h.located hb (houtline.trans pending)
    rw [hstack] at mem
    obtain rfl : s = _ := by simpa using mem
    simp [Stage.ahead] at hs

/-- The location is ahead of a stage of a tick if it is ahead of the tick. -/
theorem Ahead.located_of_top (hl : ∃ b, Laid b t.stack) (hq : Quiet t) {s : Stage}
    {below : List SessionFrame} (top : t.stack = .owner s :: below)
    (hs : s.tick? = some k ∨ s = .recompute (.tick k.number)) {b : List Category}
    (h : Ahead t k b) (hb : location ∈ b) : location ∈ s.ahead := by
  obtain ⟨c, hl⟩ := hl
  have mem : .owner s ∈ t.stack := by rw [top]; exact List.mem_cons_self
  rcases hs with tick | rfl
  · have work := Stage.isWork_of_tick? tick
    obtain ⟨s', mem', hs'⟩ := h.located hb (hq s mem work)
    rw [top] at hl
    rw [top, below_work hl work] at mem'
    cases List.mem_singleton.mp mem'
    exact hs'
  · obtain ⟨-, k', -, hst⟩ := hl.eq_of_mem_derive mem
    obtain ⟨s', mem', hs'⟩ := h.located hb (hq (.tally k') (by rw [hst]; simp) (.inl rfl))
    rw [hst] at mem'
    have mem' : s' = .recompute (.tick k'.number) ∨ s' = .tally k' := by simpa using mem'
    rcases mem' with rfl | rfl <;> simp [Stage.ahead] at hs'

/-! ## A tick that fails is over -/

theorem isOver_of_proceed {g : Nat} (stack : t.stack = [.owner (.proceed g)])
    (pending : t.outline.pending = none) (k : Tick) : IsOver t k := by
  intro b h
  cases h with
  | stage mem tick =>
    rw [stack] at mem
    cases List.mem_singleton.mp mem
    cases tick
  | derive hst => rw [stack] at hst; cases hst
  | pending asked => rw [pending] at asked; cases asked

theorem run_ingest_of_refuses {fix : Fix} (known : k.fix = some fix)
    (refused : t.refuses fix = true) :
    t.run (.ingest k) =
      (t.count fun c => { c with ingestionFailures := c.ingestionFailures + 1 }).pushStages
        [.proceed k.generation] := by
  unfold refuses at refused
  simp only [run, known]
  split at refused
  · cases refused
  · simp only [*]

theorem toll_ingest_of_refuses {fix : Fix} (known : k.fix = some fix)
    (refused : t.refuses fix = true) : t.toll (.ingest k) = { ingestionFailures := 1 } := by
  simp only [toll, Trip.refused, known, Option.any_some, refused]
  rfl

/-- The worker goes on to its next tick, and nothing has been told. -/
theorem Takes.goes_on (h : Takes t ms t') {cost : Counters}
    (closes : (⟨t, ms, t'⟩ : Passage).Closes k cost) :
    t'.stack = .owner (.proceed k.generation) :: t.stack.tail ∧ t'.outline = t.outline ∧
      toldByTicks t'.log = toldByTicks t.log ∧ KeepsState t t' cost := by
  cases closes with
  | @refuses fix stage known refused =>
    obtain ⟨below, top⟩ := Passage.stage?_eq_some.mp stage
    have refused : t.pop.refuses fix = true := refused
    have hkeeps := keepsState_run t.pop (s := .ingest k) rfl
    have hrun := run_ingest_of_refuses known refused
    rw [toll_ingest_of_refuses known refused] at hkeeps
    rw [← h.step.eq_of_top top] at hkeeps hrun
    exact ⟨by rw [hrun]; rfl, by rw [hrun]; rfl, by rw [hrun]; rfl, hkeeps.of_pop⟩
  | @fails e stage =>
    obtain ⟨below, top⟩ := Passage.stage?_eq_some.mp stage
    have hkeeps := keepsState_run t.pop (s := .conclude k (.error e)) rfl
    have htoll : t.pop.toll (.conclude k (.error e)) = { statusFailures := k.counted.toNat } := rfl
    obtain ⟨o, goes, shows⟩ := run_goes t.pop (.conclude k (.error e))
    rw [← h.step.eq_of_top top] at hkeeps shows
    rw [htoll] at hkeeps
    cases goes
    exact ⟨shows.stack, shows.outline, (lists_of_log shows.log).1.trans (List.append_nil _),
      hkeeps.of_pop⟩

theorem Passage.Closes.stage {p : Passage} {cost : Counters} (h : p.Closes k cost) :
    ∃ s, p.stage? = some s ∧ s.tick? = some k ∧ s.ahead = k.scope.order.tail := by
  cases h with
  | refuses stage => exact ⟨_, stage, rfl, rfl⟩
  | fails stage => exact ⟨_, stage, rfl, rfl⟩

theorem Passage.Closes.ahead {p : Passage} {cost : Counters} (h : p.Closes k cost) :
    Ahead p.before k k.scope.order.tail := by
  obtain ⟨s, stage, tick, ahead⟩ := h.stage
  obtain ⟨below, top⟩ := stage?_eq_some.mp stage
  exact ahead ▸ .stage (by rw [top]; exact List.mem_cons_self) tick

theorem Takes.over_of_closes (h : Takes t ms t') (hl : ∃ b, Laid b t.stack) (hq : Quiet t)
    {cost : Counters} (closes : (⟨t, ms, t'⟩ : Passage).Closes k cost) (k' : Tick) :
    IsOver t' k' := by
  obtain ⟨c, hl⟩ := hl
  obtain ⟨s, stage, tick, -⟩ := closes.stage
  obtain ⟨below, top⟩ := Passage.stage?_eq_some.mp stage
  have top : t.stack = .owner s :: below := top
  have work := Stage.isWork_of_tick? tick
  have pending : t.outline.pending = none := hq s (by rw [top]; exact List.mem_cons_self) work
  obtain ⟨hstack, houtline, -⟩ := h.goes_on closes
  rw [top] at hl
  rw [top, List.tail_cons, below_work hl work] at hstack
  exact isOver_of_proceed hstack (by rw [houtline]; exact pending) k'

/-- A stage before the status counts nothing, unless its tick fails or is out of date. -/
theorem Passage.toll_of_open {p : Passage} {s : Stage} (stage : p.stage? = some s)
    (early : s.isEarly = true) (tick : s.tick? = some k)
    (current : ∀ k, s = .announce k → p.before.current k = true)
    (opened : ∀ cost, ¬ p.Closes k cost) : p.before.toll s = {} := by
  cases s with
  | announce =>
    simp only [Trip.toll, discarded, current _ rfl, Bool.not_true, Bool.and_false]
    rfl
  | ingest =>
    cases tick
    cases hrefused : p.before.refused (.ingest k) with
    | true =>
      obtain ⟨fix, known, refused⟩ := (Option.any_eq_true _ _).mp hrefused
      exact absurd (.refuses stage known refused) (opened _)
    | false =>
      simp only [Trip.toll, hrefused]
      rfl
  | ask => rfl
  | conclude k' answer =>
    cases tick
    cases answer with
    | error e => exact absurd (.fails stage) (opened _)
    | ok status => rfl
  | _ => cases early

section Run

variable {settings : Settings} {engine : Engine} {source : Source} {signal : Signal}
  {ns : List Move} {ps qs : List Passage}

/-- A stage that leaves the location ahead leaves the state alone. -/
theorem Takes.keepsState_of_top (hr : Reaches (.new settings engine source signal) ns t)
    (h : Takes t ms t') {s : Stage} {below : List SessionFrame}
    (top : t.stack = .owner s :: below)
    (hs : s.tick? = some k ∨ s = .recompute (.tick k.number)) {b : List Category}
    (later : Ahead t' k b) (hb : location ∈ b) : KeepsState t t' {} := by
  have hl := hr.laid rfl
  have hq := hr.quiet rfl
  have hsound := hr.sound
  have mem : .owner s ∈ t.stack := by rw [top]; exact List.mem_cons_self
  have hnumber : k.number < t.ticks := by
    rcases hs with tick | rfl
    · exact hsound.numbered k (hsound.staged s k mem tick)
    · obtain ⟨k', hk', number, -⟩ := hsound.derived k.number below top
      exact number ▸ hsound.numbered k' hk'
  obtain ⟨made, hc⟩ := change_of_step h.step
  obtain ⟨c, hahead, hsub⟩ := (hc.works hl hq).ahead_of hnumber later
  have opened (cost : Counters) : ¬ (⟨t, ms, t'⟩ : Passage).Closes k cost := fun closes =>
    h.over_of_closes hl hq closes k b later
  have hlocated := hahead.located_of_top hl hq top hs (hsub.subset hb)
  rcases Stage.early_of_ahead hlocated with early | ⟨k', status, rfl⟩
  · have tick : s.tick? = some k := hs.resolve_right (by rintro rfl; cases early)
    have stage : (⟨t, ms, t'⟩ : Passage).stage? = some s :=
      Passage.stage?_eq_some.mpr ⟨below, top⟩
    have current (k : Tick) (hs : s = .announce k) : t.current k = true :=
      hr.announces (hs ▸ top)
    have htoll : t.toll s = {} := Passage.toll_of_open stage early tick current opened
    have hkeeps := (keepsState_run t.pop early).of_pop
    rwa [← h.step.eq_of_top top, toll_pop, htoll] at hkeeps
  · obtain rfl : k' = k := by simpa [Stage.tick?] using hs
    rw [h.step.eq_of_top top] at later
    exact absurd hb (not_located_after_locate hl hq top later)

/-- A step of a tick that leaves the location ahead leaves the state alone. -/
theorem Passage.IsOf.keepsState {q : Passage}
    (hr : Reaches (.new settings engine source signal) ns q.before)
    (taken : Takes q.before q.moves q.after) (h : q.IsOf k) {b : List Category}
    (later : Ahead q.after k b) (hb : location ∈ b) : KeepsState q.before q.after {} := by
  cases h with
  | stage stage tick =>
    obtain ⟨below, top⟩ := stage?_eq_some.mp stage
    exact taken.keepsState_of_top hr top (.inl tick) later hb
  | derives stage =>
    obtain ⟨below, top⟩ := stage?_eq_some.mp stage
    exact taken.keepsState_of_top hr top (.inr rfl) later hb
  | delivers top => exact taken.keepsState_of_fanout top
  | wakes moves => exact (moves ▸ taken).keepsState_of_work

/-- Until a tick fails, its steps leave the state alone. -/
theorem Passage.Closes.keepsState_before {p : Passage} {cost : Counters}
    (hps : Trail (.new settings engine source signal) ps p.before) (closes : p.Closes k cost)
    {q : Passage} (hq : q ∈ ps) (hof : q.IsOf k) : KeepsState q.before q.after {} := by
  obtain ⟨before, after, hbefore, taken, hafter⟩ := hps.of_mem hq
  have hsound := hps.reaches.sound
  have hstart := hbefore.reaches
  have hahead := closes.ahead
  -- The tick of this number that has begun is the one that fails later.
  obtain ⟨k', c, number, hk'⟩ := hof.ahead (hstart.laid rfl)
  have hbegun := taken.reaches.ticked (hk'.ticked hstart.sound)
  obtain rfl := hsound.distinct k' k (hafter.reaches.ticked hbegun) (hahead.ticked hsound) number
  obtain ⟨d, hd, hsub⟩ := (hstart.trans taken.reaches).ahead_of hafter.reaches hbegun hahead
  exact hof.keepsState hstart taken hd (hsub.subset (by cases k'.scope <;> simp [Scope.order]))

/-- Steps of a tick that is over are not taken. -/
theorem Passage.not_isOf_of_over (h₀ : Reaches (.new settings engine source signal) ms a)
    (hqs : Trail a qs t) (hk : Ticked a k) (ended : IsOver a k) {q : Passage} (hq : q ∈ qs) :
    ¬ q.IsOf k := by
  intro hof
  obtain ⟨before, after, hbefore, -, -⟩ := hqs.of_mem hq
  have hstart := h₀.trans hbefore.reaches
  have hsound := hstart.sound
  obtain ⟨k', c, number, hk'⟩ := hof.ahead (hstart.laid rfl)
  obtain rfl :=
    hsound.distinct k' k (hk'.ticked hsound) (hbefore.reaches.ticked hk) number
  exact (h₀.ended hbefore.reaches hk ended).1 c hk'

/-- **Once a tick fails it is over, and before that it has told the raw location at most.** -/
theorem Passage.Closes.account {p : Passage} {cost : Counters}
    (hps : Trail (.new settings engine source signal) ps p.before)
    (taken : Takes p.before p.moves p.after) (hqs : Trail p.after qs t)
    (closes : p.Closes k cost) :
    (∀ q ∈ ps, q.IsOf k → KeepsState q.before q.after {}) ∧ (∀ q ∈ qs, ¬ q.IsOf k) ∧
      Ticked t k ∧ (shape k.number t.log).Sublist [rawLocation] := by
  have hp := hps.reaches
  have hafter := hp.trans taken.reaches
  have hahead := closes.ahead
  have hticked := taken.reaches.ticked (hahead.ticked hp.sound)
  have hover := taken.over_of_closes (hp.laid rfl) (hp.quiet rfl) closes k
  obtain ⟨-, -, htold, -⟩ := taken.goes_on closes
  refine ⟨fun q hq hof => closes.keepsState_before hps hq hof,
    fun q hq => not_isOf_of_over hafter hqs hticked hover hq, hqs.reaches.ticked hticked, ?_⟩
  rw [(hafter.ended hqs.reaches hticked hover).2, shape_congr htold]
  have horder := (hp.tiled.fits k _ hahead).order
  have hsplit : k.scope.order = [rawLocation] ++ k.scope.order.tail := by
    cases k.scope <;> rfl
  rw [hsplit, List.tail_append_of_ne_nil (by simp)] at horder
  exact (List.append_sublist_append_right _).mp (by simpa using horder)

theorem began_of_mem_toldByTicks {log : List SessionEvent} {f : SessionFanout}
    (h : f ∈ toldByTicks log) : ∃ audience, .began f audience ∈ log := by
  obtain ⟨e, he, hf⟩ := List.mem_filterMap.mp h
  cases e with
  | began g audience =>
    simp only [tickFanout?] at hf
    split at hf <;> cases hf
    exact ⟨audience, List.mem_reverse.mp he⟩
  | _ => cases hf

/-- What a tick tells as the raw location is its fix. -/
theorem Reaches.block_of_shape (h : Reaches (.new settings engine source signal) ms t)
    (hk : Ticked t k) (hshape : (shape k.number t.log).Sublist [rawLocation]) :
    block k.number t.log = [] ∨ ∃ n fix, k.fix = some fix ∧
      block k.number t.log = [⟨n, .tick k.number, rawLocation, fix⟩] := by
  rcases List.sublist_singleton.mp hshape with hnil | hone
  · exact .inl (List.map_eq_nil_iff.mp hnil)
  · obtain ⟨f, hblock, hcategory⟩ := List.map_eq_singleton_iff.mp hone
    have hf : f ∈ block k.number t.log := by rw [hblock]; exact List.mem_singleton_self f
    obtain ⟨hf, hcause⟩ := List.mem_filter.mp hf
    have hcause : f.cause = .tick k.number := of_decide_eq_true hcause
    obtain ⟨audience, hbegan⟩ := began_of_mem_toldByTicks hf
    obtain ⟨before, b, after, hb, ⟨s, below, o, top, goes, ho⟩, hrest⟩ :=
      h.tells_of_began (List.append_nil t.log).symm hbegan
    cases goes with
    | announces k' fix known =>
      cases ho
      have hbegun := hb.sound.staged _ k' (by rw [top]; exact List.mem_cons_self) rfl
      obtain rfl := h.sound.distinct k' k (hrest.ticked hbegun) hk (Cause.tick.inj hcause)
      exact .inr ⟨_, fix, known, hblock⟩
    | registered l c | subscribed l c =>
      obtain ⟨v, id, rfl, -⟩ := owed_eq_some ho
      cases hcause
    | enters | leaves | derives | locates | flags | cues | reports =>
      cases ho
      cases hcategory
    | _ => cases ho

end Run

/-! ## The whole account -/

theorem ask_of_ready (running : (t.workerOf? k.generation).isSome = true)
    (ready : t.engine.ask.2.2 = 0) :
    t.ask k = { t with engine := (t.engine.ask.1.collect t.engine.ask.2.1).1 }.pushStages
      [.conclude k (t.engine.ask.1.collect t.engine.ask.2.1).2] := by
  simp only [ask, Option.isNone_eq_false_iff.mpr running, ready, ↓reduceIte, Bool.false_eq_true]

theorem ask_of_noTime (running : (t.workerOf? k.generation).isSome = true)
    (slow : t.engine.ask.2.2 ≠ 0) (limit : t.settings.polling.timeout = 0) :
    t.ask k = { t with engine := t.engine.ask.1 }.pushStages
      [.conclude k (.error (.timeout 0))] := by
  simp only [ask, Option.isNone_eq_false_iff.mpr running, slow, limit, ↓reduceIte,
    Bool.false_eq_true]

namespace Passage

/-- The step of an answer is one of its tick. -/
theorem Answers.isOf {p : Passage} {answer : Except EngineError Status}
    (h : p.Answers k answer) : p.IsOf k := by
  cases h with
  | atOnce stage | noTime stage => exact .stage stage rfl
  | inTime moves running waits | late moves running waits =>
    exact .wakes moves (by simp [outline, running, Worker.pending?, waits])

/-- An answer is taken in next. -/
theorem Answers.concludes {p : Passage} {answer : Except EngineError Status}
    (h : p.Answers k answer) (taken : Takes p.before p.moves p.after) :
    ∃ below, p.after.stack = .owner (.conclude k answer) :: below := by
  cases h with
  | atOnce stage running ready =>
    obtain ⟨below, top⟩ := stage?_eq_some.mp stage
    rw [taken.step.eq_of_top top, run, ask_of_ready (t := p.before.pop) running ready]
    exact ⟨_, rfl⟩
  | noTime stage running slow limit =>
    obtain ⟨below, top⟩ := stage?_eq_some.mp stage
    rw [taken.step.eq_of_top top, run, ask_of_noTime (t := p.before.pop) running slow limit]
    exact ⟨_, rfl⟩
  | inTime moves running waits come =>
    rw [moves] at taken
    obtain ⟨w', running', hafter⟩ := taken.resumes
    cases running.symm.trans running'
    simp only [hafter, resume, waits, come, engine_mapWorker, ↓reduceIte]
    exact ⟨_, rfl⟩
  | late moves running waits out =>
    rw [moves] at taken
    obtain ⟨w', running', hafter⟩ := taken.resumes
    cases running.symm.trans running'
    simp only [hafter, resume, waits, Nat.not_le_of_lt out, ↓reduceIte]
    exact ⟨_, rfl⟩

end Passage

/-- The steps in which a tick fails, and what is counted of it. -/
inductive Failure (k : Tick) : List Passage → Counters → Prop
  /-- The engine refuses its fix. -/
  | refusal {p : Passage} {fix : Fix} (stage : p.stage? = some (.ingest k))
      (known : k.fix = some fix) (refused : p.before.refuses fix = true) :
      Failure k [p] { ingestionFailures := 1 }
  /-- Its status is an error or takes too long, which the next step takes in. At the start of a
  worker, before any fix is known, this is not counted. -/
  | status {p q : Passage} {e : EngineError} (answers : p.Answers k (.error e)) :
      Failure k [p, q]
        { statusFailures := if k.scope = .locationOnly ∧ k.fix.isNone then 0 else 1 }

/-- **A tick that fails keeps the state.** Until it fails, its steps leave the facts and the last
values alone, but the raw location, and count nothing. In the steps in which it fails this holds as
well, and one failure is counted. Then it is over. All it has ever told is its fix. -/
theorem failed_tick_keeps_state {settings : Settings} {engine : Engine} {source : Source}
    {signal : Signal} {before failure after : List Passage} {cost : Counters}
    (h : Trail (.new settings engine source signal) (before ++ failure ++ after) t)
    (fails : Failure k failure cost) :
    (∀ q ∈ before, q.IsOf k → KeepsState q.before q.after {}) ∧
    (∃ a b, Trail (.new settings engine source signal) before a ∧ Trail a failure b ∧
      Trail b after t ∧ KeepsState a b cost) ∧
    (∀ q ∈ failure, q.IsOf k) ∧ (∀ q ∈ after, ¬ q.IsOf k) ∧
    (block k.number t.log = [] ∨ ∃ n fix, k.fix = some fix ∧
      block k.number t.log = [⟨n, .tick k.number, rawLocation, fix⟩]) := by
  obtain ⟨b, hfirst, hafter⟩ := h.split
  obtain ⟨a, hbefore, hfailure⟩ := hfirst.split
  cases fails with
  | @refusal p fix stage known refused =>
    obtain ⟨rfl, taken, hnil⟩ := hfailure.uncons
    obtain rfl := hnil.eq_of_nil
    have closes : p.Closes k { ingestionFailures := 1 } := .refuses stage known refused
    obtain ⟨hkeeps, hover, hticked, hshape⟩ := closes.account hbefore taken hafter
    obtain ⟨-, -, -, hkept⟩ := taken.goes_on closes
    refine ⟨hkeeps, ⟨_, _, hbefore, hfailure, hafter, hkept⟩, fun q hq => ?_, hover,
      h.reaches.block_of_shape hticked hshape⟩
    rw [List.mem_singleton.mp hq]
    exact .stage stage rfl
  | @status p q e answers =>
    obtain ⟨rfl, taken, hrest⟩ := hfailure.uncons
    obtain ⟨hbetween, taken', hnil⟩ := hrest.uncons
    obtain rfl := hnil.eq_of_nil
    have stage : q.stage? = some (.conclude k (.error e)) :=
      Passage.stage?_eq_some.mpr (hbetween ▸ answers.concludes taken)
    have closes := Passage.Closes.fails stage
    have hupto : Trail (.new settings engine source signal) (before ++ [p]) q.before :=
      hbetween ▸ hbefore.step taken
    obtain ⟨hkeeps, hover, hticked, hshape⟩ := closes.account hupto taken' hafter
    obtain ⟨-, -, -, hkept⟩ := taken'.goes_on closes
    have hfirst := hkeeps p (by simp) answers.isOf
    rw [hbetween] at hfirst
    have hcost : k.counted.toNat = if k.scope = .locationOnly ∧ k.fix.isNone then 0 else 1 := by
      cases k with
      | mk number generation epoch scope fix => cases scope <;> cases fix <;> rfl
    rw [hcost] at hkept
    refine ⟨fun q hq => hkeeps q (List.mem_append_left _ hq),
      ⟨_, _, hbefore, hfailure, hafter, hkept.after hfirst⟩, fun x hx => ?_, hover,
      h.reaches.block_of_shape hticked hshape⟩
    have hx : x = p ∨ x = q := by simpa using hx
    rcases hx with rfl | rfl
    · exact answers.isOf
    · exact .stage stage rfl

/-- A session whose engine has a status only after its worker has lost patience. -/
def sluggishTrip : Trip :=
  .new { polling := { timeout := 10 } }
    (.scripted { script := [{ answer := .error (.status "none") },
      { delay := 20, answer := .ok { location := sampleLocation } }] })
    (.manual {}) .none

/-- It has been asked for the status of a fix, and time is up. -/
def sluggishAtDeadline : Trip :=
  (play tick? move? 40
    [.decide (.call .start), .work, .decide (.call (.push sampleFix)), .work, .elapse 10]
    sluggishTrip).get rfl

/-- The worker gives up. -/
def givesUp : Passage :=
  ⟨sluggishAtDeadline, [.work], (sluggishAtDeadline.move? .work).get rfl⟩

/-- It takes in that the tick has failed. -/
def tookTooLong : Passage := ⟨givesUp.after, [], givesUp.after.tick?.get rfl⟩

/-- The tick after the one that started the worker. -/
def overdueTick : Tick :=
  { number := 1, generation := 1, epoch := 0, scope := .full, fix := some sampleFix }

/-- One failed status is counted, and the fix has been told. -/
theorem failed_tick_keeps_state_overdue :
    ∃ before, Trail sluggishTrip (before ++ [givesUp, tookTooLong] ++ []) tookTooLong.after ∧
      Failure overdueTick [givesUp, tookTooLong] { statusFailures := 1 } ∧
      (∃ a b, Trail a [givesUp, tookTooLong] b ∧ KeepsState a b { statusFailures := 1 }) ∧
      ∃ n, block 1 tookTooLong.after.log = [⟨n, .tick 1, rawLocation, sampleFix⟩] := by
  have hreach := reaches_of_runs
    (run_of_play (b := sluggishAtDeadline) 40 (Option.some_get _).symm)
  obtain ⟨before, hbefore, -⟩ := hreach.trail
  have hwork : Takes givesUp.before givesUp.moves givesUp.after :=
    .move (Option.some_get (x := sluggishAtDeadline.move? .work) rfl).symm
  have htick : Takes tookTooLong.before tookTooLong.moves tookTooLong.after :=
    .tick (Option.some_get (x := givesUp.after.tick?) rfl).symm
  have htrail : Trail sluggishTrip (before ++ [givesUp, tookTooLong] ++ []) tookTooLong.after := by
    have h : Trail sluggishTrip (before ++ [givesUp] ++ [tookTooLong]) tookTooLong.after :=
      (hbefore.step hwork).step htick
    simpa using h
  have hanswers : givesUp.Answers overdueTick (.error (.timeout 10)) :=
    .late rfl rfl rfl (by decide)
  have hfails : Failure overdueTick [givesUp, tookTooLong] { statusFailures := 1 } :=
    .status hanswers
  obtain ⟨-, ⟨a, b, -, hfailure, -, hkeeps⟩, -, -, hblock⟩ := failed_tick_keeps_state htrail hfails
  refine ⟨before, htrail, hfails, ⟨a, b, hfailure, hkeeps⟩, ?_⟩
  rcases hblock with hnone | ⟨n, fix, hfix, hblock⟩
  · exact absurd (congrArg List.length hnone) (by decide)
  · cases hfix
    exact ⟨n, hblock⟩

end Trip
end LiveTrip
