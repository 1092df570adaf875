import LiveTrip.Proofs.Session.Failures
import LiveTrip.Proofs.Session.Samples

/-!
# Whose step it is

A worker takes a step when a stage of its own or of one of its ticks is run, when what one of its
ticks tells is delivered, and when it takes a turn. To the steps of others it is a stranger: they
may send something down its line or let it go.

* `Trip.Passage.worker?`: the worker that takes a step. `Trip.Acts`, `Trip.Takes.acts`: the ways it
  does so.
* `Trip.Tends`, `Trip.Takes.tends`: what a step makes of the running worker, one case for each way.
* `Trip.Reaches.faithful`: a worker waits for the status of a tick of its own.
* `Trip.stance?`: what a worker waits for, and whether it has known a fix.
* `Trip.Takes.stance?_of_other`, `Trip.Takes.staged_of_other`, `Trip.Takes.readBy_of_other`: what
  the steps of others leave to a worker.
* `Trip.Passage.events`: what happens in a step. `Trip.callsOf`, `Trip.toldOf`, `Trip.raisedOf`:
  what a worker asks of the engine along a run, what it tells, and what failures it counts.
-/

namespace LiveTrip

/-- The worker that a stage is of, by its generation. -/
def Stage.worker? : Stage → Option Nat
  | .proceed g => some g
  | s => s.tick?.map (·.generation)

theorem Stage.worker?_of_tick? {s : Stage} {k : Tick} (h : s.tick? = some k) :
    s.worker? = some k.generation := by
  cases s with
  | proceed => cases h
  | _ => simp only [worker?, h, Option.map_some]

theorem Stage.worker?_eq_some {s : Stage} {g : Nat} :
    s.worker? = some g ↔ s = .proceed g ∨ ∃ k, s.tick? = some k ∧ k.generation = g := by
  cases s <;> simp [worker?, tick?]

theorem Stage.isWork_of_worker? {s : Stage} {g : Nat} (h : s.worker? = some g) : s.IsWork := by
  rcases worker?_eq_some.mp h with rfl | ⟨k, tick, -⟩
  · exact .inr ⟨g, rfl⟩
  · exact isWork_of_tick? tick

/-- The fan-out that begins, if its value is told anew. -/
def Event.fresh? : SessionEvent → Option SessionFanout
  | .began f _ => if f.cause = .replay then none else some f
  | _ => none

namespace Trip

variable {t t' : Trip} {ms : List Move} {g : Nat}

/-! ## The worker that takes a step -/

/-- The worker of the tick with this number, if it has begun. -/
def tickWorker? (t : Trip) (n : Nat) : Option Nat :=
  ((ticksIn t.log).find? (·.number = n)).map (·.generation)

/-- The worker that a frame is of. What a tick tells is of its worker, and so is the phase that it
derives. -/
def frameWorker? (t : Trip) : SessionFrame → Option Nat
  | .owner (.recompute (.tick n)) => t.tickWorker? n
  | .owner s => s.worker?
  | .fanout f _ =>
    match f.cause with
    | .tick n => t.tickWorker? n
    | _ => none
  | _ => none

/-- The worker that takes the step, if one does. -/
def Passage.worker? (p : Passage) : Option Nat :=
  match p.before.stack with
  | x :: _ => p.before.frameWorker? x
  | [] =>
    match p.moves with
    | [.work] => p.before.worker.map (·.generation)
    | _ => none

theorem tickWorker?_of_ticked (hs : Sound t) {k : Tick} (hk : Ticked t k) :
    t.tickWorker? k.number = some k.generation := by
  unfold tickWorker?
  cases h : (ticksIn t.log).find? (·.number = k.number) with
  | none =>
    have := List.find?_eq_none.mp h k (mem_ticksIn.mpr hk)
    simp at this
  | some k' =>
    have number : k'.number = k.number := by simpa using List.find?_some h
    rw [hs.distinct k' k (mem_ticksIn.mp (List.mem_of_find?_eq_some h)) hk number, Option.map_some]

theorem frameWorker?_of_worker? {s : Stage} (h : s.worker? = some g) :
    t.frameWorker? (.owner s) = some g := by
  cases s with
  | recompute cause => cases h
  | _ => exact h

theorem worker?_of_frameWorker? {s : Stage} (h : t.frameWorker? (.owner s) = some g) :
    s.worker? = some g ∨ ∃ n, s = .recompute (.tick n) ∧ t.tickWorker? n = some g := by
  cases s with
  | recompute cause =>
    cases cause with
    | tick n => exact .inr ⟨n, rfl, h⟩
    | _ => cases h
  | _ => exact .inl h

theorem Passage.worker?_of_top {p : Passage} {x : SessionFrame} {below : List SessionFrame}
    (top : p.before.stack = x :: below) : p.worker? = p.before.frameWorker? x := by
  simp only [worker?, top]

/-- The ways in which a worker takes a step. -/
inductive Acts (g : Nat) (p : Passage) : Prop
  | stage {s : Stage} {below : List SessionFrame} (top : p.before.stack = .owner s :: below)
      (own : s.worker? = some g)
  | derives {k : Tick}
      (stack : p.before.stack = [.owner (.recompute (.tick k.number)), .owner (.tally k)])
      (own : k.generation = g)
  /-- What a tick tells is delivered, and the next stage of the tick stands below. -/
  | delivers {f : SessionFanout} {rest : List (ObserverId × Listener)} {below : List SessionFrame}
      {s : Stage} (top : p.before.stack = .fanout f rest :: below) (next : .owner s ∈ below)
      (own : s.worker? = some g)
  | turn {w : Worker} (idle : p.before.stack = []) (moves : p.moves = [.work])
      (running : p.before.worker = some w) (own : w.generation = g)

/-- **A worker takes a step in one of these ways.** -/
theorem Passage.acts {p : Passage} (hl : ∃ b, Laid b p.before.stack) (hs : Sound p.before)
    (h : p.worker? = some g) : Acts g p := by
  obtain ⟨b, hl⟩ := hl
  have ticked {s : Stage} {k : Tick} (mem : .owner s ∈ p.before.stack) (tick : s.tick? = some k) :
      p.before.tickWorker? k.number = some k.generation :=
    tickWorker?_of_ticked hs (hs.staged s k mem tick)
  cases hst : p.before.stack with
  | nil =>
    simp only [worker?, hst] at h
    split at h
    · obtain ⟨w, running, own⟩ := Option.map_eq_some_iff.mp h
      exact .turn hst ‹_› running own
    · cases h
  | cons x below =>
    rw [worker?_of_top hst] at h
    have mem : x ∈ p.before.stack := by rw [hst]; exact List.mem_cons_self
    cases x with
    | owner s =>
      rcases worker?_of_frameWorker? h with own | ⟨n, rfl, h⟩
      · exact .stage hst own
      · obtain ⟨-, k, rfl, stack⟩ := hl.eq_of_mem_derive mem
        have htally := ticked (s := .tally k) (by rw [stack]; simp) rfl
        exact .derives stack (Option.some.inj (htally.symm.trans h))
    | fanout f rest =>
      have h : (match f.cause with | .tick n => p.before.tickWorker? n | _ => none) = some g := h
      split at h
      · rename_i n cause
        obtain ⟨upper, s, k, stack, tick, rfl, -⟩ := hl.below_tick mem cause
        have hmem : .owner s ∈ p.before.stack := by rw [stack]; simp
        have own : s.worker? = some g :=
          (Stage.worker?_of_tick? tick).trans ((ticked hmem tick).symm.trans h)
        rw [hst] at hmem
        exact .delivers hst (by simpa using hmem) own
      · cases h
    | acting | keep => cases h

/-! ## What a step makes of the running worker -/

/-- What a step makes of the running worker. -/
inductive Tends (t : Trip) (ms : List Move) (t' : Trip) : Prop
  | keeps (worker : t'.worker = t.worker)
  /-- It is let go. -/
  | releases (worker : t'.worker = none)
  /-- Something is done to its line from the other end. -/
  | feeds (w : Worker) (line : Line) (running : t.worker = some w)
      (worker : t'.worker = some { w with line })
  | makes (w : Worker) (vacant : t.worker = none) (worker : t'.worker = some w)
      (generation : w.generation = t'.generation) (newer : t.generation < t'.generation)
      (wait : w.wait = .turn t.source.lastKnown) (hasFix : w.hasFix = t.source.lastKnown.isSome)
  /-- It takes the step itself. A status that it waits for from then on is of a tick of its own. -/
  | acts (w w' : Worker) (running : t.worker = some w) (worker : t'.worker = some w')
      (same : w'.generation = w.generation)
      (own : (⟨t, ms, t'⟩ : Passage).worker? = some w.generation)
      (asks : ∀ k, w'.pending? = some k → w.pending? = some k ∨ k.generation = w.generation)

theorem Tends.congr {u : Trip} (h : Tends t ms u) (worker : t'.worker = u.worker)
    (generation : t'.generation = u.generation) : Tends t ms t' := by
  cases h with
  | keeps same => exact .keeps (worker.trans same)
  | releases gone => exact .releases (worker.trans gone)
  | feeds w line running fed => exact .feeds w line running (worker.trans fed)
  | makes w vacant made own newer wait hasFix =>
    exact .makes w vacant (worker.trans made) (own.trans generation.symm) (generation ▸ newer) wait
      hasFix
  | acts w w' running changed same own asks =>
    exact .acts w w' running (worker.trans changed) same own asks

theorem worker_mapWorker (t : Trip) (g : Nat) (f : Worker → Worker) :
    (t.mapWorker g f).worker = t.worker ∨ ∃ w, t.worker = some w ∧ w.generation = g ∧
      (t.mapWorker g f).worker = some (f w) := by
  unfold mapWorker
  split
  · rename_i w hw
    obtain ⟨running, own⟩ := workerOf?_eq_some.mp hw
    exact .inr ⟨w, running, own, rfl⟩
  · exact .inl rfl

theorem mapWorker_of_running {w : Worker} (running : t.worker = some w) (f : Worker → Worker) :
    t.mapWorker w.generation f = { t with worker := some (f w) } := by
  simp only [mapWorker, workerOf?_eq_some.mpr ⟨running, rfl⟩]

theorem await_of_running {w : Worker} (running : t.worker = some w) (wait : Wait) :
    t.await w.generation wait =
      { t with worker := some { w with wait, stamp := t.stamp }, stamp := t.stamp + 1 } :=
  mapWorker_of_running (t := { t with stamp := t.stamp + 1 }) running _

theorem readLine_of_running {w : Worker} (running : t.worker = some w) :
    t.readLine w = (({ t with worker := some { w with
        line := w.line.drain.1
        hasFix := w.hasFix || (Batch.ofList w.line.queue).newest.isSome } }.count
          (Batch.ofList w.line.queue).count).note (.read w.generation w.line.queue),
      Batch.ofList w.line.queue) := by
  simp only [readLine, Line.drain, mapWorker_of_running running]

theorem worker_proceed (t : Trip) (g : Nat) :
    (t.proceed g).worker = t.worker ∨ ∃ w w', t.worker = some w ∧ w.generation = g ∧
      (t.proceed g).worker = some w' ∧ w'.generation = w.generation := by
  have h := proceeds t g
  generalize t.proceed g = u at h ⊢
  cases h with
  | rests stamp f _ spares =>
    refine (worker_mapWorker { t with stamp } g f).imp_right ?_
    rintro ⟨w, running, own, changed⟩
    exact ⟨w, f w, running, own, changed, (spares w).1⟩
  | rereads w f hw _ _ spares | begins w f hw _ spares =>
    obtain ⟨running, rfl⟩ := workerOf?_eq_some.mp hw
    have read : (t.readLine w).1.worker = some { w with
        line := w.line.drain.1
        hasFix := w.hasFix || (Batch.ofList w.line.queue).newest.isSome } := by
      rw [readLine_of_running running]
      rfl
    exact .inr ⟨w, _, running, rfl, congrArg worker (mapWorker_of_running read f), (spares _).1⟩

theorem worker_ask (t : Trip) (k : Tick) :
    (t.ask k).worker = t.worker ∨ ∃ w w', t.worker = some w ∧ w.generation = k.generation ∧
      (t.ask k).worker = some w' ∧ w'.generation = w.generation := by
  have h := asks t k
  generalize t.ask k = u at h ⊢
  cases h with
  | orphaned | answered => exact .inl rfl
  | waits wait =>
    refine (worker_mapWorker { t with engine := t.engine.ask.1, stamp := t.stamp + 1 } k.generation
      fun w => { w with wait, stamp := t.stamp }).imp_right ?_
    rintro ⟨w, running, own, changed⟩
    exact ⟨w, _, running, own, changed, rfl⟩

/-- A stage changes no worker but its own. -/
theorem worker_run_cases (t : Trip) (s : Stage) :
    (t.run s).worker = t.worker ∨ ∃ w w', t.worker = some w ∧ s.worker? = some w.generation ∧
      (t.run s).worker = some w' ∧ w'.generation = w.generation := by
  by_cases hp : ∃ g, s = .proceed g
  · obtain ⟨g, rfl⟩ := hp
    refine (worker_proceed t g).imp_right ?_
    rintro ⟨w, w', running, rfl, changed⟩
    exact ⟨w, w', running, rfl, changed⟩
  · by_cases ha : ∃ k, s = .ask k
    · obtain ⟨k, rfl⟩ := ha
      refine (worker_ask t k).imp_right ?_
      rintro ⟨w, w', running, own, changed⟩
      exact ⟨w, w', running, congrArg some own.symm, changed⟩
    · exact .inl (worker_run t (fun g h => hp ⟨g, h⟩) fun k h => ha ⟨k, h⟩)

theorem tends_run {s : Stage} {below : List SessionFrame} (top : t.stack = .owner s :: below) :
    Tends t ms (t.pop.run s) := by
  rcases worker_run_cases t.pop s with keeps | ⟨w, w', running, own, changed, same⟩
  · exact .keeps keeps
  · have hown : (⟨t, ms, t.pop.run s⟩ : Passage).worker? = some w.generation := by
      rw [Passage.worker?_of_top (p := ⟨t, ms, t.pop.run s⟩) top]
      exact frameWorker?_of_worker? own
    refine .acts w w' running changed same hown fun k hk => ?_
    obtain ⟨o, goes, shows⟩ := run_goes t.pop s
    have hpending : o.outline.pending = some k := by
      rw [← shows.outline]
      simp only [outline, changed, Option.bind_some, hk]
    rcases goes.pending hpending with h | ⟨rfl, -⟩
    · have running : t.worker = some w := running
      exact .inl (by simpa [outline, pop, mapDispatch, running] using h)
    · exact .inr (Option.some.inj own)

/-! ## Calls -/

theorem tends_send {u : Trip} (hu : u.worker = t.worker) (d : Delivery) :
    Tends t ms (u.send d).1 := by
  unfold send
  split
  · rename_i m w _ running
    split
    · split
      · rename_i line _
        exact .feeds w line (hu.symm.trans running) rfl
      · exact .keeps hu
    · exact .keeps hu
  · exact .keeps hu

theorem worker_mapManual (t : Trip) (f : ManualSource → ManualSource) :
    (t.mapManual f).worker = t.worker := by
  unfold mapManual; split <;> rfl

theorem tends_haltSource (t : Trip) : Tends t ms t.haltSource := by
  simp only [haltSource]
  split
  · rename_i m w _ running
    rw [worker_mapManual] at running
    exact .feeds w _ running rfl
  · exact .keeps (worker_mapManual t _)

theorem lastKnown_start (s : Source) (now : Nat) : (s.start now).1.lastKnown = s.lastKnown := by
  cases s with
  | manual m =>
    simp only [Source.start, ManualSource.start]
    split <;> rfl
  | replay p =>
    simp only [Source.start, ReplaySource.start]
    split <;> rfl

theorem tends_start (t : Trip) : Tends t ms t.start.trip := by
  cases hw : t.worker with
  | some w =>
    simp only [start, hw, Option.isSome_some, ↓reduceIte]
    exact .keeps rfl
  | none =>
    have known := lastKnown_start t.source t.now
    rcases hs : t.source.start t.now with ⟨source, answer⟩
    rw [hs] at known
    have hs' : t.advanceGeneration.source.start t.advanceGeneration.now = (source, answer) := hs
    simp only [start, hw, Option.isSome_none, Bool.false_eq_true, ↓reduceIte, hs']
    cases answer with
    | error cause => exact .keeps rfl
    | ok =>
      have known : source.lastKnown = t.source.lastKnown := known
      exact .makes _ hw rfl rfl (Nat.lt_succ_self _) (congrArg Wait.turn known)
        (congrArg Option.isSome known)

theorem tends_perform (t : Trip) (c : Call) : Tends t ms (t.perform c).trip := by
  unfold perform
  split
  · exact .keeps rfl
  · cases c with
    | start => exact tends_start t
    | stop =>
      simp only [stop]
      split
      · exact .releases rfl
      · exact .keeps rfl
    | close =>
      simp only [close]
      split
      · exact .releases rfl
      · exact .keeps rfl
    | setRoutes routes =>
      simp only [setRoutes]
      split <;> exact .keeps rfl
    | push fix => exact tends_send (worker_mapManual t (·.know (some fix))) _
    | pushError cause => exact tends_send rfl _
    | setLastKnown | failNextStart => exact .keeps (worker_mapManual t _)
    | haltSource => exact tends_haltSource t
    | setGuidance | setDestination | observe | unobserve | subscribe | release | detach | query
    | control => exact .keeps rfl

/-! ## Steps -/

theorem worker_resume {w : Worker} (running : t.worker = some w) :
    (t.resume w).worker = some { w with wait := .working } := by
  have awake : (t.mapWorker w.generation fun w => { w with wait := .working }).worker =
      some { w with wait := .working } := congrArg worker (mapWorker_of_running running _)
  unfold resume
  simp only
  split
  · exact awake
  · split <;> exact awake
  · exact awake

/-- **What a step makes of the running worker.** -/
theorem Takes.tends (h : Takes t ms t') : Tends t ms t' := by
  cases h with
  | tick h =>
    unfold tick? at h
    split at h
    · rename_i s below top
      cases h
      exact tends_run top
    · cases h
      refine .keeps ?_
      split <;> rfl
    · obtain ⟨d, -, rfl⟩ := Option.map_eq_some_iff.mp h
      exact .keeps rfl
  | @move _ m h =>
    cases m with
    | decide d =>
      have h : t.decide? d = some t' := h
      unfold decide? at h
      split at h <;> cases h
      · exact (tends_perform t _).congr rfl rfl
      · exact .keeps rfl
      · exact .keeps rfl
    | work =>
      have h : t.work? = some t' := h
      unfold work? at h
      split at h
      · rename_i hready
        obtain ⟨w, running, rfl⟩ := Option.map_eq_some_iff.mp h
        have idle := stack_of_idle (Bool.and_eq_true_iff.mp hready).1
        refine .acts w _ running (worker_resume running) rfl ?_ fun k hk => by cases hk
        simp only [Passage.worker?, idle, running, Option.map_some]
      · cases h
    | replay =>
      have h : t.replay? = some t' := h
      unfold replay? at h
      split at h
      · obtain ⟨⟨s, r⟩, -, rfl⟩ := Option.map_eq_some_iff.mp h
        cases hw : t.worker with
        | none => exact .keeps (by simp only [hw])
        | some w => exact .feeds w _ hw rfl
      · cases h
    | elapse later =>
      have h : t.elapse? later = some t' := h
      unfold elapse? at h
      split at h <;> cases h
      exact .keeps rfl

/-- A worker that waits for a status waits for that of a tick of its own. -/
def Faithful (t : Trip) : Prop :=
  ∀ w k, t.worker = some w → w.pending? = some k → k.generation = w.generation

theorem Faithful.step (hf : Faithful t) (h : Takes t ms t') : Faithful t' := by
  intro w' k hw' hk
  cases h.tends with
  | keeps worker => exact hf w' k (worker.symm.trans hw') hk
  | releases worker => rw [worker] at hw'; cases hw'
  | feeds w line running worker =>
    cases worker.symm.trans hw'
    exact hf w k running hk
  | makes w vacant worker _ _ wait =>
    cases worker.symm.trans hw'
    simp only [Worker.pending?, wait, reduceCtorEq] at hk
  | acts w _ running worker same _ asks =>
    cases worker.symm.trans hw'
    rcases asks k hk with hk | own
    · exact (hf w k running hk).trans same.symm
    · exact own.trans same.symm

section Run

variable {settings : Settings} {engine : Engine} {source : Source} {signal : Signal}

/-- **On every run, a worker waits for the status of a tick of its own.** -/
theorem Reaches.faithful (h : Reaches (.new settings engine source signal) ms t) : Faithful t := by
  refine h.induct (P := fun _ t => Faithful t) (fun w k hw => by cases hw) ?_ ?_
  · exact fun _ _ _ _ hf hs => hf.step (.tick hs)
  · exact fun _ _ _ _ _ hf hs => hf.step (.move hs)

end Run

/-! ## The steps of others -/

/-- What the worker of a generation waits for, and whether it has known a fix. -/
def stance? (t : Trip) (g : Nat) : Option (Wait × Bool) :=
  (t.workerOf? g).map fun w => (w.wait, w.hasFix)

theorem stance?_congr (h : t'.worker = t.worker) (g : Nat) : t'.stance? g = t.stance? g := by
  simp only [stance?, workerOf?, h]

theorem stance?_eq_some {x : Wait × Bool} :
    t.stance? g = some x ↔
      ∃ w, t.worker = some w ∧ w.generation = g ∧ (w.wait, w.hasFix) = x := by
  simp only [stance?, Option.map_eq_some_iff, workerOf?_eq_some, and_assoc]

theorem stance?_of_worker {w : Worker} (h : t.worker = some w) :
    t.stance? w.generation = some (w.wait, w.hasFix) :=
  stance?_eq_some.mpr ⟨w, h, rfl, rfl⟩

theorem stance?_of_stranger {w : Worker} (h : t.worker = some w) (hg : w.generation ≠ g) :
    t.stance? g = none := by
  simp [stance?, workerOf?, h, hg]

/-- The steps of others let a worker go, or leave it to wait for what it waits for. -/
theorem Takes.stance?_of_other (h : Takes t ms t') (hg : g ≤ t.generation)
    (other : (⟨t, ms, t'⟩ : Passage).worker? ≠ some g) :
    t'.stance? g = none ∨ t'.stance? g = t.stance? g := by
  cases h.tends with
  | keeps worker => exact .inr (stance?_congr worker g)
  | releases worker => exact .inl (by simp [stance?, workerOf?, worker])
  | feeds w line running worker =>
    refine .inr ?_
    simp only [stance?, workerOf?, running, worker, Option.filter_some, decide_eq_true_eq]
    split <;> rfl
  | makes w vacant worker generation newer =>
    exact .inl (stance?_of_stranger worker (by omega))
  | acts w w' running worker same own =>
    have hne : w'.generation ≠ g := fun h => other (own.trans (congrArg some (same.symm.trans h)))
    exact .inl (stance?_of_stranger worker hne)

/-- A stage of a worker is followed by stages of the same worker. -/
theorem Goes.worker_of_own {s s' : Stage} {o : Outcome} (h : Goes t s o) (hs : .owner s' ∈ o.own)
    (own : s'.worker? = some g) : s.worker? = some g := by
  cases h with
  | locates k status =>
    cases List.mem_singleton.mp hs
    split at own <;> exact own
  | arrives k =>
    simp only [List.mem_cons, Frame.owner.injEq, List.not_mem_nil, or_false] at hs
    rcases hs with rfl | rfl
    · cases own
    · exact own
  | subscribed => cases List.mem_singleton.mp hs
  | announces | announceStale | announceNothing | ingested | refused | asked | answered | failed
  | locateStale | flags | flagged | flagStale | cueReplaced | cues | cued | cueStale | unreported
  | reports | arriveStale | tallied | rereads | begins =>
    cases List.mem_singleton.mp hs
    exact own
  | _ => cases hs

/-- Only a worker that takes its turn puts a stage of a worker on an empty stack. -/
theorem Takes.work_of_turn (h : Takes t ms t') (idle : t.stack = []) {s : Stage}
    (hs : .owner s ∈ t'.stack) (work : s.IsWork) : ms = [.work] := by
  cases h with
  | tick h =>
    have idle : t.dispatch.stack = [] := idle
    simp [tick?, Dispatch.advance?, idle] at h
  | @move _ m h =>
    cases m with
    | work => rfl
    | decide d =>
      have h : t.decide? d = some t' := h
      unfold decide? at h
      split at h <;> cases h
      · rename_i caller c word
        obtain ⟨r, stages, notes, o, performs, shows⟩ := call_performs t caller c
        rw [shows.stack, idle] at hs
        have hs : s ∈ stages ∨ s = .reply r := by simpa using hs
        rcases hs with hs | rfl
        · exact absurd (performs.isOwn s hs) (Stage.not_isOwn_of_isWork work)
        · exact absurd trivial (Stage.not_isOwn_of_isWork work)
      · obtain ⟨f, id, below, top⟩ := acting_of_speaker ‹_›
        rw [idle] at top
        cases top
      · obtain ⟨f, id, below, top⟩ := acting_of_speaker ‹_›
        rw [idle] at top
        cases top
    | replay =>
      have h : t.replay? = some t' := h
      unfold replay? at h
      split at h
      · obtain ⟨⟨source, r⟩, -, rfl⟩ := Option.map_eq_some_iff.mp h
        have hs : .owner s ∈ t.stack := by
          cases hw : t.worker <;> simpa only [hw] using hs
        rw [idle] at hs
        cases hs
      · cases h
    | elapse later =>
      have h : t.elapse? later = some t' := h
      unfold elapse? at h
      split at h <;> cases h
      have hs : .owner s ∈ t.stack := hs
      rw [idle] at hs
      cases hs

/-- The steps of others put no stage of a worker on the stack. -/
theorem Takes.staged_of_other (h : Takes t ms t') (hf : Faithful t)
    (other : (⟨t, ms, t'⟩ : Passage).worker? ≠ some g) {s : Stage} (hs : .owner s ∈ t'.stack)
    (own : s.worker? = some g) : .owner s ∈ t.stack := by
  have work := Stage.isWork_of_worker? own
  obtain ⟨made, hc⟩ := change_of_step h.step
  cases hc with
  | stage s' below o top goes stack =>
    rw [stack] at hs
    have hs : .owner s ∈ o.own ∨ .owner s ∈ below := by simpa using hs
    rcases hs with hs | hs
    · refine absurd ?_ other
      rw [Passage.worker?_of_top (p := ⟨t, ms, t'⟩) top]
      exact frameWorker?_of_worker? (goes.worker_of_own hs own)
    · rw [top]
      exact List.mem_cons_of_mem _ hs
  | deliver f id l rest below top stack =>
    rw [stack] at hs
    rw [top]
    simpa using hs
  | ends x below events top _ _ stack =>
    rw [stack] at hs
    rw [top]
    exact List.mem_cons_of_mem _ hs
  | call caller c r stages notes o word hmade performs shows =>
    rw [shows.stack] at hs
    have hs : s ∈ stages ∨ s = .reply r ∨ .owner s ∈ t.stack := by simpa [or_assoc] using hs
    rcases hs with hs | rfl | hs
    · exact absurd (performs.isOwn s hs) (Stage.not_isOwn_of_isWork work)
    · exact absurd trivial (Stage.not_isOwn_of_isWork work)
    · exact hs
  | turn o idle turn shows =>
    obtain rfl := h.work_of_turn idle hs work
    obtain ⟨w, running, -⟩ := h.resumes
    rw [shows.stack, idle, List.append_nil] at hs
    have hw : (⟨t, [.work], t'⟩ : Passage).worker? = some w.generation := by
      simp only [Passage.worker?, show t.dispatch.stack = [] from idle, running, Option.map_some]
    refine absurd (hw.trans ?_) other
    cases turn with
    | begins g' fix hrun =>
      cases List.mem_singleton.mp hs
      rw [outline, running] at hrun
      exact hrun.trans own
    | concludes k answer asked =>
      cases List.mem_singleton.mp hs
      have asked : w.pending? = some k := by simpa [outline, running] using asked
      exact (congrArg some (hf w k running asked)).symm.trans own
    | proceeds g' roused =>
      cases List.mem_singleton.mp hs
      obtain ⟨w', running', hw', -⟩ := roused_eq_some.mp roused
      cases running.symm.trans running'
      exact (congrArg some hw').trans own
    | waits => cases hs

/-- A worker reads where it goes on. -/
theorem Goes.proceed_of_read {s : Stage} {o : Outcome} (h : Goes t s o) {ds : List Delivery}
    (hread : .read g ds ∈ o.notes) : s = .proceed g := by
  cases h with
  | rereads | begins =>
    simp only [List.mem_cons, Note.read.injEq, reduceCtorEq, List.not_mem_nil, or_false,
      false_or] at hread
    rw [hread.1]
  | unreported _ _ _ quiet | reports _ _ _ _ _ quiet =>
    rcases quiet _ hread with ⟨a, b, c, v, h⟩ | ⟨route, leg, h⟩ <;> cases h
  | replied | answered | failed => cases List.mem_singleton.mp hread
  | _ => cases hread

/-- The steps of others read nothing from the line of a worker. -/
theorem Takes.readBy_of_other (h : Takes t ms t')
    (other : (⟨t, ms, t'⟩ : Passage).worker? ≠ some g) : readBy g t'.log = readBy g t.log := by
  obtain ⟨made, hc⟩ := change_of_step h.step
  by_cases hs : ∃ g' below, t.stack = .owner (.proceed g') :: below
  · obtain ⟨g', below, top⟩ := hs
    obtain ⟨o, goes, shows⟩ := run_goes t.pop (.proceed g')
    rw [← h.step.eq_of_top top] at shows
    rw [shows.log, readBy_append, readBy_append]
    have hnotes : readBy g (o.notes.map .owner) = [] := by
      refine readBy_eq_nil fun ds hread => other ?_
      have hread : .read g ds ∈ o.notes := by simpa using hread
      cases goes.proceed_of_read hread
      rw [Passage.worker?_of_top (p := ⟨t, ms, t'⟩) top]
      rfl
    have htold : readBy g (o.told.toList.map fun p => .began p.1 p.2) = [] :=
      readBy_eq_nil fun ds hread => by simp at hread
    rw [hnotes, htold, List.append_nil, List.append_nil]
    rfl
  · obtain ⟨events, log, idle⟩ := hc.idle fun g' below top => hs ⟨g', below, top⟩
    rw [log, readBy_append, (of_isIdle idle).1, List.append_nil]

/-! ## What happens in a step -/

namespace Passage

/-- What happens in the step, last first. -/
def events (p : Passage) : List SessionEvent :=
  p.after.log.take (p.after.log.length - p.before.log.length)

/-- What is told anew in the step, in order. -/
def told (p : Passage) : List SessionFanout := p.events.reverse.filterMap Event.fresh?

/-- What is asked of the engine in the step. -/
def calls (p : Passage) : List EngineCall := p.before.engineCalls p.moves.head?

/-- By how much the step raises the failures of positioning. -/
def raised (p : Passage) : Nat :=
  p.after.metrics.ingestionFailures - p.before.metrics.ingestionFailures

end Passage

section Log

variable {events : List SessionEvent}

theorem events_of_log (h : t'.log = events ++ t.log) : (⟨t, ms, t'⟩ : Passage).events = events := by
  show t'.log.take (t'.log.length - t.log.length) = events
  rw [h, List.length_append, Nat.add_sub_cancel, List.take_left' rfl]

theorem told_of_log (h : t'.log = events ++ t.log) :
    (⟨t, ms, t'⟩ : Passage).told = events.reverse.filterMap Event.fresh? := by
  rw [Passage.told, events_of_log h]

end Log

theorem Takes.log_eq (h : Takes t ms t') :
    t'.log = (⟨t, ms, t'⟩ : Passage).events ++ t.log := by
  obtain ⟨events, hlog⟩ := h.reaches.log_grows
  rw [events_of_log hlog, hlog]

theorem Takes.calls_of_top (h : Takes t ms t') {s : Stage} {below : List SessionFrame}
    (top : t.stack = .owner s :: below) : (⟨t, ms, t'⟩ : Passage).calls = t.stageCalls s := by
  cases h with
  | tick =>
    have hs : t.dispatch.stack = .owner s :: below := top
    simp only [Passage.calls, List.head?_nil, engineCalls, hs]
  | move h => rw [move?_of_owner top] at h; cases h

/-- The worker takes its turn. -/
theorem Takes.turn (h : Takes t [.work] t') {w : Worker} (running : t.worker = some w) :
    t' = t.resume w ∧ (⟨t, [.work], t'⟩ : Passage).calls = t.turnCalls w := by
  obtain ⟨w', running', resumed⟩ := h.resumes
  cases running.symm.trans running'
  refine ⟨resumed, ?_⟩
  simp only [Passage.calls, List.head?_cons, engineCalls, running, Option.toList_some,
    List.flatMap_singleton]

/-! ## What a worker does along a run -/

/-- The steps that the worker of a generation takes. -/
def stepsOf (g : Nat) (ps : List Passage) : List Passage := ps.filter (·.worker? = some g)

/-- What the worker of a generation asks of the engine. -/
def callsOf (g : Nat) (ps : List Passage) : List EngineCall := (stepsOf g ps).flatMap Passage.calls

/-- What the worker of a generation tells. -/
def toldOf (g : Nat) (ps : List Passage) : List SessionFanout := (stepsOf g ps).flatMap Passage.told

/-- By how much the worker of a generation raises the failures of positioning. -/
def raisedOf (g : Nat) (ps : List Passage) : Nat :=
  (stepsOf g ps).foldl (fun n q => n + q.raised) 0

section Steps

variable {q : Passage}

theorem stepsOf_of_own (own : q.worker? = some g) (ps : List Passage) :
    stepsOf g (ps ++ [q]) = stepsOf g ps ++ [q] := by
  simp [stepsOf, own]

theorem stepsOf_of_other (other : q.worker? ≠ some g) (ps : List Passage) :
    stepsOf g (ps ++ [q]) = stepsOf g ps := by
  simp [stepsOf, other]

theorem callsOf_of_own (own : q.worker? = some g) (ps : List Passage) :
    callsOf g (ps ++ [q]) = callsOf g ps ++ q.calls := by
  rw [callsOf, stepsOf_of_own own, List.flatMap_append, List.flatMap_singleton, callsOf]

theorem callsOf_of_other (other : q.worker? ≠ some g) (ps : List Passage) :
    callsOf g (ps ++ [q]) = callsOf g ps := by
  rw [callsOf, stepsOf_of_other other, callsOf]

theorem toldOf_of_own (own : q.worker? = some g) (ps : List Passage) :
    toldOf g (ps ++ [q]) = toldOf g ps ++ q.told := by
  rw [toldOf, stepsOf_of_own own, List.flatMap_append, List.flatMap_singleton, toldOf]

theorem toldOf_of_other (other : q.worker? ≠ some g) (ps : List Passage) :
    toldOf g (ps ++ [q]) = toldOf g ps := by
  rw [toldOf, stepsOf_of_other other, toldOf]

theorem raisedOf_of_own (own : q.worker? = some g) (ps : List Passage) :
    raisedOf g (ps ++ [q]) = raisedOf g ps + q.raised := by
  rw [raisedOf, stepsOf_of_own own, List.foldl_append, List.foldl_cons, List.foldl_nil, raisedOf]

theorem raisedOf_of_other (other : q.worker? ≠ some g) (ps : List Passage) :
    raisedOf g (ps ++ [q]) = raisedOf g ps := by
  rw [raisedOf, stepsOf_of_other other, raisedOf]

end Steps

end Trip
end LiveTrip
