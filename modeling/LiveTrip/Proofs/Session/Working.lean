import LiveTrip.Proofs.Session.Outline

/-!
# What a worker does

Whatever its polling policy, a worker that goes on reads all that is in its line, or waits, or ends.
A tick asks the engine for its status, which comes at once or is waited for. A report has the
congestion ahead smoothed. What is the same after each way that this can go is proved by cases on it.

* `Trip.reads?`: what a worker reads, if it reads. `Trip.Proceeds`, `Trip.proceeds`: the ways it
  goes on.
* `Trip.Asks`, `Trip.asks`: the ways the status of a tick is asked for.
* `Trip.progress_eq`: what a report changes. `Trip.Reports`, `Trip.reports`: the ways it comes out.
-/

namespace LiveTrip.Trip

/-- What the worker of a generation reads when it goes on, if it reads. -/
def reads? (t : Trip) (g : Nat) : Option (List Delivery) :=
  (t.workerOf? g).bind fun w =>
    match t.settings.polling.policy with
    | .eventDriven => if w.line.queue.isEmpty then none else some w.line.queue
    | .fixedCadence 0 => none
    | .fixedCadence _ => if w.due.getD t.now ≤ t.now then some w.line.queue else none

theorem mapWorker_id (t : Trip) (g : Nat) : t.mapWorker g id = t := by
  unfold mapWorker
  split
  · rename_i w hw
    obtain ⟨hw, -⟩ := workerOf?_eq_some.mp hw
    cases t
    cases hw
    rfl
  · rfl

/-- The ways a worker goes on. What is done to it besides leaves its generation and its line as they
are. -/
inductive Proceeds (t : Trip) (g : Nat) : Trip → Prop
  /-- The worker has been let go, or it waits, or it ends. -/
  | rests (stamp : Nat) (f : Worker → Worker) (reads : t.reads? g = none)
      (spares : ∀ w, (f w).generation = w.generation ∧ (f w).line.queue = w.line.queue) :
      Proceeds t g ({ t with stamp }.mapWorker g f)
  /-- There was no fix in what it has read, and none has ever been. -/
  | rereads (w : Worker) (f : Worker → Worker) (running : t.workerOf? g = some w)
      (reads : t.reads? g = some w.line.queue) (none : (Batch.ofList w.line.queue).newest = none)
      (spares : ∀ w, (f w).generation = w.generation ∧ (f w).line.queue = w.line.queue) :
      Proceeds t g (((t.readLine w).1.mapWorker g f).pushStages [.proceed g])
  | begins (w : Worker) (f : Worker → Worker) (running : t.workerOf? g = some w)
      (reads : t.reads? g = some w.line.queue)
      (spares : ∀ w, (f w).generation = w.generation ∧ (f w).line.queue = w.line.queue) :
      Proceeds t g
        (((t.readLine w).1.mapWorker g f).begin g .full (Batch.ofList w.line.queue).newest)

/-- **A worker goes on in one of its ways.** -/
theorem proceeds (t : Trip) (g : Nat) : Proceeds t g (t.proceed g) := by
  have ends (h : t.reads? g = none) : Proceeds t g (t.mapWorker g (·.ended)) :=
    .rests t.stamp _ h fun _ => ⟨rfl, rfl⟩
  have waits (h : t.reads? g = none) (wait : Wait) : Proceeds t g (t.await g wait) :=
    .rests (t.stamp + 1) _ h fun _ => ⟨rfl, rfl⟩
  have same : ∀ w : Worker, (id w).generation = w.generation ∧ (id w).line.queue = w.line.queue :=
    fun _ => ⟨rfl, rfl⟩
  unfold proceed
  cases hw : t.workerOf? g with
  | none =>
    have h : Proceeds t g (t.mapWorker g id) := .rests t.stamp _ (by simp [reads?, hw]) same
    rwa [mapWorker_id] at h
  | some w =>
    simp only
    split
    · rename_i hpolicy
      by_cases hq : w.line.queue.isEmpty = true
      · have hnone : t.reads? g = none := by
          simp only [reads?, hw, hpolicy, hq, Option.bind_some, ↓reduceIte]
        simp only [hq, ↓reduceIte]
        split
        · exact waits hnone _
        · exact ends hnone
      · have hreads : t.reads? g = some w.line.queue := by
          simp only [reads?, hw, hpolicy, hq, Option.bind_some, Bool.false_eq_true, ↓reduceIte]
        have hid : (t.readLine w).1.mapWorker g id = (t.readLine w).1 := mapWorker_id _ g
        simp only [hq, Bool.false_eq_true, ↓reduceIte]
        split
        · rename_i fix hfix
          have hbegins := Proceeds.begins w id hw hreads same
          rw [hid] at hbegins
          rw [← hfix]
          exact hbegins
        · rename_i hfix
          have hrereads := Proceeds.rereads w id hw hreads hfix same
          rwa [hid] at hrereads
    · exact ends (by simp [reads?, *])
    · rename_i period hzero hpolicy
      by_cases hdue : w.due.getD t.now ≤ t.now
      · have hreads : t.reads? g = some w.line.queue := by
          simp only [reads?, hw, hpolicy, hdue, Option.bind_some, ↓reduceIte]
        simp only [hdue, ↓reduceIte]
        split
        · exact .begins w _ hw hreads fun _ => ⟨rfl, rfl⟩
        · rename_i hfix
          simp only [Bool.or_eq_true, not_or, Bool.not_eq_true, Option.isSome_eq_false_iff,
            Option.isNone_iff_eq_none] at hfix
          exact .rereads w _ hw hreads hfix.2 fun _ => ⟨rfl, rfl⟩
      · simp only [hdue, ↓reduceIte]
        refine waits ?_ _
        simp only [reads?, hw, hpolicy, hdue, Option.bind_some, ↓reduceIte]

/-- The ways the status of a tick is asked for. -/
inductive Asks (t : Trip) (k : Tick) : Trip → Prop
  /-- The worker has been let go. -/
  | orphaned : Asks t k t
  /-- The status is taken in at once, or the worker may not wait for it. -/
  | answered (engine : Engine) (answer : Except EngineError Status)
      (asked : engine = t.engine.ask.1 ∨
        engine = (t.engine.ask.1.collect t.engine.ask.2.1).1) :
      Asks t k ({ t with engine }.pushStages [.conclude k answer])
  | waits (wait : Wait) : Asks t k ({ t with engine := t.engine.ask.1 }.await k.generation wait)

/-- **A status is asked for in one of these ways.** -/
theorem asks (t : Trip) (k : Tick) : Asks t k (t.ask k) := by
  unfold ask
  split
  · exact .orphaned
  · simp only
    split
    · exact .answered _ _ (.inr rfl)
    · split
      · exact .answered _ _ (.inl rfl)
      · exact .waits _

/-- **A report changes one leg of a route at most**, and what is noted and counted of it. -/
theorem progress_eq (t : Trip) (report : ProgressReport) (how : Tracking) :
    ∃ signal routes blends log,
      (t.progress report how).1 =
        { t with
          signal, facts := { t.facts with routes }, counters := { t.counters with blends }
          dispatch := { t.dispatch with log } } ∧
      (routes = t.facts.routes ∨
        ∃ i leg, (t.facts.routes[i]?).bind (·.legs[report.leg]?) = some leg ∧
          routes = t.facts.routes.modify i fun r => { r with
            legs := r.legs.set report.leg
              (outlook t.settings.smoother t.signal leg report.segment).leg }) := by
  unfold progress
  split
  · exact ⟨_, _, _, _, rfl, .inl rfl⟩
  · rename_i i _
    split
    · exact ⟨_, _, _, _, rfl, .inl rfl⟩
    · rename_i leg hleg
      simp only
      split <;> split <;> exact ⟨_, _, _, _, rfl, .inr ⟨i, leg, hleg, rfl⟩⟩

theorem generation_progress (t : Trip) (report : ProgressReport) (how : Tracking) :
    (t.progress report how).1.generation = t.generation := by
  obtain ⟨_, _, _, _, h, -⟩ := progress_eq t report how
  rw [h]

/-- The ways the report of a status comes out. -/
inductive Reports (t : Trip) (k : Tick) (s : Status) : Trip → Prop
  /-- There is none. -/
  | nothing (none : s.progress = none) : Reports t k s (t.pushStages [.tally k])
  /-- It is of no active route. -/
  | unknown (report : ProgressReport) (known : s.progress = some report)
      (none : (t.progress report s.tracking).2 = none) :
      Reports t k s ((t.progress report s.tracking).1.pushStages [.tally k])
  | stale (report : ProgressReport) (progress : Progress) (known : s.progress = some report)
      (active : (t.progress report s.tracking).2 = some progress) (stale : t.current k = false) :
      Reports t k s ((t.progress report s.tracking).1.discard.pushStages [.tally k])
  | tells (report : ProgressReport) (progress : Progress) (known : s.progress = some report)
      (active : (t.progress report s.tracking).2 = some progress) (current : t.current k = true) :
      Reports t k s (((t.progress report s.tracking).1.pushStages
        [.arrive k progress.isComplete]).tell (.tick k.number) .routeProgress progress)

/-- **A report comes out in one of these ways.** -/
theorem reports (t : Trip) (k : Tick) (s : Status) : Reports t k s (t.run (.report k s)) := by
  cases hreport : s.progress with
  | none =>
    simp only [run, hreport]
    exact .nothing hreport
  | some report =>
    have unknown := Reports.unknown (t := t) (k := k) (s := s) report hreport
    have stale := Reports.stale (t := t) (k := k) (s := s) report
    have tells := Reports.tells (t := t) (k := k) (s := s) report
    have hgeneration := generation_progress t report s.tracking
    rcases hp : t.progress report s.tracking with ⟨u, _ | progress⟩
    · simp only [run, hreport, hp] at unknown ⊢
      exact unknown trivial
    · simp only [hp, Option.some.injEq] at stale tells hgeneration
      have hcurrent : u.current k = t.current k := by simp only [current, hgeneration]
      simp only [run, hreport, hp, hcurrent]
      split
      · exact tells progress hreport rfl ‹_›
      · exact stale progress hreport rfl (Bool.eq_false_iff.mpr ‹_›)

end LiveTrip.Trip
