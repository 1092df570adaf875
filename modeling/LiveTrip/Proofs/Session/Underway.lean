import LiveTrip.Proofs.Session.Boundary
import LiveTrip.Proofs.Session.Routes
import LiveTrip.Proofs.Session.Startup

/-!
# Statuses under way

A status is asked for, comes when it is ready, and is told of in stages. Routes may be taken at any
time in between.

* `Trip.awaited`: the tick whose status a worker waits for, and what has been asked for it.
* `Trip.Under`, `Trip.Came`: a tick that is under way, and a status that has come for it.
* `Trip.Carries`, `Trip.Replaces`: what a step makes of them, whether it leaves the routes alone or
  takes new ones.
* `Trip.Step.carries_or_replaces`: every step of a session on a simulated engine does one or the
  other.
-/

namespace LiveTrip

/-- The status that a stage has still to tell of, and its tick. -/
def Stage.status? : Stage → Option (Tick × Status)
  | .conclude k (.ok s) | .locate k s | .flag k s | .cue k s | .report k s => some (k, s)
  | _ => none

theorem Stage.tick?_of_status? {s : Stage} {p : Tick × Status} (h : s.status? = some p) :
    s.tick? = some p.1 := by
  unfold Stage.status? at h
  split at h <;> cases h <;> rfl

/-! ## What a worker waits for -/

/-- The tick whose status a worker waits for, and what has been asked for it. -/
def Worker.awaited? (w : Worker) : Option (Tick × Asked) :=
  match w.wait with
  | .status k asked _ _ => some (k, asked)
  | _ => none

namespace Trip

variable {t t' : Trip} {made : Option Call}

def awaited (t : Trip) : Option (Tick × Asked) := t.worker.bind (·.awaited?)

/-- No status is waited for that was not before. -/
def AwaitsNone (t t' : Trip) : Prop := ∀ p, t'.awaited = some p → t.awaited = some p

theorem AwaitsNone.refl (t : Trip) : AwaitsNone t t := fun _ => id

theorem AwaitsNone.trans {u : Trip} (h : AwaitsNone t u) (h' : AwaitsNone u t') :
    AwaitsNone t t' := fun p hp => h p (h' p hp)

theorem AwaitsNone.congr {u : Trip} (h : AwaitsNone t u) (hw : t'.worker = u.worker) :
    AwaitsNone t t' := by
  intro p hp
  rw [awaited, hw] at hp
  exact h p hp

theorem awaitsNone_mapWorker (t : Trip) (g : Nat) {f : Worker → Worker}
    (hf : ∀ w, (f w).awaited? = w.awaited? ∨ (f w).awaited? = none) :
    AwaitsNone t (t.mapWorker g f) := by
  intro p hp
  unfold mapWorker at hp
  split at hp
  · rename_i w hw
    obtain ⟨hworker, -⟩ := workerOf?_eq_some.mp hw
    have hp : (f w).awaited? = some p := hp
    rcases hf w with h | h
    · rw [awaited, hworker]
      exact h.symm.trans hp
    · rw [h] at hp
      cases hp
  · exact hp

theorem awaitsNone_readLine (t : Trip) (w : Worker) : AwaitsNone t (t.readLine w).1 := by
  have hmap := awaitsNone_mapWorker t w.generation
    (f := fun w' => { w' with
      line := w.line.drain.1
      hasFix := w'.hasFix || (Batch.ofList w.line.drain.2).newest.isSome }) fun _ => .inl rfl
  exact hmap.congr rfl

theorem awaitsNone_proceed (t : Trip) (g : Nat) : AwaitsNone t (t.proceed g) := by
  have waits (wait : Wait) (hw : ∀ w : Worker, { w with wait }.awaited? = none) :
      AwaitsNone t (t.await g wait) :=
    (awaitsNone_mapWorker { t with stamp := t.stamp + 1 } g fun w => .inr (hw w)).congr rfl
  unfold proceed
  split
  · exact .refl t
  · rename_i w hw
    have hread := awaitsNone_readLine t w
    generalize t.readLine w = read at hread ⊢
    obtain ⟨u, batch⟩ := read
    split
    · split
      · split
        · exact waits .delivery fun _ => rfl
        · exact awaitsNone_mapWorker t g fun _ => .inr rfl
      · simp only
        split <;> exact hread.congr rfl
    · exact awaitsNone_mapWorker t g fun _ => .inr rfl
    · have hbeat (due : Nat) : AwaitsNone t (u.mapWorker g fun w => { w with due := some due }) :=
        hread.trans (awaitsNone_mapWorker u g fun _ => .inl rfl)
      simp only
      split
      · split <;> exact (hbeat _).congr rfl
      · exact waits .beat fun _ => rfl

theorem awaitsNone_run (t : Trip) {s : Stage} (asks : ∀ k, s ≠ .ask k) :
    AwaitsNone t (t.run s) := by
  by_cases hp : ∃ g, s = .proceed g
  · obtain ⟨g, rfl⟩ := hp
    exact awaitsNone_proceed t g
  · exact (AwaitsNone.refl t).congr (worker_run t (fun g h => hp ⟨g, h⟩) asks)

/-- A simulated engine works a status out when it is collected: what has been asked for is nothing
that is known already. -/
theorem awaited_ask {e : Simulated} (he : t.engine = .simulated e) {k k' : Tick} {asked : Asked}
    (h : (t.ask k).awaited = some (k', asked)) :
    t.awaited = some (k', asked) ∨ k' = k ∧ asked = .later := by
  have hask : t.engine.ask = (.simulated e, .later, e.delay) := by rw [he]; rfl
  simp only [ask, hask] at h
  split at h
  · exact .inl h
  · split at h
    · exact .inl h
    · split at h
      · exact .inl h
      · simp only [await, mapWorker] at h
        split at h
        · have h : some (k, Asked.later) = some (k', asked) := h
          cases h
          exact .inr ⟨rfl, rfl⟩
        · exact .inl h

theorem awaitsNone_mapManual (t : Trip) (f : ManualSource → ManualSource) :
    AwaitsNone t (t.mapManual f) := by
  unfold mapManual
  split <;> exact .refl t

/-- Something is done to the line of the worker. -/
theorem awaitsNone_line {w : Worker} (hw : t.worker = some w) (line : Line)
    (hw' : t'.worker = some { w with line }) : AwaitsNone t t' := by
  intro p hp
  rw [awaited, hw'] at hp
  rw [awaited, hw]
  exact hp

theorem awaitsNone_send (t : Trip) (d : Delivery) : AwaitsNone t (t.send d).1 := by
  unfold send
  split
  · rename_i hw
    split
    · split
      · rename_i line _
        exact awaitsNone_line hw line rfl
      · exact .refl t
    · exact .refl t
  · exact .refl t

theorem awaitsNone_haltSource (t : Trip) : AwaitsNone t t.haltSource := by
  have hm := awaitsNone_mapManual t (·.stop)
  simp only [haltSource]
  split
  · rename_i hw
    exact hm.trans (awaitsNone_line hw _ rfl)
  · exact hm

/-- No call asks for a status. -/
theorem awaitsNone_perform (t : Trip) (c : Call) : AwaitsNone t (t.perform c).trip := by
  unfold perform
  split
  · exact .refl t
  · cases c with
    | start =>
      simp only [start]
      split
      · exact .refl t
      · split
        · exact .refl t
        · exact fun _ h => by cases h
    | stop =>
      simp only [stop]
      split
      · exact fun _ h => by cases h
      · exact .refl t
    | close =>
      simp only [close]
      split
      · exact fun _ h => by cases h
      · exact .refl t
    | setRoutes routes =>
      simp only [setRoutes]
      split <;> exact .refl t
    | push fix => exact (awaitsNone_mapManual t _).trans (awaitsNone_send _ _)
    | pushError cause => exact awaitsNone_send t _
    | setLastKnown fix => exact awaitsNone_mapManual t _
    | failNextStart => exact awaitsNone_mapManual t _
    | haltSource => exact awaitsNone_haltSource t
    | _ => exact .refl t

theorem awaitsNone_resume (t : Trip) (w : Worker) : AwaitsNone t (t.resume w) := by
  have hawake := awaitsNone_mapWorker t w.generation
    (f := fun w => { w with wait := .working }) fun _ => .inr rfl
  unfold resume
  simp only
  split
  · exact hawake.congr rfl
  · split <;> exact hawake.congr rfl
  · exact hawake.congr rfl

/-! ## Ticks under way and statuses that have come -/

/-- A stage of the tick stands on the stack, or its status is waited for. -/
def Under (t : Trip) (k : Tick) : Prop :=
  (∃ s, .owner s ∈ t.stack ∧ s.tick? = some k) ∨ t.outline.pending = some k

/-- The status has come for the tick, and there is more to tell of it. -/
def Came (t : Trip) (k : Tick) (status : Status) : Prop :=
  ∃ s, .owner s ∈ t.stack ∧ s.status? = some (k, status)

theorem Came.under {k : Tick} {status : Status} (h : Came t k status) : Under t k := by
  obtain ⟨s, hs, hp⟩ := h
  exact .inl ⟨s, hs, Stage.tick?_of_status? hp⟩

/-- A tick is under way that was before, or that begins under the routes of the time. -/
theorem Change.under (h : Change t t' made) {k : Tick} (hk : Under t' k) :
    Under t k ∨ k.epoch = t.epoch := by
  rcases hk with ⟨s, hs, hk⟩ | hk
  · rcases h.work_cases hs (Stage.isWork_of_tick? hk) with
      hs | ⟨s', below, o, top, goes, hs, -, -⟩ | ⟨o, turn, hs, -⟩
    · exact .inl (.inl ⟨s, hs, hk⟩)
    · rcases goes.tick_of_own hs hk with hk | hk
      · exact .inl (.inl ⟨s', by rw [top]; exact List.mem_cons_self, hk⟩)
      · exact .inr ((goes.notes_of hk).1 k rfl).2.2.1
    · cases turn with
      | begins =>
        cases List.mem_singleton.mp hs
        cases hk
        exact .inr rfl
      | concludes k' answer asked =>
        cases List.mem_singleton.mp hs
        cases hk
        exact .inl (.inr asked)
      | proceeds =>
        cases List.mem_singleton.mp hs
        cases hk
      | waits => cases hs
  · rcases h.pending hk with hk | hs
    · exact .inl (.inr hk)
    · exact .inl (.inl ⟨_, hs, rfl⟩)

/-- Stages of a status are followed by stages of the same. One comes only where it was asked
for. -/
theorem Goes.status_of_own {s s' : Stage} {o : Outcome} (h : Goes t s o) (hs : .owner s' ∈ o.own)
    {p : Tick × Status} (hp : s'.status? = some p) : s.status? = some p ∨ ∃ k, s = .ask k := by
  cases h with
  | asked k => exact .inr ⟨k, rfl⟩
  | answered | flags | flagged | cues | cued =>
    cases List.mem_singleton.mp hs
    exact .inl hp
  | locates k status =>
    cases List.mem_singleton.mp hs
    split at hp
    · exact .inl hp
    · cases hp
  | arrives =>
    simp only [List.mem_cons, Frame.owner.injEq, List.not_mem_nil, or_false] at hs
    rcases hs with rfl | rfl <;> cases hp
  | announces | announceStale | announceNothing | ingested | refused | failed | locateStale
  | flagStale | cueReplaced | cueStale | unreported | reports | arriveStale | tallied | rereads
  | begins =>
    cases List.mem_singleton.mp hs
    cases hp
  | subscribed => cases List.mem_singleton.mp hs
  | _ => cases hs

/-- A stage is put on the stack. -/
theorem came_cons {u : Trip} {s : Stage} {k : Tick} {status : Status}
    (hu : u.stack = .owner s :: t.stack) (h : Came u k status) :
    Came t k status ∨ s.status? = some (k, status) := by
  obtain ⟨s', hs, hp⟩ := h
  rw [hu] at hs
  rcases List.mem_cons.mp hs with hs | hs
  · cases hs
    exact .inr hp
  · exact .inl ⟨s', hs, hp⟩

section Simulated

variable {e : Simulated} {k : Tick} {status : Status}

/-- An answer of a simulated engine is put on the stack. -/
theorem came_conclude {u : Trip} {k' : Tick}
    (hu : u.stack = .owner (.conclude k' e.status.2) :: t.stack) (h : Came u k status) :
    Came t k status ∨ e.status.2 = .ok status := by
  refine (came_cons hu h).imp_right fun hp => ?_
  cases hanswer : e.status.2 with
  | ok status' => rw [hanswer] at hp; cases hp; rfl
  | error cause => rw [hanswer] at hp; cases hp

theorem came_ask (he : t.engine = .simulated e) {k' : Tick} (h : Came (t.ask k') k status) :
    Came t k status ∨ e.status.2 = .ok status := by
  have hask : t.engine.ask = (.simulated e, .later, e.delay) := by rw [he]; rfl
  simp only [ask, hask] at h
  split at h
  · exact .inl h
  · split at h
    · exact came_conclude rfl h
    · split at h
      · exact .inl ((came_cons rfl h).resolve_right (by simp [Stage.status?]))
      · obtain ⟨s, hs, hp⟩ := h
        exact .inl ⟨s, by simpa only [stack, await, dispatch_mapWorker] using hs, hp⟩

/-- What a stage that is run leaves of the statuses that have come. -/
theorem came_run (he : t.engine = .simulated e) {s : Stage} (h : Came (t.run s) k status) :
    Came t k status ∨ s.status? = some (k, status) ∨ e.status.2 = .ok status := by
  obtain ⟨o, goes, shows⟩ := run_goes t s
  obtain ⟨s', hs, hp⟩ := id h
  rw [shows.stack] at hs
  have hs : .owner s' ∈ o.own ∨ .owner s' ∈ t.stack := by simpa using hs
  rcases hs with hs | hs
  · rcases goes.status_of_own hs hp with hp | ⟨k', rfl⟩
    · exact .inr (.inl hp)
    · exact (came_ask he h).imp_right .inr
  · exact .inl ⟨s', hs, hp⟩

/-- A worker takes up what it has waited for. -/
theorem came_resume (he : t.engine = .simulated e) {w : Worker} (hw : t.worker = some w)
    (hl : ∀ p, t.awaited = some p → p.2 = .later) (h : Came (t.resume w) k status) :
    Came t k status ∨ e.status.2 = .ok status := by
  have hmap : t.mapWorker w.generation (fun w => { w with wait := .working }) =
      { t with worker := some { w with wait := .working } } := by
    simp only [mapWorker, workerOf?_eq_some.mpr ⟨hw, rfl⟩]
  simp only [resume, hmap] at h
  split at h
  · exact .inl ((came_cons rfl h).resolve_right (by simp [Stage.status?]))
  · rename_i k' asked ready deadline hwait
    obtain rfl : asked = .later :=
      hl (k', asked) (by simp only [awaited, hw, Option.bind_some, Worker.awaited?, hwait])
    split at h
    · rw [he] at h
      exact came_conclude rfl h
    · exact .inl ((came_cons rfl h).resolve_right (by simp [Stage.status?]))
  · exact .inl ((came_cons rfl h).resolve_right (by simp [Stage.status?]))

end Simulated

/-! ## Steps -/

/-- What a step that leaves the routes alone makes of the ticks that are under way. -/
structure Carries (t t' : Trip) : Prop where
  held : t'.held = t.held
  under : ∀ k, Under t' k → Under t k ∨ k.epoch = t.epoch
  later : ∀ p, t'.awaited = some p → t.awaited = some p ∨ p.2 = .later
  came : ∀ k status, Came t' k status →
    Came t k status ∨ ∃ e, t.engine = .simulated e ∧ e.status.2 = .ok status

/-- What a step that takes new routes makes of them. -/
structure Replaces (t t' : Trip) (routes : List Route) : Prop where
  engine : t'.engine.routes? = some routes
  session : t'.facts.routes = routes
  epoch : t'.epoch = t.epoch + 1
  under : ∀ k, Under t' k → Under t k
  later : ∀ p, t'.awaited = some p → t.awaited = some p

/-- A call leaves the ticks that are under way alone. -/
theorem under_call {caller : Option Listener} {c : Call} {k : Tick}
    (h : Under (t.call caller c) k) : Under t k := by
  obtain ⟨r, stages, notes, o, performs, shows⟩ := call_performs t caller c
  rcases h with ⟨s, hs, hk⟩ | hk
  · rw [shows.stack] at hs
    have hs : s ∈ stages ∨ s = .reply r ∨ .owner s ∈ t.stack := by simpa [or_assoc] using hs
    have hwork := Stage.not_isOwn_of_isWork (Stage.isWork_of_tick? hk)
    rcases hs with hs | rfl | hs
    · exact absurd (performs.isOwn s hs) hwork
    · exact absurd trivial hwork
    · exact .inl ⟨s, hs, hk⟩
  · rw [shows.outline] at hk
    cases performs with
    | starts | stops | closes => cases hk
    | _ => exact .inr hk

theorem came_call {caller : Option Listener} {c : Call} {k : Tick} {status : Status}
    (h : Came (t.call caller c) k status) : Came t k status := by
  obtain ⟨r, stages, notes, o, performs, shows⟩ := call_performs t caller c
  obtain ⟨s, hs, hp⟩ := h
  rw [shows.stack] at hs
  have hs : s ∈ stages ∨ s = .reply r ∨ .owner s ∈ t.stack := by simpa [or_assoc] using hs
  have hwork := Stage.not_isOwn_of_isWork (Stage.isWork_of_tick? (Stage.tick?_of_status? hp))
  rcases hs with hs | rfl | hs
  · exact absurd (performs.isOwn s hs) hwork
  · exact absurd trivial hwork
  · exact ⟨s, hs, hp⟩

section Simulated

variable {e : Simulated}

theorem later_of_tick? (he : t.engine = .simulated e) (h : t.tick? = some t') {p : Tick × Asked}
    (hp : t'.awaited = some p) : t.awaited = some p ∨ p.2 = .later := by
  unfold tick? at h
  split at h
  · rename_i s below top
    cases h
    by_cases hask : ∃ k, s = .ask k
    · obtain ⟨k, rfl⟩ := hask
      exact (awaited_ask (t := t.pop) he hp).imp_right And.right
    · exact .inl (awaitsNone_run t.pop (fun k hk => hask ⟨k, hk⟩) p hp)
  · cases h
    refine .inl ?_
    rw [← hp]
    split <;> rfl
  · obtain ⟨d, -, rfl⟩ := Option.map_eq_some_iff.mp h
    exact .inl hp

theorem awaitsNone_move? {m : Move} (h : t.move? m = some t') : AwaitsNone t t' := by
  cases m with
  | decide d =>
    have h : t.decide? d = some t' := h
    unfold decide? at h
    split at h <;> cases h
    · exact awaitsNone_perform t _
    · exact .refl t
    · exact .refl t
  | work =>
    have h : t.work? = some t' := h
    unfold work? at h
    split at h
    · obtain ⟨w, -, rfl⟩ := Option.map_eq_some_iff.mp h
      exact awaitsNone_resume t w
    · cases h
  | replay =>
    have h : t.replay? = some t' := h
    unfold replay? at h
    split at h
    · obtain ⟨⟨s, r⟩, -, rfl⟩ := Option.map_eq_some_iff.mp h
      cases hw : t.worker with
      | none => exact fun p hp => by simp [awaited, hw] at hp
      | some w => exact awaitsNone_line hw _ rfl
    · cases h
  | elapse later =>
    have h : t.elapse? later = some t' := h
    unfold elapse? at h
    split at h <;> cases h
    exact .refl t

theorem came_of_tick? (he : t.engine = .simulated e) (h : t.tick? = some t') {k : Tick}
    {status : Status} (hk : Came t' k status) : Came t k status ∨ e.status.2 = .ok status := by
  cases change_of_tick? h with
  | stage s below o top =>
    rw [tick?_of_owner top] at h
    cases h
    have mem : .owner s ∈ t.stack := by rw [top]; exact List.mem_cons_self
    rcases came_run (t := t.pop) he hk with ⟨s', hs, hp⟩ | hp | hp
    · exact .inl ⟨s', List.mem_of_mem_tail hs, hp⟩
    · exact .inl ⟨s, mem, hp⟩
    · exact .inr hp
  | deliver f id l rest below top stack =>
    obtain ⟨s, hs, hp⟩ := hk
    rw [stack] at hs
    exact .inl ⟨s, by rw [top]; simpa using hs, hp⟩
  | ends x below events top _ _ stack =>
    obtain ⟨s, hs, hp⟩ := hk
    rw [stack] at hs
    exact .inl ⟨s, by rw [top]; exact List.mem_cons_of_mem _ hs, hp⟩
  | turn o idle =>
    have idle : t.dispatch.stack = [] := idle
    simp [tick?, Dispatch.advance?, idle] at h

theorem came_of_move? (he : t.engine = .simulated e)
    (hl : ∀ p, t.awaited = some p → p.2 = .later) {m : Move} (h : t.move? m = some t') {k : Tick}
    {status : Status} (hk : Came t' k status) : Came t k status ∨ e.status.2 = .ok status := by
  have less {u : Trip} {x : SessionFrame} {below : List SessionFrame} (top : t.stack = x :: below)
      (hu : u.stack = below) (hk : Came u k status) : Came t k status := by
    obtain ⟨s, hs, hp⟩ := hk
    exact ⟨s, by rw [top, ← hu]; exact List.mem_cons_of_mem _ hs, hp⟩
  cases m with
  | decide d =>
    have h : t.decide? d = some t' := h
    unfold decide? at h
    split at h <;> cases h
    · exact .inl (came_call hk)
    · obtain ⟨f, id, below, top⟩ := acting_of_speaker ‹_›
      refine .inl (less top ?_ hk)
      simp only [stack, mapDispatch, Dispatch.finish_eq top]
    · obtain ⟨f, id, below, top⟩ := acting_of_speaker ‹_›
      refine .inl (less top ?_ hk)
      simp only [stack, mapDispatch, Dispatch.fail_eq top]
      rfl
  | work =>
    have h : t.work? = some t' := h
    unfold work? at h
    split at h
    · obtain ⟨w, hw, rfl⟩ := Option.map_eq_some_iff.mp h
      exact came_resume he hw hl hk
    · cases h
  | replay =>
    have h : t.replay? = some t' := h
    unfold replay? at h
    split at h
    · obtain ⟨⟨s, r⟩, -, rfl⟩ := Option.map_eq_some_iff.mp h
      cases hw : t.worker with
      | none => rw [hw] at hk; exact .inl hk
      | some w => rw [hw] at hk; exact .inl hk
    · cases h
  | elapse later =>
    have h : t.elapse? later = some t' := h
    unfold elapse? at h
    split at h <;> cases h
    exact .inl hk

/-- A call of which the routes are accepted is the engine's half and then the session's. -/
theorem call_of_accepts {routes : List Route} (accepts : Accepts t routes)
    (caller : Option Listener) :
    ∃ engine, t.engine.setRoutes routes = .ok engine ∧
      t.call caller (.setRoutes routes) = ({ t with engine }.adopt routes).pushStages
        [.recompute .call, .reply { caller, call := .setRoutes routes, answer := .done }] := by
  obtain ⟨hopen, engine, he⟩ := accepts_iff.mp accepts
  refine ⟨engine, he, ?_⟩
  have hperform : t.perform (.setRoutes routes) = t.setRoutes routes := by
    simp [perform, hopen]
  simp only [call, hperform, setRoutes_eq he, List.cons_append, List.nil_append]

/-- **A step of a session on a simulated engine leaves the routes alone or takes new ones.** A status
that comes is what the engine gives at that time. -/
theorem Step.carries_or_replaces (h : Step t t') (he : t.engine = .simulated e)
    (hl : ∀ p, t.awaited = some p → p.2 = .later) :
    Carries t t' ∨ ∃ routes, Replaces t t' routes := by
  rcases held_step h with hheld | ⟨caller, routes, -, accepts, rfl⟩
  · obtain ⟨made, hc⟩ := change_of_step h
    refine .inl ⟨hheld, fun k => hc.under, fun p hp => ?_, fun k status hk => ?_⟩
    · cases h with
      | tick h => exact later_of_tick? he h hp
      | move m h => exact .inl (awaitsNone_move? h p hp)
    · have hcame : Came t k status ∨ e.status.2 = .ok status := by
        cases h with
        | tick h => exact came_of_tick? he h hk
        | move m h => exact came_of_move? he hl h hk
      exact hcame.imp_right fun h => ⟨e, he, h⟩
  · obtain ⟨engine, hengine, hcall⟩ := call_of_accepts accepts caller
    have hroutes := Engine.routes?_setRoutes hengine
    rw [he] at hroutes
    refine .inr ⟨routes, ?_, ?_, epoch_of_accepts accepts caller, fun k => under_call,
      awaitsNone_perform t _⟩
    · rw [hcall]; exact hroutes
    · rw [hcall]; rfl

end Simulated

end Trip
end LiveTrip
