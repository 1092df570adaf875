import LiveTrip.Proofs.Session.Startup
import LiveTrip.Proofs.Session.Tolls

/-!
# What waits in the line of a worker

What a source sends waits in the line of the worker until the worker reads it, all at once.

* `Trip.sends`, `Trip.Passage.sends`: what is sent down the line of the running worker.
* `Trip.inbox`: the running worker, and what waits in its line. `Trip.inbox_run`,
  `Trip.inbox_perform`, `Trip.inbox_replay`: stages leave the line alone unless a worker goes on,
  and what is sent waits behind the rest.
* `Trip.Takes.inbox`: so it is in each step. `Trip.Takes.born`: a new line is empty.
-/

namespace LiveTrip.Trip

variable {t t' : Trip} {ms : List Move}

/-! ## The line -/

/-- The fix that a replay has due. -/
def dueFix? (t : Trip) : Option Fix :=
  t.replayRun?.bind fun run => if run.1.interval = 0 then none else run.1.fix? run.2

/-- The running worker holds its end of the line. -/
def listens (t : Trip) : Bool := t.worker.any (·.line.reading)

/-- A source that is told what to do holds its end of the line. -/
def holdsLine (t : Trip) : Bool :=
  match t.source with
  | .manual m => m.running
  | .replay _ => false

/-- What is sent down the line of the running worker by a move. -/
def sends (t : Trip) : Move → List Delivery
  | .decide (.call (.push fix)) => if t.holdsLine && t.listens then [.ok fix] else []
  | .decide (.call (.pushError cause)) =>
    if t.holdsLine && t.listens then [.error cause] else []
  | .replay => if t.listens then t.dueFix?.toList.map .ok else []
  | _ => []

/-- What is sent in a step. -/
def Passage.sends (p : Passage) : List Delivery := p.moves.flatMap p.before.sends

/-- The running worker, by its generation, and what waits in its line. -/
def inbox (t : Trip) : Option (Nat × List Delivery) :=
  t.worker.map fun w => (w.generation, w.line.queue)

theorem inbox_mapWorker (t : Trip) (g : Nat) {f : Worker → Worker}
    (hf : ∀ w, (f w).generation = w.generation ∧ (f w).line.queue = w.line.queue) :
    (t.mapWorker g f).inbox = t.inbox := by
  unfold mapWorker
  split
  · rename_i w hw
    obtain ⟨hw, -⟩ := workerOf?_eq_some.mp hw
    simp [inbox, hw, hf]
  · rfl

theorem inbox_ask (t : Trip) (k : Tick) : (t.ask k).inbox = t.inbox := by
  have h := asks t k
  generalize t.ask k = u at h ⊢
  cases h with
  | orphaned | answered => rfl
  | waits => exact inbox_mapWorker _ _ fun _ => ⟨rfl, rfl⟩

/-- Other stages than that in which it goes on leave the worker its line. -/
theorem inbox_run (t : Trip) {s : Stage} (hs : ∀ g, s ≠ .proceed g) :
    (t.run s).inbox = t.inbox := by
  by_cases ha : ∃ k, s = .ask k
  · obtain ⟨k, rfl⟩ := ha
    exact inbox_ask t k
  · simp only [inbox, worker_run t hs fun k hk => ha ⟨k, hk⟩]

theorem inbox_send (t : Trip) (d : Delivery) :
    (t.send d).1.inbox =
      t.inbox.map fun b => (b.1, b.2 ++ if t.holdsLine && t.listens then [d] else []) := by
  cases hw : t.worker with
  | none => cases hs : t.source <;> simp [send, hs, hw, inbox]
  | some w =>
    cases hs : t.source with
    | replay => simp [send, hs, hw, inbox, holdsLine]
    | manual m =>
      cases hm : m.running <;> cases hr : w.line.reading <;>
        simp [send, hs, hw, hm, hr, inbox, holdsLine, listens, Line.send, Trip.note, mapDispatch]

theorem inbox_mapManual (t : Trip) (f : ManualSource → ManualSource) :
    (t.mapManual f).inbox = t.inbox := by
  unfold mapManual; split <;> rfl

theorem inbox_know (t : Trip) (fix : Fix) :
    (t.mapManual (·.know (some fix))).inbox = t.inbox ∧
      (t.mapManual (·.know (some fix))).holdsLine = t.holdsLine ∧
      (t.mapManual (·.know (some fix))).listens = t.listens := by
  unfold mapManual
  split
  · rename_i m hs
    exact ⟨rfl, by simp [holdsLine, hs, ManualSource.know], rfl⟩
  · exact ⟨rfl, rfl, rfl⟩

theorem inbox_haltSource (t : Trip) : t.haltSource.inbox = t.inbox := by
  simp only [haltSource]
  split
  · rename_i m w _ hw
    rw [← inbox_mapManual t (·.stop)]
    simp [inbox, hw]
  · exact inbox_mapManual t _

/-- A start that makes no worker leaves the line as it is. -/
theorem inbox_start (hc : (t.worker.isNone && t.start.trip.worker.isSome) = false) :
    t.start.trip.inbox = t.inbox := by
  cases hw : t.worker with
  | some w => simp only [start, hw, Option.isSome_some, ↓reduceIte]
  | none =>
    rw [hw] at hc
    have hnone : t.start.trip.worker = none := by simpa using hc
    rw [inbox, inbox, hnone, hw]

/-- A call leaves the line of the running worker with what it sends, unless it lets the worker go or
makes another. -/
theorem inbox_perform (t : Trip) (c : Call)
    (hc : c = .start → (t.worker.isNone && (t.perform c).trip.worker.isSome) = false) :
    (t.perform c).trip.inbox = none ∨
      (t.perform c).trip.inbox =
        t.inbox.map fun b => (b.1, b.2 ++ t.sends (.decide (.call c))) := by
  have same {u : Trip} (h : u.inbox = t.inbox) (hsends : t.sends (.decide (.call c)) = []) :
      u.inbox = none ∨
        u.inbox = t.inbox.map fun b => (b.1, b.2 ++ t.sends (.decide (.call c))) := by
    right
    simp [h, hsends]
  by_cases hclosed : (t.closed && c.onSession) = true
  · have hperform : (t.perform c).trip = t := by simp only [perform, hclosed, ↓reduceIte]
    rw [hperform]
    refine same rfl ?_
    cases c <;> first | rfl | simp [Call.onSession] at hclosed
  · simp only [perform, hclosed, Bool.false_eq_true, ↓reduceIte] at hc ⊢
    cases c with
    | start => exact same (inbox_start (hc rfl)) rfl
    | stop =>
      simp only [stop]
      split
      · exact .inl rfl
      · exact same rfl rfl
    | close =>
      simp only [close]
      split
      · exact .inl rfl
      · exact same rfl rfl
    | setRoutes routes =>
      simp only [setRoutes]
      split <;> exact same rfl rfl
    | push fix =>
      obtain ⟨hinbox, hholds, hlistens⟩ := inbox_know t fix
      have hsend := inbox_send (t.mapManual (·.know (some fix))) (.ok fix)
      rw [hinbox, hholds, hlistens] at hsend
      exact .inr hsend
    | pushError cause => exact .inr (inbox_send t (.error cause))
    | setLastKnown fix => exact same (inbox_mapManual t _) rfl
    | failNextStart => exact same (inbox_mapManual t _) rfl
    | haltSource => exact same (inbox_haltSource t) rfl
    | unobserve | setGuidance | setDestination | observe | subscribe | release | detach | query
    | control => exact same rfl rfl

theorem inbox_resume (t : Trip) (w : Worker) : (t.resume w).inbox = t.inbox := by
  have awake := inbox_mapWorker t w.generation (f := fun w => { w with wait := .working })
    fun _ => ⟨rfl, rfl⟩
  unfold resume
  simp only
  split
  · exact awake
  · split <;> exact awake
  · exact awake

/-- A replay sends the fix that it has due. -/
theorem inbox_replay (h : t.replay? = some t') :
    t'.inbox = t.inbox.map fun b => (b.1, b.2 ++ t.sends .replay) := by
  unfold replay? at h
  split at h
  · obtain ⟨⟨s, r⟩, hrun, rfl⟩ := Option.map_eq_some_iff.mp h
    cases hw : t.worker with
    | none => simp [inbox, hw]
    | some w =>
      simp only [inbox, hw, Option.map_some, sends, listens, Option.any_some, dueFix?, hrun,
        Option.bind_some, ReplaySource.send]
      by_cases hinterval : s.interval = 0
      · simp [hinterval]
      · cases hfix : s.fix? r with
        | none => simp [hinterval]
        | some fix => cases hr : w.line.reading <;> simp [hinterval, Line.send, hr]
  · cases h

/-! ## Steps -/

/-- Unless a worker goes on, what waits in the line of the running worker waits on. -/
theorem Takes.inbox (h : Takes t ms t')
    (hs : ∀ g below, t.stack ≠ .owner (.proceed g) :: below)
    (sole : (⟨t, ms, t'⟩ : Passage).creates = false) :
    t'.inbox = none ∨
      t'.inbox = t.inbox.map fun b => (b.1, b.2 ++ (⟨t, ms, t'⟩ : Passage).sends) := by
  have same {ns : List Move} {u : Trip} (h : u.inbox = t.inbox)
      (hsends : (⟨t, ns, u⟩ : Passage).sends = []) :
      u.inbox = none ∨
        u.inbox = t.inbox.map fun b => (b.1, b.2 ++ (⟨t, ns, u⟩ : Passage).sends) := by
    right
    simp [h, hsends]
  cases h with
  | tick h =>
    unfold tick? at h
    split at h
    · rename_i s below top
      cases h
      exact same (inbox_run t.pop fun g hg => hs g below (hg ▸ top)) rfl
    · cases h
      refine same ?_ rfl
      split <;> rfl
    · obtain ⟨d, -, rfl⟩ := Option.map_eq_some_iff.mp h
      exact same rfl rfl
  | @move _ m h =>
    have hone : (⟨t, [m], t'⟩ : Passage).sends = t.sends m := List.flatMap_singleton ..
    cases m with
    | decide d =>
      have h : t.decide? d = some t' := h
      unfold decide? at h
      split at h <;> cases h
      · rename_i caller c word
        rw [hone]
        refine inbox_perform t c fun hc => ?_
        subst hc
        have hstart : ([.decide (.call .start)] : List Move).any Move.isStart = true := rfl
        rw [Passage.creates, hstart, Bool.true_and] at sole
        exact sole
      · exact same rfl rfl
      · exact same rfl rfl
    | work =>
      have h : t.work? = some t' := h
      unfold work? at h
      split at h
      · obtain ⟨w, -, rfl⟩ := Option.map_eq_some_iff.mp h
        exact same (inbox_resume t w) rfl
      · cases h
    | replay =>
      rw [hone]
      exact .inr (inbox_replay h)
    | elapse later =>
      have h : t.elapse? later = some t' := h
      unfold elapse? at h
      split at h <;> cases h
      exact same rfl rfl

theorem inbox_readLine {w : Worker} (running : t.worker = some w) :
    (t.readLine w).1.inbox = some (w.generation, []) := by
  have hw : t.workerOf? w.generation = some w := workerOf?_eq_some.mpr ⟨running, rfl⟩
  show (t.mapWorker w.generation _).inbox = _
  rw [mapWorker, hw]
  rfl

theorem born_start (vacant : t.worker.isNone = true) (manned : t.start.trip.worker.isSome = true) :
    t.start.trip.inbox = some (t.start.trip.generation, []) ∧
      t.generation < t.start.trip.generation := by
  have hidle : t.worker.isSome = false := by simpa using vacant
  rcases hs : t.advanceGeneration.source.start t.advanceGeneration.now with ⟨source, _ | _⟩
  · simp only [start, hidle, Bool.false_eq_true, ↓reduceIte, hs] at manned
    exact absurd manned (by simp [advanceGeneration, hidle])
  · simp only [start, hidle, Bool.false_eq_true, ↓reduceIte, hs]
    exact ⟨rfl, Nat.lt_succ_self _⟩

/-- A worker that is made has nothing in its line, and no other was of its generation. -/
theorem Takes.born (h : Takes t ms t') (created : (⟨t, ms, t'⟩ : Passage).creates = true) :
    t'.inbox = some (t'.generation, []) ∧ t.generation < t'.generation := by
  simp only [Passage.creates, Bool.and_eq_true] at created
  obtain ⟨⟨started, vacant⟩, manned⟩ := created
  cases h with
  | tick => cases started
  | @move _ m h =>
    have hstart : m.isStart = true := by simpa using started
    unfold Move.isStart at hstart
    split at hstart
    · have h : t.decide? (.call .start) = some t' := h
      obtain ⟨caller, rfl⟩ : ∃ caller, t.call caller .start = t' := by
        cases hword : t.speaker with
        | none => simp [decide?, hword] at h
        | some caller => exact ⟨caller, by simpa [decide?, hword] using h⟩
      have manned : (t.perform .start).trip.worker.isSome = true := manned
      cases hclosed : t.closed with
      | true =>
        have hnone : (t.perform .start).trip = t := by simp [perform, hclosed, Call.onSession]
        rw [hnone, Option.isSome_iff_ne_none] at manned
        exact absurd (Option.isNone_iff_eq_none.mp vacant) manned
      | false =>
        have hstart : t.perform .start = t.start := by simp [perform, hclosed]
        rw [hstart] at manned
        have hborn := born_start vacant manned
        rw [← hstart] at hborn
        exact hborn
    · cases hstart

end LiveTrip.Trip
