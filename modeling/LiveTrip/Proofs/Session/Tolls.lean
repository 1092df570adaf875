import Mathlib.Data.List.Induction
import LiveTrip.Proofs.Session.Remembered
import LiveTrip.Proofs.Session.Smoothing
import LiveTrip.Proofs.Session.Working

/-!
# What steps are counted as

Counters are raised in many places. Here is what each step adds to them, so that a counter on a run
is the sum of what its steps add.

* `Counters.add`: counters are added field by field.
* `Trip.refuses`: the engine refuses a fix.
* `Trip.toll`, `Trip.counters_run`: what a stage adds.
* `Trip.Passage`: a step as it was taken. `Trip.Passage.creates`: it is a start that makes a worker.
* `Trip.Passage.toll`, `Trip.Takes.counters`: what a step adds.
* `Trip.Trail`: a run with the steps it was made of. `Trip.Reaches.trail`, `Trip.Trail.reaches`:
  every run is one, and every trail is a run.
* `Trip.Trail.split`, `Trip.Trail.uncons`, `Trip.Trail.of_mem`: a run in two parts, its first step,
  and any of its steps.
* `Trip.Trail.count`: a counter that one kind of step raises by one counts the steps of this kind.
-/

namespace LiveTrip

namespace Counters

/-- Field by field. -/
def add (c d : Counters) : Counters where
  ticks := c.ticks + d.ticks
  samplesReceived := c.samplesReceived + d.samplesReceived
  samplesSuperseded := c.samplesSuperseded + d.samplesSuperseded
  ingestionFailures := c.ingestionFailures + d.ingestionFailures
  statusFailures := c.statusFailures + d.statusFailures
  staleDiscarded := c.staleDiscarded + d.staleDiscarded
  invalidPhases := c.invalidPhases + d.invalidPhases
  blends := c.blends + d.blends
  started := c.started + d.started
  observerFailures := c.observerFailures + d.observerFailures

instance : Add Counters := ⟨add⟩

end Counters

/-- A tick is counted. -/
def Stage.isTally : Stage → Bool
  | .tally _ => true
  | _ => false

/-- A status has failed, and this is counted. -/
def Stage.failsStatus : Stage → Bool
  | .conclude k (.error _) => k.counted
  | _ => false

/-- Somebody calls for a start. -/
def Move.isStart : Move → Bool
  | .decide (.call .start) => true
  | _ => false

namespace Trip

variable {t t' : Trip} {ms : List Move}

/-- The engine refuses the fix. -/
def refuses (t : Trip) (fix : Fix) : Bool :=
  match t.engine.ingest fix with
  | .ok _ => false
  | .error _ => true

/-- What is read in a stage. -/
def batch (t : Trip) : Stage → Batch
  | .proceed g => (t.reads? g).elim {} .ofList
  | _ => {}

/-- A fix is refused in a stage. -/
def refused (t : Trip) : Stage → Bool
  | .ingest k => k.fix.any t.refuses
  | _ => false

/-- A result is dropped in a stage, for the session has moved on. -/
def discarded (t : Trip) : Stage → Bool
  | .announce k => k.fix.isSome && !t.current k
  | .locate k _ | .flag k _ | .arrive k _ => !t.current k
  | .cue k s =>
    ((s.progress.isSome || s.cues.isSome) && k.epoch ≠ t.epoch) || (s.cues.isSome && !t.current k)
  | .report k s => s.progress.any t.isActive && !t.current k
  | _ => false

/-- A stage comes upon contradictory facts. -/
def contradicted (t : Trip) : Stage → Bool
  | .recompute _ => t.facts.phaseFacts.Contradictory
  | _ => false

/-- The congestion of a route is changed in a stage. -/
def blended (t : Trip) : Stage → Bool
  | .report _ s => s.progress.any fun report => (t.pass? report).isSome
  | _ => false

/-- What a stage adds to the counters. -/
def toll (t : Trip) (s : Stage) : Counters where
  ticks := s.isTally.toNat
  samplesReceived := (t.batch s).received
  samplesSuperseded := (t.batch s).superseded
  ingestionFailures := (t.batch s).errors + (t.refused s).toNat
  statusFailures := s.failsStatus.toNat
  staleDiscarded := (t.discarded s).toNat
  invalidPhases := (t.contradicted s).toNat
  blends := (t.blended s).toNat

/-! ## Stages -/

@[simp] theorem counters_mapWorker (t : Trip) (g : Nat) (f : Worker → Worker) :
    (t.mapWorker g f).counters = t.counters := by
  unfold mapWorker; split <;> rfl

@[simp] theorem counters_await (t : Trip) (g : Nat) (wait : Wait) :
    (t.await g wait).counters = t.counters := counters_mapWorker _ _ _

theorem counters_readLine (t : Trip) (w : Worker) :
    (t.readLine w).1.counters = t.counters + (Batch.ofList w.line.queue).count {} := by
  show (Batch.ofList w.line.queue).count (t.mapWorker w.generation _).counters = Counters.add _ _
  rw [counters_mapWorker]
  simp [Batch.count, Counters.add]

theorem counters_proceed (t : Trip) (g : Nat) :
    (t.proceed g).counters = t.counters + t.toll (.proceed g) := by
  have h := proceeds t g
  generalize t.proceed g = u at h ⊢
  cases h with
  | rests stamp f reads =>
    have hempty : t.toll (.proceed g) = {} := by simp only [toll, batch, reads]; rfl
    rw [hempty]
    exact counters_mapWorker { t with stamp } g f
  | rereads w f _ reads | begins w f _ reads =>
    have hbatch : t.toll (.proceed g) = (Batch.ofList w.line.queue).count {} := by
      simp [toll, batch, reads, Batch.count, refused, discarded, contradicted, blended,
        Stage.isTally, Stage.failsStatus]
    rw [hbatch]
    exact (counters_mapWorker (t.readLine w).1 g f).trans (counters_readLine t w)

theorem counters_ask (t : Trip) (k : Tick) : (t.ask k).counters = t.counters := by
  have h := asks t k
  generalize t.ask k = u at h ⊢
  cases h with
  | orphaned | answered => rfl
  | waits => exact counters_await _ _ _

theorem counters_report (t : Trip) (k : Tick) (s : Status) :
    (t.run (.report k s)).counters = t.counters + t.toll (.report k s) := by
  have hprogress (report : ProgressReport) : (t.progress report s.tracking).1.counters =
      t.counters + { blends := (t.pass? report).isSome.toNat } := by
    rw [counters_progress]
    split <;> simp only [*] <;> rfl
  have hactive (report : ProgressReport) : t.isActive report =
      (t.progress report s.tracking).2.isSome := (isSome_progress t report s.tracking).symm
  have h := reports t k s
  generalize t.run (.report k s) = u at h ⊢
  cases h with
  | nothing none => simp only [toll, discarded, blended, none]; rfl
  | unknown report known none =>
    simp only [toll, discarded, blended, known, Option.any_some, hactive, none]
    exact hprogress report
  | stale report progress known active stale =>
    simp only [toll, discarded, blended, known, Option.any_some, hactive, active, stale]
    exact congrArg (fun c : Counters => { c with staleDiscarded := c.staleDiscarded + 1 })
      (hprogress report)
  | tells report progress known active current =>
    simp only [toll, discarded, blended, known, Option.any_some, hactive, active, current]
    exact hprogress report

/-- **What a stage adds to the counters.** -/
theorem counters_run (t : Trip) (s : Stage) : (t.run s).counters = t.counters + t.toll s := by
  cases s with
  | proceed g => exact counters_proceed t g
  | ask k => exact counters_ask t k
  | report k s => exact counters_report t k s
  | recompute cause =>
    by_cases hx : t.facts.phaseFacts.Contradictory
    · have hmet : (t.facts.phase.update t.facts.phaseFacts).2.contradictory = true :=
        decide_eq_true hx
      simp only [run, hmet, ↓reduceIte, toll, contradicted, hx]
      split <;> rfl
    · have hmet : (t.facts.phase.update t.facts.phaseFacts).2.contradictory = false :=
        decide_eq_false hx
      simp only [run, hmet, Bool.false_eq_true, ↓reduceIte, toll, contradicted, hx]
      split <;> rfl
  | announce k =>
    cases hfix : k.fix with
    | none => simp only [run, toll, discarded, hfix]; rfl
    | some fix =>
      cases hcurrent : t.current k with
      | true =>
        have hpushed : (t.pushStages [.ingest k]).current k = true := hcurrent
        simp only [run, toll, discarded, hfix, hcurrent, hpushed, Option.isSome_some, ↓reduceIte]
        rfl
      | false =>
        have hpushed : (t.pushStages [.ingest k]).current k = false := hcurrent
        simp only [run, toll, discarded, hfix, hcurrent, hpushed, Option.isSome_some,
          Bool.false_eq_true, ↓reduceIte]
        rfl
  | ingest k =>
    cases hfix : k.fix with
    | none => simp only [run, toll, refused, hfix]; rfl
    | some fix =>
      simp only [run, toll, refused, refuses, hfix, Option.any_some]
      cases t.engine.ingest fix <;> rfl
  | conclude k answer =>
    cases answer with
    | ok s => rfl
    | error e =>
      cases hk : k.counted <;> simp only [run, toll, Stage.failsStatus, hk] <;> rfl
  | locate k s =>
    simp only [run, toll, discarded]
    cases t.current k <;> rfl
  | flag k s =>
    simp only [run, toll, discarded]
    cases t.current k with
    | true => simp only [↓reduceIte]; split <;> rfl
    | false => rfl
  | cue k s =>
    simp only [run, toll, discarded]
    cases (s.progress.isSome || s.cues.isSome) && decide (k.epoch ≠ t.epoch) with
    | true => rfl
    | false =>
      cases s.cues with
      | none => rfl
      | some cues =>
        cases t.current k with
        | true => simp only [Bool.false_eq_true, ↓reduceIte]; split <;> rfl
        | false => rfl
  | arrive k complete =>
    simp only [run, toll, discarded]
    cases t.current k <;> rfl
  | enter | leaveOffRoute => simp only [run]; split <;> rfl
  | reply | register | subscribe | forgetTrip | tally => rfl

/-! ## Steps -/

/-- A step as it was taken. -/
structure Passage where
  before : Trip
  moves : List Move
  after : Trip

namespace Passage

/-- The stage that is run in the step. -/
def stage? (p : Passage) : Option Stage :=
  match p.before.stack with
  | .owner s :: _ => some s
  | _ => none

/-- The step is a start that makes a worker. -/
def creates (p : Passage) : Bool :=
  p.moves.any Move.isStart && p.before.worker.isNone && p.after.worker.isSome

/-- What the step adds to the counters. -/
def toll (p : Passage) : Counters :=
  match p.stage? with
  | some s => p.before.toll s
  | none => { started := p.creates.toNat }

theorem stage?_eq_some {p : Passage} {s : Stage} :
    p.stage? = some s ↔ ∃ below, p.before.stack = .owner s :: below := by
  unfold stage?
  split
  · rename_i s' below top
    simp [top]
  · rename_i h
    simp only [reduceCtorEq, false_iff, not_exists]
    exact fun below top => h s below top

theorem toll_of_stage {p : Passage} {s : Stage} (h : p.stage? = some s) :
    p.toll = p.before.toll s := by
  simp only [toll, h]

theorem toll_of_none {p : Passage} (h : p.stage? = none) :
    p.toll = { started := p.creates.toNat } := by
  simp only [toll, h]

/-- No stage is run while somebody has the word. -/
theorem stage?_of_speaker {caller : Option Listener} (word : t.speaker = some caller) :
    (⟨t, ms, t'⟩ : Passage).stage? = none := by
  unfold stage?
  rcases stack_of_speaker word with h | ⟨_, _, _, _, h⟩ <;> simp only [h]

theorem stage?_of_idle (idle : t.idle = true) : (⟨t, ms, t'⟩ : Passage).stage? = none := by
  unfold stage?
  simp only [stack_of_idle idle]

/-- A step that neither runs a stage nor makes a call adds nothing. -/
theorem toll_of_quiet (hs : (⟨t, ms, t'⟩ : Passage).stage? = none)
    (hm : ms.any Move.isStart = false) (hc : t'.counters = t.counters) :
    t'.counters = t.counters + (⟨t, ms, t'⟩ : Passage).toll := by
  rw [toll_of_none hs, creates, hm]
  exact hc

end Passage

theorem toll_pop (t : Trip) (s : Stage) : t.pop.toll s = t.toll s := by
  cases s <;> rfl

@[simp] theorem counters_mapManual (t : Trip) (f : ManualSource → ManualSource) :
    (t.mapManual f).counters = t.counters := by
  unfold mapManual; split <;> rfl

@[simp] theorem counters_send (t : Trip) (d : Delivery) :
    (t.send d).1.counters = t.counters := by
  unfold send
  split
  · split
    · split <;> rfl
    · rfl
  · rfl

theorem counters_haltSource (t : Trip) : t.haltSource.counters = t.counters := by
  simp only [haltSource]
  split <;> exact counters_mapManual t _

/-- A start that makes a worker is counted. -/
theorem counters_start (t : Trip) :
    t.start.trip.counters = t.counters +
      { started := (t.worker.isNone && t.start.trip.worker.isSome).toNat } := by
  cases hw : t.worker with
  | some w =>
    simp only [start, hw, Option.isSome_some, ↓reduceIte, Option.isNone_some, Bool.false_and]
    rfl
  | none =>
    rcases hs : t.advanceGeneration.source.start t.advanceGeneration.now with ⟨source, answer⟩
    simp only [start, hw, Option.isSome_none, Bool.false_eq_true, ↓reduceIte, hs]
    cases answer with
    | error cause =>
      have hnone : t.advanceGeneration.worker = none := hw
      simp only [hnone, Option.isSome_none, Bool.and_false]
      rfl
    | ok _ => rfl

/-- Other calls are not counted. -/
theorem counters_perform {c : Call} (hc : c ≠ .start) :
    (t.perform c).trip.counters = t.counters := by
  unfold perform
  split
  · rfl
  · cases c with
    | start => exact absurd rfl hc
    | stop => simp only [stop]; split <;> rfl
    | close => simp only [close]; split <;> rfl
    | setRoutes routes => simp only [setRoutes]; split <;> rfl
    | push fix => exact (counters_send _ _).trans (counters_mapManual t _)
    | pushError cause => exact counters_send t _
    | setLastKnown fix => exact counters_mapManual t _
    | failNextStart => exact counters_mapManual t _
    | haltSource => exact counters_haltSource t
    | _ => rfl

theorem counters_call {caller : Option Listener} (word : t.speaker = some caller) (c : Call) :
    (t.call caller c).counters = t.counters +
      (⟨t, [.decide (.call c)], t.call caller c⟩ : Passage).toll := by
  have hstage : (⟨t, [.decide (.call c)], t.call caller c⟩ : Passage).stage? = none :=
    Passage.stage?_of_speaker word
  by_cases hc : c = .start
  · subst hc
    simp only [Passage.toll, hstage, Passage.creates, List.any_cons, List.any_nil, Move.isStart,
      Bool.or_false, Bool.true_and]
    show (t.perform .start).trip.counters = t.counters +
      { started := (t.worker.isNone && (t.perform .start).trip.worker.isSome).toNat }
    unfold perform
    split
    · cases t.worker <;> rfl
    · exact counters_start t
  · refine Passage.toll_of_quiet hstage ?_ (counters_perform hc)
    cases c <;> first | rfl | exact absurd rfl hc

theorem counters_resume (t : Trip) (w : Worker) : (t.resume w).counters = t.counters := by
  have awake := counters_mapWorker t w.generation fun w => { w with wait := .working }
  unfold resume
  simp only
  split
  · exact awake
  · split <;> exact awake
  · exact awake

/-- **What a step adds to the counters.** -/
theorem Takes.counters (h : Takes t ms t') :
    t'.counters = t.counters + (⟨t, ms, t'⟩ : Passage).toll := by
  cases h with
  | tick h =>
    unfold tick? at h
    split at h
    · rename_i s below top
      cases h
      have hstage : (⟨t, [], t.pop.run s⟩ : Passage).stage? = some s :=
        Passage.stage?_eq_some.mpr ⟨below, top⟩
      have hrun := counters_run t.pop s
      rw [toll_pop] at hrun
      rw [Passage.toll_of_stage hstage]
      exact hrun
    · rename_i f id below top
      cases h
      refine Passage.toll_of_quiet ?_ rfl ?_
      · simp only [Passage.stage?, stack, top]
      · split <;> rfl
    · rename_i hno _
      obtain ⟨d, -, rfl⟩ := Option.map_eq_some_iff.mp h
      refine Passage.toll_of_quiet ?_ rfl rfl
      cases hs : (⟨t, [], { t with dispatch := d }⟩ : Passage).stage? with
      | none => rfl
      | some s =>
        obtain ⟨below, top⟩ := Passage.stage?_eq_some.mp hs
        exact absurd top (hno s below)
  | @move _ m h =>
    cases m with
    | decide d =>
      have h : t.decide? d = some t' := h
      unfold decide? at h
      split at h <;> cases h
      · exact counters_call ‹_› _
      · exact Passage.toll_of_quiet (Passage.stage?_of_speaker ‹_›) rfl rfl
      · exact Passage.toll_of_quiet (Passage.stage?_of_speaker ‹_›) rfl rfl
    | work =>
      have h : t.work? = some t' := h
      unfold work? at h
      split at h
      · rename_i hready
        obtain ⟨w, -, rfl⟩ := Option.map_eq_some_iff.mp h
        exact Passage.toll_of_quiet (Passage.stage?_of_idle (Bool.and_eq_true_iff.mp hready).1) rfl
          (counters_resume t w)
      · cases h
    | replay =>
      have h : t.replay? = some t' := h
      unfold replay? at h
      split at h
      · rename_i hready
        obtain ⟨⟨s, r⟩, -, rfl⟩ := Option.map_eq_some_iff.mp h
        refine Passage.toll_of_quiet (Passage.stage?_of_idle (Bool.and_eq_true_iff.mp hready).1) rfl
          ?_
        cases t.worker <;> rfl
      · cases h
    | elapse later =>
      have h : t.elapse? later = some t' := h
      unfold elapse? at h
      split at h
      · rename_i hready
        cases h
        exact Passage.toll_of_quiet (Passage.stage?_of_idle (Bool.and_eq_true_iff.mp hready).1) rfl
          rfl
      · cases h

/-! ## Runs -/

/-- A run with the steps it was made of. -/
inductive Trail (a : Trip) : List Passage → Trip → Prop
  | refl : Trail a [] a
  | step {ps : List Passage} {b c : Trip} {ms : List Move} (h : Trail a ps b)
      (taken : Takes b ms c) : Trail a (ps ++ [⟨b, ms, c⟩]) c

/-- A trail is a run. -/
theorem Trail.reaches {a : Trip} {ps : List Passage} (h : Trail a ps t) :
    Reaches a (ps.flatMap (·.moves)) t := by
  induction h with
  | refl => exact .refl a
  | step _ taken ih => simpa using ih.trans taken.reaches

/-- Every run has its trail. -/
theorem Reaches.trail {a : Trip} (h : Reaches a ms t) :
    ∃ ps, Trail a ps t ∧ ps.flatMap (·.moves) = ms := by
  refine h.induct (P := fun ms t => ∃ ps, Trail a ps t ∧ ps.flatMap (·.moves) = ms)
    ⟨[], .refl, rfl⟩ ?_ ?_
  · rintro ms t t' - ⟨ps, hps, rfl⟩ hs
    exact ⟨_, hps.step (.tick hs), by simp⟩
  · rintro ms m t t' - ⟨ps, hps, rfl⟩ hs
    exact ⟨_, hps.step (.move hs), by simp⟩

theorem Trail.last {a : Trip} {ps : List Passage} {q : Passage} (h : Trail a (ps ++ [q]) t) :
    Trail a ps q.before ∧ Takes q.before q.moves q.after ∧ q.after = t := by
  generalize hqs : ps ++ [q] = qs at h
  cases h with
  | refl => simp at hqs
  | step h taken =>
    obtain ⟨rfl, hq⟩ := List.append_inj' hqs rfl
    cases hq
    exact ⟨h, taken, rfl⟩

/-- A run in two parts. -/
theorem Trail.split {a : Trip} {ps qs : List Passage} (h : Trail a (ps ++ qs) t) :
    ∃ b, Trail a ps b ∧ Trail b qs t := by
  induction qs using List.reverseRecOn generalizing t with
  | nil => exact ⟨t, by simpa using h, .refl⟩
  | append_singleton qs q ih =>
    rw [← List.append_assoc] at h
    obtain ⟨hqs, taken, rfl⟩ := h.last
    obtain ⟨b, hb, hq⟩ := ih hqs
    exact ⟨b, hb, hq.step taken⟩

theorem Trail.eq_of_nil {a : Trip} (h : Trail a [] t) : a = t := by
  generalize hqs : ([] : List Passage) = qs at h
  cases h with
  | refl => rfl
  | step => simp at hqs

/-- A run and its first step. -/
theorem Trail.uncons {a : Trip} {ps : List Passage} {q : Passage} (h : Trail a (q :: ps) t) :
    a = q.before ∧ Takes q.before q.moves q.after ∧ Trail q.after ps t := by
  have h : Trail a ([] ++ [q] ++ ps) t := h
  obtain ⟨b, hq, hps⟩ := h.split
  obtain ⟨ha, taken, rfl⟩ := hq.last
  exact ⟨ha.eq_of_nil, taken, hps⟩

/-- A step of a run, and what comes before and after it. -/
theorem Trail.of_mem {a : Trip} {ps : List Passage} {q : Passage} (h : Trail a ps t)
    (hq : q ∈ ps) : ∃ before after, Trail a before q.before ∧
      Takes q.before q.moves q.after ∧ Trail q.after after t := by
  obtain ⟨before, after, rfl⟩ := List.append_of_mem hq
  obtain ⟨b, hbefore, hrest⟩ := h.split
  obtain ⟨rfl, taken, hafter⟩ := hrest.uncons
  exact ⟨before, after, hbefore, taken, hafter⟩

theorem countP_singleton_eq_toNat {α : Type} (q : α → Bool) (x : α) :
    [x].countP q = (q x).toNat := by
  rw [List.countP_singleton]
  cases q x <;> rfl

/-- **A counter that one kind of step raises by one counts the steps of this kind.** -/
theorem Trail.count {a : Trip} {ps : List Passage} (h : Trail a ps t) {f : Counters → Nat}
    (hf : ∀ c d, f (c + d) = f c + f d) {q : Passage → Bool}
    (hq : ∀ b ms c, Takes b ms c → f (⟨b, ms, c⟩ : Passage).toll = (q ⟨b, ms, c⟩).toNat) :
    f t.counters = f a.counters + ps.countP q := by
  induction h with
  | refl => rfl
  | step _ taken ih =>
    rw [taken.counters, hf, ih, hq _ _ _ taken, List.countP_append, countP_singleton_eq_toNat,
      Nat.add_assoc]

end Trip
end LiveTrip
