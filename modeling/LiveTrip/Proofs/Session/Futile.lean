import LiveTrip.Proofs.Session.Indistinct
import LiveTrip.Proofs.Session.TripData

/-!
# Calls that come to nothing

A start that the source refuses has advanced the generation, against which every tick is checked. A
redundant start or stop, and routes that the engine refuses, have changed nothing at all. None of
them makes a difference to what comes after.

* `Trip.Futile`: the calls that come to nothing.
* `Trip.Reaches.generation_of_stage`: whoever has the word finds no stage of the present generation
  on the stack, unless the worker of that generation is running.
* `Trip.recounted`: a session with another count of generations. `Trip.mirrors_recounted`: it goes
  on as with the count it had.
* `Trip.futile_call_leaves_no_trace`: the whole account.
-/

namespace LiveTrip

/-- The generation that a stage belongs to. -/
def Stage.generation? : Stage → Option Nat
  | .proceed g => some g
  | s => s.tick?.map (·.generation)

/-! ## Comparisons of a session with itself -/

/-- Nobody is set aside, and of all counts only the generations may stand elsewhere. -/
structure Comparison.Steady (K : Comparison) : Prop where
  aside : K.aside.IsEmpty
  clock : K.clock = .zero
  epoch : K.epoch = .zero
  ticks : K.ticks = .zero

namespace Comparison.Steady

variable {K : Comparison} (h : K.Steady)

include h

theorem same_clock (n : Nat) : K.clock.Same n n := h.clock ▸ Origins.same_zero.mpr rfl

theorem same_ticks (n : Nat) : K.ticks.Same n n := h.ticks ▸ Origins.same_zero.mpr rfl

theorem tied_epoch (n : Nat) : K.epoch.Tied n n := h.epoch ▸ Origins.tied_zero.mpr rfl

theorem cause (k : Cause) : k.Mirrors K k := by
  cases k with
  | tick n => exact .tick (h.same_ticks n)
  | call => exact .call
  | replay => exact .replay

theorem tick {k : Tick} (hg : K.generation.Tied k.generation k.generation) : k.Mirrors K k :=
  ⟨h.same_ticks _, hg, h.tied_epoch _, rfl, rfl⟩

theorem source (s : Source) : s.Mirrors K.clock s := by
  rw [h.clock]
  exact Source.mirrors_iff.mpr rfl

theorem answer (a : Answer) : a.Mirrors K a := by
  cases a with
  | done => exact .done
  | refused cause => exact .refused cause
  | id id => exact .id fun _ => rfl
  | flag b => exact .flag b
  | noGuard => exact .noGuard
  | snapshot s => exact .snapshot ⟨fun _ => rfl, rfl, rfl, h.source _, rfl, fun _ => ⟨rfl, rfl⟩⟩
  | closed => exact .closed

theorem reply (r : Reply) : r.Mirrors K r :=
  ⟨rfl, rfl, Call.ordinary_of_isEmpty h.aside _, h.answer _⟩

/-- A stage goes with itself if its generation does. -/
theorem stage {s : Stage} (hg : ∀ g, s.generation? = some g → K.generation.Tied g g) :
    s.Mirrors K s := by
  cases s with
  | reply r => exact .reply (h.reply r)
  | register l c => exact .register (h.aside.1 _ _)
  | subscribe l c slot => exact .subscribe (h.aside.1 _ _) (h.aside.2 _)
  | enter s => exact .enter s
  | recompute k => exact .recompute (h.cause k)
  | leaveOffRoute => exact .leaveOffRoute
  | forgetTrip => exact .forgetTrip
  | announce k => exact .announce (h.tick (hg _ rfl))
  | ingest k => exact .ingest (h.tick (hg _ rfl))
  | ask k => exact .ask (h.tick (hg _ rfl))
  | conclude k answer => exact .conclude (h.tick (hg _ rfl)) answer
  | locate k s => exact .locate (h.tick (hg _ rfl)) s
  | flag k s => exact .flag (h.tick (hg _ rfl)) s
  | cue k s => exact .cue (h.tick (hg _ rfl)) s
  | report k s => exact .report (h.tick (hg _ rfl)) s
  | arrive k complete => exact .arrive (h.tick (hg _ rfl)) complete
  | tally k => exact .tally (h.tick (hg _ rfl))
  | proceed g => exact .proceed (hg g rfl)

/-- A worker goes with itself where the generations stand alike. -/
theorem worker (hg : K.generation = .zero) (w : Worker) : w.Mirrors K w := by
  have tied (g : Nat) : K.generation.Tied g g := hg ▸ Origins.tied_zero.mpr rfl
  have wait : w.wait.Mirrors K w.wait := by
    cases w.wait with
    | turn fix => exact .turn fix
    | status k asked ready deadline =>
      exact .status asked (h.tick (tied _)) (h.same_clock _) (h.same_clock _)
    | delivery => exact .delivery
    | beat => exact .beat
    | working => exact .working
    | ended => exact .ended
  have due : Option.Rel K.clock.Same w.due w.due := by
    cases w.due with
    | none => exact .none
    | some due => exact .some (h.same_clock due)
  exact ⟨hg ▸ Origins.since_zero _, rfl, rfl, due, wait⟩

end Comparison.Steady

namespace Trip

variable {t t' : Trip} {caller : Option Listener}

/-! ## Another count of generations -/

/-- The session with another count of generations, and another past. -/
def recounted (t : Trip) (generation : Nat) (log : List SessionEvent) : Trip :=
  { t with generation, dispatch := { t.dispatch with log } }

/-- **A session goes on with another count of generations as with the one it had**, if what is under
way is of earlier generations, or if the counts stand alike. -/
theorem mirrors_recounted {o : Origins} {g g' : Nat} (log log' : List SessionEvent)
    (since : o.Since g g')
    (stages : ∀ s, .owner s ∈ t.stack → ∀ g, s.generation? = some g → o.Tied g g)
    (idle : o = .zero ∨ t.worker = none) :
    (t.recounted g log).Mirrors { generation := o, past := log, past' := log' }
      (t.recounted g' log') := by
  have h : Comparison.Steady { generation := o, past := log, past' := log' } :=
    ⟨Bystanders.isEmpty_nobody, rfl, rfl, rfl⟩
  have frames : ∀ x ∈ t.stack, Frame.Mirrors
      (Comparison.mirror { generation := o, past := log, past' := log' })
      (fun _ => Pairing.same) x x := by
    intro x hx
    exact .refl h.aside h.cause fun s hs => h.stage (stages s (hs ▸ hx))
  exact {
    settings := rfl
    engine := rfl
    source := h.source _
    signal := rfl
    dispatch := .of_same h.aside (fun _ => rfl) rfl (List.forall₂_same.mpr frames) rfl rfl
    facts := rfl
    counters := rfl
    generation := since
    epoch := Origins.since_zero _
    worker := by
      show Option.Rel _ t.worker t.worker
      rcases idle with rfl | idle
      · cases t.worker with
        | none => exact .none
        | some w => exact .some (h.worker rfl w)
      · rw [idle]
        exact .none
    ticks := h.same_ticks _
    now := h.same_clock _
    closed := rfl }

/-- Whoever has the word finds no stage of the present generation on the stack, unless the worker
of that generation is running. -/
theorem Reaches.generation_of_stage {settings : Settings} {engine : Engine} {source : Source}
    {signal : Signal} {ms : List Move} (h : Reaches (.new settings engine source signal) ms t)
    (word : t.speaker = some caller) {s : Stage} (hs : .owner s ∈ t.stack) {g : Nat}
    (hg : s.generation? = some g) : g < t.generation ∨ t.outline.running = some g := by
  -- Below somebody who has the word, a stage of the worker is one of a tick.
  have tick (work : s.IsWork) : s.tick?.isSome := by
    obtain ⟨b, hl⟩ := h.laid rfl
    rcases (laid_of_speaker hl word).above_work hs work with
      ⟨hb, -⟩ | ⟨hb, -⟩ | ⟨_, _, _, k, -, hk, -⟩
    · cases hb
    · cases hb
    · simp [hk]
  have staged (k : Tick) (hk : s.tick? = some k) (hg : k.generation = g) :
      g < t.generation ∨ t.outline.running = some g :=
    hg ▸ h.manned k (h.sound.staged s k hs hk)
  cases s with
  | proceed g => exact absurd (tick (.inr ⟨g, rfl⟩)) Bool.false_ne_true
  | announce k | ingest k | ask k | conclude k | locate k | flag k | cue k | report k | arrive k
  | tally k => exact staged k rfl (Option.some.inj hg)
  | _ => cases hg

/-! ## Calls that come to nothing -/

/-- The calls that come to nothing, and the source as they leave it. -/
inductive Futile (t : Trip) : Call → Source → Prop
  /-- The source refuses to start. -/
  | refused {source : Source} {cause : PositioningError} (opened : t.closed = false)
      (idle : t.worker = none) (refuses : t.source.start t.now = (source, .error cause)) :
      Futile t .start source
  | alreadyStarted (running : t.worker.isSome = true) : Futile t .start t.source
  | alreadyStopped (idle : t.worker = none) : Futile t .stop t.source
  /-- The engine refuses the routes. -/
  | rejected {routes : List Route} {cause : EngineError}
      (rejects : t.engine.setRoutes routes = .error cause) : Futile t (.setRoutes routes) t.source

/-- A futile call changes the source at most, and the count of generations while no worker is
running. -/
theorem Futile.perform {c : Call} {source : Source} (h : Futile t c source) :
    ∃ g answer, t.perform c = { trip := { t with source, generation := g }, answer } ∧
      (g = t.generation ∨ g = t.generation + 1 ∧ t.worker = none) := by
  unfold Trip.perform
  split
  · cases h with
    | refused opened => simp_all
    | _ => exact ⟨t.generation, .closed, rfl, .inl rfl⟩
  · cases h with
    | @refused source cause opened idle refuses =>
      refine ⟨t.generation + 1, .refused (.positioning cause), ?_, .inr ⟨rfl, idle⟩⟩
      simp only [start, idle, Option.isSome_none, Bool.false_eq_true, ↓reduceIte,
        advanceGeneration, refuses]
    | alreadyStarted running =>
      refine ⟨t.generation, .done, ?_, .inl rfl⟩
      simp only [start, running, ↓reduceIte]
    | alreadyStopped idle =>
      have idle : t.worker.isSome = false := Option.isSome_eq_false_iff.mpr (by simp [idle])
      refine ⟨t.generation, .done, ?_, .inl rfl⟩
      simp only [stop, idle, Bool.false_eq_true, ↓reduceIte]
    | @rejected routes cause rejects =>
      refine ⟨t.generation, .refused (.engine cause), ?_, .inl rfl⟩
      simp only [setRoutes, rejects]

/-- **A futile call leaves no trace.** It is answered, and from there on the session has the future
it would have had without the call, with the source as the call has left it. -/
theorem futile_call_leaves_no_trace {settings : Settings} {engine : Engine} {source : Source}
    {signal : Signal} {ms : List Move} (h : Reaches (.new settings engine source signal) ms t)
    (word : t.speaker = some caller) {c : Call} {s : Source} (hf : Futile t c s) :
    ∃ answer t', (t.call caller c).tick? = some t' ∧
      t'.log = .owner (.replied ⟨caller, c, answer⟩) :: t.log ∧
      SameFuture .zero .zero { t with source := s } t' := by
  obtain ⟨g, answer, hperform, hg⟩ := hf.perform
  have htick : (t.call caller c).tick? = some (({ t with source := s } : Trip).recounted g
      (.owner (.replied ⟨caller, c, answer⟩) :: t.log)) := by
    have hcall : t.call caller c = ({ t with source := s, generation := g } : Trip).pushStages
        [.reply ⟨caller, c, answer⟩] := by
      simp only [call, hperform, List.nil_append]
    have top : (t.call caller c).stack = .owner (.reply ⟨caller, c, answer⟩) :: t.stack := by
      rw [hcall]
      rfl
    rw [tick?_of_owner top, hcall]
    rfl
  refine ⟨answer, _, htick, rfl, ?_⟩
  -- The generations stand apart after a start that is refused, and alike otherwise.
  obtain ⟨o, since, back, idle, early⟩ : ∃ o : Origins, o.Since t.generation g ∧
      o.swap.Since g t.generation ∧ (o = .zero ∨ t.worker = none) ∧
      ∀ n, n < t.generation ∨ t.outline.running = some n → o.Tied n n ∧ o.swap.Tied n n := by
    rcases hg with rfl | ⟨rfl, idle⟩
    · exact ⟨.zero, Origins.since_zero _, Origins.since_zero _, .inl rfl,
        fun n _ => ⟨Origins.tied_zero.mpr rfl, Origins.tied_zero.mpr rfl⟩⟩
    · refine ⟨⟨t.generation, t.generation + 1⟩, ⟨Nat.add_comm _ _, Nat.le_refl _⟩,
        ⟨Nat.add_comm _ _, Nat.le_refl _⟩, .inr idle, fun n hn => ?_⟩
      have hlt : n < t.generation := hn.resolve_right (by simp [outline, idle])
      exact ⟨.inr ⟨hlt, Nat.lt_succ_of_lt hlt⟩, .inr ⟨Nat.lt_succ_of_lt hlt, hlt⟩⟩
  have stages (s' : Stage) (hs' : .owner s' ∈ t.stack) (n : Nat) (hn : s'.generation? = some n) :=
    early n (h.generation_of_stage word hs' hn)
  have forth := mirrors_recounted (t := { t with source := s }) t.log
    (.owner (.replied ⟨caller, c, answer⟩) :: t.log) since
    (fun s' hs' n hn => (stages s' hs' n hn).1) idle
  have back := mirrors_recounted (t := { t with source := s })
    (.owner (.replied ⟨caller, c, answer⟩) :: t.log) t.log back
    (fun s' hs' n hn => (stages s' hs' n hn).2) (idle.imp (by rintro rfl; rfl) id)
  exact ⟨forth.follows rfl rfl rfl, back.follows rfl rfl rfl⟩

/-- An observer that is told in a tick that the session is off route stops it. When it is told that
the session is on route again, the source has been made to refuse its next start. -/
def stoppedWithin : Trip :=
  (play tick? move? 40 [.decide (.call .failNextStart)]
    (offRoute.call (some (.named "a")) .stop)).get rfl

/-- The observer's attempt to start the session again leaves no trace, though stages of the tick and
of the stop are still to come. -/
theorem futile_call_leaves_no_trace_off_route :
    (∃ ms, Reaches arrivingTrip ms stoppedWithin) ∧
      stoppedWithin.speaker = some (some (.named "a")) ∧ stoppedWithin.stack.length = 8 ∧
      ∃ answer t', (stoppedWithin.call (some (.named "a")) .start).tick? = some t' ∧
        t'.log = .owner (.replied ⟨some (.named "a"), .start, answer⟩) :: stoppedWithin.log ∧
        SameFuture .zero .zero
          { stoppedWithin with
            source := .manual { lastKnown := some sampleFix, starts := 1, stops := 1 } } t' := by
  obtain ⟨ms, h⟩ := reaches_offRoute
  have hword : offRoute.speaker = some (some (.named "a")) := rfl
  have hstopped :=
    reaches_of_runs (run_of_play (b := stoppedWithin) 40 (Option.some_get _).symm)
  have hreach := (h.trans (reaches_call hword .stop)).trans hstopped
  exact ⟨⟨_, hreach⟩, rfl, rfl, futile_call_leaves_no_trace hreach rfl (.refused rfl rfl rfl)⟩

end Trip
end LiveTrip
