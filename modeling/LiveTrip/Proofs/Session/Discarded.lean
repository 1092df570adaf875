import LiveTrip.Proofs.Session.Tolls
import LiveTrip.Proofs.Session.TripData

/-!
# What a tick does once it is stale

An observer may let the worker go when a tick tells it something. What is left of the tick compares
its generation before it tells anything more and before it marks an arrival, but not before it
smooths the congestion ahead.

* `Trip.Data`: what queries tell of a session, but for counters of ticks, stale results and
  failures.
* `Trip.data_run_of_stale`, `Trip.data_report_of_stale`: what stages of a stale tick do to it.
* `Frame.IsOf`, `Trip.Takes.data`: what any step of a stale tick does.
* `Trip.HaltedWithin`: the worker was let go from inside a fan-out of a tick.
* `Trip.Timely`: what is left to do of a tick after its location is of the present generation, or the
  worker was let go from inside it. `Trip.Reaches.timely`: this holds on every run.
* `Trip.stale_tick_smooths_iff_halted_within`: the whole account.
-/

namespace LiveTrip

/-- The counters but for those of ticks, of stale results and of failures. -/
def Counters.lasting (c : Counters) : Counters :=
  { c with
    ticks := 0, staleDiscarded := 0, ingestionFailures := 0, statusFailures := 0
    observerFailures := 0 }

/-- The frame is of the tick: one of its stages, or something that it tells. -/
inductive Frame.IsOf (k : Tick) : SessionFrame → Prop
  | stage {s : Stage} (tick : s.tick? = some k) : IsOf k (.owner s)
  | derives : IsOf k (.owner (.recompute (.tick k.number)))
  /-- The tick is over, and its worker goes on. -/
  | proceeds : IsOf k (.owner (.proceed k.generation))
  | fanout {f : SessionFanout} {rest : List (ObserverId × Listener)}
      (cause : f.cause = .tick k.number) : IsOf k (.fanout f rest)
  | acting {f : SessionFanout} {id : ObserverId} {l : Listener}
      (cause : f.cause = .tick k.number) : IsOf k (.acting f id l)

namespace Trip

variable {t t' t₀ : Trip} {made : Option Call} {ms ns : List Move} {k : Tick}

/-! ## What queries tell -/

/-- What queries tell of a session, but for its counters of ticks, of stale results and of
failures. -/
structure Data where
  facts : Facts
  counters : Counters
  registries : (c : Category) → Registry Listener c.Value

def data (t : Trip) : Data where
  facts := t.facts
  counters := t.metrics.lasting
  registries c := { t.dispatch.registry c with failures := 0 }

theorem data_congr (facts : t'.facts = t.facts)
    (counters : t'.counters.lasting = t.counters.lasting)
    (registries : ∀ c, ({ t'.dispatch.registry c with failures := 0 } : Registry _ _) =
      { t.dispatch.registry c with failures := 0 }) : t'.data = t.data := by
  have hcounters : t'.metrics.lasting = t.metrics.lasting := counters
  simp only [data, facts, hcounters, funext registries]

@[simp] theorem data_mapWorker (t : Trip) (g : Nat) (f : Worker → Worker) :
    (t.mapWorker g f).data = t.data := by
  unfold mapWorker; split <;> rfl

theorem data_ask (t : Trip) (k : Tick) : (t.ask k).data = t.data := by
  have h := asks t k
  generalize t.ask k = u at h ⊢
  cases h with
  | orphaned | answered => rfl
  | waits => exact (data_mapWorker _ _ _).trans rfl

theorem data_finish (t : Trip) : (t.mapDispatch (·.finish)).data = t.data := by
  simp only [mapDispatch, Dispatch.finish]
  split <;> rfl

/-- A failure is counted, and that is all. -/
theorem data_fail (t : Trip) : (t.mapDispatch (·.fail)).data = t.data := by
  refine data_congr rfl rfl fun c => ?_
  simp only [mapDispatch, Dispatch.fail]
  split
  · rename_i f id l below _
    exact Dispatch.forall_registry_setRegistry (d := t.dispatch)
      (r := (t.dispatch.registry f.category).countFailure)
      (P := fun c r => ({ r with failures := 0 } : Registry _ _) =
        { t.dispatch.registry c with failures := 0 }) rfl (fun _ => rfl) c
  · rfl

/-! ## Stages of a stale tick -/

/-- Stages of a stale tick leave the data alone, unless progress is reported. -/
theorem data_run_of_stale {s : Stage} (hs : s.tick? = some k) (stale : t.current k = false)
    (unreported : ∀ status, s ≠ .report k status) : (t.run s).data = t.data := by
  cases s with
  | reply | register | subscribe | enter | recompute | leaveOffRoute | forgetTrip | proceed =>
    cases hs
  | announce =>
    cases hs
    cases hfix : k.fix with
    | none => simp only [run, hfix]; rfl
    | some fix =>
      have hpushed : (t.pushStages [.ingest k]).current k = false := stale
      simp only [run, hfix, Option.isSome_some, ↓reduceIte, hpushed, Bool.false_eq_true]
      rfl
  | ingest =>
    cases hs
    simp only [run]
    split
    · split <;> rfl
    · rfl
  | ask => exact data_ask t _
  | conclude k answer =>
    cases answer with
    | ok => rfl
    | error =>
      simp only [run]
      split <;> rfl
  | locate | flag | arrive =>
    cases hs
    simp only [run, stale, Bool.false_eq_true, ↓reduceIte]
    rfl
  | cue _ s =>
    cases hs
    simp only [run]
    split
    · rfl
    · cases s.cues with
      | none => rfl
      | some =>
        simp only [stale, Bool.false_eq_true, ↓reduceIte]
        rfl
  | report _ status =>
    cases hs
    exact absurd rfl (unreported status)
  | tally => rfl

/-- The pass that a report comes to: the numbers of the route and of its leg, and the leg as the pass
leaves it. -/
def passOf? (t : Trip) (s : Status) : Option (Nat × Nat × Leg) :=
  s.progress.bind fun report => (t.pass? report).map fun p => (p.1, report.leg, p.2)

/-- The data after a pass: one leg is changed, and the pass is counted. -/
def Data.passed (d : Data) (p : Nat × Nat × Leg) : Data :=
  { d with
    facts := { d.facts with routes := withLeg d.facts.routes p.1 p.2.1 p.2.2 }
    counters := { d.counters with blends := d.counters.blends + 1 } }

theorem table_report_of_stale (stale : t.current k = false) (s : Status) :
    (t.run (.report k s)).dispatch.table = t.dispatch.table := by
  have h := reports t k s
  generalize t.run (.report k s) = u at h ⊢
  cases h with
  | nothing => rfl
  | unknown report | stale report => exact table_progress t report s.tracking
  | tells _ _ _ _ current => rw [stale] at current; cases current

/-- **A report of a stale tick tells nothing, but takes its pass in.** -/
theorem data_report_of_stale (stale : t.current k = false) (s : Status) :
    (t.run (.report k s)).data = (t.passOf? s).elim t.data t.data.passed := by
  have hregistries (c : Category) :
      (t.run (.report k s)).dispatch.registry c = t.dispatch.registry c := by
    simp only [Dispatch.registry, table_report_of_stale stale s]
  have hdata : (t.run (.report k s)).data = { t.data with
      facts := { t.facts with routes := s.progress.elim t.facts.routes t.smoothed }
      counters := { t.data.counters with
        blends := t.counters.blends + (t.blended (.report k s)).toNat } } := by
    have hcounters : (t.run (.report k s)).metrics.lasting =
        (t.counters + t.toll (.report k s)).lasting := by
      rw [← counters_run]; rfl
    simp only [data, facts_report, hcounters, hregistries]
    rfl
  rw [hdata, passOf?, blended]
  cases s.progress with
  | none => rfl
  | some report =>
    simp only [Option.bind_some, Option.any_some, Option.elim_some, smoothed]
    cases t.pass? report <;> rfl

/-! ## Steps of a stale tick -/

/-- The worker of a stale tick has been let go. -/
theorem workerOf?_of_stale (sound : Sound t) (stale : k.generation < t.generation) :
    t.workerOf? k.generation = none := by
  cases hw : t.workerOf? k.generation with
  | none => rfl
  | some w =>
    obtain ⟨hw, hg⟩ := workerOf?_eq_some.mp hw
    have := sound.running w.generation (by rw [outline, hw]; rfl)
    omega

/-- **A step of a stale tick in which no observer makes a call leaves the data alone, but for a pass
that it takes in.** -/
theorem Takes.data (h : Takes t ns t') (sound : Sound t) (ticked : Ticked t k)
    (stale : k.generation < t.generation) (silent : ∀ c, ns ≠ [.decide (.call c)])
    {x : SessionFrame} {below : List SessionFrame} (top : t.stack = x :: below) (own : x.IsOf k) :
    (∃ s, x = .owner (.report k s) ∧ t'.data = (t.passOf? s).elim t.data t.data.passed) ∨
      (∀ s, x ≠ .owner (.report k s)) ∧ t'.data = t.data := by
  have hstale : t.pop.current k = false := decide_eq_false (Nat.ne_of_gt stale)
  cases h with
  | tick h =>
    unfold tick? at h
    split at h
    · rename_i s below' top'
      cases h
      obtain ⟨rfl, rfl⟩ : x = .owner s ∧ below = below' :=
        List.cons_eq_cons.mp (top.symm.trans top')
      by_cases hreport : ∃ status, s = .report k status
      · obtain ⟨status, rfl⟩ := hreport
        exact .inl ⟨status, rfl, data_report_of_stale hstale status⟩
      · have hno (status : Status) : s ≠ .report k status := fun hs => hreport ⟨status, hs⟩
        refine .inr ⟨fun status hs => hno status (by simpa using hs), ?_⟩
        cases own with
        | stage tick => exact data_run_of_stale tick hstale hno
        | derives =>
          obtain ⟨k', hk', hn, hg⟩ := sound.derived _ _ top
          obtain rfl := sound.distinct k' k hk' ticked hn
          omega
        | proceeds =>
          have hnone : t.pop.workerOf? k.generation = none :=
            workerOf?_of_stale (t := t) sound stale
          simp only [run, proceed, hnone]
          rfl
    · rename_i f id below' top'
      cases h
      obtain ⟨rfl, rfl⟩ := List.cons_eq_cons.mp (top.symm.trans top')
      refine .inr ⟨by simp, (data_finish _).trans ?_⟩
      split <;> rfl
    · rename_i hno _
      obtain ⟨d, hd, rfl⟩ := Option.map_eq_some_iff.mp h
      have hne (s : Status) : x ≠ .owner (.report k s) := fun hx => hno _ below (hx ▸ top)
      refine .inr ⟨hne, ?_⟩
      obtain ⟨f, below', -, rfl⟩ | ⟨f, id, l, rest, below', -, rfl⟩ |
          ⟨slot, g, below', top', rfl⟩ :=
        Dispatch.advance?_cases hd
      · rfl
      · rfl
      · obtain ⟨rfl, -⟩ := List.cons_eq_cons.mp (top.symm.trans top')
        cases own
  | @move _ m h =>
    have hne (s : Status) : x ≠ .owner (.report k s) := by
      rintro rfl
      rw [move?_of_owner top] at h
      cases h
    refine .inr ⟨hne, ?_⟩
    have busy : t.idle = false := by
      cases hidle : t.idle with
      | false => rfl
      | true => rw [stack_of_idle hidle] at top; cases top
    cases m with
    | decide d =>
      have h : t.decide? d = some t' := h
      unfold decide? at h
      split at h <;> cases h
      · exact absurd rfl (silent _)
      · exact data_finish t
      · exact data_fail t
    | work | replay | elapse => simp [move?, work?, replay?, elapse?, busy] at h

/-! ## The worker is let go -/

/-- The call lets the running worker go. -/
def LetsGo (t : Trip) (c : Call) : Prop := (c = .stop ∨ c = .close) ∧ t.worker.isSome = true

/-- On the run by `ms` from `t₀` to `t`, an observer that was told something of these categories by
the tick let the worker go. -/
def HaltedWithin (t₀ : Trip) (ms : List Move) (t : Trip) (k : Tick) (cs : List Category) : Prop :=
  ∃ a caller c f rest, Made t₀ ms t a caller c ∧ LetsGo a c ∧ .fanout f rest ∈ a.stack ∧
    f.cause = .tick k.number ∧ f.category ∈ cs

theorem HaltedWithin.trans {cs : List Category} (h : HaltedWithin t₀ ms t k cs)
    (hr : Reaches t ns t') : HaltedWithin t₀ (ms ++ ns) t' k cs := by
  obtain ⟨a, caller, c, f, rest, hm, h⟩ := h
  exact ⟨a, caller, c, f, rest, hm.trans hr, h⟩

/-- A session of which the worker is let go is of the next generation. -/
theorem generation_of_letsGo {c : Call} (hopen : t.closed = false) (h : LetsGo t c)
    (caller : Option Listener) : (t.call caller c).generation = t.generation + 1 := by
  obtain ⟨rfl | rfl, running⟩ := h
  · have hperform : t.perform .stop = t.stop := by simp [perform, hopen]
    show (t.perform .stop).trip.generation = _
    simp only [hperform, stop, running, ↓reduceIte]
    rfl
  · have hperform : t.perform .close = t.close := by simp [perform, hopen]
    show (t.perform .close).trip.generation = _
    simp only [hperform, close, running, ↓reduceIte]
    rfl

/-- While its worker is running, a session comes to another generation when the worker is let go, and
at no other time. -/
theorem Change.generation (h : Change t t' made) (running : t.worker.isSome = true) :
    t'.generation = t.generation ∨ ∃ caller c, made = some c ∧ t.speaker = some caller ∧
      t' = t.call caller c ∧ LetsGo t c := by
  cases h with
  | stage s below o top goes stack log outline =>
    obtain ⟨pending, ticks, state, arrived, ho, -⟩ := goes.outline_of
    rw [ho] at outline
    exact .inl (congrArg Outline.generation outline)
  | deliver _ _ _ _ _ _ _ _ outline => exact .inl (congrArg Outline.generation outline)
  | ends _ _ _ _ _ _ _ _ _ outline => exact .inl (congrArg Outline.generation outline)
  | call caller c r stages notes o word hmade performs shows =>
    have hgeneration : t'.generation = o.generation := congrArg Outline.generation shows.outline
    cases performs with
    | refused _ idle | starts _ idle => rw [idle] at running; cases running
    | stops => exact .inr ⟨caller, .stop, rfl, word, hmade, .inl rfl, running⟩
    | closes => exact .inr ⟨caller, .close, rfl, word, hmade, .inr rfl, running⟩
    | _ => exact .inl hgeneration
  | turn o idle turn shows =>
    have hgeneration : t'.generation = o.outline.generation :=
      congrArg Outline.generation shows.outline
    cases turn <;> exact .inl hgeneration

/-- A worker let go while a stage of a tick waits on the stack is let go by an observer of what the
tick has told right before. -/
theorem haltedWithin_of_call (hr : Reaches t₀ ms t) (hl : ∃ b, Laid b t.stack) {s : Stage}
    (hs : .owner s ∈ t.stack) (hk : s.tick? = some k) {caller : Option Listener} {c : Call}
    (word : t.speaker = some caller) (letsGo : LetsGo t c) :
    HaltedWithin t₀ (ms ++ [.decide (.call c)]) (t.call caller c) k s.after := by
  obtain ⟨b, hl⟩ := hl
  obtain ⟨hb, -⟩ | ⟨hb, -⟩ | ⟨upper, f, rest, k', hst, hk', hf, hcat⟩ :=
    (laid_of_speaker hl word).above_work hs (Stage.isWork_of_tick? hk)
  · cases hb
  · cases hb
  · rw [hk] at hk'
    cases hk'
    exact ⟨t, caller, c, f, rest, made_call hr word, letsGo, by rw [hst]; simp, hf, hcat⟩

/-! ## What is left to do in time -/

/-- The worker was let go from inside the tick after the last time that its generation is compared
before the congestion ahead is smoothed. -/
def HaltedUnseen (t₀ : Trip) (ms : List Move) (t : Trip) (k : Tick) (s : Status) : Prop :=
  HaltedWithin t₀ ms t k [.instructionCues] ∨ s.cues = none ∧ HaltedWithin t₀ ms t k [.offRoute]

theorem HaltedUnseen.trans {s : Status} (h : HaltedUnseen t₀ ms t k s) (hr : Reaches t ns t') :
    HaltedUnseen t₀ (ms ++ ns) t' k s :=
  h.imp (·.trans hr) (And.imp_right (·.trans hr))

/-- What is left to do of a tick between the off-route flag and the progress is of the present
generation, or an observer of it has let the worker go. -/
structure Timely (t₀ : Trip) (ms : List Move) (t : Trip) : Prop where
  cue : ∀ k s, .owner (.cue k s) ∈ t.stack →
    k.generation = t.generation ∨ HaltedWithin t₀ ms t k [.offRoute]
  report : ∀ k s, .owner (.report k s) ∈ t.stack →
    k.generation = t.generation ∨ HaltedUnseen t₀ ms t k s

theorem Takes.change (h : Takes t ns t') :
    ∃ made, Change t t' made ∧ ∀ c, made = some c → ns = [.decide (.call c)] := by
  cases h with
  | tick h => exact ⟨none, change_of_tick? h, by simp⟩
  | move h =>
    obtain ⟨made, hc, hm⟩ := change_of_move? h
    exact ⟨made, hc, fun c h => by rw [hm c h]⟩

/-- What was of the present generation still is after a step, unless an observer of the tick lets the
worker go in it. -/
theorem Takes.keeps_generation (h : Takes t ns t') (hr : Reaches t₀ ms t)
    (hl : ∃ b, Laid b t.stack) (sound : Sound t) (manned : Manned t) {s : Stage}
    (hs : .owner s ∈ t.stack) (hk : s.tick? = some k) (current : k.generation = t.generation) :
    k.generation = t'.generation ∨ HaltedWithin t₀ (ms ++ ns) t' k s.after := by
  have running : t.worker.isSome = true := by
    have hrun := (manned k (sound.staged s k hs hk)).resolve_left (by omega)
    exact Option.isSome_map .. ▸ Option.isSome_of_eq_some hrun
  obtain ⟨made, hc, hm⟩ := h.change
  rcases hc.generation running with hg | ⟨caller, c, rfl, word, rfl, letsGo⟩
  · exact .inl (current.trans hg.symm)
  · rw [hm c rfl]
    exact .inr (haltedWithin_of_call hr hl hs hk word letsGo)

/-- Cues come after the flag of their tick. -/
theorem Goes.flag_of_cue {s' : Stage} {o : Outcome} {s : Status} (h : Goes t s' o)
    (hs : .owner (.cue k s) ∈ o.own) : s' = .flag k s := by
  cases h with
  | flags | flagged =>
    cases List.mem_singleton.mp hs
    rfl
  | locates k' =>
    have := List.mem_singleton.mp hs
    by_cases hscope : k'.scope = .full <;> simp [hscope] at this
  | _ => simp at hs

/-- A report comes after the cues of its tick. -/
theorem Goes.cue_of_report {s' : Stage} {o : Outcome} {s : Status} (h : Goes t s' o)
    (hs : .owner (.report k s) ∈ o.own) : s' = .cue k s := by
  cases h with
  | cues | cued =>
    cases List.mem_singleton.mp hs
    rfl
  | locates k' =>
    have := List.mem_singleton.mp hs
    by_cases hscope : k'.scope = .full <;> simp [hscope] at this
  | _ => simp at hs

theorem run_flag_of_stale (stale : t.current k = false) (s : Status) :
    t.run (.flag k s) = t.discard.pushStages [.tally k] := by
  simp only [run, stale, Bool.false_eq_true, ↓reduceIte]

/-- Where there are no cues, the generation is not compared. -/
theorem run_cue_of_stale (stale : t.current k = false) {s : Status} (hcues : s.cues ≠ none) :
    t.run (.cue k s) = t.discard.pushStages [.tally k] := by
  simp only [run]
  split
  · rfl
  · cases h : s.cues with
    | none => exact absurd h hcues
    | some => simp only [stale, Bool.false_eq_true, ↓reduceIte]

/-- A tick that is dropped leaves nothing to do but its tally. -/
theorem mem_of_dropped {s : Stage} (hs : .owner s ∈ (t.pop.discard.pushStages [.tally k]).stack) :
    s = .tally k ∨ .owner s ∈ t.stack := by
  rcases List.mem_cons.mp hs with h | h
  · exact .inl (by simpa using h)
  · exact .inr (List.mem_of_mem_tail h)

theorem Timely.step (h : Timely t₀ ms t) (taken : Takes t ns t') (hr : Reaches t₀ ms t)
    (hl : ∃ b, Laid b t.stack) (sound : Sound t) (manned : Manned t) :
    Timely t₀ (ms ++ ns) t' := by
  obtain ⟨made, hc, -⟩ := taken.change
  have hn : Reaches t ns t' := taken.reaches
  have generation {s : Stage} {o : Outcome} (goes : Goes t s o) (ho : t'.outline = o.outline) :
      t'.generation = t.generation := by
    obtain ⟨_, _, _, _, hout, -⟩ := goes.outline_of
    exact congrArg Outline.generation (ho.trans hout)
  refine ⟨?_, ?_⟩
  · intro k s hs
    by_cases hold : .owner (.cue k s) ∈ t.stack
    · rcases h.cue k s hold with current | halted
      · exact taken.keeps_generation hr hl sound manned hold rfl current
      · exact .inr (halted.trans hn)
    rcases hc.work_cases hs (.inl rfl) with
      hs' | ⟨s', below, o, top, goes, hs', -, ho⟩ | ⟨o, turn, hs', -⟩
    · exact absurd hs' hold
    · obtain rfl := goes.flag_of_cue hs'
      cases hcurrent : t.current k with
      | true => exact .inl ((of_decide_eq_true hcurrent).symm.trans (generation goes ho).symm)
      | false =>
        rw [taken.step.eq_of_top top, run_flag_of_stale (t := t.pop) hcurrent] at hs
        exact absurd ((mem_of_dropped hs).resolve_left (by simp)) hold
    · have := turn.own_of hs'
      simp at this
  · intro k s hs
    by_cases hold : .owner (.report k s) ∈ t.stack
    · rcases h.report k s hold with current | halted
      · exact (taken.keeps_generation hr hl sound manned hold rfl current).imp_right .inl
      · exact .inr (halted.trans hn)
    rcases hc.work_cases hs (.inl rfl) with
      hs' | ⟨s', below, o, top, goes, hs', -, ho⟩ | ⟨o, turn, hs', -⟩
    · exact absurd hs' hold
    · obtain rfl := goes.cue_of_report hs'
      cases hcurrent : t.current k with
      | true => exact .inl ((of_decide_eq_true hcurrent).symm.trans (generation goes ho).symm)
      | false =>
        have hcues : s.cues = none := by
          refine Classical.byContradiction fun hcues => hold ?_
          rw [taken.step.eq_of_top top, run_cue_of_stale (t := t.pop) hcurrent hcues] at hs
          exact (mem_of_dropped hs).resolve_left (by simp)
        have hstale : k.generation ≠ t.generation := fun hg => by
          simp [current, hg] at hcurrent
        exact .inr (.inr ⟨hcues, ((h.cue k s (by rw [top]; simp)).resolve_left hstale).trans hn⟩)
    · have := turn.own_of hs'
      simp at this

/-- A report of a stale tick leaves the tally to do. -/
theorem stack_report_of_stale (stale : t.current k = false) (s : Status) :
    (t.run (.report k s)).stack = .owner (.tally k) :: t.stack := by
  obtain ⟨o, goes, shows⟩ := run_goes t (.report k s)
  cases goes with
  | unreported => exact shows.stack
  | reports _ _ _ _ _ _ _ _ current => rw [current] at stale; cases stale

/-- A pass that is taken in changes the congestion of a route. -/
theorem congestion_of_passed {s : Status} {p : Nat × Nat × Leg} (h : t.passOf? s = some p) :
    (t.data.passed p).facts.routes.map Route.congestion ≠ t.facts.routes.map Route.congestion := by
  obtain ⟨report, -, h⟩ := Option.bind_eq_some_iff.mp h
  obtain ⟨⟨i, leg⟩, hpass, rfl⟩ := Option.map_eq_some_iff.mp h
  have hsmoothed : (t.data.passed (i, report.leg, leg)).facts.routes = t.smoothed report := by
    simp only [smoothed, hpass]
    rfl
  rw [hsmoothed, ne_eq, smoothed_eq_iff, hpass]
  exact Option.some_ne_none _

/-! ## The whole account -/

variable {settings : Settings} {engine : Engine} {source : Source} {signal : Signal}

/-- **On every run, what is left to do of a tick is timely.** -/
theorem Reaches.timely (h : Reaches (.new settings engine source signal) ms t) :
    Timely (.new settings engine source signal) ms t := by
  have step {ms ns : List Move} {t t' : Trip}
      (hr : Reaches (.new settings engine source signal) ms t)
      (ih : Timely (.new settings engine source signal) ms t) (taken : Takes t ns t') :=
    ih.step taken hr (hr.laid rfl) hr.sound hr.manned
  refine h.induct ⟨fun _ _ hs => (by cases hs), fun _ _ hs => (by cases hs)⟩ ?_ ?_
  · intro ms t t' hr ih hs
    simpa using step hr ih (.tick hs)
  · intro ms m t t' hr ih hs
    exact step hr ih (.move hs)

/-- A tick from inside of which the worker was let go is stale. -/
theorem HaltedWithin.generation_lt {cs : List Category}
    (h : HaltedWithin (.new settings engine source signal) ms t k cs)
    (hr : Reaches (.new settings engine source signal) ms t) (ticked : Ticked t k) :
    k.generation < t.generation := by
  obtain ⟨a, caller, c, f, rest, ⟨before, after, -, ha, word, hb⟩, letsGo, hf, hc, -⟩ := h
  obtain ⟨b, hl⟩ := ha.laid rfl
  obtain ⟨upper, s, k', hst, hk', hn, -⟩ := hl.below_tick hf hc
  have hka : Ticked a k' := ha.sound.staged s k' (by rw [hst]; simp) hk'
  obtain rfl := hr.sound.distinct k' k (((reaches_call word _).trans hb).ticked hka) ticked hn
  have hopen : a.closed = false := by
    refine Bool.eq_false_iff.mpr fun hclosed => ?_
    have := letsGo.2
    rw [ha.idle_of_closed hclosed] at this
    cases this
  have hbefore := ha.sound.generation k' hka
  have hafter := hb.le.1
  rw [generation_of_letsGo hopen letsGo caller] at hafter
  omega

/-- **Once the worker is let go, what is left of its tick changes nothing that queries tell but
counters of ticks, stale results and failures, unless it smooths the congestion ahead.** It comes to
that just when an observer has let the worker go while it was told the cues or, if there are none,
the off-route flag. Then the congestion of one leg may change, which is counted, and no more. -/
theorem stale_tick_smooths_iff_halted_within
    (h : Reaches (.new settings engine source signal) ms t) (taken : Takes t ns t')
    (ticked : Ticked t k) (silent : ∀ c, ns ≠ [.decide (.call c)]) {x : SessionFrame}
    {below : List SessionFrame} (top : t.stack = x :: below) (own : x.IsOf k) :
    (k.generation < t.generation → (∀ s p, x = .owner (.report k s) → t.passOf? s ≠ some p) →
      t'.data = t.data) ∧
    ∀ s, x = .owner (.report k s) →
      (k.generation < t.generation ↔
        HaltedUnseen (.new settings engine source signal) ms t k s) ∧
      (k.generation < t.generation → ∀ p, t.passOf? s = some p →
        t'.data = t.data.passed p ∧ t'.stack = [.owner (.tally k)] ∧
          t'.facts.routes.map Route.congestion ≠ t.facts.routes.map Route.congestion) := by
  refine ⟨fun stale hno => ?_, ?_⟩
  · rcases taken.data h.sound ticked stale silent top own with ⟨s, rfl, hdata⟩ | ⟨-, hdata⟩
    · cases hp : t.passOf? s with
      | none => rw [hdata, hp]; rfl
      | some p => exact absurd hp (hno s p rfl)
    · exact hdata
  · rintro s rfl
    refine ⟨⟨fun stale => ?_, ?_⟩, fun stale p hp => ?_⟩
    · refine (h.timely.report k s (by rw [top]; exact List.mem_cons_self)).resolve_left ?_
      omega
    · rintro (halted | ⟨-, halted⟩) <;> exact halted.generation_lt h ticked
    · have hstale : t.pop.current k = false := decide_eq_false (Nat.ne_of_gt stale)
      have hdata : t'.data = t.data.passed p := by
        rcases taken.data h.sound ticked stale silent top own with ⟨s', hs, hdata⟩ | ⟨hno, -⟩
        · cases hs
          rw [hdata, hp]
          rfl
        · exact absurd rfl (hno s)
      have hbelow : below = [] := by
        obtain ⟨b, hl⟩ := h.laid rfl
        rw [top] at hl
        cases hl with
        | work => rfl
        | own own => cases own
      refine ⟨hdata, ?_, ?_⟩
      · rw [taken.step.eq_of_top top, stack_report_of_stale hstale]
        show _ :: t.stack.tail = _
        rw [top, hbelow]
        rfl
      · have hroutes : t'.facts = (t.data.passed p).facts := congrArg Data.facts hdata
        rw [hroutes]
        exact congestion_of_passed hp

/-- A stale tick is about to smooth the congestion ahead. -/
def smoothsStale (t : Trip) : Bool :=
  match t.stack with
  | .owner (.report k s) :: _ => k.generation < t.generation && (t.passOf? s).isSome
  | _ => false

theorem of_smoothsStale (h : t.smoothsStale = true) :
    ∃ k s p below, t.stack = .owner (.report k s) :: below ∧ k.generation < t.generation ∧
      t.passOf? s = some p := by
  unfold smoothsStale at h
  split at h
  · rename_i k s below top
    simp only [Bool.and_eq_true, decide_eq_true_eq] at h
    obtain ⟨p, hp⟩ := Option.isSome_iff_exists.mp h.2
    exact ⟨k, s, p, below, top, h.1, hp⟩
  · cases h

/-- A session with a live signal that is off route in its first tick, without cues. -/
def strayingTrip : Trip :=
  .new {} (.scripted { script := [{ answer := .error (.status "none") },
    { answer := .ok {
        location := sampleLocation, tracking := .offRoute
        progress := some ⟨"r", 0, 0, 0, 0, 0, 0⟩ } }] })
    (.manual {}) (.readings [some 90])

/-- An observer that stops the session when it is told that it is off route does not keep the tick
from smoothing the congestion of the route. -/
theorem stale_tick_smooths_of_stopped_off_route :
    ∃ ms t t' k s p, Reaches strayingTrip ms t ∧ Takes t [] t' ∧ Ticked t k ∧
      k.generation < t.generation ∧ HaltedUnseen strayingTrip ms t k s ∧
      t.passOf? s = some p ∧ t'.data = t.data.passed p ∧
      t'.facts.routes.map Route.congestion ≠ t.facts.routes.map Route.congestion := by
  obtain ⟨b, hb, hp⟩ := exists_of_play 60 strayingTrip
    [.decide (.call (.setRoutes [{ id := "r", legs := [{ congestion := [10, 10] }] }])),
      .decide (.call (.observe (.named "a") .offRoute)), .decide (.call .start),
      .decide (.call (.push sampleFix)), .work, .decide (.call .stop), .decide .finish]
    (p := fun b => (((b.move? (.decide .finish)).bind tick?).bind tick?).any fun t =>
      t.smoothsStale && t.tick?.isSome) rfl
  obtain ⟨t, hbt, ht⟩ := (Option.any_eq_true _ _).mp hp
  obtain ⟨d, hbd, hdt⟩ := Option.bind_eq_some_iff.mp hbt
  obtain ⟨c, hbc, hcd⟩ := Option.bind_eq_some_iff.mp hbd
  obtain ⟨hstale, hnext⟩ := Bool.and_eq_true_iff.mp ht
  obtain ⟨t', hs⟩ := Option.isSome_iff_exists.mp hnext
  obtain ⟨k, s, p, below, top, stale, hpass⟩ := of_smoothsStale hstale
  have h := hb.trans (.move hbc (.tick hcd (.tick hdt (.refl t))))
  have ticked : Ticked t k := h.sound.staged _ k (by rw [top]; exact List.mem_cons_self) rfl
  obtain ⟨halted, hdata⟩ := (stale_tick_smooths_iff_halted_within h (.tick hs) ticked (by simp) top
    (.stage rfl)).2 s rfl
  obtain ⟨hdata, -, hroutes⟩ := hdata stale p hpass
  exact ⟨_, t, t', k, s, p, h, .tick hs, ticked, stale, halted.mp stale, hpass, hdata, hroutes⟩

end Trip
end LiveTrip
