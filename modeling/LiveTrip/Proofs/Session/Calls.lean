import LiveTrip.Proofs.Dispatch.Steps
import LiveTrip.Proofs.Session.Outline

/-!
# What each call comes to

* `Trip.Performs`: the ways a call can go, with what was checked before it: the stages it leaves to
  do, what it notes, and the outline after it.
* `Trip.perform_performs`: a call that is made goes one of these ways.
* `Trip.call_performs`: its stages go on the stack, and its answer below them.
-/

namespace LiveTrip.Trip

/-- A stage of a call that has nothing to do with the lifecycle. -/
def IsTelling (s : Stage) : Prop :=
  s = .recompute .call ∨ (∃ l c, s = .register l c) ∨ ∃ l c slot, s = .subscribe l c slot

/-- The call does nothing that the outline says anything of: it is none of the lifecycle, the routes
and the guidance, or it comes too late or too early, or is refused. -/
def Spares (t : Trip) : Call → Prop
  | .start => t.closed = true ∨ t.worker.isSome = true
  | .stop => t.closed = true ∨ t.worker = none
  | .close | .setGuidance _ => t.closed = true
  | .setRoutes routes => t.closed = true ∨ ∃ e, t.engine.setRoutes routes = .error e
  | _ => True

theorem spares_of_closed {t : Trip} (h : t.closed = true) (c : Call) : Spares t c := by
  cases c with
  | start | stop | setRoutes => exact .inl h
  | close | setGuidance => exact h
  | _ => trivial

/-- The ways a call can go. -/
inductive Performs (t : Trip) : Call → List Stage → List Note → Outline → Prop
  /-- The source refuses to start. -/
  | refused (opened : t.closed = false) (idle : t.worker = none) :
      Performs t .start [] [] { t.outline with generation := t.generation + 1 }
  | starts (opened : t.closed = false) (idle : t.worker = none) :
      Performs t .start [.enter .started, .recompute .call] [.started (t.generation + 1)]
        { t.outline with
          generation := t.generation + 1, running := some (t.generation + 1), pending := none
          active := true }
  | stops (opened : t.closed = false) (running : t.worker.isSome = true) :
      Performs t .stop [.leaveOffRoute, .forgetTrip, .enter .stopped] [.stopped t.generation]
        { t.outline with
          generation := t.generation + 1, running := none, pending := none, active := false }
  | closes (opened : t.closed = false) (running : t.worker.isSome = true) :
      Performs t .close [] [.stopped t.generation]
        { t.outline with
          generation := t.generation + 1, running := none, pending := none, active := false
          closed := true }
  | closesIdle (opened : t.closed = false) (idle : t.worker = none) :
      Performs t .close [] [] { t.outline with closed := true }
  | routes (routes : List Route) (engine : Engine) (opened : t.closed = false)
      (accepted : t.engine.setRoutes routes = .ok engine) :
      Performs t (.setRoutes routes) [.recompute .call] []
        { t.outline with epoch := t.epoch + 1, arrived := false }
  | guides (on : Bool) (opened : t.closed = false) :
      Performs t (.setGuidance on) [.recompute .call] []
        { t.outline with arrived := t.facts.arrived && on }
  /-- Nothing changes that the outline says, but that the source may end by itself. -/
  | others (c : Call) (stages : List Stage) (notes : List Note) (active : Bool)
      (spares : Spares t c) (telling : ∀ s ∈ stages, IsTelling s)
      (quiet : ∀ n ∈ notes, ∃ g d, n = .sent g d)
      (ending : active = true → t.outline.active = true) :
      Performs t c stages notes { t.outline with active }

variable {t t' : Trip}

/-! ## Starting and stopping -/

/-- A source that has started is at work; one that refuses is as before. -/
theorem active_of_start {s s' : Source} {now : Nat} {answer : Except PositioningError Unit}
    (h : s.start now = (s', answer)) :
    match answer with
    | .ok _ => s'.active = true
    | .error _ => s'.active = s.active := by
  cases s with
  | manual m =>
    by_cases hf : m.failing = true
    · simp only [Source.start, ManualSource.start, hf] at h
      cases h
      rfl
    · simp only [Source.start, ManualSource.start, hf] at h
      cases h
      rfl
  | replay p =>
    by_cases hf : p.fixes.isEmpty = true
    · simp only [Source.start, ReplaySource.start, hf] at h
      cases h
      rfl
    · simp only [Source.start, ReplaySource.start, hf] at h
      cases h
      rfl

theorem active_stop (s : Source) : s.stop.active = false := by
  cases s <;> rfl

/-! ## Calls that the outline says nothing of -/

/-- Nothing has happened to the stack, the log and the outline, and stages may be left to do. -/
theorem performs_of_alike {c : Call} {stages : List Stage} (hc : Spares t c)
    (hd : Dispatch.Alike t.dispatch t'.dispatch) (ho : t'.outline = t.outline)
    (telling : ∀ s ∈ stages, IsTelling s) :
    ∃ notes o, Performs t c stages notes o ∧ Shows t t' { notes, outline := o } :=
  ⟨[], _, .others c stages [] t.outline.active hc telling (List.forall_mem_nil _) id,
    hd.1, hd.2.1, ho⟩

/-- The call changes nothing. -/
theorem performs_same {c : Call} (hc : Spares t c) :
    ∃ notes o, Performs t c [] notes o ∧ Shows t t { notes, outline := o } :=
  performs_of_alike hc ⟨rfl, rfl, rfl⟩ rfl (List.forall_mem_nil _)

/-- What is done to a source that is told what to do leaves it as active as it was, or ends it. -/
theorem performs_mapManual {c : Call} (hc : Spares t c) {f : ManualSource → ManualSource}
    (hf : ∀ m, (f m).running = true → m.running = true) :
    ∃ notes o, Performs t c [] notes o ∧ Shows t (t.mapManual f) { notes, outline := o } := by
  refine ⟨[], _, .others c [] [] (t.mapManual f).source.active hc (List.forall_mem_nil _)
    (List.forall_mem_nil _) ?_, ?_⟩
  · show _ → t.source.active = true
    unfold mapManual
    split
    · rename_i m hm; rw [hm]; exact hf m
    · exact id
  · unfold mapManual
    split <;> exact ⟨rfl, rfl, rfl⟩

/-- A source remembers a fix. -/
theorem shows_know (t : Trip) (fix : Fix) :
    Shows t (t.mapManual (·.know (some fix))) { outline := t.outline } := by
  unfold mapManual
  split
  · rename_i m hm
    refine ⟨rfl, rfl, ?_⟩
    simp [outline, hm, Source.active, ManualSource.know]
  · exact .refl t

/-- Something is sent down the line, or there is nobody to read it. -/
theorem performs_send {c : Call} (hc : Spares t c) (h : Shows t t' { outline := t.outline })
    (d : Delivery) :
    ∃ notes o, Performs t c [] notes o ∧ Shows t (t'.send d).1 { notes, outline := o } := by
  have same : ∃ notes o, Performs t c [] notes o ∧ Shows t t' { notes, outline := o } :=
    ⟨[], _, .others c [] [] t.outline.active hc (List.forall_mem_nil _) (List.forall_mem_nil _) id,
      h⟩
  unfold send
  split
  · rename_i m w hm hw
    split
    · split
      · rename_i line hline
        refine ⟨[.sent w.generation d], _, .others c [] _ t.outline.active hc
          (List.forall_mem_nil _) ?_ id, ?_⟩
        · intro n hn; exact ⟨_, _, List.mem_singleton.mp hn⟩
        · have hsent : Shows t { t' with worker := some { w with line } }
              { outline := t.outline } := by
            refine ⟨h.stack, h.log, ?_⟩
            rw [← h.outline]
            simp [outline, hw, Worker.pending?]
          exact hsent.note _
      · exact same
    · exact same
  · exact same

/-! ## Each call -/

theorem start_performs (opened : t.closed = false) :
    ∃ notes o, Performs t .start t.start.stages notes o ∧
      Shows t t.start.trip { notes, outline := o } := by
  cases hw : t.worker with
  | some w =>
    simp only [start, hw, Option.isSome_some, ↓reduceIte]
    exact performs_same (.inr (by simp [hw]))
  | none =>
    rcases hs : t.source.start t.now with ⟨source, answer⟩
    have hactive := active_of_start hs
    have hs' : t.advanceGeneration.source.start t.advanceGeneration.now = (source, answer) := hs
    simp only [start, hw, Option.isSome_none, Bool.false_eq_true, ↓reduceIte, hs']
    cases answer with
    | error cause =>
      refine ⟨_, _, .refused opened hw, rfl, rfl, ?_⟩
      simp [outline, advanceGeneration, hactive]
    | ok _ =>
      refine ⟨_, _, .starts opened hw, rfl, rfl, ?_⟩
      simp [outline, advanceGeneration, spawn, count, Trip.note, mapDispatch, Worker.pending?,
        hactive]

theorem shows_halt (t : Trip) :
    Shows t t.halt
      { notes := [.stopped t.generation]
        outline := { t.outline with
          generation := t.generation + 1, running := none, pending := none
          active := false } } := by
  refine ⟨rfl, rfl, ?_⟩
  simp [outline, halt, advanceGeneration, Trip.note, mapDispatch, active_stop]

theorem stop_performs (opened : t.closed = false) :
    ∃ notes o, Performs t .stop t.stop.stages notes o ∧
      Shows t t.stop.trip { notes, outline := o } := by
  unfold stop
  split
  · exact ⟨_, _, .stops opened ‹_›, shows_halt t⟩
  · rename_i hw
    exact performs_same (.inr (by simpa using hw))

theorem close_performs (opened : t.closed = false) :
    ∃ notes o, Performs t .close t.close.stages notes o ∧
      Shows t t.close.trip { notes, outline := o } := by
  unfold close
  split
  · have h := shows_halt t
    exact ⟨_, _, .closes opened ‹_›, h.stack, h.log,
      congrArg (fun o => { o with closed := true }) h.outline⟩
  · rename_i hw
    exact ⟨_, _, .closesIdle opened (by simpa using hw), rfl, rfl, rfl⟩

theorem setRoutes_performs (opened : t.closed = false) (routes : List Route) :
    ∃ notes o, Performs t (.setRoutes routes) (t.setRoutes routes).stages notes o ∧
      Shows t (t.setRoutes routes).trip { notes, outline := o } := by
  unfold setRoutes
  split
  · exact performs_same (.inr ⟨_, ‹_›⟩)
  · exact ⟨_, _, .routes routes _ opened ‹_›, rfl, rfl, rfl⟩

theorem haltSource_performs (t : Trip) :
    ∃ notes o, Performs t .haltSource [] notes o ∧
      Shows t t.haltSource { notes, outline := o } := by
  obtain ⟨notes, o, hp, hs⟩ := performs_mapManual (t := t)
    (c := .haltSource) trivial (f := (·.stop)) (by simp [ManualSource.stop])
  refine ⟨notes, o, hp, ?_⟩
  simp only [haltSource]
  split
  · rename_i m w hm hw
    refine ⟨hs.stack, hs.log, ?_⟩
    rw [← hs.outline]
    simp [outline, hm, hw, Worker.pending?]
  · exact hs

/-- **A call that is made goes one of its ways.** -/
theorem perform_performs (t : Trip) (c : Call) :
    ∃ notes o, Performs t c (t.perform c).stages notes o ∧
      Shows t (t.perform c).trip { notes, outline := o } := by
  unfold perform
  split
  · rename_i hclosed
    exact performs_same (spares_of_closed (Bool.and_eq_true_iff.mp hclosed).1 c)
  · rename_i hopen
    have opened : c.onSession = true → t.closed = false := by
      intro hc
      simpa [hc] using hopen
    cases c with
    | start => exact start_performs (opened rfl)
    | stop => exact stop_performs (opened rfl)
    | close => exact close_performs (opened rfl)
    | setRoutes routes => exact setRoutes_performs (opened rfl) routes
    | setGuidance on => exact ⟨_, _, .guides on (opened rfl), rfl, rfl, rfl⟩
    | setDestination point =>
      exact performs_of_alike trivial ⟨rfl, rfl, rfl⟩ rfl (by simp [IsTelling, setDestination])
    | observe l c => exact performs_of_alike trivial ⟨rfl, rfl, rfl⟩ rfl (by simp [IsTelling])
    | unobserve l c =>
      exact performs_of_alike trivial (t.dispatch.unregisterObserver_alike c l) rfl
        (List.forall_mem_nil _)
    | subscribe l c slot =>
      exact performs_of_alike trivial ⟨rfl, rfl, rfl⟩ rfl (by simp [IsTelling])
    | release slot =>
      exact performs_of_alike trivial (t.dispatch.release_alike slot) rfl (List.forall_mem_nil _)
    | detach slot => exact performs_of_alike trivial ⟨rfl, rfl, rfl⟩ rfl (List.forall_mem_nil _)
    | query => exact performs_same trivial
    | control c => exact performs_of_alike trivial ⟨rfl, rfl, rfl⟩ rfl (List.forall_mem_nil _)
    | push fix => exact performs_send (c := .push fix) trivial (shows_know t fix) (.ok fix)
    | pushError cause =>
      exact performs_send (c := .pushError cause) trivial (.refl t) (.error cause)
    | setLastKnown fix => exact performs_mapManual (c := .setLastKnown fix) trivial fun _ => id
    | failNextStart => exact performs_mapManual (c := .failNextStart) trivial fun _ => id
    | haltSource => exact haltSource_performs t

/-- **A call puts its stages on the stack, and its answer below them.** -/
theorem call_performs (t : Trip) (caller : Option Listener) (c : Call) :
    ∃ r stages notes o, Performs t c stages notes o ∧
      Shows t (t.call caller c)
        { own := stages.map .owner ++ [.owner (.reply r)], notes, outline := o } := by
  obtain ⟨notes, o, hp, hs⟩ := perform_performs t c
  refine ⟨⟨caller, c, (t.perform c).answer⟩, _, notes, o, hp, ?_⟩
  have := hs.pushStages ((t.perform c).stages ++ [.reply ⟨caller, c, (t.perform c).answer⟩])
  rw [List.map_append, List.append_nil] at this
  exact this

end LiveTrip.Trip
