import LiveTrip.Proofs.Run
import LiveTrip.Proofs.Session.Calls
import LiveTrip.Proofs.Session.Stages

/-!
# Steps of a session

* `Trip.Turn`: what a turn of the worker or the replay comes to.
* `Trip.Change`: what a step of a session changes, one case for each kind of step. Every invariant
  of a session is proved by cases on it.
* `Trip.Step`, `Trip.change_of_step`: a step, and that it is one of these changes.
* `Trip.Runs`, `Trip.Made`: runs built at their end, and the calls that were made on them.
* `Trip.Reaches.induct`, `Trip.Reaches.invariant`: induction on a run from its end.
* `Trip.exists_of_play`: a run that is played, of a session such as `Trip.scripted`.
-/

namespace LiveTrip.Trip

variable {t t' : Trip}

/-- What a turn of a task, or the passing of time, comes to. -/
inductive Turn (t : Trip) : Outcome → Prop
  /-- The first turn of a worker. -/
  | begins (g : Nat) (fix : Option Fix) (running : t.outline.running = some g) :
      Turn t
        { own := [.owner (.announce ⟨t.ticks, g, t.epoch, .locationOnly, fix⟩)]
          notes := [.ticked ⟨t.ticks, g, t.epoch, .locationOnly, fix⟩]
          outline := { t.outline with pending := none, ticks := t.ticks + 1 } }
  | concludes (k : Tick) (answer : Except EngineError Status)
      (asked : t.outline.pending = some k) :
      Turn t
        { own := [.owner (.conclude k answer)], outline := { t.outline with pending := none } }
  | proceeds (g : Nat) (roused : t.roused = some g) :
      Turn t { own := [.owner (.proceed g)], outline := { t.outline with pending := none } }
  /-- A fix is sent, or time passes. -/
  | waits (active : Bool) (ending : active = true → t.outline.active = true) :
      Turn t { outline := { t.outline with active } }

/-- What a step changes, with the call that is made in it if it is one. -/
inductive Change (t t' : Trip) : Option Call → Prop
  /-- A stage is run. -/
  | stage (s : Stage) (below : List SessionFrame) (o : Outcome) (top : t.stack = .owner s :: below)
      (goes : Goes t s o) (stack : t'.stack = o.told.toList.map (fun p => .fanout p.1 p.2) ++
        (o.own ++ below))
      (log : t'.log = o.told.toList.map (fun p => .began p.1 p.2) ++ (o.notes.map .owner ++ t.log))
      (outline : t'.outline = o.outline) : Change t t' none
  /-- A fan-out tells its value to the next listener. -/
  | deliver (f : SessionFanout) (id : ObserverId) (l : Listener)
      (rest : List (ObserverId × Listener)) (below : List SessionFrame)
      (top : t.stack = .fanout f ((id, l) :: rest) :: below)
      (stack : t'.stack = .acting f id l :: .fanout f rest :: below)
      (log : t'.log = .delivered f id l :: t.log) (outline : t'.outline = t.outline) :
      Change t t' none
  /-- Something that is no stage is over. -/
  | ends (x : SessionFrame) (below : List SessionFrame) (events : List SessionEvent)
      (top : t.stack = x :: below) (noStage : ∀ s, x ≠ .owner s)
      (told : ∀ f rest, x = .fanout f rest → rest = [])
      (stack : t'.stack = below) (log : t'.log = events ++ t.log)
      (failures : ∀ e ∈ events, ∃ f id l, e = .failed f id l) (outline : t'.outline = t.outline) :
      Change t t' none
  /-- Whoever has the word makes a call. -/
  | call (caller : Option Listener) (c : Call) (r : Reply) (stages : List Stage) (notes : List Note)
      (o : Outline) (word : t.speaker = some caller) (made : t' = t.call caller c)
      (performs : Performs t c stages notes o)
      (shows : Shows t t'
        { own := stages.map .owner ++ [.owner (.reply r)], notes, outline := o }) :
      Change t t' (some c)
  /-- Nothing is going on, and a task takes a turn. -/
  | turn (o : Outcome) (idle : t.stack = []) (turn : Turn t o) (shows : Shows t t' o) :
      Change t t' none

/-! ## What happens by itself -/

/-- A stage goes on as it does while it still stands on the stack. -/
theorem goes_of_pop {s : Stage} {o : Outcome} (h : Goes t.pop s o) : Goes t s o := by
  cases h
  case cueStale => exact .cueStale _ _ ‹_›
  all_goals constructor <;> assumption

/-- A listener is done with a value. -/
theorem change_of_finish {u : Trip} {f : SessionFanout} {id : ObserverId} {l : Listener}
    {below : List SessionFrame} (top : t.stack = .acting f id l :: below)
    (hd : u.dispatch = t.dispatch) (ho : u.outline = t.outline) :
    Change t (u.mapDispatch (·.finish)) none := by
  have hfinish : (u.mapDispatch (·.finish)).dispatch = { t.dispatch with stack := below } := by
    simp only [mapDispatch, hd]
    exact Dispatch.finish_eq top
  refine .ends (.acting f id l) below [] top (by simp) (by simp) ?_ ?_ (by simp) ho
  · simp only [stack, hfinish]
  · simp only [log, hfinish, List.nil_append]

/-- A listener fails over a value. -/
theorem change_of_fail {f : SessionFanout} {id : ObserverId} {l : Listener}
    {below : List SessionFrame} (top : t.stack = .acting f id l :: below) :
    Change t (t.mapDispatch (·.fail)) none := by
  have hfail := Dispatch.fail_eq top
  refine .ends (.acting f id l) below [.failed f id l] top (by simp) (by simp) ?_ ?_ (by simp) rfl
  · simp only [stack, mapDispatch, hfail]; rfl
  · simp only [log, mapDispatch, hfail]; rfl

theorem change_of_tick? (h : t.tick? = some t') : Change t t' none := by
  unfold tick? at h
  split at h
  · rename_i s below top
    cases h
    obtain ⟨o, hg, hs⟩ := run_goes t.pop s
    have hbelow : t.pop.stack = below := by simp [stack, top]
    exact .stage s below o top (goes_of_pop hg) (hbelow ▸ hs.stack) hs.log hs.outline
  · rename_i f id below top
    simp only [Option.some.injEq] at h
    subst h
    split
    · exact change_of_finish (u := { t with signal := _ }) top rfl rfl
    · exact change_of_finish top rfl rfl
  · obtain ⟨d, hd, rfl⟩ := Option.map_eq_some_iff.mp h
    obtain ⟨f, below, top, rfl⟩ | ⟨f, id, l, rest, below, top, rfl⟩ | ⟨slot, g, below, top, rfl⟩ :=
      Dispatch.advance?_cases hd
    · exact .ends _ below [] top (by simp) (fun f rest h => by cases h; rfl) rfl rfl (by simp) rfl
    · exact .deliver f id l rest below top rfl rfl rfl
    · obtain ⟨hs, hl, -⟩ := Dispatch.keep_alike { t.dispatch with stack := below } slot g
      exact .ends _ below [] top (by simp) (by simp) hs hl (by simp) rfl

/-! ## What is up to the outside -/

/-- The outside has the word while nothing is going on, a listener while it is at work. -/
theorem stack_of_speaker {caller : Option Listener} (h : t.speaker = some caller) :
    t.stack = [] ∨ ∃ f id l below, t.stack = .acting f id l :: below := by
  unfold speaker Dispatch.speaker at h
  cases hs : t.dispatch.stack with
  | nil => exact .inl hs
  | cons x below =>
    cases x with
    | acting f id l => exact .inr ⟨f, id, l, below, hs⟩
    | _ => simp [hs] at h

theorem acting_of_speaker {l : Listener} (h : t.speaker = some (some l)) :
    ∃ f id below, t.stack = .acting f id l :: below := by
  have hd : t.dispatch.speaker = some (some l) := by
    unfold speaker at h
    split at h
    · cases h
    · exact h
  exact Dispatch.acting_of_speaker hd

theorem change_of_decide? {d : Decision Call} (h : t.decide? d = some t') :
    ∃ made, Change t t' made ∧ ∀ c, made = some c → d = .call c := by
  unfold decide? at h
  split at h <;> cases h
  · rename_i caller c hw
    obtain ⟨r, stages, notes, o, hp, hs⟩ := call_performs t caller c
    exact ⟨_, .call caller c r stages notes o hw rfl hp hs, fun c' hc => by cases hc; rfl⟩
  · obtain ⟨f, id, below, top⟩ := acting_of_speaker ‹_›
    exact ⟨_, change_of_finish top rfl rfl, by simp⟩
  · obtain ⟨f, id, below, top⟩ := acting_of_speaker ‹_›
    exact ⟨_, change_of_fail top, by simp⟩

theorem stack_of_idle (h : t.idle = true) : t.stack = [] := List.isEmpty_iff.mp h

/-- A worker that takes a turn waits for nothing. -/
theorem shows_awake {w : Worker} (hw : t.worker = some w) :
    Shows t (t.mapWorker w.generation fun w => { w with wait := .working })
      { outline := { t.outline with pending := none } } := by
  have hmap : t.mapWorker w.generation (fun w => { w with wait := .working }) =
      { t with worker := some { w with wait := .working } } := by
    simp only [mapWorker, workerOf?_eq_some.mpr ⟨hw, rfl⟩]
  rw [hmap]
  refine ⟨rfl, rfl, ?_⟩
  simp [outline, hw, Worker.pending?]

theorem change_of_work? (h : t.work? = some t') : Change t t' none := by
  unfold work? at h
  split at h
  · rename_i hready
    obtain ⟨hidle, -⟩ := Bool.and_eq_true_iff.mp hready
    obtain ⟨w, hw, rfl⟩ := Option.map_eq_some_iff.mp h
    have hrun : t.outline.running = some w.generation := by simp [outline, hw]
    have hs := shows_awake hw
    unfold resume
    generalize t.mapWorker w.generation _ = awake at hs ⊢
    simp only
    split
    · exact .turn _ (stack_of_idle hidle) (.begins _ _ hrun) (hs.begin _ _ _)
    · rename_i k asked ready deadline hwait
      have hk : t.outline.pending = some k := by
        simp [outline, hw, Worker.pending?, hwait]
      split
      · have hcollect := hs.congr (u := { awake with engine := (awake.engine.collect asked).1 })
          rfl rfl
        exact .turn _ (stack_of_idle hidle) (.concludes k _ hk) (hcollect.pushStages _)
      · exact .turn _ (stack_of_idle hidle) (.concludes k _ hk) (hs.pushStages _)
    · rename_i hturn _
      have hroused : t.roused = some w.generation := by
        simp only [roused, hw, Option.bind_some]
      exact .turn _ (stack_of_idle hidle) (.proceeds _ hroused) (hs.pushStages _)
  · cases h

theorem replayRun?_eq_some {s : ReplaySource} {r : ReplayRun} (h : t.replayRun? = some (s, r)) :
    t.source = .replay s ∧ s.run = some r := by
  unfold replayRun? at h
  split at h
  · rename_i s' hs
    obtain ⟨r', hr, h⟩ := Option.map_eq_some_iff.mp h
    cases h
    exact ⟨hs, hr⟩
  · cases h

theorem change_of_replay? (h : t.replay? = some t') : Change t t' none := by
  unfold replay? at h
  split at h
  · rename_i hready
    obtain ⟨hidle, -⟩ := Bool.and_eq_true_iff.mp hready
    obtain ⟨⟨s, r⟩, hrun, rfl⟩ := Option.map_eq_some_iff.mp h
    obtain ⟨hs, hr⟩ := replayRun?_eq_some hrun
    have hactive : t.outline.active = true := by simp [outline, hs, Source.active, hr]
    cases hw : t.worker with
    | none =>
      exact .turn _ (stack_of_idle hidle)
        (.waits (s.send r { reading := false }).1.run.isSome fun _ => hactive)
        ⟨rfl, rfl, by simp [outline, hw, Source.active]⟩
    | some w =>
      exact .turn _ (stack_of_idle hidle)
        (.waits (s.send r w.line).1.run.isSome fun _ => hactive)
        ⟨rfl, rfl, by simp [outline, hw, Source.active, Worker.pending?]⟩
  · cases h

theorem change_of_elapse? {later : Nat} (h : t.elapse? later = some t') :
    Change t t' none := by
  unfold elapse? at h
  split at h
  · rename_i hready
    obtain ⟨hidle, -⟩ := Bool.and_eq_true_iff.mp hready
    cases h
    exact .turn _ (stack_of_idle hidle) (.waits t.outline.active id) ⟨rfl, rfl, rfl⟩
  · cases h

/-! ## Runs -/

/-- A step of a session. -/
inductive Step (t t' : Trip) : Prop
  | tick (h : t.tick? = some t')
  | move (m : Move) (h : t.move? m = some t')

theorem change_of_move? {m : Move} (h : t.move? m = some t') :
    ∃ made, Change t t' made ∧ ∀ c, made = some c → m = .decide (.call c) := by
  cases m with
  | decide d =>
    obtain ⟨made, hc, hd⟩ := change_of_decide? h
    exact ⟨made, hc, fun c hm => by rw [hd c hm]⟩
  | work => exact ⟨_, change_of_work? h, by simp⟩
  | replay => exact ⟨_, change_of_replay? h, by simp⟩
  | elapse later => exact ⟨_, change_of_elapse? h, by simp⟩

/-- **A step of a session is one of the changes.** -/
theorem change_of_step (h : Step t t') : ∃ made, Change t t' made := by
  cases h with
  | tick h => exact ⟨_, change_of_tick? h⟩
  | move m h =>
    obtain ⟨made, hc, -⟩ := change_of_move? h
    exact ⟨made, hc⟩

/-- The runs of a session, built at their end. -/
abbrev Runs : Trip → List Move → Trip → Prop := ComputedRun tick? move?

theorem Reaches.trans {a b c : Trip} {ms ns : List Move} (h : Reaches a ms b)
    (h' : Reaches b ns c) : Reaches a (ms ++ ns) c := by
  induction h with
  | refl => exact h'
  | tick hs _ ih => exact .tick hs (ih h')
  | move hs _ ih => exact .move hs (ih h')

theorem Reaches.runs {a b : Trip} {ms : List Move} (h : Reaches a ms b) : Runs a ms b := by
  induction h with
  | refl => exact .refl
  | tick hs _ ih => exact (Run.silent (.refl : Runs _ _ _) hs).trans ih
  | move hs _ ih => exact (Run.act (.refl : Runs _ _ _) hs).trans ih

theorem reaches_of_runs {a b : Trip} {ms : List Move} (h : Runs a ms b) : Reaches a ms b := by
  induction h with
  | refl => exact .refl a
  | silent _ hs ih => simpa using ih.trans (.tick hs (.refl _))
  | act _ hs ih => exact ih.trans (.move hs (.refl _))

/-- A property of runs that every step keeps, by induction on the run from its end. -/
theorem Reaches.induct {t₀ : Trip} {P : List Move → Trip → Prop} (h₀ : P [] t₀)
    (tick : ∀ ms t t', Reaches t₀ ms t → P ms t → t.tick? = some t' → P ms t')
    (move : ∀ ms m t t', Reaches t₀ ms t → P ms t → t.move? m = some t' → P (ms ++ [m]) t')
    {ms : List Move} {t : Trip} (h : Reaches t₀ ms t) : P ms t := by
  have hr := h.runs
  clear h
  induction hr with
  | refl => exact h₀
  | silent hr hs ih => exact tick _ _ _ (reaches_of_runs hr) ih hs
  | act hr hs ih => exact move _ _ _ _ (reaches_of_runs hr) ih hs

/-- What every change keeps holds at the end of a run. -/
theorem Reaches.invariant {t₀ : Trip} {P : Trip → Prop}
    (hs : ∀ ms t t' made, Reaches t₀ ms t → P t → Change t t' made → P t') {ms : List Move}
    {t : Trip} (h : Reaches t₀ ms t) (h₀ : P t₀) : P t :=
  h.induct (P := fun _ => P) h₀
    (fun _ _ _ hr hp hstep => hs _ _ _ _ hr hp (change_of_tick? hstep))
    fun _ _ _ _ hr hp hstep => by
      obtain ⟨made, hc, -⟩ := change_of_move? hstep
      exact hs _ _ _ made hr hp hc

/-- Whoever has the word may make a call. -/
theorem reaches_call {a : Trip} {caller : Option Listener} (hw : a.speaker = some caller)
    (c : Call) : Reaches a [.decide (.call c)] (a.call caller c) :=
  .move (by simp only [move?, decide?, hw]) (.refl _)

/-- On the run by `ms` from `t₀` to `t`, the call `c` was made when the trip was `a`. -/
def Made (t₀ : Trip) (ms : List Move) (t a : Trip) (caller : Option Listener) (c : Call) : Prop :=
  ∃ before after, ms = before ++ .decide (.call c) :: after ∧ Reaches t₀ before a ∧
    a.speaker = some caller ∧ Reaches (a.call caller c) after t

/-- A call that was made stays made. -/
theorem Made.trans {t₀ a b : Trip} {ms ns : List Move} {caller : Option Listener} {c : Call}
    (h : Made t₀ ms t a caller c) (hr : Reaches t ns b) : Made t₀ (ms ++ ns) b a caller c := by
  obtain ⟨before, after, rfl, ha, hw, ht⟩ := h
  exact ⟨before, after ++ ns, by simp, ha, hw, ht.trans hr⟩

/-- A call that is made now. -/
theorem made_call {t₀ a : Trip} {ms : List Move} {caller : Option Listener} {c : Call}
    (h : Reaches t₀ ms a) (hw : a.speaker = some caller) :
    Made t₀ (ms ++ [.decide (.call c)]) (a.call caller c) a caller c :=
  ⟨ms, [], rfl, h, hw, .refl _⟩

/-! ## Runs that are played -/

/-- What is played is a run, and what can be seen at its end holds there. -/
theorem exists_of_play (fuel : Nat) (a : Trip) (ms : List Move) {p : Trip → Bool}
    (h : (play tick? move? fuel ms a).any p = true) : ∃ b, Reaches a ms b ∧ p b = true := by
  obtain ⟨b, hb, hp⟩ := (Option.any_eq_true _ _).mp h
  exact ⟨b, reaches_of_runs (run_of_play fuel hb), hp⟩

/-- A session without an observer, on an engine that gives these answers at once, after a first
status that fails because no fix is known. -/
def scripted (statuses : List Status) : Trip :=
  .new {} (.scripted { script :=
    { answer := .error (.status "none") } :: statuses.map fun s => { answer := .ok s } })
    (.manual {}) .none

/-- A fix, and the location that it is matched to. -/
def sampleFix : Fix := { point := ⟨0, 0⟩, timestamp := 5 }

def sampleLocation : MatchedLocation := { point := ⟨0, 0⟩, bearing := 0, timestamp := 5 }

end LiveTrip.Trip
