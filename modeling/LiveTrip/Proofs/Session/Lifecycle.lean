import LiveTrip.Proofs.Session.Ticks

/-!
# The worker and the lifecycle

A worker runs while the session is started, unless it was started by an observer that was told of
the end of the trip by a stop: that stop goes on to enter the stopped state.

* `Trip.Stopping`: a stop has still to enter the stopped state.
* `Trip.nominal`: the lifecycle state, or the one that a start is about to enter.
* `Trip.Lives`, `Trip.Change.lives`: what a step does to the lifecycle, one case for each way.
* `Trip.runningIn`: the worker that is running, as the log has it.
* `Trip.Followed`: what becomes of a worker after the start that made it.
* `Trip.started_iff_not_stopping`: the whole account.
-/

namespace LiveTrip.Trip

variable {t t' : Trip} {made : Option Call}

/-- A stop has still to enter the stopped state. -/
def Stopping (t : Trip) : Prop := .owner (.enter .stopped) ∈ t.stack

/-- The lifecycle state, or the one that a start is about to enter. -/
def nominal (t : Trip) : SessionState :=
  match t.stack with
  | .owner (.enter .started) :: _ => .started
  | _ => t.facts.state

/-- A start enters its state at once. -/
def Prompt (t : Trip) : Prop := .owner (.enter .started) ∉ t.stack.tail

theorem nominal_of_not_mem (h : .owner (.enter .started) ∉ t.stack) :
    t.nominal = t.facts.state := by
  unfold nominal
  split
  · rename_i hs
    rw [hs] at h
    exact absurd List.mem_cons_self h
  · rfl

/-! ## What a step does to the lifecycle -/

/-- What a step does to the lifecycle. -/
inductive Lives (t t' : Trip) : Prop
  | keeps (nominal : t'.nominal = t.nominal) (stopping : Stopping t' ↔ Stopping t)
      (running : t'.outline.running = t.outline.running) (closed : t'.closed = t.closed)
  /-- A stop enters its state. -/
  | ends (was : Stopping t) (nominal : t'.nominal = .stopped)
      (running : t'.outline.running = t.outline.running) (closed : t'.closed = t.closed)
  | starts (idle : t.worker = none) (nominal : t'.nominal = .started)
      (stopping : Stopping t' ↔ Stopping t)
      (running : t'.outline.running = some (t.generation + 1)) (closed : t'.closed = t.closed)
  | stops (stopping : Stopping t') (running : t'.outline.running = none)
      (closed : t'.closed = t.closed)
  /-- The session is given up. -/
  | closes (closed : t'.closed = true) (running : t'.outline.running = none)

/-- Only calls put entries of the lifecycle on the stack. -/
theorem Goes.enter_not_mem {s : Stage} {o : Outcome} (h : Goes t s o) (x : SessionState) :
    .owner (.enter x) ∉ o.own := by
  cases h with
  | locates k s => by_cases hk : k.scope = .full <;> simp [hk]
  | _ => simp

/-- Nothing on the stack is about the lifecycle, and the state and the worker stay as they are. -/
theorem lives_of_state (hp : Prompt t) (top : ∀ below, t.stack ≠ .owner (.enter .started) :: below)
    (hnew : .owner (.enter .started) ∉ t'.stack) (stopping : Stopping t' ↔ Stopping t)
    (state : t'.facts.state = t.facts.state) (running : t'.outline.running = t.outline.running)
    (closed : t'.closed = t.closed) : Lives t t' := by
  have hold : .owner (.enter .started) ∉ t.stack := by
    cases hs : t.stack with
    | nil => simp
    | cons x below =>
      have htail : .owner (.enter .started) ∉ below := by
        have := hp
        rwa [Prompt, hs] at this
      intro h
      rcases List.mem_cons.mp h with rfl | h
      · exact top below hs
      · exact htail h
  refine .keeps ?_ stopping running closed
  rw [nominal_of_not_mem hnew, nominal_of_not_mem hold, state]

/-- A stage of the lifecycle enters its state; other stages leave the lifecycle alone. -/
theorem lives_of_stage (hp : Prompt t) {s : Stage} {below : List SessionFrame} {o : Outcome}
    (top : t.stack = .owner s :: below) (goes : Goes t s o)
    (stack : t'.stack = o.told.toList.map (fun p => .fanout p.1 p.2) ++ (o.own ++ below))
    (outline : t'.outline = o.outline) :
    .owner (.enter .started) ∉ t'.stack ∧ Lives t t' := by
  obtain ⟨pending, ticks, state, arrived, ho, -, -, hstate, -⟩ := goes.outline_of
  rw [ho] at outline
  have hrun : t'.outline.running = t.outline.running := by rw [outline]
  have hclosed : t'.closed = t.closed := congrArg Outline.closed outline
  have hstate' : t'.facts.state = state := congrArg Outline.state outline
  have hmem (x : SessionState) : .owner (.enter x) ∈ t'.stack ↔ .owner (.enter x) ∈ below := by
    rw [stack]
    simp [goes.enter_not_mem x]
  have hbelow : .owner (.enter .started) ∉ below := by
    rwa [Prompt, top] at hp
  have hnew : .owner (.enter .started) ∉ t'.stack := by rwa [hmem]
  refine ⟨hnew, ?_⟩
  rcases hstate with ⟨hs, rfl⟩ | rfl
  · refine lives_of_state hp ?_ hnew ?_ hstate' hrun hclosed
    · intro below' htop
      rw [top] at htop
      cases htop
      exact hs _ rfl
    · rw [Stopping, Stopping, hmem, top]
      simpa using fun h => absurd h.symm (hs _)
  · cases state with
    | stopped =>
      refine .ends ?_ ?_ hrun hclosed
      · rw [Stopping, top]; exact List.mem_cons_self
      · rw [nominal_of_not_mem hnew, hstate']
    | started =>
      refine .keeps ?_ ?_ hrun hclosed
      · rw [nominal_of_not_mem hnew, hstate', nominal, top]
      · rw [Stopping, Stopping, hmem, top]
        simp

/-- A call that starts the session enters its state next, one that stops it does so later, and other
calls leave the lifecycle alone. -/
theorem lives_of_call {caller : Option Listener} {c : Call} {r : Reply} {stages : List Stage}
    {notes : List Note} {o : Outline} (hp : Prompt t) (word : t.speaker = some caller)
    (performs : Performs t c stages notes o)
    (shows : Shows t t' { own := stages.map .owner ++ [.owner (.reply r)], notes, outline := o }) :
    Prompt t' ∧ Lives t t' := by
  have hstack : t'.stack = stages.map .owner ++ .owner (.reply r) :: t.stack := by
    rw [shows.stack]; simp
  have hold : .owner (.enter .started) ∉ t.stack := by
    rcases stack_of_speaker word with hs | ⟨f, id, l, below, hs⟩
    · rw [hs]; simp
    · rw [Prompt, hs] at hp
      rw [hs]
      simpa using hp
  -- Where the call has no stage of the lifecycle, nothing changes in that respect.
  have other (hs : ∀ x, .enter x ∉ stages) (running : o.running = t.outline.running)
      (state : o.state = t.facts.state) (closed : o.closed = t.closed) :
      Prompt t' ∧ Lives t t' := by
    have hmem (x : SessionState) : .owner (.enter x) ∈ t'.stack ↔ .owner (.enter x) ∈ t.stack := by
      rw [hstack]
      simp [hs x]
    have hnew : .owner (.enter .started) ∉ t'.stack := by rwa [hmem]
    refine ⟨fun h => hnew (List.mem_of_mem_tail h), ?_⟩
    refine lives_of_state hp ?_ hnew (hmem _) ?_ (by rw [shows.outline]; exact running)
      ((congrArg Outline.closed shows.outline).trans closed)
    · intro below htop
      rw [htop] at hold
      exact hold List.mem_cons_self
    · exact (congrArg Outline.state shows.outline).trans state
  cases performs with
  | starts opened idle =>
    refine ⟨?_, .starts idle ?_ ?_ ?_ ?_⟩
    · rw [Prompt, hstack]; simpa using hold
    · rw [nominal, hstack]; rfl
    · rw [Stopping, Stopping, hstack]; simp
    · rw [shows.outline]
    · exact congrArg Outline.closed shows.outline
  | stops opened running =>
    refine ⟨?_, .stops ?_ ?_ ?_⟩
    · rw [Prompt, hstack]; simpa using hold
    · rw [Stopping, hstack]; simp
    · rw [shows.outline]
    · exact congrArg Outline.closed shows.outline
  | closes opened running =>
    refine ⟨?_, .closes (congrArg Outline.closed shows.outline) (by rw [shows.outline])⟩
    rw [Prompt, hstack]
    simpa using hold
  | closesIdle opened idle =>
    refine ⟨?_, .closes (congrArg Outline.closed shows.outline) ?_⟩
    · rw [Prompt, hstack]; simpa using hold
    · rw [shows.outline]; simp [outline, idle]
  | refused | routes | guides => exact other (by simp) rfl rfl rfl
  | others c stages notes active _ telling =>
    refine other (fun x hx => ?_) rfl rfl rfl
    rcases telling _ hx with h | ⟨l, c, h⟩ | ⟨l, c, slot, h⟩ <;> cases h

/-- **What a step does to the lifecycle.** -/
theorem Change.lives (h : Change t t' made) (hp : Prompt t) : Prompt t' ∧ Lives t t' := by
  -- Nothing is entered where no stage is run and no call is made.
  have other {x : SessionFrame} {below : List SessionFrame} (top : t.stack = x :: below)
      (hx : ∀ s, x ≠ .owner s)
      (hmem : ∀ y, .owner (.enter y) ∈ t'.stack ↔ .owner (.enter y) ∈ below)
      (outline : t'.outline = t.outline) : Prompt t' ∧ Lives t t' := by
    have hold : .owner (.enter .started) ∉ below := by rwa [Prompt, top] at hp
    have hnew : .owner (.enter .started) ∉ t'.stack := by rwa [hmem]
    refine ⟨fun h => hnew (List.mem_of_mem_tail h), ?_⟩
    refine lives_of_state hp ?_ hnew ?_ (congrArg Outline.state outline) (by rw [outline])
      (congrArg Outline.closed outline)
    · intro below' htop
      rw [top] at htop
      cases htop
      exact hx _ rfl
    · rw [Stopping, Stopping, hmem, top]
      simpa using fun h => absurd h.symm (hx _)
  cases h with
  | stage s below o top goes stack log outline =>
    obtain ⟨hnew, hl⟩ := lives_of_stage hp top goes stack outline
    exact ⟨fun h => hnew (List.mem_of_mem_tail h), hl⟩
  | deliver f id l rest below top stack log outline =>
    exact other top (by simp) (by simp [stack]) outline
  | ends x below events top noStage _ stack log _ outline =>
    exact other top noStage (by simp [stack]) outline
  | call caller c r stages notes o word hmade performs shows =>
    exact lives_of_call hp word performs shows
  | turn o idle turn shows =>
    have hnew (x : SessionState) : .owner (.enter x) ∉ t'.stack := by
      rw [shows.stack, idle]
      cases turn <;> simp
    refine ⟨fun h => hnew _ (List.mem_of_mem_tail h), ?_⟩
    have ho := shows.outline
    refine lives_of_state hp (by simp [idle]) (hnew _) ?_ ?_ ?_ ?_
    · exact iff_of_false (hnew _) (by simp [Stopping, idle])
    · cases turn <;> exact congrArg Outline.state ho
    · cases turn <;> rw [ho]
    · cases turn <;> exact congrArg Outline.closed ho

/-! ## The worker in the log -/

/-- The generation with which the source was last started, if it has not been told to stop since. A
log has its last event first. -/
def runningIn : List SessionEvent → Option Nat
  | [] => none
  | .owner (.started g) :: _ => some g
  | .owner (.stopped _) :: _ => none
  | _ :: log => runningIn log

theorem runningIn_cons {e : SessionEvent} (hs : ∀ g, e ≠ .owner (.started g))
    (hp : ∀ g, e ≠ .owner (.stopped g)) (log : List SessionEvent) :
    runningIn (e :: log) = runningIn log := by
  cases e with
  | owner n =>
    cases n with
    | started g => exact absurd rfl (hs g)
    | stopped g => exact absurd rfl (hp g)
    | _ => rfl
  | _ => rfl

theorem runningIn_append {events log : List SessionEvent}
    (hs : ∀ g, .owner (.started g) ∉ events) (hp : ∀ g, .owner (.stopped g) ∉ events) :
    runningIn (events ++ log) = runningIn log := by
  induction events with
  | nil => rfl
  | cons e events ih =>
    rw [List.cons_append, runningIn_cons]
    · exact ih (fun g h => hs g (List.mem_cons_of_mem _ h))
        fun g h => hp g (List.mem_cons_of_mem _ h)
    · rintro g rfl; exact hs g List.mem_cons_self
    · rintro g rfl; exact hp g List.mem_cons_self

/-- The log goes on to say which worker is running. -/
theorem Change.runningIn (h : Change t t' made) (hr : runningIn t.log = t.outline.running) :
    runningIn t'.log = t'.outline.running := by
  cases h with
  | stage s below o top goes stack log outline =>
    obtain ⟨pending, ticks, state, arrived, ho, -⟩ := goes.outline_of
    rw [log, outline, ho, ← List.append_assoc, runningIn_append, hr]
    · intro g hg
      exact (goes.notes_of (n := .started g) (by simpa using hg)).2.1 g rfl
    · intro g hg
      exact (goes.notes_of (n := .stopped g) (by simpa using hg)).2.2 g rfl
  | deliver f id l rest below top stack log outline =>
    rw [log, outline]
    exact hr
  | ends x below events top _ _ stack log failures outline =>
    rw [log, outline, runningIn_append, hr]
    · intro g hg
      obtain ⟨f, id, l, h⟩ := failures _ hg
      cases h
    · intro g hg
      obtain ⟨f, id, l, h⟩ := failures _ hg
      cases h
  | call caller c r stages notes o word hmade performs shows =>
    rw [shows.log, shows.outline]
    cases performs with
    | refused opened idle | starts | stops | closes | closesIdle | routes | guides =>
      first
      | rfl
      | exact hr
    | others c stages notes active _ _ quiet =>
      rw [← List.append_assoc, runningIn_append, hr]
      · intro g hg
        obtain ⟨g', d, h⟩ := quiet (.started g) (by simpa using hg)
        cases h
      · intro g hg
        obtain ⟨g', d, h⟩ := quiet (.stopped g) (by simpa using hg)
        cases h
  | turn o idle turn shows =>
    rw [shows.log, shows.outline]
    cases turn <;> exact hr

/-- A source is at work only for a worker. -/
theorem Change.active (h : Change t t' made)
    (ha : t.outline.active = true → t.outline.running.isSome = true) :
    t'.outline.active = true → t'.outline.running.isSome = true := by
  cases h with
  | stage s below o top goes stack log outline =>
    obtain ⟨pending, ticks, state, arrived, ho, -⟩ := goes.outline_of
    rw [outline, ho]
    exact ha
  | deliver _ _ _ _ _ _ _ _ outline => rw [outline]; exact ha
  | ends _ _ _ _ _ _ _ _ _ outline => rw [outline]; exact ha
  | call caller c r stages notes o word hmade performs shows =>
    rw [shows.outline]
    cases performs with
    | starts => exact fun _ => rfl
    | stops | closes => exact fun h => h
    | others _ _ _ _ _ _ _ ending => exact fun h => ha (ending h)
    | _ => exact ha
  | turn o idle turn shows =>
    rw [shows.outline]
    cases turn with
    | waits active ending => exact fun h => ha (ending h)
    | _ => exact ha

/-- A worker is made by a start, and by nothing else. -/
theorem Change.running (h : Change t t' made) {g : Nat} (hg : t'.outline.running = some g) :
    t.outline.running = some g ∨ ∃ caller, made = some .start ∧ t.speaker = some caller ∧
      t' = t.call caller .start ∧ t.worker = none ∧ t.generation + 1 = g := by
  cases h with
  | stage s below o top goes stack log outline =>
    obtain ⟨pending, ticks, state, arrived, ho, -⟩ := goes.outline_of
    rw [outline, ho] at hg
    exact .inl hg
  | deliver _ _ _ _ _ _ _ _ outline => rw [outline] at hg; exact .inl hg
  | ends _ _ _ _ _ _ _ _ _ outline => rw [outline] at hg; exact .inl hg
  | call caller c r stages notes o word hmade performs shows =>
    rw [shows.outline] at hg
    cases performs with
    | starts opened idle => exact .inr ⟨caller, rfl, word, hmade, idle, Option.some.inj hg⟩
    | stops | closes => cases hg
    | _ => exact .inl hg
  | turn o idle turn shows =>
    rw [shows.outline] at hg
    cases turn <;> exact .inl hg

/-! ## What becomes of a worker -/

theorem Lives.closed (h : Lives t t') (ht : t'.closed = false) : t.closed = false := by
  cases h with
  | closes closed => rw [closed] at ht; cases ht
  | keeps _ _ _ closed | ends _ _ _ closed | starts _ _ _ _ closed | stops _ _ closed =>
    rw [← closed]; exact ht

/-- A session without a worker is stopped, or about to be. -/
def Rests (t : Trip) : Prop :=
  t.closed = false → t.outline.running = none → Stopping t ∨ t.nominal = .stopped

theorem Lives.rests (h : Lives t t') (hr : Rests t) : Rests t' := by
  intro hopen hnone
  have hopen' := h.closed hopen
  cases h with
  | keeps nominal stopping running =>
    rw [nominal, stopping]
    exact hr hopen' (running ▸ hnone)
  | ends _ nominal => exact .inr nominal
  | starts _ _ _ running => rw [running] at hnone; cases hnone
  | stops stopping => exact .inl stopping
  | closes closed => rw [closed] at hopen; cases hopen

/-- What has become of the worker that a start makes when the trip is `a`: it runs in a started
session, unless a stop was about to enter its state then. -/
structure Followed (a t : Trip) : Prop where
  later : a.generation + 1 ≤ t.generation
  during : Stopping a → t.outline.running = some (a.generation + 1) →
    Stopping t ∨ t.nominal = .stopped
  otherwise : ¬ Stopping a → t.outline.running = some (a.generation + 1) →
    ¬ Stopping t ∧ t.nominal = .started

theorem Followed.step {a : Trip} (h : Followed a t) (hc : Change t t' made) (hp : Prompt t) :
    Followed a t' := by
  have hgen : t.generation ≤ t'.generation := hc.advances.generation
  have hlater := h.later
  refine ⟨by omega, fun hs hrun => ?_, fun hs hrun => ?_⟩
  · cases (hc.lives hp).2 with
    | keeps nominal stopping running =>
      rw [nominal, stopping]
      exact h.during hs (running ▸ hrun)
    | ends _ nominal => exact .inr nominal
    | starts _ _ _ running =>
      rw [running] at hrun
      have := Option.some.inj hrun
      omega
    | stops stopping => exact .inl stopping
    | closes _ running => rw [running] at hrun; cases hrun
  · cases (hc.lives hp).2 with
    | keeps nominal stopping running =>
      rw [nominal, stopping]
      exact h.otherwise hs (running ▸ hrun)
    | ends was _ running => exact absurd was (h.otherwise hs (running ▸ hrun)).1
    | starts _ _ _ running =>
      rw [running] at hrun
      have := Option.some.inj hrun
      omega
    | stops _ running => rw [running] at hrun; cases hrun
    | closes _ running => rw [running] at hrun; cases hrun

/-- A start that is made has its worker followed from then on. -/
theorem followed_call {a : Trip} {caller : Option Listener} (hp : Prompt a)
    (hw : a.speaker = some caller) (hidle : a.worker = none) (hopen : a.closed = false) :
    Followed a (a.call caller .start) := by
  have hno : .owner (.enter .started) ∉ a.stack := by
    rcases stack_of_speaker hw with hs | ⟨f, id, l, below, hs⟩
    · rw [hs]; simp
    · rw [Prompt, hs] at hp
      rw [hs]
      simpa using hp
  obtain ⟨r, stages, notes, o, performs, shows⟩ := call_performs a caller .start
  have hgen : (a.call caller .start).generation = o.generation :=
    congrArg Outline.generation shows.outline
  cases performs with
  | refused =>
    refine ⟨Nat.le_of_eq hgen.symm, fun _ hrun => ?_, fun _ hrun => ?_⟩ <;>
    · rw [shows.outline] at hrun
      simp [outline, hidle] at hrun
  | starts =>
    refine ⟨Nat.le_of_eq hgen.symm, fun hs _ => .inl ?_, fun hs _ => ⟨?_, ?_⟩⟩
    · rw [Stopping, shows.stack]
      simpa [Stopping] using hs
    · rw [Stopping, shows.stack]
      simpa [Stopping] using hs
    · rw [nominal, shows.stack]
      rfl
  | others _ _ _ _ spares =>
    rcases spares with h | h
    · rw [hopen] at h; cases h
    · rw [hidle] at h; cases h

/-! ## The whole account -/

section Runs

variable {settings : Settings} {engine : Engine} {source : Source} {signal : Signal}
  {ms : List Move}

theorem Reaches.prompt (h : Reaches (.new settings engine source signal) ms t) : Prompt t :=
  h.invariant (fun _ _ _ _ _ hp hc => (hc.lives hp).1) (fun h => by cases h)

theorem Reaches.rests (h : Reaches (.new settings engine source signal) ms t) : Rests t :=
  h.invariant (fun _ _ _ _ hr hrests hc => (hc.lives hr.prompt).2.rests hrests)
    fun _ _ => .inr rfl

theorem Reaches.runningIn (h : Reaches (.new settings engine source signal) ms t) :
    runningIn t.log = t.worker.map (·.generation) :=
  h.invariant (P := fun t => Trip.runningIn t.log = t.outline.running)
    (fun _ _ _ _ _ hr hc => hc.runningIn hr) rfl

theorem Reaches.active (h : Reaches (.new settings engine source signal) ms t)
    (hsource : source.active = false) (ha : t.source.active = true) : t.worker.isSome = true := by
  have := h.invariant (P := fun t => t.outline.active = true → t.outline.running.isSome = true)
    (fun _ _ _ _ _ ha hc => hc.active ha)
    (fun h => by rw [outline, Trip.new, hsource] at h; cases h) ha
  simpa [outline] using this

/-- A session that has been given up stays so. -/
theorem Reaches.opened (h : Reaches (.new settings engine source signal) ms t) {ns : List Move}
    (h' : Reaches t ns t') (ht : t'.closed = false) : t.closed = false := by
  have hclosed := h'.invariant (P := fun b => b.closed = false → t.closed = false)
    (fun _ _ _ _ hr hb hc hopen => hb ((hc.lives (h.trans hr).prompt).2.closed hopen)) id
  exact hclosed ht

/-- Every worker was made by a start. -/
theorem Reaches.made_start (h : Reaches (.new settings engine source signal) ms t) :
    ∀ g, t.outline.running = some g →
      ∃ a caller, Made (.new settings engine source signal) ms t a caller .start ∧
        a.worker = none ∧ a.generation + 1 = g := by
  refine h.induct (P := fun ms t => ∀ g, t.outline.running = some g →
    ∃ a caller, Made (.new settings engine source signal) ms t a caller .start ∧
      a.worker = none ∧ a.generation + 1 = g) (fun g hg => by cases hg) ?_ ?_
  · intro ms t t' hr ih hs g hg
    rcases (change_of_tick? hs).running hg with hg | ⟨caller, hmade, -⟩
    · obtain ⟨a, caller, hm, ha⟩ := ih g hg
      exact ⟨a, caller, by simpa using hm.trans (.tick hs (.refl _)), ha⟩
    · cases hmade
  · intro ms m t t' hr ih hs g hg
    obtain ⟨made, hc, hmove⟩ := change_of_move? hs
    rcases hc.running hg with hg | ⟨caller, rfl, hword, rfl, hidle, hgen⟩
    · obtain ⟨a, caller, hm, ha⟩ := ih g hg
      exact ⟨a, caller, hm.trans (.move hs (.refl _)), ha⟩
    · rw [hmove _ rfl]
      exact ⟨t, caller, made_call hr hword, hidle, hgen⟩

/-- What becomes of a worker after the start that made it. -/
theorem Made.followed {a : Trip} {caller : Option Listener}
    (h : Made (.new settings engine source signal) ms t a caller .start)
    (hidle : a.worker = none) (hopen : t.closed = false) : Followed a t := by
  obtain ⟨before, after, -, ha, hword, hr⟩ := h
  have hstep := reaches_call hword .start
  have ha' := ha.trans hstep
  have hopen' : a.closed = false := ha.opened hstep (ha'.opened hr hopen)
  exact hr.invariant (fun _ _ _ _ hb hf hc => hf.step hc (ha'.trans hb).prompt)
    (followed_call ha.prompt hword hidle hopen')

/-- **A worker runs while the session is started, and only then, unless it was started by an
observer from inside a stop that had still to enter the stopped state: then it runs in a stopped
session.** The source has been started for the running worker and not told to stop since, and
without one it is not at work. -/
theorem started_iff_not_stopping (hsource : source.active = false)
    (h : Reaches (.new settings engine source signal) ms t) (hidle : t.idle = true)
    (hopen : t.closed = false) :
    runningIn t.log = t.worker.map (·.generation) ∧
    (t.source.active = true → t.worker.isSome = true) ∧
    (t.worker = none → t.facts.state = .stopped) ∧
    ∀ w, t.worker = some w →
      (∃ a caller, Made (.new settings engine source signal) ms t a caller .start ∧
        a.worker = none ∧ a.generation + 1 = w.generation) ∧
      ∀ a caller, Made (.new settings engine source signal) ms t a caller .start →
        a.worker = none → a.generation + 1 = w.generation →
        (t.facts.state = .started ↔ ¬ Stopping a) := by
  have hstack := stack_of_idle hidle
  have hno : ¬ Stopping t := by rw [Stopping, hstack]; simp
  have hnominal : t.nominal = t.facts.state := nominal_of_not_mem (by rw [hstack]; simp)
  refine ⟨h.runningIn, h.active hsource, fun hw => ?_, fun w hw => ⟨?_, ?_⟩⟩
  · rw [← hnominal]
    exact (h.rests hopen (by simp [outline, hw])).resolve_left hno
  · exact h.made_start _ (by simp [outline, hw])
  · intro a caller hm haw hgen
    have hrun : t.outline.running = some (a.generation + 1) := by simp [outline, hw, hgen]
    have hf := hm.followed haw hopen
    constructor
    · intro hstate hs
      rcases hf.during hs hrun with h | h
      · exact hno h
      · rw [hnominal, hstate] at h
        cases h
    · intro hs
      rw [← hnominal]
      exact (hf.otherwise hs hrun).2

end Runs

/-- An observer that starts the session when a stop takes the off-route flag back is left with a
worker that runs in a stopped session. -/
theorem started_iff_not_stopping_in_reset :
    ∃ ms t w a, Reaches (scripted [{ location := sampleLocation, tracking := .offRoute }]) ms t ∧
      t.idle = true ∧ t.worker = some w ∧ a.generation + 1 = w.generation ∧ Stopping a ∧
      t.facts.state = .stopped := by
  obtain ⟨t, h, ht⟩ := exists_of_play 40
    (scripted [{ location := sampleLocation, tracking := .offRoute }])
    [.decide (.call (.observe (.named "a") .offRoute)), .decide (.call .start),
      .decide (.call (.push sampleFix)), .work, .decide .finish, .decide (.call .stop),
      .decide (.call .start), .decide .finish]
    (p := fun t => t.idle && !t.closed && t.worker.isSome && t.facts.state = .stopped) rfl
  simp only [Bool.and_eq_true, Bool.not_eq_true', decide_eq_true_eq] at ht
  obtain ⟨⟨⟨hidle, hopen⟩, hworker⟩, hstate⟩ := ht
  obtain ⟨w, hw⟩ := Option.isSome_iff_exists.mp hworker
  obtain ⟨-, -, -, hmade⟩ := started_iff_not_stopping rfl h hidle hopen
  obtain ⟨⟨a, caller, hm, ha, hgen⟩, hiff⟩ := hmade w hw
  refine ⟨_, t, w, a, h, hidle, hw, hgen, ?_, hstate⟩
  refine Classical.byContradiction fun hs => ?_
  have := (hiff a caller hm ha hgen).mpr hs
  rw [hstate] at this
  cases this

end LiveTrip.Trip
