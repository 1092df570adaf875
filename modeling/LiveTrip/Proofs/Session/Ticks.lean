import LiveTrip.Proofs.Session.Layout

/-!
# Ticks and what is told of them

* `Trip.Adds`, `Trip.Change.adds`: what a step adds to the log, and when.
* `Trip.Goes.told_of_tick`: a tick tells something only while its generation is the session's.
* `Trip.Sound`, `Trip.Reaches.sound`: ticks are numbered in order, are of generations and epochs
  that have been, and stand on the stack only once they have begun.
-/

namespace LiveTrip.Trip

variable {t t' : Trip} {made : Option Call}

/-- The tick has begun. -/
def Ticked (t : Trip) (k : Tick) : Prop := .owner (.ticked k) ∈ t.log

/-- The stage on top is about to begin a fan-out. -/
def Tells (t : Trip) (f : SessionFanout) (audience : List (ObserverId × Listener)) : Prop :=
  ∃ s below o, t.stack = .owner s :: below ∧ Goes t s o ∧ o.told = some (f, audience)

/-! ## What a step adds to the log -/

/-- What a step adds to the log. -/
structure Adds (t t' : Trip) (events : List SessionEvent) : Prop where
  log : t'.log = events ++ t.log
  began : ∀ f audience, .began f audience ∈ events → Tells t f audience
  delivered : ∀ f id l, .delivered f id l ∈ events →
    ∃ rest below, t.stack = .fanout f ((id, l) :: rest) :: below
  ticked : ∀ k, .owner (.ticked k) ∈ events →
    k.number = t.ticks ∧ t.outline.running = some k.generation ∧ k.epoch = t.epoch ∧
      t'.outline.ticks = t.ticks + 1
  alone : ∀ k k', .owner (.ticked k) ∈ events → .owner (.ticked k') ∈ events → k = k'
  started : ∀ g, .owner (.started g) ∈ events →
    g = t.generation + 1 ∧ t.worker = none ∧ t'.outline.running = some g
  stopped : ∀ g, .owner (.stopped g) ∈ events →
    g = t.generation ∧ t.worker.isSome = true ∧ t'.outline.running = none

/-- What a stage notes is of a tick that begins, or of no worker at all. -/
theorem Goes.notes_of {s : Stage} {o : Outcome} (h : Goes t s o) {n : Note} (hn : n ∈ o.notes) :
    (∀ k, n = .ticked k → k.number = t.ticks ∧ t.outline.running = some k.generation ∧
      k.epoch = t.epoch ∧ o.outline.ticks = t.ticks + 1) ∧
    (∀ g, n ≠ .started g) ∧ ∀ g, n ≠ .stopped g := by
  cases h with
  | begins g ds scope fix running =>
    simp only [List.mem_cons, List.not_mem_nil, or_false] at hn
    rcases hn with rfl | rfl
    · refine ⟨fun k hk => ?_, by simp, by simp⟩
      cases hk
      exact ⟨rfl, running, rfl, rfl⟩
    · simp
  | unreported k s notes quiet | reports k s report progress notes quiet =>
    rcases quiet n hn with ⟨a, b, c, v, rfl⟩ | ⟨route, leg, rfl⟩ <;> simp
  | replied | answered | failed | rereads =>
    rw [List.mem_singleton.mp hn]
    simp
  | _ => cases hn

/-- At most one tick begins in a stage. -/
theorem Goes.alone {s : Stage} {o : Outcome} (h : Goes t s o) {k k' : Tick}
    (hk : .ticked k ∈ o.notes) (hk' : .ticked k' ∈ o.notes) : k = k' := by
  cases h with
  | begins =>
    simp only [List.mem_cons, Note.ticked.injEq, reduceCtorEq, List.not_mem_nil, or_false]
      at hk hk'
    rw [hk, hk']
  | unreported k s notes quiet | reports k s report progress notes quiet =>
    rcases quiet _ hk with ⟨a, b, c, v, h⟩ | ⟨route, leg, h⟩ <;> cases h
  | replied | answered | failed | rereads => cases List.mem_singleton.mp hk
  | _ => cases hk

theorem Performs.notes_of {c : Call} {stages : List Stage} {notes : List Note} {o : Outline}
    (h : Performs t c stages notes o) {n : Note} (hn : n ∈ notes) :
    (∀ k, n ≠ .ticked k) ∧
    (∀ g, n = .started g → g = t.generation + 1 ∧ t.worker = none ∧ o.running = some g) ∧
    ∀ g, n = .stopped g → g = t.generation ∧ t.worker.isSome = true ∧ o.running = none := by
  cases h with
  | starts opened idle =>
    rw [List.mem_singleton.mp hn]
    refine ⟨by simp, fun g hg => ?_, by simp⟩
    cases hg
    exact ⟨rfl, idle, rfl⟩
  | stops opened running | closes opened running =>
    rw [List.mem_singleton.mp hn]
    refine ⟨by simp, by simp, fun g hg => ?_⟩
    cases hg
    exact ⟨rfl, running, rfl⟩
  | others c stages notes active _ telling quiet =>
    obtain ⟨g, d, rfl⟩ := quiet n hn
    simp
  | _ => cases hn

theorem Turn.notes_of {o : Outcome} (h : Turn t o) {n : Note} (hn : n ∈ o.notes) :
    ∃ k, n = .ticked k ∧ k.number = t.ticks ∧ t.outline.running = some k.generation ∧
      k.epoch = t.epoch ∧ o.outline.ticks = t.ticks + 1 := by
  cases h with
  | begins g fix running =>
    exact ⟨_, List.mem_singleton.mp hn, rfl, running, rfl, rfl⟩
  | _ => cases hn

theorem Turn.alone {o : Outcome} (h : Turn t o) {k k' : Tick} (hk : .ticked k ∈ o.notes)
    (hk' : .ticked k' ∈ o.notes) : k = k' := by
  cases h with
  | begins =>
    have hk := List.mem_singleton.mp hk
    have hk' := List.mem_singleton.mp hk'
    cases hk
    cases hk'
    rfl
  | _ => cases hk

/-- **What a step adds to the log.** -/
theorem Change.adds (h : Change t t' made) : ∃ events, Adds t t' events := by
  cases h with
  | stage s below o top goes stack log outline =>
    refine ⟨o.told.toList.map (fun p => .began p.1 p.2) ++ o.notes.map .owner, ?_⟩
    have note {n : Note} (hn : .owner n ∈ o.told.toList.map (fun p => Event.began p.1 p.2) ++
        o.notes.map .owner) : n ∈ o.notes := by
      simpa using hn
    refine ⟨by rw [log, List.append_assoc], ?_, by simp, ?_,
      fun k k' hk hk' => goes.alone (note hk) (note hk'), ?_, ?_⟩
    · intro f audience hf
      refine ⟨s, below, o, top, goes, ?_⟩
      have : ∃ a b, o.told = some (a, b) ∧ a = f ∧ b = audience := by simpa using hf
      obtain ⟨a, b, ho, rfl, rfl⟩ := this
      exact ho
    · intro k hk
      have := (goes.notes_of (note hk)).1 k rfl
      rwa [outline]
    · intro g hg
      exact absurd rfl ((goes.notes_of (note hg)).2.1 g)
    · intro g hg
      exact absurd rfl ((goes.notes_of (note hg)).2.2 g)
  | deliver f id l rest below top stack log =>
    refine ⟨[.delivered f id l], log, by simp, ?_, by simp, by simp, by simp, by simp⟩
    intro f' id' l' h
    cases List.mem_singleton.mp h
    exact ⟨rest, below, top⟩
  | ends x below events top _ _ stack log failures =>
    have no {e : SessionEvent} (he : e ∈ events) (hf : ∀ f id l, e ≠ .failed f id l) : False := by
      obtain ⟨f, id, l, h⟩ := failures e he
      exact hf f id l h
    exact ⟨events, log, fun _ _ h => (no h (by simp)).elim, fun _ _ _ h => (no h (by simp)).elim,
      fun _ h => (no h (by simp)).elim, fun _ _ h => (no h (by simp)).elim,
      fun _ h => (no h (by simp)).elim, fun _ h => (no h (by simp)).elim⟩
  | call caller c r stages notes o word hmade performs shows =>
    have note {n : Note} (hn : Event.owner n ∈ notes.map (Event.owner : Note → SessionEvent)) :
        n ∈ notes := by
      simpa using hn
    refine ⟨notes.map .owner, shows.log, by simp, by simp, ?_, ?_, ?_, ?_⟩
    · intro k hk
      exact absurd rfl ((performs.notes_of (note hk)).1 k)
    · intro k k' hk
      exact absurd rfl ((performs.notes_of (note hk)).1 k)
    · intro g hg
      rw [shows.outline]
      exact (performs.notes_of (note hg)).2.1 g rfl
    · intro g hg
      rw [shows.outline]
      exact (performs.notes_of (note hg)).2.2 g rfl
  | turn o idle turn shows =>
    have told : o.told = none := by cases turn <;> rfl
    have note {n : Note} (hn : .owner n ∈ (o.notes.map .owner : List SessionEvent)) :
        ∃ k, n = .ticked k ∧ k.number = t.ticks ∧ t.outline.running = some k.generation ∧
          k.epoch = t.epoch ∧ o.outline.ticks = t.ticks + 1 :=
      turn.notes_of (by simpa using hn)
    refine ⟨o.notes.map .owner, ?_, by simp, by simp, ?_, ?_, ?_, ?_⟩
    · rw [shows.log, told]; rfl
    · intro k hk
      obtain ⟨k', hk', h⟩ := note hk
      cases hk'
      rwa [shows.outline]
    · intro k k' hk hk'
      exact turn.alone (by simpa using hk) (by simpa using hk')
    · intro g hg
      obtain ⟨k', hk', -⟩ := note hg
      cases hk'
    · intro g hg
      obtain ⟨k', hk', -⟩ := note hg
      cases hk'

/-- The fan-out begins in the step. -/
def Begins (t t' : Trip) (f : SessionFanout) (audience : List (ObserverId × Listener)) : Prop :=
  ∃ events, t'.log = events ++ t.log ∧ .began f audience ∈ events

theorem Change.tells (h : Change t t' made) {f : SessionFanout}
    {audience : List (ObserverId × Listener)} (hf : Begins t t' f audience) :
    Tells t f audience := by
  obtain ⟨events, ha⟩ := h.adds
  obtain ⟨events', hlog, hf⟩ := hf
  obtain rfl : events' = events := List.append_cancel_right (hlog.symm.trans ha.log)
  exact ha.began f audience hf

/-- The stage on top is the one that a step runs. -/
theorem Change.goes_of_top (h : Change t t' made) {s : Stage} {below : List SessionFrame}
    (top : t.stack = .owner s :: below) :
    ∃ o, Goes t s o ∧ t'.outline = o.outline ∧
      ∀ f audience, Begins t t' f audience ↔ o.told = some (f, audience) := by
  cases h with
  | stage s' below' o top' goes stack log outline =>
    obtain ⟨rfl, rfl⟩ : s' = s ∧ below' = below := by simpa using top'.symm.trans top
    refine ⟨o, goes, outline, fun f audience => ⟨?_, fun ho => ?_⟩⟩
    · rintro ⟨events, hlog, hf⟩
      rw [log, ← List.append_assoc] at hlog
      rw [← List.append_cancel_right hlog] at hf
      have : ∃ a b, o.told = some (a, b) ∧ a = f ∧ b = audience := by simpa using hf
      obtain ⟨a, b, ho, rfl, rfl⟩ := this
      exact ho
    · exact ⟨o.told.toList.map (fun p => .began p.1 p.2) ++ o.notes.map .owner,
        by rw [log, List.append_assoc], by simp [ho]⟩
  | deliver _ _ _ _ _ top' => rw [top'] at top; cases top
  | ends x _ _ top' noStage =>
    rw [top'] at top
    cases top
    exact absurd rfl (noStage s)
  | call _ _ _ _ _ _ word =>
    rcases stack_of_speaker word with h | ⟨_, _, _, _, h⟩ <;> rw [h] at top <;> cases top
  | turn _ idle => rw [idle] at top; cases top

/-! ## How the outline goes on -/

/-- What a stage does to the outline. -/
theorem Goes.outline_of {s : Stage} {o : Outcome} (h : Goes t s o) :
    ∃ pending ticks state arrived, o.outline = { t.outline with pending, ticks, state, arrived } ∧
      (∀ k, pending = some k → t.outline.pending = some k ∨ s.tick? = some k) ∧
      t.ticks ≤ ticks ∧
      ((∀ x, s ≠ .enter x) ∧ state = t.facts.state ∨ s = .enter state) ∧
      (arrived = true → t.facts.arrived = true ∨
        ∃ k, s = .arrive k true ∧ t.current k = true ∧ t.facts.guidance = true) := by
  have same (hs : ∀ x, s ≠ .enter x) (ho : o.outline = t.outline) :
      ∃ pending ticks state arrived,
        o.outline = { t.outline with pending, ticks, state, arrived } ∧
        (∀ k, pending = some k → t.outline.pending = some k ∨ s.tick? = some k) ∧
        t.ticks ≤ ticks ∧
        ((∀ x, s ≠ .enter x) ∧ state = t.facts.state ∨ s = .enter state) ∧
        (arrived = true → t.facts.arrived = true ∨
          ∃ k, s = .arrive k true ∧ t.current k = true ∧ t.facts.guidance = true) :=
    ⟨t.outline.pending, t.ticks, t.facts.state, t.facts.arrived, ho, fun _ => .inl, Nat.le_refl _,
      .inl ⟨hs, rfl⟩, .inl⟩
  cases h with
  | entered s h =>
    exact ⟨t.outline.pending, t.ticks, s, t.facts.arrived, by rw [← h]; rfl, fun _ => .inl,
      Nat.le_refl _, .inr rfl, .inl⟩
  | enters s =>
    exact ⟨t.outline.pending, t.ticks, s, t.facts.arrived, rfl, fun _ => .inl,
      Nat.le_refl _, .inr rfl, .inl⟩
  | waits k pending own =>
    refine ⟨pending, t.ticks, t.facts.state, t.facts.arrived, rfl, fun k' hk' => ?_, Nat.le_refl _,
      .inl ⟨by simp, rfl⟩, .inl⟩
    rcases own k' hk' with h | rfl
    · exact .inl h
    · exact .inr rfl
  | arrives k complete current =>
    refine ⟨t.outline.pending, t.ticks, t.facts.state, _, rfl, fun _ => .inl, Nat.le_refl _,
      .inl ⟨by simp, rfl⟩, fun h => .inr ?_⟩
    obtain ⟨rfl, hg⟩ := Bool.and_eq_true_iff.mp h
    exact ⟨k, rfl, current, hg⟩
  | rests g pending own | rereads g ds pending own =>
    exact ⟨pending, t.ticks, t.facts.state, t.facts.arrived, rfl, fun k hk => .inl (own k hk),
      Nat.le_refl _, .inl ⟨by simp, rfl⟩, .inl⟩
  | begins g ds scope fix running pending own =>
    exact ⟨pending, _, t.facts.state, t.facts.arrived, rfl, fun k hk => .inl (own k hk),
      Nat.le_succ _, .inl ⟨by simp, rfl⟩, .inl⟩
  | _ => exact same (by simp) rfl

/-- How an outline goes on. A worker is of the generation at which it starts, and is let go when
that advances. -/
structure Advances (o o' : Outline) : Prop where
  generation : o.generation ≤ o'.generation
  epoch : o.epoch ≤ o'.epoch
  ticks : o.ticks ≤ o'.ticks
  running : ∀ g, o'.running = some g →
    o.running = some g ∧ o'.generation = o.generation ∨ g = o'.generation

theorem Advances.refl (o : Outline) : Advances o o :=
  ⟨Nat.le_refl _, Nat.le_refl _, Nat.le_refl _, fun _ h => .inl ⟨h, rfl⟩⟩

theorem Performs.advances {c : Call} {stages : List Stage} {notes : List Note} {o : Outline}
    (h : Performs t c stages notes o) : Advances t.outline o := by
  cases h with
  | refused _ idle =>
    refine ⟨Nat.le_succ _, Nat.le_refl _, Nat.le_refl _, fun g hg => ?_⟩
    simp [outline, idle] at hg
  | starts =>
    refine ⟨Nat.le_succ _, Nat.le_refl _, Nat.le_refl _, fun g hg => .inr ?_⟩
    cases hg; rfl
  | stops | closes => exact ⟨Nat.le_succ _, Nat.le_refl _, Nat.le_refl _, fun g hg => by cases hg⟩
  | routes => exact ⟨Nat.le_refl _, Nat.le_succ _, Nat.le_refl _, fun g hg => .inl ⟨hg, rfl⟩⟩
  | closesIdle | guides | others =>
    exact ⟨Nat.le_refl _, Nat.le_refl _, Nat.le_refl _, fun g hg => .inl ⟨hg, rfl⟩⟩

theorem Turn.advances {o : Outcome} (h : Turn t o) : Advances t.outline o.outline := by
  cases h with
  | begins => exact ⟨Nat.le_refl _, Nat.le_refl _, Nat.le_succ _, fun g hg => .inl ⟨hg, rfl⟩⟩
  | _ => exact ⟨Nat.le_refl _, Nat.le_refl _, Nat.le_refl _, fun g hg => .inl ⟨hg, rfl⟩⟩

theorem Change.advances (h : Change t t' made) : Advances t.outline t'.outline := by
  cases h with
  | stage s below o top goes _ _ outline =>
    obtain ⟨pending, ticks, state, arrived, ho, -, ht, -⟩ := goes.outline_of
    rw [outline, ho]
    exact ⟨Nat.le_refl _, Nat.le_refl _, ht, fun g hg => .inl ⟨hg, rfl⟩⟩
  | deliver _ _ _ _ _ _ _ _ outline => rw [outline]; exact .refl _
  | ends _ _ _ _ _ _ _ _ _ outline => rw [outline]; exact .refl _
  | call caller c r stages notes o word hmade performs shows =>
    rw [shows.outline]
    exact performs.advances
  | turn o idle turn shows =>
    rw [shows.outline]
    exact turn.advances

/-- A worker comes to wait for a status only by asking for it. -/
theorem Goes.pending {s : Stage} {o : Outcome} (h : Goes t s o) {k : Tick}
    (hk : o.outline.pending = some k) :
    t.outline.pending = some k ∨ s = .ask k ∧ o.own = [] ∧ o.told = none := by
  cases h with
  | waits k' pending own =>
    rcases own k hk with h | rfl
    · exact .inl h
    · exact .inr ⟨rfl, rfl, rfl⟩
  | rests _ _ own | rereads _ _ _ own | begins _ _ _ _ _ _ own => exact .inl (own k hk)
  | _ => exact .inl hk

/-- A worker waits for the status of a tick that it has asked for. -/
theorem Change.pending (h : Change t t' made) {k : Tick} (hk : t'.outline.pending = some k) :
    t.outline.pending = some k ∨ .owner (.ask k) ∈ t.stack := by
  cases h with
  | stage s below o top goes _ _ outline =>
    rw [outline] at hk
    rcases goes.pending hk with h | ⟨rfl, -, -⟩
    · exact .inl h
    · exact .inr (by rw [top]; exact List.mem_cons_self)
  | deliver _ _ _ _ _ _ _ _ outline => rw [outline] at hk; exact .inl hk
  | ends _ _ _ _ _ _ _ _ _ outline => rw [outline] at hk; exact .inl hk
  | call caller c r stages notes o word hmade performs shows =>
    rw [shows.outline] at hk
    cases performs with
    | starts | stops | closes => cases hk
    | _ => exact .inl hk
  | turn o idle turn shows =>
    rw [shows.outline] at hk
    cases turn with
    | waits => exact .inl hk
    | _ => cases hk

/-! ## What a step puts on the stack -/

/-- A stage of a tick is followed by stages of the same tick, and a tick that begins is noted. -/
theorem Goes.tick_of_own {s s' : Stage} {o : Outcome} (h : Goes t s o) (hs : .owner s' ∈ o.own)
    {k : Tick} (hk : s'.tick? = some k) : s.tick? = some k ∨ .ticked k ∈ o.notes := by
  cases h with
  | begins g ds scope fix =>
    cases List.mem_singleton.mp hs
    cases hk
    exact .inr List.mem_cons_self
  | arrives k' =>
    simp only [List.mem_cons, Frame.owner.injEq, List.not_mem_nil, or_false] at hs
    rcases hs with rfl | rfl
    · cases hk
    · exact .inl hk
  | locates k' s' current =>
    cases List.mem_singleton.mp hs
    by_cases hscope : k'.scope = .full
    · simp only [hscope, ↓reduceIte] at hk; exact .inl hk
    · simp only [hscope, ↓reduceIte] at hk; exact .inl hk
  | announces | announceStale | announceNothing | ingested | asked | answered | flags | flagged
  | flagStale | cueReplaced | cues | cued | cueStale | unreported | reports | arriveStale =>
    cases List.mem_singleton.mp hs
    exact .inl hk
  | refused | failed | locateStale | tallied | rereads =>
    cases List.mem_singleton.mp hs
    cases hk
  | subscribed => cases List.mem_singleton.mp hs
  | _ => cases hs

/-- A stage of the worker stands on the stack only if it did before, or the stage on top or a turn
of a task has put it there. -/
theorem Change.work_cases (h : Change t t' made) {s : Stage} (hs : .owner s ∈ t'.stack)
    (work : s.IsWork) :
    .owner s ∈ t.stack ∨
    (∃ s' below o, t.stack = .owner s' :: below ∧ Goes t s' o ∧ .owner s ∈ o.own ∧
      (∀ n ∈ o.notes, .owner n ∈ t'.log) ∧ t'.outline = o.outline) ∨
    ∃ o, Turn t o ∧ .owner s ∈ o.own ∧ ∀ n ∈ o.notes, .owner n ∈ t'.log := by
  cases h with
  | stage s' below o top goes stack log outline =>
    rw [stack] at hs
    have hs : .owner s ∈ o.own ∨ .owner s ∈ below := by simpa using hs
    rcases hs with hs | hs
    · exact .inr (.inl ⟨s', below, o, top, goes, hs, fun n hn => by rw [log]; simp [hn], outline⟩)
    · exact .inl (by rw [top]; exact List.mem_cons_of_mem _ hs)
  | deliver f id l rest below top stack =>
    rw [stack] at hs
    exact .inl (by rw [top]; simpa using hs)
  | ends x below events top _ _ stack =>
    rw [stack] at hs
    exact .inl (by rw [top]; exact List.mem_cons_of_mem _ hs)
  | call caller c r stages notes o word hmade performs shows =>
    rw [shows.stack] at hs
    have hs : s ∈ stages ∨ s = .reply r ∨ .owner s ∈ t.stack := by
      simpa [or_assoc] using hs
    rcases hs with hs | rfl | hs
    · exact absurd (performs.isOwn s hs) (Stage.not_isOwn_of_isWork work)
    · exact absurd trivial (Stage.not_isOwn_of_isWork work)
    · exact .inl hs
  | turn o idle turn shows =>
    rw [shows.stack, idle, List.append_nil] at hs
    have told : o.told = none := by cases turn <;> rfl
    refine .inr (.inr ⟨o, turn, by simpa [told] using hs, fun n hn => ?_⟩)
    rw [shows.log, told]
    simp [hn]

/-- A stage of a tick stands on the stack only if one did before, or the worker has waited for the
tick, or the tick begins. -/
theorem Change.staged (h : Change t t' made) {s : Stage} {k : Tick} (hs : .owner s ∈ t'.stack)
    (hk : s.tick? = some k) :
    (∃ s', .owner s' ∈ t.stack ∧ s'.tick? = some k) ∨ t.outline.pending = some k ∨ Ticked t' k := by
  rcases h.work_cases hs (Stage.isWork_of_tick? hk) with
    hs | ⟨s', below, o, top, goes, hs, notes, -⟩ | ⟨o, turn, hs, notes⟩
  · exact .inl ⟨s, hs, hk⟩
  · rcases goes.tick_of_own hs hk with h | h
    · exact .inl ⟨s', by rw [top]; exact List.mem_cons_self, h⟩
    · exact .inr (.inr (notes _ h))
  · cases turn with
    | begins =>
      cases List.mem_singleton.mp hs
      cases hk
      exact .inr (.inr (notes _ List.mem_cons_self))
    | concludes k' answer asked =>
      cases List.mem_singleton.mp hs
      cases hk
      exact .inr (.inl asked)
    | proceeds =>
      cases List.mem_singleton.mp hs
      cases hk
    | waits => cases hs

/-- A tick derives the phase right after it has seen that it may still tell something. -/
theorem Change.derived (h : Change t t' made) (hl : ∃ b, Laid b t.stack) {n : Nat}
    {below : List SessionFrame} (hd : t'.stack = .owner (.recompute (.tick n)) :: below) :
    ∃ s k, .owner s ∈ t.stack ∧ s.tick? = some k ∧ k.number = n ∧ k.generation = t'.generation := by
  obtain ⟨b, hl⟩ := hl
  -- It was not there before, below what has gone.
  have fresh {x : SessionFrame} {st : List SessionFrame} (top : t.stack = x :: st) :
      .owner (.recompute (.tick n)) ∉ st := by
    intro hn
    rw [top] at hl
    obtain ⟨-, k, -, hst⟩ := hl.eq_of_mem_derive (List.mem_cons_of_mem _ hn)
    cases hst
    cases List.mem_singleton.mp hn
  cases h with
  | stage s below' o top goes stack log outline =>
    rw [stack] at hd
    have hown : ∃ rest, o.own = .owner (.recompute (.tick n)) :: rest := by
      cases ht : o.told with
      | some p => simp [ht] at hd
      | none =>
        cases ho : o.own with
        | nil =>
          have : below' = .owner (.recompute (.tick n)) :: below := by simpa [ht, ho] using hd
          exact absurd (by rw [this]; exact List.mem_cons_self) (fresh top)
        | cons x rest =>
          have : x = .owner (.recompute (.tick n)) := by
            have := hd
            simp only [ht, ho, Option.toList_none, List.map_nil, List.nil_append,
              List.cons_append, List.cons.injEq] at this
            exact this.1
          exact ⟨rest, by rw [this]⟩
    obtain ⟨rest, hown⟩ := hown
    cases goes with
    | arrives k complete current =>
      cases hown
      refine ⟨_, k, by rw [top]; exact List.mem_cons_self, rfl, rfl, ?_⟩
      have hg : t'.generation = t.generation := congrArg Outline.generation outline
      rw [hg]
      exact (of_decide_eq_true current).symm
    | locates k s current =>
      by_cases hscope : k.scope = .full <;> simp [hscope] at hown
    | _ => simp at hown
  | deliver f id l rest below' top stack => rw [stack] at hd; cases hd
  | ends x below' events top _ _ stack =>
    rw [stack] at hd
    exact absurd (by rw [hd]; exact List.mem_cons_self) (fresh top)
  | call caller c r stages notes o word hmade performs shows =>
    rw [shows.stack] at hd
    cases stages with
    | nil => cases hd
    | cons s stages =>
      cases hd
      exact (performs.isOwn _ List.mem_cons_self).elim
  | turn o idle turn shows =>
    rw [shows.stack, idle] at hd
    cases turn <;> cases hd

/-! ## Soundness -/

/-- Ticks are numbered in order, are of generations and epochs that have been, and stand on the
stack only once they have begun. -/
structure Sound (t : Trip) : Prop where
  numbered : ∀ k, Ticked t k → k.number < t.ticks
  distinct : ∀ k k', Ticked t k → Ticked t k' → k.number = k'.number → k = k'
  generation : ∀ k, Ticked t k → k.generation ≤ t.generation
  epoch : ∀ k, Ticked t k → k.epoch ≤ t.epoch
  /-- The running worker is of the session's generation. -/
  running : ∀ g, t.outline.running = some g → g = t.generation
  staged : ∀ s k, .owner s ∈ t.stack → s.tick? = some k → Ticked t k
  asked : ∀ k, t.outline.pending = some k → Ticked t k
  /-- A tick that derives the phase may still tell something. -/
  derived : ∀ n below, t.stack = .owner (.recompute (.tick n)) :: below →
    ∃ k, Ticked t k ∧ k.number = n ∧ k.generation = t.generation
  started : ∀ g, .owner (.started g) ∈ t.log → g ≤ t.generation
  stopped : ∀ g, .owner (.stopped g) ∈ t.log → g ≤ t.generation

theorem Sound.new (settings : Settings) (engine : Engine) (source : Source) (signal : Signal) :
    (Trip.new settings engine source signal).Sound where
  numbered _ h := by cases h
  distinct _ _ h := by cases h
  generation _ h := by cases h
  epoch _ h := by cases h
  running _ h := by cases h
  staged _ _ h := by cases h
  asked _ h := by cases h
  derived _ _ h := by cases h
  started _ h := by cases h
  stopped _ h := by cases h

theorem Adds.mem {events : List SessionEvent} (h : Adds t t' events) {e : SessionEvent} :
    e ∈ t'.log ↔ e ∈ events ∨ e ∈ t.log := by
  rw [h.log, List.mem_append]

theorem Change.sound (h : Change t t' made) (hl : ∃ b, Laid b t.stack) (hs : Sound t) :
    Sound t' := by
  obtain ⟨events, ha⟩ := h.adds
  obtain ⟨hgen, hepoch, hticks, hrun⟩ := h.advances
  have hgen : t.generation ≤ t'.generation := hgen
  have hepoch : t.epoch ≤ t'.epoch := hepoch
  have hticks : t.ticks ≤ t'.ticks := hticks
  have old {k : Tick} (hk : Ticked t k) : Ticked t' k := ha.mem.mpr (.inr hk)
  have new {k : Tick} (hk : Ticked t' k) : Ticked t k ∨ (k.number = t.ticks ∧
      k.generation = t.generation ∧ k.epoch = t.epoch ∧ t'.ticks = t.ticks + 1 ∧
      .owner (.ticked k) ∈ events) := by
    rcases ha.mem.mp hk with hk | hk
    · obtain ⟨hn, hg, he, ht⟩ := ha.ticked k hk
      exact .inr ⟨hn, hs.running _ hg, he, ht, hk⟩
    · exact .inl hk
  have asked {k : Tick} (hk : t.outline.pending = some k ∨
      ∃ s, .owner s ∈ t.stack ∧ s.tick? = some k) : Ticked t k := by
    rcases hk with hk | ⟨s, hs', hk⟩
    · exact hs.asked k hk
    · exact hs.staged s k hs' hk
  refine ⟨?_, ?_, ?_, ?_, ?_, ?_, ?_, ?_, ?_, ?_⟩
  · intro k hk
    rcases new hk with hk | ⟨hn, -, -, ht, -⟩
    · have := hs.numbered k hk; omega
    · omega
  · intro k k' hk hk' hn
    rcases new hk with hk | ⟨h, -, -, -, he⟩ <;> rcases new hk' with hk' | ⟨h', -, -, -, he'⟩
    · exact hs.distinct k k' hk hk' hn
    · have := hs.numbered k hk; omega
    · have := hs.numbered k' hk'; omega
    · exact ha.alone k k' he he'
  · intro k hk
    rcases new hk with hk | ⟨-, hg, -⟩
    · have := hs.generation k hk; omega
    · omega
  · intro k hk
    rcases new hk with hk | ⟨-, -, he, -⟩
    · have := hs.epoch k hk; omega
    · omega
  · intro g hg
    rcases hrun g hg with ⟨h, hg'⟩ | h
    · have := hs.running g h
      have hg' : t'.generation = t.generation := hg'
      omega
    · exact h
  · intro s k hs' hk
    rcases h.staged hs' hk with ⟨s', hs', hk⟩ | hk | hk
    · exact old (hs.staged s' k hs' hk)
    · exact old (hs.asked k hk)
    · exact hk
  · intro k hk
    exact old (asked ((h.pending hk).imp_right fun hs => ⟨_, hs, rfl⟩))
  · intro n below hd
    obtain ⟨s, k, hs', hk, hn, hg⟩ := h.derived hl hd
    exact ⟨k, old (hs.staged s k hs' hk), hn, hg⟩
  · intro g hg
    rcases ha.mem.mp hg with hg | hg
    · obtain ⟨rfl, -, hr⟩ := ha.started g hg
      rcases hrun _ hr with ⟨h, -⟩ | h
      · have := hs.running _ h; omega
      · exact Nat.le_of_eq h
    · have := hs.started g hg; omega
  · intro g hg
    rcases ha.mem.mp hg with hg | hg
    · obtain ⟨rfl, -⟩ := ha.stopped g hg
      exact hgen
    · have := hs.stopped g hg; omega

/-- **On every run from a new session, ticks are sound.** -/
theorem Reaches.sound {settings : Settings} {engine : Engine} {source : Source} {signal : Signal}
    {ms : List Move} (h : Reaches (.new settings engine source signal) ms t) : Sound t :=
  h.invariant (fun _ _ _ _ hr hs hc => hc.sound (hr.laid rfl) hs)
    (.new settings engine source signal)

/-! ## Who tells something -/

/-- A stage tells something of a tick only while the tick may. A tick never tells of the
lifecycle. -/
theorem Goes.told_of_tick {s : Stage} {o : Outcome} (h : Goes t s o) {f : SessionFanout}
    {audience : List (ObserverId × Listener)} (ho : o.told = some (f, audience)) {n : Nat}
    (hc : f.cause = .tick n) :
    f.category ≠ .sessionState ∧
      ((∃ k, s.tick? = some k ∧ k.number = n ∧ t.current k = true) ∨ s = .recompute (.tick n)) := by
  cases h with
  | announces k fix known current =>
    cases ho
    cases hc
    exact ⟨by simp, .inl ⟨k, rfl, rfl, current⟩⟩
  | locates k s current | flags k s current =>
    cases ho
    cases hc
    exact ⟨by simp, .inl ⟨k, rfl, rfl, current⟩⟩
  | cues k s cues known epoch current =>
    cases ho
    cases hc
    exact ⟨by simp, .inl ⟨k, rfl, rfl, current⟩⟩
  | reports k s report progress notes quiet known active current =>
    cases ho
    cases hc
    exact ⟨by simp, .inl ⟨k, rfl, rfl, current⟩⟩
  | derives cause =>
    cases ho
    obtain rfl : cause = .tick n := hc
    exact ⟨by simp, .inr rfl⟩
  | registered l c | subscribed l c =>
    obtain ⟨v, id, rfl, -⟩ := owed_eq_some ho
    cases hc
  | enters | leaves =>
    cases ho
    cases hc
  | _ => cases ho

/-- What is told of a tick is of one of the session's generation. -/
theorem Tells.of_tick {f : SessionFanout} {audience : List (ObserverId × Listener)}
    (h : Tells t f audience) (hs : Sound t) {n : Nat} (hc : f.cause = .tick n) :
    f.category ≠ .sessionState ∧ ∃ k, Ticked t k ∧ k.number = n ∧ k.generation = t.generation := by
  obtain ⟨s, below, o, top, goes, ho⟩ := h
  obtain ⟨hcat, ⟨k, hk, hn, current⟩ | rfl⟩ := goes.told_of_tick ho hc
  · have hmem : .owner s ∈ t.stack := by
      rw [top]; exact List.mem_cons_self
    exact ⟨hcat, k, hs.staged s k hmem hk, hn, (of_decide_eq_true current).symm⟩
  · exact ⟨hcat, hs.derived n below top⟩

/-- What is replayed is told to one listener, and is the last value. -/
theorem Tells.of_replay {f : SessionFanout} {audience : List (ObserverId × Listener)}
    (h : Tells t f audience) (hl : ∃ b, Laid b t.stack) (hc : f.cause = .replay) :
    ∃ id l, audience = [(id, l)] ∧ t.dispatch.last f.category = some f.value := by
  obtain ⟨s, below, o, top, goes, ho⟩ := h
  cases goes with
  | registered l c | subscribed l c =>
    obtain ⟨v, id, rfl, rfl, hv⟩ := owed_eq_some ho
    exact ⟨id, l, rfl, hv⟩
  | derives cause =>
    cases ho
    obtain rfl : cause = .replay := hc
    obtain ⟨b, hl⟩ := hl
    rw [top] at hl
    cases hl with
    | work work => simp [Stage.IsWork, Stage.tick?] at work
    | own own => cases own
  | enters | leaves | announces | locates | flags | cues | reports =>
    cases ho
    cases hc
  | _ => cases ho

/-! ## Along a run -/

/-- What has happened stays so. -/
theorem Reaches.log_grows {a : Trip} {ms : List Move} (h : Reaches a ms t) :
    ∃ events, t.log = events ++ a.log := by
  refine h.invariant (P := fun t => ∃ events, t.log = events ++ a.log) ?_ ⟨[], rfl⟩
  rintro - t t' made - ⟨events, ht⟩ hc
  obtain ⟨more, ha⟩ := hc.adds
  exact ⟨more ++ events, by rw [ha.log, ht, List.append_assoc]⟩

theorem Reaches.ticked {a : Trip} {ms : List Move} (h : Reaches a ms t) {k : Tick}
    (hk : Ticked a k) : Ticked t k := by
  obtain ⟨events, ht⟩ := h.log_grows
  rw [Ticked, ht]
  exact List.mem_append_right _ hk

/-- Generation and epoch never go back. -/
theorem Reaches.le {a : Trip} {ms : List Move} (h : Reaches a ms t) :
    a.generation ≤ t.generation ∧ a.epoch ≤ t.epoch := by
  refine h.invariant (P := fun t => a.generation ≤ t.generation ∧ a.epoch ≤ t.epoch) ?_
    ⟨Nat.le_refl _, Nat.le_refl _⟩
  rintro - t t' made - ⟨hg, he⟩ hc
  obtain ⟨hg', he', -⟩ := hc.advances
  exact ⟨Nat.le_trans hg hg', Nat.le_trans he he'⟩

/-- What began on a run was told by one of its stages. -/
theorem Reaches.tells_of_began {a : Trip} {ms : List Move} (h : Reaches a ms t)
    {events : List SessionEvent} (hlog : t.log = events ++ a.log) {f : SessionFanout}
    {audience : List (ObserverId × Listener)} (hf : .began f audience ∈ events) :
    ∃ before b after, Reaches a before b ∧ Tells b f audience ∧ Reaches b after t := by
  -- The run is taken from its end: either its last step begins the fan-out, or one before.
  have last {ns more : List Move} {b b' : Trip} {made : Option Call} (hr : Reaches a ns b)
      (hb : Reaches b more b') (hc : Change b b' made)
      (ih : ∀ events, b.log = events ++ a.log → .began f audience ∈ events →
        ∃ before m after, Reaches a before m ∧ Tells m f audience ∧ Reaches m after b)
      (events : List SessionEvent) (hlog : b'.log = events ++ a.log)
      (hf : .began f audience ∈ events) :
      ∃ before m after, Reaches a before m ∧ Tells m f audience ∧ Reaches m after b' := by
    obtain ⟨new, ha⟩ := hc.adds
    obtain ⟨old, hold⟩ := hr.log_grows
    rw [ha.log, hold, ← List.append_assoc] at hlog
    rw [← List.append_cancel_right hlog] at hf
    rcases List.mem_append.mp hf with hf | hf
    · exact ⟨ns, b, more, hr, ha.began f audience hf, hb⟩
    · obtain ⟨before, m, after, hm, ht, hr'⟩ := ih old hold hf
      exact ⟨before, m, after ++ more, hm, ht, hr'.trans hb⟩
  refine h.induct (P := fun _ b => ∀ events, b.log = events ++ a.log → .began f audience ∈ events →
    ∃ before m after, Reaches a before m ∧ Tells m f audience ∧ Reaches m after b)
    ?_ ?_ ?_ events hlog hf
  · intro events hlog hf
    rw [List.self_eq_append_left.mp hlog] at hf
    cases hf
  · intro ns b b' hr ih hs
    exact last hr (.tick hs (.refl _)) (change_of_tick? hs) ih
  · intro ns m b b' hr ih hs
    obtain ⟨made, hc, -⟩ := change_of_move? hs
    exact last hr (.move hs (.refl _)) hc ih

end LiveTrip.Trip
