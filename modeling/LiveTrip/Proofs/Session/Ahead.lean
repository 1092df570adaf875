import LiveTrip.Proofs.Session.Ticks

/-!
# What a tick may still tell

A tick tells at most one value of each category, in a fixed order. Each of its stages has some of
that order still ahead of it.

* `Scope.order`, `Stage.ahead`: what a tick may tell, and what it may still tell at a stage.
* `Trip.Ahead`: a tick that is not over, and what it may still tell.
* `Trip.Quiet`: while a stage of the worker stands on the stack, the worker waits for no status.
* `Trip.Goes.ahead`: a stage tells what is ahead of it and leaves the rest to the next.
* `toldByTicks`, `ticksIn`: what ticks have told, and the ticks that have begun, as the log has it.
* `Trip.Works`, `Trip.Change.works`: what a step does to both and to what is ahead.
-/

namespace LiveTrip

open Category

/-! ## The order of a tick -/

/-- What a tick may tell, in order. -/
def Scope.order : Scope → List Category
  | .full => [rawLocation, location, offRoute, instructionCues, routeProgress, navigationPhase]
  | .locationOnly => [rawLocation, location]

/-- What the tick of a stage may still tell, in order. -/
def Stage.ahead : Stage → List Category
  | .announce k => k.scope.order
  | .ingest k | .ask k | .conclude k _ | .locate k _ => k.scope.order.tail
  | .flag _ _ => [offRoute, instructionCues, routeProgress, navigationPhase]
  | .cue _ _ => [instructionCues, routeProgress, navigationPhase]
  | .report _ _ => [routeProgress, navigationPhase]
  | .arrive _ _ => [navigationPhase]
  | _ => []

/-! ## The log -/

/-- The fan-out that begins, if a tick tells it. -/
def tickFanout? : SessionEvent → Option SessionFanout
  | .began f _ =>
    match f.cause with
    | .tick _ => some f
    | _ => none
  | _ => none

/-- The tick that begins. -/
def begunTick? : SessionEvent → Option Tick
  | .owner (.ticked k) => some k
  | _ => none

/-- What ticks have told, in the order it began. -/
def toldByTicks (log : List SessionEvent) : List SessionFanout := log.reverse.filterMap tickFanout?

/-- The ticks that have begun, in order. -/
def ticksIn (log : List SessionEvent) : List Tick := log.reverse.filterMap begunTick?

theorem toldByTicks_append (events log : List SessionEvent) :
    toldByTicks (events ++ log) = toldByTicks log ++ toldByTicks events := by
  simp [toldByTicks]

theorem ticksIn_append (events log : List SessionEvent) :
    ticksIn (events ++ log) = ticksIn log ++ ticksIn events := by
  simp [ticksIn]

theorem toldByTicks_eq_nil {events : List SessionEvent}
    (h : ∀ f audience, .began f audience ∈ events → f.cause.IsOwn) : toldByTicks events = [] := by
  rw [toldByTicks, List.filterMap_eq_nil_iff]
  intro e he
  cases e with
  | began f audience =>
    have hown := h f audience (List.mem_reverse.mp he)
    cases hc : f.cause with
    | tick n => exact absurd hc (hown n)
    | _ => simp [tickFanout?, hc]
  | _ => rfl

theorem toldByTicks_began {f : SessionFanout} {n : Nat} (h : f.cause = .tick n)
    (audience : List (ObserverId × Listener)) : toldByTicks [.began f audience] = [f] := by
  simp [toldByTicks, tickFanout?, h]

theorem ticksIn_eq_nil {events : List SessionEvent} (h : ∀ k, .owner (.ticked k) ∉ events) :
    ticksIn events = [] := by
  rw [ticksIn, List.filterMap_eq_nil_iff]
  intro e he
  cases e with
  | owner n =>
    cases n with
    | ticked k => exact absurd (List.mem_reverse.mp he) (h k)
    | _ => rfl
  | _ => rfl

theorem mem_ticksIn {log : List SessionEvent} {k : Tick} :
    k ∈ ticksIn log ↔ .owner (.ticked k) ∈ log := by
  simp only [ticksIn, List.mem_filterMap, List.mem_reverse]
  constructor
  · rintro ⟨e, he, hk⟩
    cases e with
    | owner n =>
      cases n with
      | ticked k' => cases hk; exact he
      | _ => cases hk
    | _ => cases hk
  · exact fun h => ⟨_, h, rfl⟩

namespace Trip

variable {t t' : Trip} {made : Option Call}

/-! ## What is ahead -/

/-- The tick is not over, and this is what it may still tell. -/
inductive Ahead (t : Trip) : Tick → List Category → Prop
  | stage {s : Stage} {k : Tick} (mem : .owner s ∈ t.stack) (tick : s.tick? = some k) :
      Ahead t k s.ahead
  /-- The phase is derived before the tick is counted. -/
  | derive {k : Tick}
      (stack : t.stack = [.owner (.recompute (.tick k.number)), .owner (.tally k)]) :
      Ahead t k [navigationPhase]
  /-- The worker waits for the status. -/
  | pending {k : Tick} (asked : t.outline.pending = some k) : Ahead t k k.scope.order.tail

/-- While a stage of the worker stands on the stack, the worker waits for no status. -/
def Quiet (t : Trip) : Prop := ∀ s, .owner s ∈ t.stack → s.IsWork → t.outline.pending = none

/-- What a stage of a tick tells is told by that tick. -/
theorem Goes.cause_of_told {s : Stage} {o : Outcome} (h : Goes t s o) {k : Tick}
    (hk : s.tick? = some k) {f : SessionFanout} {audience : List (ObserverId × Listener)}
    (ho : o.told = some (f, audience)) : f.cause = .tick k.number := by
  cases h with
  | announces | locates | flags | cues | reports =>
    cases hk
    cases ho
    rfl
  | replied | registered | subscribed | entered | enters | derived | derives | onRoute | leaves
  | forgot | rests | rereads | begins => cases hk
  | _ => cases ho

/-- A stage of a tick tells what is ahead of it, and leaves the rest to the next stage. Only telling
it gets past the location. -/
theorem Goes.ahead {s s' : Stage} {o : Outcome} (h : Goes t s o) {k k' : Tick}
    (hk : s.tick? = some k) (hs : .owner s' ∈ o.own) (hk' : s'.tick? = some k') :
    k' = k ∧ ((o.told.toList.map fun p => p.1.category) ++ s'.ahead).Sublist s.ahead ∧
      (location ∈ s.ahead →
        location ∈ (o.told.toList.map fun p => p.1.category) ∨ location ∈ s'.ahead) := by
  cases h with
  | announces k fix | announceStale k | announceNothing k | ingested k | asked k | answered k =>
    cases hk
    cases List.mem_singleton.mp hs
    cases hk'
    refine ⟨rfl, ?_, ?_⟩ <;> cases hscope : k.scope <;>
      simp [Stage.ahead, Scope.order, telling, hscope]
  | locates k s =>
    cases hk
    have hs := List.mem_singleton.mp hs
    cases hscope : k.scope with
    | full =>
      simp only [hscope, ↓reduceIte, Frame.owner.injEq] at hs
      subst hs
      cases hk'
      exact ⟨rfl, by simp [Stage.ahead, Scope.order, telling, hscope], by simp [telling]⟩
    | locationOnly =>
      simp only [hscope, reduceCtorEq, ↓reduceIte, Frame.owner.injEq] at hs
      subst hs
      cases hk'
      exact ⟨rfl, by simp [Stage.ahead, Scope.order, telling, hscope], by simp [telling]⟩
  | flags k | flagged k | flagStale k | cueReplaced k | cues k | cued k | cueStale k
  | unreported k | reports k | arriveStale k =>
    cases hk
    cases List.mem_singleton.mp hs
    cases hk'
    exact ⟨rfl, by simp [Stage.ahead, telling], by simp [Stage.ahead]⟩
  | arrives k =>
    cases hk
    simp only [List.mem_cons, Frame.owner.injEq, List.not_mem_nil, or_false] at hs
    rcases hs with rfl | rfl
    · cases hk'
    · cases hk'
      exact ⟨rfl, by simp [Stage.ahead], by simp [Stage.ahead]⟩
  | refused | failed | locateStale | tallied =>
    cases List.mem_singleton.mp hs
    cases hk'
  | orphaned | waits => cases hs
  | replied | registered | subscribed | entered | enters | derived | derives | onRoute | leaves
  | forgot | rests | rereads | begins => cases hk

/-- A stage that tells something of its tick is not the last of it. -/
theorem Goes.own_of_told {s : Stage} {o : Outcome} (h : Goes t s o) {k : Tick}
    (hk : s.tick? = some k) {f : SessionFanout} {audience : List (ObserverId × Listener)}
    (ho : o.told = some (f, audience)) : ∃ s', .owner s' ∈ o.own ∧ s'.tick? = some k := by
  cases h with
  | announces | flags | cues | reports =>
    cases hk
    exact ⟨_, List.mem_singleton_self _, rfl⟩
  | locates k s =>
    cases hk
    refine ⟨_, List.mem_singleton_self _, ?_⟩
    split <;> rfl
  | replied | registered | subscribed | entered | enters | derived | derives | onRoute | leaves
  | forgot | rests | rereads | begins => cases hk
  | _ => cases ho

/-- Only stages of the worker are followed by stages. -/
theorem Goes.isWork_of_own {s s' : Stage} {o : Outcome} (h : Goes t s o)
    (hs : .owner s' ∈ o.own) : s.IsWork := by
  cases h with
  | rereads | begins => exact .inr ⟨_, rfl⟩
  | replied | registered | entered | enters | derived | derives | onRoute | leaves | forgot
  | rests => cases hs
  | subscribed => cases List.mem_singleton.mp hs
  | _ => exact .inl rfl

/-- Only an arrival is followed by the derivation of the phase. -/
theorem Goes.arrive_of_derive {s : Stage} {o : Outcome} (h : Goes t s o) {cause : Cause}
    (hs : .owner (.recompute cause) ∈ o.own) :
    ∃ k complete, s = .arrive k complete ∧ o.told = none ∧
      o.own = [.owner (.recompute (.tick k.number)), .owner (.tally k)] := by
  cases h with
  | arrives k complete => exact ⟨k, complete, rfl, rfl, rfl⟩
  | locates k s =>
    have hs := List.mem_singleton.mp hs
    split at hs <;> cases hs
  | _ => simp at hs

/-- A stage begins a tick, or leaves their number. -/
theorem Goes.begins_or {s : Stage} {o : Outcome} (h : Goes t s o) :
    (∃ k, s = .proceed k.generation ∧ k.number = t.ticks ∧ o.told = none ∧
      o.own = [.owner (.announce k)] ∧ ticksIn (o.notes.map .owner) = [k] ∧
      o.outline.ticks = t.ticks + 1) ∨
    ticksIn (o.notes.map .owner) = [] ∧ o.outline.ticks = t.ticks := by
  have quiet {notes : List Note} (hq : ∀ n ∈ notes, IsSmoothing n) :
      ticksIn (notes.map .owner) = [] := by
    refine ticksIn_eq_nil fun k hk => ?_
    have hk : .ticked k ∈ notes := by simpa using hk
    rcases hq _ hk with ⟨a, b, c, v, h⟩ | ⟨route, leg, h⟩ <;> cases h
  cases h with
  | begins g ds scope fix =>
    exact .inl ⟨⟨t.ticks, g, t.epoch, scope, fix⟩, rfl, rfl, rfl, rfl, rfl, rfl⟩
  | unreported k s notes hq | reports k s report progress notes hq => exact .inr ⟨quiet hq, rfl⟩
  | _ => exact .inr ⟨rfl, rfl⟩

/-! ## Steps -/

/-- What a step does to what ticks have told and may still tell. -/
inductive Works (t t' : Trip) : Prop
  | keeps (ahead : ∀ k b, Ahead t' k b →
        ∃ a, Ahead t k a ∧ b.Sublist a ∧ (location ∈ a → location ∈ b))
      (told : toldByTicks t'.log = toldByTicks t.log) (begun : ticksIn t'.log = ticksIn t.log)
      (ticks : t'.ticks = t.ticks)
  /-- A tick tells something. -/
  | tells (f : SessionFanout) (k : Tick) (a : List Category) (cause : f.cause = .tick k.number)
      (was : Ahead t k a) (still : ∃ b, Ahead t' k b)
      (ahead : ∀ k' b, Ahead t' k' b → k' = k ∧ (f.category :: b).Sublist a ∧
        (location ∈ a → location = f.category ∨ location ∈ b))
      (told : toldByTicks t'.log = toldByTicks t.log ++ [f])
      (begun : ticksIn t'.log = ticksIn t.log) (ticks : t'.ticks = t.ticks)
  /-- A tick begins. -/
  | begins (k : Tick) (number : k.number = t.ticks)
      (later : k.scope = .locationOnly ∨
        ∃ below, t.stack = .owner (.proceed k.generation) :: below)
      (ahead : ∀ k' b, Ahead t' k' b → k' = k ∧ b = k.scope.order)
      (told : toldByTicks t'.log = toldByTicks t.log)
      (begun : ticksIn t'.log = ticksIn t.log ++ [k]) (ticks : t'.ticks = t.ticks + 1)

section Stages

variable {s : Stage} {below : List SessionFrame} {o : Outcome}

theorem Shows.stack_of_top (h : Shows t.pop t' o) (top : t.stack = .owner s :: below) :
    t'.stack = o.told.toList.map (fun p => .fanout p.1 p.2) ++ (o.own ++ below) := by
  rw [h.stack, stack_pop, top, List.tail_cons]

/-- What is ahead after a stage belongs to a stage that follows, or was there before, or is the
phase after an arrival, or what is ahead of a status that is waited for. -/
theorem Ahead.of_stage (hl : ∃ b, Laid b t.stack) (top : t.stack = .owner s :: below)
    (goes : Goes t s o) (shows : Shows t.pop t' o) {k : Tick} {b : List Category}
    (h : Ahead t' k b) :
    (∃ s', .owner s' ∈ o.own ∧ s'.tick? = some k ∧ b = s'.ahead) ∨
    (∃ s', .owner s' ∈ below ∧ s'.tick? = some k ∧ b = s'.ahead) ∨
    (o.told = none ∧ s.tick? = some k ∧ b = s.ahead) ∨
    t.outline.pending = some k ∧ b = k.scope.order.tail := by
  have stack := shows.stack_of_top top
  cases h with
  | @stage s' _ mem tick =>
    rw [stack] at mem
    have mem : .owner s' ∈ o.own ∨ .owner s' ∈ below := by simpa using mem
    rcases mem with mem | mem
    · exact .inl ⟨_, mem, tick, rfl⟩
    · exact .inr (.inl ⟨_, mem, tick, rfl⟩)
  | derive hstack =>
    have mem : .owner (.recompute (.tick k.number)) ∈ o.own ∨
        .owner (.recompute (.tick k.number)) ∈ below := by
      have h : .owner (.recompute (.tick k.number)) ∈ t'.stack := by
        rw [hstack]; exact List.mem_cons_self
      rw [stack] at h
      simpa using h
    rcases mem with mem | mem
    · obtain ⟨k', complete, rfl, hnone, hown⟩ := goes.arrive_of_derive mem
      rw [stack, hnone, hown] at hstack
      simp only [Option.toList_none, List.map_nil, List.nil_append, List.cons_append,
        List.cons.injEq, Frame.owner.injEq, Stage.tally.injEq] at hstack
      exact .inr (.inr (.inl ⟨hnone, by rw [← hstack.2.1]; rfl, rfl⟩))
    · -- It does not stand below another stage.
      obtain ⟨b, hl⟩ := hl
      obtain ⟨-, k', -, hst⟩ := hl.eq_of_mem_derive (by rw [top]; exact List.mem_cons_of_mem _ mem)
      rw [top] at hst
      cases hst
      cases List.mem_singleton.mp mem
  | pending asked =>
    rw [shows.outline] at asked
    rcases goes.pending asked with h | ⟨rfl, -, hnone⟩
    · exact .inr (.inr (.inr ⟨h, rfl⟩))
    · exact .inr (.inr (.inl ⟨hnone, rfl, rfl⟩))

/-- Below a stage of the worker there is nothing. -/
theorem below_work {b : Bool} (hl : Laid b (.owner s :: below)) (work : s.IsWork) :
    below = [] := by
  cases hl with
  | work => rfl
  | derive => simp [Stage.IsWork, Stage.tick?] at work
  | own own => exact absurd own (Stage.not_isOwn_of_isWork work)

/-- What is told and noted in a step, as the lists have it. -/
theorem lists_of_log
    (log : t'.log = o.told.toList.map (fun p => .began p.1 p.2) ++ (o.notes.map .owner ++ t.log)) :
    toldByTicks t'.log =
      toldByTicks t.log ++ toldByTicks (o.told.toList.map fun p => .began p.1 p.2) ∧
    ticksIn t'.log = ticksIn t.log ++ ticksIn (o.notes.map .owner) := by
  have hnotes : toldByTicks (o.notes.map .owner) = [] := toldByTicks_eq_nil (by simp)
  have htold : ticksIn (o.told.toList.map fun p => .began p.1 p.2) = [] := ticksIn_eq_nil (by simp)
  rw [log, toldByTicks_append, toldByTicks_append, hnotes, ticksIn_append, ticksIn_append, htold]
  simp

/-- A stage of a tick. -/
theorem works_of_tick (hl : ∃ b, Laid b t.stack) (hq : Quiet t) {k : Tick} (hk : s.tick? = some k)
    (top : t.stack = [.owner s]) (goes : Goes t s o) (shows : Shows t.pop t' o) : Works t t' := by
  have mem : .owner s ∈ t.stack := by rw [top]; exact List.mem_cons_self
  have hpending : t.outline.pending = none := hq s mem (Stage.isWork_of_tick? hk)
  have hticks : t'.ticks = o.outline.ticks := congrArg Outline.ticks shows.outline
  obtain ⟨htold, hbegun⟩ := lists_of_log (t := t) shows.log
  obtain ⟨hnotes, hcount⟩ := goes.begins_or.resolve_left fun ⟨k', hs, _⟩ => by
    rw [hs] at hk
    cases hk
  rw [hnotes, List.append_nil] at hbegun
  rw [hcount] at hticks
  -- What is ahead belongs to the stage that follows, or is what was ahead.
  have next {k' : Tick} {b : List Category} (h : Ahead t' k' b) :
      (∃ s', .owner s' ∈ o.own ∧ s'.tick? = some k' ∧ b = s'.ahead) ∨
        o.told = none ∧ k' = k ∧ b = s.ahead := by
    rcases h.of_stage hl top goes shows with
      h | ⟨s', h, -⟩ | ⟨hnone, hk', hb⟩ | ⟨h, -⟩
    · exact .inl h
    · cases h
    · rw [hk] at hk'
      cases hk'
      exact .inr ⟨hnone, rfl, hb⟩
    · rw [hpending] at h
      cases h
  rcases ho : o.told with _ | ⟨f, audience⟩
  · refine .keeps (fun k' b h => ⟨s.ahead, ?_⟩) (by rw [htold, ho]; simp [toldByTicks]) hbegun
      hticks
    rcases next h with ⟨s', hs', hk', rfl⟩ | ⟨-, rfl, rfl⟩
    · obtain ⟨rfl, hsub, hloc⟩ := goes.ahead hk hs' hk'
      rw [ho] at hsub hloc
      exact ⟨.stage mem hk, hsub, fun hmem => (hloc hmem).resolve_left (by simp)⟩
    · exact ⟨.stage mem hk, List.Sublist.refl _, id⟩
  · have hcause := goes.cause_of_told hk ho
    have hf : toldByTicks [.began f audience] = [f] := toldByTicks_began hcause audience
    obtain ⟨s', hs', hk'⟩ := goes.own_of_told hk ho
    refine .tells f k s.ahead hcause (.stage mem hk) ⟨_, .stage ?_ hk'⟩ (fun k' b h => ?_)
      (by rw [htold, ho]; exact congrArg _ hf) hbegun hticks
    · rw [shows.stack_of_top top]
      simp [hs']
    · rcases next h with ⟨s', hs', hk', rfl⟩ | ⟨hnone, -⟩
      · obtain ⟨rfl, hsub, hloc⟩ := goes.ahead hk hs' hk'
        rw [ho] at hsub hloc
        exact ⟨rfl, hsub, fun hmem => (hloc hmem).imp_left (by simp)⟩
      · rw [ho] at hnone
        cases hnone

/-- A worker that goes on to its next tick. -/
theorem works_of_proceed (hl : ∃ b, Laid b t.stack) (hq : Quiet t) {g : Nat}
    (top : t.stack = [.owner (.proceed g)]) (goes : Goes t (.proceed g) o)
    (shows : Shows t.pop t' o) : Works t t' := by
  have mem : .owner (.proceed g) ∈ t.stack := by rw [top]; exact List.mem_cons_self
  have hpending : t.outline.pending = none := hq _ mem (.inr ⟨g, rfl⟩)
  have hticks : t'.ticks = o.outline.ticks := congrArg Outline.ticks shows.outline
  obtain ⟨htold, hbegun⟩ := lists_of_log (t := t) shows.log
  have hnone : o.told = none := by cases goes <;> rfl
  rw [hnone] at htold
  have htold : toldByTicks t'.log = toldByTicks t.log := by simpa [toldByTicks] using htold
  have next {k : Tick} {b : List Category} (h : Ahead t' k b) :
      ∃ s, .owner s ∈ o.own ∧ s.tick? = some k ∧ b = s.ahead := by
    rcases h.of_stage hl top goes shows with h | ⟨s', h, -⟩ | ⟨-, h, -⟩ | ⟨h, -⟩
    · exact h
    · cases h
    · cases h
    · rw [hpending] at h
      cases h
  rcases goes.begins_or with ⟨k, hg, hnumber, -, hown, hnotes, hcount⟩ | ⟨hnotes, hcount⟩
  · cases hg
    refine .begins k hnumber (.inr ⟨[], top⟩) (fun k' b h => ?_) htold (by rw [hbegun, hnotes])
      (hticks.trans hcount)
    obtain ⟨s, hs, hk, rfl⟩ := next h
    rw [hown] at hs
    cases List.mem_singleton.mp hs
    cases hk
    exact ⟨rfl, rfl⟩
  · refine .keeps (fun k b h => ?_) htold (by rw [hbegun, hnotes, List.append_nil])
      (hticks.trans hcount)
    obtain ⟨s, hs, hk, -⟩ := next h
    rcases goes.tick_of_own hs hk with h | h
    · cases h
    · have hmem : k ∈ ticksIn (o.notes.map .owner) := mem_ticksIn.mpr (List.mem_map_of_mem h)
      rw [hnotes] at hmem
      cases hmem

/-- A tick that derives the phase. -/
theorem works_of_derive (hl : ∃ b, Laid b t.stack) (hq : Quiet t) {k : Tick}
    (top : t.stack = [.owner (.recompute (.tick k.number)), .owner (.tally k)])
    (goes : Goes t (.recompute (.tick k.number)) o) (shows : Shows t.pop t' o) : Works t t' := by
  have hpending : t.outline.pending = none := hq (.tally k) (by rw [top]; simp) (.inl rfl)
  have hticks : t'.ticks = o.outline.ticks := congrArg Outline.ticks shows.outline
  obtain ⟨htold, hbegun⟩ := lists_of_log (t := t) shows.log
  obtain ⟨hnotes, hcount⟩ := goes.begins_or.resolve_left fun ⟨_, hs, _⟩ => by cases hs
  rw [hnotes, List.append_nil] at hbegun
  rw [hcount] at hticks
  -- Only the count of the tick is left.
  have next {k' : Tick} {b : List Category} (h : Ahead t' k' b) : k' = k ∧ b = [] := by
    rcases h.of_stage hl top goes shows with
      ⟨s', hs', -⟩ | ⟨s', hs', hk', rfl⟩ | ⟨-, hk', -⟩ | ⟨h, -⟩
    · cases goes <;> cases hs'
    · cases List.mem_singleton.mp hs'
      cases hk'
      exact ⟨rfl, rfl⟩
    · cases hk'
    · rw [hpending] at h
      cases h
  cases goes with
  | derived =>
    refine .keeps (fun k' b h => ?_) (by rw [htold]; simp [toldByTicks]) hbegun hticks
    obtain ⟨rfl, rfl⟩ := next h
    exact ⟨_, .derive top, List.nil_sublist _, by simp⟩
  | derives =>
    have still : Ahead t' k (Stage.tally k).ahead :=
      .stage (by rw [shows.stack_of_top top]; simp) rfl
    refine .tells _ k _ rfl (.derive top) ⟨_, still⟩ (fun k' b h => ?_) htold hbegun hticks
    · obtain ⟨rfl, rfl⟩ := next h
      exact ⟨rfl, List.Sublist.refl _, by simp⟩

/-- A stage of a call. -/
theorem works_of_own (hl : ∃ b, Laid b t.stack) (own : s.IsOwn) (top : t.stack = .owner s :: below)
    (goes : Goes t s o) (shows : Shows t.pop t' o) : Works t t' := by
  have noWork : ¬ s.IsWork := fun work => Stage.not_isOwn_of_isWork work own
  have hticks : t'.ticks = o.outline.ticks := congrArg Outline.ticks shows.outline
  obtain ⟨htold, hbegun⟩ := lists_of_log (t := t) shows.log
  obtain ⟨hnotes, hcount⟩ := goes.begins_or.resolve_left fun ⟨k, hs, _⟩ =>
    noWork (.inr ⟨_, hs⟩)
  have hnone : toldByTicks (o.told.toList.map fun p => .began p.1 p.2) = [] := by
    refine toldByTicks_eq_nil fun f audience hf n hcause => ?_
    have : ∃ a b, o.told = some (a, b) ∧ a = f ∧ b = audience := by simpa using hf
    obtain ⟨a, b, ho, rfl, rfl⟩ := this
    obtain ⟨-, ⟨k, hk, -⟩ | rfl⟩ := goes.told_of_tick ho hcause
    · exact noWork (Stage.isWork_of_tick? hk)
    · exact own
  refine .keeps (fun k b h => ?_) (by rw [htold, hnone, List.append_nil])
    (by rw [hbegun, hnotes, List.append_nil]) (hticks.trans hcount)
  rcases h.of_stage hl top goes shows with
    ⟨s', hs', -⟩ | ⟨s', hs', hk, rfl⟩ | ⟨-, hk, -⟩ | ⟨asked, rfl⟩
  · exact absurd (goes.isWork_of_own hs') noWork
  · exact ⟨_, .stage (by rw [top]; exact List.mem_cons_of_mem _ hs') hk, List.Sublist.refl _, id⟩
  · exact absurd (Stage.isWork_of_tick? hk) noWork
  · exact ⟨_, .pending asked, List.Sublist.refl _, id⟩

theorem works_of_stage (hl : ∃ b, Laid b t.stack) (hq : Quiet t) (top : t.stack = .owner s :: below)
    (goes : Goes t s o) (shows : Shows t.pop t' o) : Works t t' := by
  obtain ⟨b, hlaid⟩ := hl
  have hl : ∃ b, Laid b t.stack := ⟨b, hlaid⟩
  rw [top] at hlaid
  cases hlaid with
  | work work =>
    rcases work with htick | ⟨g, rfl⟩
    · obtain ⟨k, hk⟩ := Option.isSome_iff_exists.mp htick
      exact works_of_tick hl hq hk top goes shows
    · exact works_of_proceed hl hq top goes shows
  | derive k => exact works_of_derive hl hq top goes shows
  | own own => exact works_of_own hl own top goes shows

end Stages

/-- Where no stage is run, and the stages on the stack and the outline stay as they were. -/
theorem works_of_other {events : List SessionEvent} (hlog : t'.log = events ++ t.log)
    (hquiet : ∀ e ∈ events, (∀ f audience, e ≠ .began f audience) ∧ ∀ k, e ≠ .owner (.ticked k))
    (ticks : t'.ticks = t.ticks)
    (ahead : ∀ k b, Ahead t' k b → Ahead t k b) : Works t t' := by
  have htold : toldByTicks events = [] :=
    toldByTicks_eq_nil fun f audience hf => absurd rfl ((hquiet _ hf).1 f audience)
  have hbegun : ticksIn events = [] := ticksIn_eq_nil fun k hk => absurd rfl ((hquiet _ hk).2 k)
  refine .keeps (fun k b h => ⟨b, ahead k b h, List.Sublist.refl _, id⟩) ?_ ?_ ticks
  · rw [hlog, toldByTicks_append, htold, List.append_nil]
  · rw [hlog, ticksIn_append, hbegun, List.append_nil]

/-- A call leaves what is ahead. -/
theorem Ahead.of_call {b : Bool} (hl : Laid b t.stack) {caller : Option Listener} {c : Call}
    {r : Reply} {stages : List Stage} {notes : List Note} {o : Outline}
    (word : t.speaker = some caller) (performs : Performs t c stages notes o)
    (shows : Shows t t' { own := stages.map .owner ++ [.owner (.reply r)], notes, outline := o })
    {k : Tick} {a : List Category} (h : Ahead t' k a) : Ahead t k a := by
  have mem {s : Stage} (hs : .owner s ∈ t'.stack) : s.IsOwn ∨ .owner s ∈ t.stack := by
    rw [shows.stack] at hs
    have hs : s ∈ stages ∨ s = .reply r ∨ .owner s ∈ t.stack := by simpa [or_assoc] using hs
    rcases hs with hs | rfl | hs
    · exact .inl (performs.isOwn s hs)
    · exact .inl trivial
    · exact .inr hs
  cases h with
  | stage hs tick =>
    rcases mem hs with own | hs
    · exact absurd own (Stage.not_isOwn_of_isWork (Stage.isWork_of_tick? tick))
    · exact .stage hs tick
  | derive hst =>
    rcases mem (by rw [hst]; exact List.mem_cons_self) with own | hs
    · cases own
    · obtain ⟨hb, -⟩ := (laid_of_speaker hl word).eq_of_mem_derive hs
      cases hb
  | pending asked =>
    rw [shows.outline] at asked
    cases performs with
    | starts | stops | closes => cases asked
    | _ => exact .pending asked

/-- A turn of a task. -/
theorem works_of_turn {o : Outcome} (idle : t.stack = []) (turn : Turn t o) (shows : Shows t t' o) :
    Works t t' := by
  have hticks : t'.ticks = o.outline.ticks := congrArg Outline.ticks shows.outline
  have hpending : t'.outline.pending = o.outline.pending := congrArg Outline.pending shows.outline
  have hstack := shows.stack
  rw [idle, List.append_nil] at hstack
  obtain ⟨htold, hbegun⟩ := lists_of_log shows.log
  have hnone : o.told = none := by cases turn <;> rfl
  rw [hnone] at htold hstack
  have htold : toldByTicks t'.log = toldByTicks t.log := by simpa [toldByTicks] using htold
  have hstack : t'.stack = o.own := by simpa using hstack
  have next {k : Tick} {b : List Category} (h : Ahead t' k b) :
      (∃ s, .owner s ∈ o.own ∧ s.tick? = some k ∧ b = s.ahead) ∨
        o.outline.pending = some k ∧ b = k.scope.order.tail := by
    cases h with
    | stage mem tick => exact .inl ⟨_, hstack ▸ mem, tick, rfl⟩
    | derive hst =>
      rw [hstack] at hst
      cases turn <;> cases hst
    | pending asked => exact .inr ⟨hpending ▸ asked, rfl⟩
  cases turn with
  | begins g fix running =>
    refine .begins ⟨t.ticks, g, t.epoch, .locationOnly, fix⟩ rfl (.inl rfl) (fun k b h => ?_) htold
      hbegun hticks
    rcases next h with ⟨s, hs, hk, rfl⟩ | ⟨asked, -⟩
    · cases List.mem_singleton.mp hs
      cases hk
      exact ⟨rfl, rfl⟩
    · cases asked
  | concludes k answer asked =>
    refine .keeps (fun k' b h => ?_) htold (hbegun.trans (List.append_nil _)) hticks
    rcases next h with ⟨s, hs, hk, rfl⟩ | ⟨asked, -⟩
    · cases List.mem_singleton.mp hs
      cases hk
      exact ⟨_, .pending asked, List.Sublist.refl _, id⟩
    · cases asked
  | proceeds g roused =>
    refine .keeps (fun k b h => ?_) htold (hbegun.trans (List.append_nil _)) hticks
    rcases next h with ⟨s, hs, hk, -⟩ | ⟨asked, -⟩
    · cases List.mem_singleton.mp hs
      cases hk
    · cases asked
  | waits active =>
    refine .keeps (fun k b h => ?_) htold (hbegun.trans (List.append_nil _)) hticks
    rcases next h with ⟨s, hs, -⟩ | ⟨asked, rfl⟩
    · cases hs
    · exact ⟨_, .pending asked, List.Sublist.refl _, id⟩

/-- **What a step does to what ticks have told and may still tell.** -/
theorem Change.works (h : Change t t' made) (hl : ∃ b, Laid b t.stack) (hq : Quiet t) :
    Works t t' := by
  cases h with
  | stage s below o top goes stack log outline =>
    exact works_of_stage hl hq top goes ⟨by rw [stack_pop, top]; exact stack, log, outline⟩
  | deliver f id l rest below top stack log outline =>
    have hlog : t'.log = [.delivered f id l] ++ t.log := log
    refine works_of_other hlog (by simp) (congrArg Outline.ticks outline) fun k b h => ?_
    cases h with
    | stage mem tick =>
      rw [stack] at mem
      exact .stage (by rw [top]; simpa using mem) tick
    | derive hst => rw [stack] at hst; cases hst
    | pending asked => exact .pending (by rwa [outline] at asked)
  | ends x below events top noStage _ stack log failures outline =>
    refine works_of_other log (fun e he => ?_) (congrArg Outline.ticks outline) fun k b h => ?_
    · obtain ⟨f, id, l, rfl⟩ := failures e he
      simp
    · cases h with
      | stage mem tick =>
        rw [stack] at mem
        exact .stage (by rw [top]; exact List.mem_cons_of_mem _ mem) tick
      | derive hst =>
        rw [stack] at hst
        obtain ⟨b, hl⟩ := hl
        have hmem : .owner (.recompute (.tick k.number)) ∈ t.stack := by
          rw [top, hst]
          exact List.mem_cons_of_mem _ List.mem_cons_self
        obtain ⟨-, k', -, h⟩ := hl.eq_of_mem_derive hmem
        rw [top] at h
        exact absurd (List.cons.inj h).1 (noStage _)
      | pending asked => exact .pending (by rwa [outline] at asked)
  | call caller c r stages notes o word hmade performs shows =>
    obtain ⟨b, hl⟩ := hl
    refine works_of_other shows.log (fun e he => ?_) ?_ fun k a h =>
      h.of_call hl word performs shows
    · have he : ∃ n ∈ notes, Event.owner n = e := by simpa using he
      obtain ⟨n, hn, rfl⟩ := he
      exact ⟨by simp, fun k hk => (performs.notes_of hn).1 k (by cases hk; rfl)⟩
    · have hticks : t'.ticks = o.ticks := congrArg Outline.ticks shows.outline
      rw [hticks]
      cases performs <;> rfl
  | turn o idle turn shows => exact works_of_turn idle turn shows

/-! ## The worker waits for one status at a time -/

theorem Change.quiet (h : Change t t' made) (hl : ∃ b, Laid b t.stack) (hq : Quiet t) :
    Quiet t' := by
  intro s' hs' work
  cases h with
  | stage s below o top goes stack log outline =>
    have mem : .owner s ∈ t.stack := by rw [top]; exact List.mem_cons_self
    have hs : .owner s' ∈ o.own ∨ .owner s' ∈ below := by
      rw [stack] at hs'
      simpa using hs'
    rw [outline]
    rcases hp : o.outline.pending with _ | k
    · rfl
    · exfalso
      rcases goes.pending hp with asked | ⟨rfl, hown, -⟩
      · have hnone : t.outline.pending = none := by
          rcases hs with hs | hs
          · exact hq s mem (goes.isWork_of_own hs)
          · exact hq s' (by rw [top]; exact List.mem_cons_of_mem _ hs) work
        rw [hnone] at asked
        cases asked
      · obtain ⟨b, hl⟩ := hl
        rw [top] at hl
        rw [hown, below_work hl (.inl rfl)] at hs
        rcases hs with hs | hs <;> cases hs
  | deliver f id l rest below top stack log outline =>
    rw [stack] at hs'
    rw [outline]
    exact hq s' (by rw [top]; simpa using hs') work
  | ends x below events top _ _ stack log _ outline =>
    rw [stack] at hs'
    rw [outline]
    exact hq s' (by rw [top]; exact List.mem_cons_of_mem _ hs') work
  | call caller c r stages notes o word hmade performs shows =>
    rw [shows.stack] at hs'
    have hs : s' ∈ stages ∨ s' = .reply r ∨ .owner s' ∈ t.stack := by simpa [or_assoc] using hs'
    rcases hs with hs | rfl | hs
    · exact absurd (performs.isOwn s' hs) (Stage.not_isOwn_of_isWork work)
    · exact absurd trivial (Stage.not_isOwn_of_isWork work)
    · have hnone := hq s' hs work
      rw [shows.outline]
      cases performs with
      | starts | stops | closes => rfl
      | _ => exact hnone
  | turn o idle turn shows =>
    rw [shows.stack, idle, List.append_nil] at hs'
    rw [shows.outline]
    cases turn with
    | waits => cases hs'
    | _ => rfl

/-- On every run, the worker waits for no status while a stage of it stands on the stack. -/
theorem Reaches.quiet {t₀ : Trip} {ms : List Move} (h : Reaches t₀ ms t) (h₀ : t₀.stack = []) :
    Quiet t :=
  h.invariant (fun _ _ _ _ hr hq hc => hc.quiet (hr.laid h₀) hq)
    (fun s hs => by rw [h₀] at hs; cases hs)

end Trip
end LiveTrip
