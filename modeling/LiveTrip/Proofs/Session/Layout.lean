import LiveTrip.Proofs.Session.Steps

/-!
# What stands on the stack

At most one stage of the worker stands on the stack, at its very bottom, with the fan-out of its
tick right above it. All that is further up belongs to calls.

* `Stage.tick?`, `Stage.after`: the tick a stage is of, and what the tick has told right before it.
* `Laid`: how frames lie on each other.
* `Trip.Change.laid`, `Trip.Reaches.laid`: every step keeps it.
* `Laid.above_work`, `Laid.below_tick`: what is right above a stage of a tick, and right below a
  fan-out of a tick.
-/

namespace LiveTrip

/-- The tick that a stage is of. -/
def Stage.tick? : Stage → Option Tick
  | .announce k | .ingest k | .ask k | .conclude k _ | .locate k _ | .flag k _ | .cue k _
  | .report k _ | .arrive k _ | .tally k => some k
  | _ => none

/-- What the tick may have told right before a stage. -/
def Stage.after : Stage → List Category
  | .ingest _ => [.rawLocation]
  | .flag _ _ => [.location]
  | .cue _ _ => [.offRoute]
  | .report _ _ => [.instructionCues]
  | .arrive _ _ => [.routeProgress]
  | .tally _ => [.location, .navigationPhase]
  | _ => []

/-- Stages of the worker. -/
def Stage.IsWork (s : Stage) : Prop := s.tick?.isSome ∨ ∃ g, s = .proceed g

/-- Stages of calls. -/
def Stage.IsOwn : Stage → Prop
  | .reply _ | .register _ _ | .subscribe _ _ _ | .enter _ | .recompute .call | .leaveOffRoute
  | .forgetTrip => True
  | _ => False

/-- The cause is no tick. -/
def Cause.IsOwn (c : Cause) : Prop := ∀ n, c ≠ .tick n

/-- How frames lie on each other. Calls put frames on top only where the flag is set: on an observer
at work, on frames of calls, and where there is nothing. -/
inductive Laid : Bool → List SessionFrame → Prop
  | nil : Laid true []
  | work {s : Stage} (work : s.IsWork) : Laid false [.owner s]
  /-- A tick derives the phase before it is counted. -/
  | derive (k : Tick) : Laid false [.owner (.recompute (.tick k.number)), .owner (.tally k)]
  | told {s : Stage} {k : Tick} {f : SessionFanout} {rest : List (ObserverId × Listener)}
      (tick : s.tick? = some k) (cause : f.cause = .tick k.number) (after : f.category ∈ s.after) :
      Laid false [.fanout f rest, .owner s]
  | fanout {f : SessionFanout} {rest : List (ObserverId × Listener)} {st : List SessionFrame}
      (cause : f.cause.IsOwn) (replay : f.cause = .replay → rest.length ≤ 1) (h : Laid true st) :
      Laid false (.fanout f rest :: st)
  | acting {f : SessionFanout} {id : ObserverId} {l : Listener}
      {rest : List (ObserverId × Listener)} {st : List SessionFrame}
      (replay : f.cause = .replay → rest = []) (h : Laid false (.fanout f rest :: st)) :
      Laid true (.acting f id l :: .fanout f rest :: st)
  | own {s : Stage} {st : List SessionFrame} (own : s.IsOwn) (h : Laid true st) :
      Laid true (.owner s :: st)
  | keep {slot : Slot} {g : Guard Category} {st : List SessionFrame} (h : Laid true st) :
      Laid true (.keep slot g :: st)

theorem Stage.isWork_of_tick? {s : Stage} {k : Tick} (h : s.tick? = some k) : s.IsWork :=
  .inl (by simp [h])

/-- No stage is both of the worker and of a call. -/
theorem Stage.not_isOwn_of_isWork {s : Stage} (h : s.IsWork) : ¬ s.IsOwn := by
  intro ho
  rcases h with h | ⟨g, rfl⟩
  · cases s <;> simp_all [Stage.IsOwn, Stage.tick?]
  · exact ho

namespace Laid

variable {b : Bool} {st : List SessionFrame}

/-- What is below the uppermost frame. -/
theorem tail {x : SessionFrame} (h : Laid b (x :: st)) : ∃ b', Laid b' st := by
  cases h with
  | work => exact ⟨_, .nil⟩
  | derive k => exact ⟨_, .work (.inl rfl)⟩
  | told tick => exact ⟨_, .work (Stage.isWork_of_tick? tick)⟩
  | fanout _ _ h => exact ⟨_, h⟩
  | acting _ h => exact ⟨_, h⟩
  | own _ h => exact ⟨_, h⟩
  | keep h => exact ⟨_, h⟩

/-- Calls put their stages on top. -/
theorem stages {ss : List Stage} (h : Laid true st) (hs : ∀ s ∈ ss, s.IsOwn) :
    Laid true (ss.map .owner ++ st) := by
  induction ss with
  | nil => exact h
  | cons s ss ih =>
    exact .own (hs s List.mem_cons_self) (ih fun s' hs' => hs s' (List.mem_cons_of_mem _ hs'))

/-- Right above a stage of the worker is nothing, or the derivation of the phase, or the fan-out of
what its tick has told before it. -/
theorem above_work (h : Laid b st) {s : Stage} (hs : .owner s ∈ st) (work : s.IsWork) :
    (b = false ∧ st = [.owner s]) ∨
    (b = false ∧ ∃ k, s = .tally k ∧ st = [.owner (.recompute (.tick k.number)), .owner s]) ∨
    ∃ upper f rest k, st = upper ++ [.fanout f rest, .owner s] ∧ s.tick? = some k ∧
      f.cause = .tick k.number ∧ f.category ∈ s.after := by
  -- What is further up leaves the bottom as it is.
  have up (upper : List SessionFrame) {st : List SessionFrame}
      (hst : ∃ upper f rest k, st = upper ++ [.fanout f rest, .owner s] ∧ s.tick? = some k ∧
        f.cause = .tick k.number ∧ f.category ∈ s.after) :
      ∃ upper' f rest k, upper ++ st = upper' ++ [.fanout f rest, .owner s] ∧ s.tick? = some k ∧
        f.cause = .tick k.number ∧ f.category ∈ s.after := by
    obtain ⟨upper', f, rest, k, rfl, hk⟩ := hst
    exact ⟨upper ++ upper', f, rest, k, by simp, hk⟩
  induction h with
  | nil => cases hs
  | work hw => exact .inl ⟨rfl, by simpa using Eq.symm (by simpa using hs)⟩
  | derive k =>
    rcases List.mem_cons.mp hs with hs | hs
    · cases hs
      exact absurd work (by simp [Stage.IsWork, Stage.tick?])
    · have := List.mem_singleton.mp hs
      cases this
      exact .inr (.inl ⟨rfl, k, rfl, rfl⟩)
  | @told s' k f rest tick cause after =>
    have : s = s' := by simpa using hs
    subst this
    exact .inr (.inr ⟨[], f, rest, k, rfl, tick, cause, after⟩)
  | fanout _ _ _ ih =>
    rcases ih (by simpa using hs) with ⟨hb, -⟩ | ⟨hb, -⟩ | h
    · cases hb
    · cases hb
    · exact .inr (.inr (up [_] h))
  | acting _ h ih =>
    rcases ih (by simpa using hs) with ⟨-, hst⟩ | ⟨-, k, -, hst⟩ | h
    · cases hst
    · cases hst
    · exact .inr (.inr (up [_] h))
  | own own _ ih =>
    rcases List.mem_cons.mp hs with hs | hs
    · cases hs
      exact absurd own (Stage.not_isOwn_of_isWork work)
    · rcases ih hs with ⟨hb, -⟩ | ⟨hb, -⟩ | h
      · cases hb
      · cases hb
      · exact .inr (.inr (up [_] h))
  | keep _ ih =>
    rcases ih (by simpa using hs) with ⟨hb, -⟩ | ⟨hb, -⟩ | h
    · cases hb
    · cases hb
    · exact .inr (.inr (up [_] h))

/-- A fan-out of a tick is right above a stage of it. -/
theorem below_tick (h : Laid b st) {f : SessionFanout} {rest : List (ObserverId × Listener)}
    (hf : .fanout f rest ∈ st) {n : Nat} (cause : f.cause = .tick n) :
    ∃ upper s k, st = upper ++ [.fanout f rest, .owner s] ∧ s.tick? = some k ∧ k.number = n ∧
      f.category ∈ s.after := by
  have up (upper : List SessionFrame) {st : List SessionFrame}
      (hst : ∃ upper s k, st = upper ++ [.fanout f rest, .owner s] ∧ s.tick? = some k ∧
        k.number = n ∧ f.category ∈ s.after) :
      ∃ upper' s k, upper ++ st = upper' ++ [.fanout f rest, .owner s] ∧ s.tick? = some k ∧
        k.number = n ∧ f.category ∈ s.after := by
    obtain ⟨upper', s, k, rfl, hk⟩ := hst
    exact ⟨upper ++ upper', s, k, by simp, hk⟩
  induction h with
  | nil => cases hf
  | work hw => simp at hf
  | derive k => simp at hf
  | @told s k g rest' tick hc after =>
    simp only [List.mem_cons, Frame.fanout.injEq, reduceCtorEq, List.not_mem_nil, or_self,
      or_false] at hf
    obtain ⟨rfl, rfl⟩ := hf
    rw [hc] at cause
    cases cause
    exact ⟨[], s, k, rfl, tick, rfl, after⟩
  | fanout own _ _ ih =>
    rcases List.mem_cons.mp hf with hf | hf
    · cases hf
      exact absurd cause (own n)
    · exact up [_] (ih hf)
  | acting _ _ ih => exact up [_] (ih (by simpa using hf))
  | own _ _ ih => exact up [_] (ih (by simpa using hf))
  | keep _ ih => exact up [_] (ih (by simpa using hf))

/-- A tick derives the phase at once. -/
theorem eq_of_mem_derive (h : Laid b st) {n : Nat} (hn : .owner (.recompute (.tick n)) ∈ st) :
    b = false ∧ ∃ k, k.number = n ∧
      st = [.owner (.recompute (.tick k.number)), .owner (.tally k)] := by
  induction h with
  | nil => cases hn
  | work work =>
    cases List.mem_singleton.mp hn
    simp [Stage.IsWork, Stage.tick?] at work
  | derive k =>
    rcases List.mem_cons.mp hn with hn | hn
    · cases hn; exact ⟨rfl, k, rfl, rfl⟩
    · cases List.mem_singleton.mp hn
  | told tick =>
    obtain rfl : Stage.recompute (.tick n) = _ := by simpa using hn
    cases tick
  | fanout _ _ _ ih =>
    obtain ⟨h, -⟩ := ih (by simpa using hn)
    cases h
  | acting _ _ ih =>
    obtain ⟨-, k, -, h⟩ := ih (by simpa using hn)
    cases h
  | own own _ ih =>
    rcases List.mem_cons.mp hn with hn | hn
    · cases hn; cases own
    · obtain ⟨h, -⟩ := ih hn
      cases h
  | keep _ ih =>
    obtain ⟨h, -⟩ := ih (by simpa using hn)
    cases h

/-- A replay that is not uppermost has told its listener. -/
theorem told_of_replay (h : Laid b st) {f : SessionFanout}
    {rest : List (ObserverId × Listener)} (hf : .fanout f rest ∈ st) (cause : f.cause = .replay) :
    rest = [] ∨ b = false ∧ ∃ below, st = .fanout f rest :: below := by
  induction h with
  | nil => cases hf
  | work => simp at hf
  | derive => simp at hf
  | told _ hc _ =>
    obtain ⟨rfl, -⟩ : f = _ ∧ rest = _ := by simpa using hf
    rw [hc] at cause
    cases cause
  | fanout _ _ _ ih =>
    rcases List.mem_cons.mp hf with hf | hf
    · cases hf
      exact .inr ⟨rfl, _, rfl⟩
    · rcases ih hf with h | ⟨h, -⟩
      · exact .inl h
      · cases h
  | acting replay h ih =>
    rcases ih (by simpa using hf) with h | ⟨-, below, h⟩
    · exact .inl h
    · cases h
      exact .inl (replay cause)
  | own _ _ ih =>
    rcases ih (by simpa using hf) with h | ⟨h, -⟩
    · exact .inl h
    · cases h
  | keep _ ih =>
    rcases ih (by simpa using hf) with h | ⟨h, -⟩
    · exact .inl h
    · cases h

end Laid

/-! ## Every step keeps it -/

namespace Trip

variable {t t' : Trip} {made : Option Call}

/-- Registering a listener owes it at most a replay to itself. -/
theorem owed_eq_some {l : Listener} {c : Category} {f : SessionFanout}
    {audience : List (ObserverId × Listener)} (h : t.owed l c = some (f, audience)) :
    ∃ v id, f = ⟨t.dispatch.serial, .replay, c, v⟩ ∧ audience = [(id, l)] ∧
      t.dispatch.last c = some v := by
  obtain ⟨v, hv, h⟩ := Option.map_eq_some_iff.mp h
  cases h
  exact ⟨v, _, rfl, rfl, Registry.last_of_enroll_replay hv⟩

theorem Performs.isOwn {c : Call} {stages : List Stage} {notes : List Note} {o : Outline}
    (h : Performs t c stages notes o) : ∀ s ∈ stages, s.IsOwn := by
  cases h with
  | others _ _ _ _ _ telling =>
    intro s hs
    rcases telling s hs with rfl | ⟨l, c, rfl⟩ | ⟨l, c, slot, rfl⟩ <;> trivial
  | _ => simp [Stage.IsOwn]

/-- What a stage of a call leaves on the stack. -/
theorem Goes.laid_own {s : Stage} {o : Outcome} (h : Goes t s o) (own : s.IsOwn)
    {below : List SessionFrame} (hb : Laid true below) :
    ∃ b, Laid b (o.told.toList.map (fun p => .fanout p.1 p.2) ++ (o.own ++ below)) := by
  have owed (l : Listener) (c : Category) {st : List SessionFrame} (hst : Laid true st) :
      ∃ b, Laid b ((t.owed l c).toList.map (fun p => .fanout p.1 p.2) ++ st) := by
    cases ho : t.owed l c with
    | none => exact ⟨_, hst⟩
    | some p =>
      have hp : t.owed l c = some (p.1, p.2) := ho
      obtain ⟨v, id, hf, ha, -⟩ := owed_eq_some hp
      exact ⟨_, .fanout (by simp [Cause.IsOwn, hf]) (by simp [ha]) hst⟩
  cases h with
  | registered l c => exact owed l c hb
  | subscribed l c slot g => exact owed l c (.keep hb)
  | replied | entered | derived | onRoute | forgot => exact ⟨_, hb⟩
  | enters | leaves => exact ⟨_, .fanout (by simp [Cause.IsOwn, telling]) (by simp [telling]) hb⟩
  | derives cause =>
    cases cause with
    | call => exact ⟨_, .fanout (by simp [Cause.IsOwn, telling]) (by simp [telling]) hb⟩
    | _ => cases own
  | _ => cases own

/-- What a stage of the worker leaves on the stack. -/
theorem Goes.laid_work {s : Stage} {o : Outcome} (h : Goes t s o) (work : s.IsWork) :
    ∃ b, Laid b (o.told.toList.map (fun p => .fanout p.1 p.2) ++ o.own) := by
  have one (s : Stage) (hs : s.IsWork) : ∃ b, Laid b [.owner s] := ⟨_, .work hs⟩
  cases h with
  | announces | flags | cues | reports => exact ⟨_, .told rfl rfl (by simp [Stage.after, telling])⟩
  | locates k s =>
    by_cases hk : k.scope = .full
    · simp only [hk, ↓reduceIte]
      exact ⟨_, .told rfl rfl (by simp [Stage.after, telling])⟩
    · simp only [hk, ↓reduceIte]
      exact ⟨_, .told rfl rfl (by simp [Stage.after, telling])⟩
  | arrives k => exact ⟨_, .derive k⟩
  | orphaned | waits | rests => exact ⟨_, .nil⟩
  | refused | failed | locateStale | tallied | rereads => exact one _ (.inr ⟨_, rfl⟩)
  | announceStale | announceNothing | ingested | asked | answered | flagged | flagStale
  | cueReplaced | cued | cueStale | unreported | arriveStale | begins => exact one _ (.inl rfl)
  | derived | derives => simp [Stage.IsWork, Stage.tick?] at work
  | _ => exact absurd trivial (Stage.not_isOwn_of_isWork work)

theorem Turn.laid {o : Outcome} (h : Turn t o) :
    ∃ b, Laid b (o.told.toList.map (fun p => .fanout p.1 p.2) ++ o.own) := by
  cases h with
  | begins | concludes => exact ⟨_, .work (.inl rfl)⟩
  | proceeds g => exact ⟨_, .work (.inr ⟨g, rfl⟩)⟩
  | waits => exact ⟨_, .nil⟩

/-- Whoever has the word, calls may put frames on top. -/
theorem laid_of_speaker {b : Bool} {caller : Option Listener} (h : Laid b t.stack)
    (hw : t.speaker = some caller) : Laid true t.stack := by
  rcases stack_of_speaker hw with hs | ⟨f, id, l, below, hs⟩ <;> rw [hs] at h ⊢
  · exact .nil
  · cases h with
    | acting hr h => exact .acting hr h

theorem Change.laid (h : Change t t' made) (hl : ∃ b, Laid b t.stack) : ∃ b, Laid b t'.stack := by
  obtain ⟨b, hl⟩ := hl
  cases h with
  | stage s below o top goes stack =>
    rw [stack]
    rw [top] at hl
    cases hl with
    | work work => rw [List.append_nil]; exact goes.laid_work work
    | derive k =>
      cases goes with
      | derived => exact ⟨_, .work (.inl rfl)⟩
      | derives => exact ⟨_, .told rfl rfl (by simp [Stage.after, telling])⟩
    | own own h => exact goes.laid_own own h
  | deliver f id l rest below top stack =>
    rw [stack]
    rw [top] at hl
    cases hl with
    | told tick cause after =>
      exact ⟨_, .acting (by simp [cause]) (.told tick cause after)⟩
    | fanout cause replay h =>
      refine ⟨_, .acting (fun hr => ?_) (.fanout cause (fun hr => ?_) h)⟩
      · simpa using replay hr
      · have := replay hr
        simp only [List.length_cons] at this
        omega
  | ends x below events top _ _ stack =>
    rw [stack]
    rw [top] at hl
    exact hl.tail
  | call caller c r stages notes o word hmade performs shows =>
    rw [shows.stack]
    refine ⟨true, ?_⟩
    have := (laid_of_speaker hl word).own (s := .reply r) trivial
    simpa using this.stages performs.isOwn
  | turn o idle turn shows =>
    rw [shows.stack, idle, List.append_nil]
    exact turn.laid

/-- **On every run, frames lie on each other as they should.** -/
theorem Reaches.laid {t₀ : Trip} {ms : List Move} (h : Reaches t₀ ms t) (h₀ : t₀.stack = []) :
    ∃ b, Laid b t.stack :=
  h.invariant (fun _ _ _ _ _ hl hc => hc.laid hl) (by rw [h₀]; exact ⟨_, .nil⟩)

end Trip
end LiveTrip
