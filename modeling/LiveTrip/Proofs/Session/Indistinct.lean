import LiveTrip.Proofs.Session.MirrorMoves

/-!
# Sessions with the same future

Two sessions have the same future if nobody who makes calls on them from now on, feeds them fixes
and sees what comes of it can tell them apart.

* `Event.plain`: what can be seen of an event. That fan-outs, generations and epochs are numbered
  is the session's own affair. Clock and ticks are set ahead, so that sessions can be compared that
  have lived for a different time.
* `Trip.Indistinct`: nothing that can be looked up in two sessions, and nothing that has happened in
  them since, tells them apart.
* `Trip.Follows`, `Trip.SameFuture`: whatever happens in one session may happen in the other.
  `Trip.Follows.reaches` says so of runs.
* `Trip.Mirrors.follows`: a session that mirrors another one follows it.
-/

namespace LiveTrip

/-! ## What can be seen of an event -/

section Plain

variable (clock ticks : Nat)

def Cause.plain : Cause → Cause
  | .tick n => .tick (n + ticks)
  | k => k

def Fanout.plain (f : SessionFanout) : SessionFanout :=
  { f with serial := 0, cause := f.cause.plain ticks }

def Tick.plain (k : Tick) : Tick :=
  { k with number := k.number + ticks, generation := 0, epoch := 0 }

/-- The source as it is with the clock set ahead. -/
def Source.later : Source → Source
  | .manual m => .manual m
  | .replay s => .replay { s with run := s.run.map fun r => { r with due := r.due + clock } }

def Answer.plain : Answer → Answer
  | .snapshot s => .snapshot { s with source := s.source.later clock }
  | a => a

def Note.plain : Note → Note
  | .replied r => .replied { r with answer := r.answer.plain clock }
  | .started _ => .started 0
  | .stopped _ => .stopped 0
  | .sent _ d => .sent 0 d
  | .read _ ds => .read 0 ds
  | .ticked k => .ticked (k.plain ticks)
  | .answered k failed => .answered (k.plain ticks) failed
  | n => n

/-- What can be seen of an event, with the clock and the count of ticks set ahead. -/
def Event.plain : SessionEvent → SessionEvent
  | .began f audience => .began (f.plain ticks) audience
  | .delivered f id l => .delivered (f.plain ticks) id l
  | .failed f id l => .failed (f.plain ticks) id l
  | .owner n => .owner (n.plain clock ticks)

end Plain

/-- Sources go together just when they are the same once both clocks are set ahead. -/
theorem Source.mirrors_iff {clock : Origins} {s s' : Source} :
    s.Mirrors clock s' ↔ s.later clock.right = s'.later clock.left := by
  constructor
  · intro h
    cases h with
    | manual m => rfl
    | replay s run =>
      obtain ⟨fixes, interval, run₀, finished⟩ := s
      cases run with
      | none => rfl
      | some hr => simp only [Source.later, Option.map_some, hr.next, show _ = _ from hr.due]
  · intro h
    cases s with
    | manual m =>
      cases s' with
      | manual m' =>
        cases h
        exact .manual m
      | replay s' => cases h
    | replay s =>
      cases s' with
      | manual m' => cases h
      | replay s' =>
        obtain ⟨fixes, interval, run, finished⟩ := s
        obtain ⟨fixes', interval', run', finished'⟩ := s'
        simp only [Source.later, Source.replay.injEq, ReplaySource.mk.injEq] at h
        obtain ⟨rfl, rfl, hrun, rfl⟩ := h
        refine .replay ⟨fixes, interval, run, finished⟩ ?_
        cases run with
        | none =>
          cases run' with
          | none => exact .none
          | some r' => cases hrun
        | some r =>
          cases run' with
          | none => cases hrun
          | some r' =>
            simp only [Option.map_some, Option.some.injEq, ReplayRun.mk.injEq] at hrun
            exact .some ⟨hrun.1, hrun.2⟩

section Seen

variable {K : Comparison}

theorem Cause.Mirrors.plain_eq {k k' : Cause} (h : k.Mirrors K k') :
    k.plain K.ticks.right = k'.plain K.ticks.left := by
  cases h with
  | tick number => exact congrArg Cause.tick number
  | _ => rfl

theorem Tick.Mirrors.plain_eq {k k' : Tick} (h : k.Mirrors K k') :
    k.plain K.ticks.right = k'.plain K.ticks.left := by
  simp only [Tick.plain, show _ = _ from h.number, h.scope, h.fix]

variable (hA : K.aside.IsEmpty)

include hA

theorem Answer.Mirrors.plain_eq {a a' : Answer} (h : a.Mirrors K a') :
    a.plain K.clock.right = a'.plain K.clock.left := by
  cases h with
  | id equal => simp only [Answer.plain, equal hA]
  | snapshot shown =>
    obtain ⟨hhub, hcounters⟩ := shown.equal hA
    simp only [Answer.plain, hhub, hcounters, shown.facts, shown.ingested,
      Source.mirrors_iff.mp shown.source]
  | _ => rfl

theorem Note.Mirrors.plain_eq {n n' : Note} (h : n.Mirrors K n') :
    n.plain K.clock.right K.ticks.right = n'.plain K.clock.left K.ticks.left := by
  cases h with
  | replied reply =>
    simp only [Note.plain, reply.caller, reply.call, reply.answer.plain_eq hA]
  | ticked tick | answered tick => simp only [Note.plain, tick.plain_eq]
  | _ => rfl

theorem Event.Mirrors.plain_eq {p : Category → Pairing}
    (hp : ∀ c i k, p c i (some k) → i = k) {e e' : SessionEvent} (h : e.Mirrors K.mirror p e') :
    e.plain K.clock.right K.ticks.right = e'.plain K.clock.left K.ticks.left := by
  cases h with
  | began cause told =>
    simp only [Event.plain, Fanout.plain, Cause.Mirrors.plain_eq cause,
      Bystanders.entries_eq told hA (hp _)]
  | delivered cause ordinary paired | failed cause ordinary paired =>
    simp only [Event.plain, Fanout.plain, Cause.Mirrors.plain_eq cause, hp _ _ _ paired]
  | owner event => simp only [Event.plain, Note.Mirrors.plain_eq hA event]

end Seen

/-- With the clocks standing alike, moves are the same. -/
theorem Move.later_zero (m : Move) : m.later .zero = m := by
  cases m <;> rfl

/-- The two counts change places. -/
def Origins.swap (o : Origins) : Origins := ⟨o.right, o.left⟩

namespace Trip

/-! ## The same future -/

/-- Nothing that can be looked up in `u` and in `u'`, and nothing that has happened since `t` and
since `t'`, tells the two sessions apart. -/
structure Indistinct (clock ticks : Origins) (t t' u u' : Trip) : Prop where
  settings : u.settings = u'.settings
  facts : u.facts = u'.facts
  /-- The observers, the last values and the failures of every category. -/
  hub : u.dispatch.table = u'.dispatch.table
  guards : u.dispatch.guards = u'.dispatch.guards
  metrics : u.metrics = u'.metrics
  engine : u.engine = u'.engine
  signal : u.signal = u'.signal
  source : u.source.later clock.right = u'.source.later clock.left
  now : clock.Same u.now u'.now
  begun : ticks.Same u.ticks u'.ticks
  closed : u.closed = u'.closed
  speaker : u.speaker = u'.speaker
  news : ∃ es es', u.log = es ++ t.log ∧ u'.log = es' ++ t'.log ∧
    es.map (Event.plain clock.right ticks.right) = es'.map (Event.plain clock.left ticks.left)

/-- Whatever happens in `t` may happen in `t'`: the same calls, fixes and turns lead to the same,
and ask the same of the engine. -/
def Follows (clock ticks : Origins) (t t' : Trip) : Prop :=
  ∀ ms calls u, Attended .nobody t ms calls u →
    ∃ u', Attended .nobody t' (ms.map (·.later clock)) calls u' ∧ Indistinct clock ticks t t' u u'

/-- **The two sessions have the same future**: each follows the other. -/
structure SameFuture (clock ticks : Origins) (t t' : Trip) : Prop where
  forth : Follows clock ticks t t'
  back : Follows clock.swap ticks.swap t' t

variable {K : Comparison} {t t' u u' : Trip}

/-- Whatever a run of the one comes to, a run of the other comes to the like. -/
theorem Follows.reaches {clock ticks : Origins} (h : Follows clock ticks t t') {ms : List Move}
    (hr : Reaches t ms u) :
    ∃ u', Reaches t' (ms.map (·.later clock)) u' ∧ Indistinct clock ticks t t' u u' := by
  obtain ⟨calls, hu⟩ := attended_nobody_iff.mpr hr
  obtain ⟨u', hu', alike⟩ := h ms calls u hu
  exact ⟨u', attended_nobody_iff.mp ⟨calls, hu'⟩, alike⟩

namespace Mirrors

theorem hub_eq (h : t.Mirrors K t') (hA : K.aside.IsEmpty) :
    t.dispatch.table = t'.dispatch.table :=
  Hub.eq_of_get fun c => h.dispatch.registry_eq hA c

theorem speaker_eq (h : t.Mirrors K t') (hA : K.aside.IsEmpty) : t.speaker = t'.speaker := by
  unfold Trip.speaker
  rw [h.dispatch.speaker_eq hA]

theorem indistinct (h : u.Mirrors K u') (hA : K.aside.IsEmpty) (hpast : K.past = t.log)
    (hpast' : K.past' = t'.log) : Indistinct K.clock K.ticks t t' u u' where
  settings := h.settings
  facts := h.facts
  hub := h.hub_eq hA
  guards := h.dispatch.guards_eq hA
  metrics := by simp only [metrics, h.counters, h.hub_eq hA]
  engine := h.engine
  signal := h.signal
  source := Source.mirrors_iff.mp h.source
  now := h.now
  begun := h.ticks
  closed := h.closed
  speaker := h.speaker_eq hA
  news := by
    obtain ⟨es, es', hlog, hlog', hes⟩ := h.dispatch.news hA
    refine ⟨es, es', hlog.trans (congrArg _ hpast), hlog'.trans (congrArg _ hpast'), ?_⟩
    refine List.forall₂_eq_eq_eq ▸ List.forall₂_map_left_iff.mpr
      (List.forall₂_map_right_iff.mpr (hes.imp ?_))
    rintro e e' ⟨p, hp, he⟩
    exact he.plain_eq hA hp

/-- **A session that mirrors another one, with nobody aside, follows it.** -/
theorem follows (h : t.Mirrors K t') (hA : K.aside = .nobody) (hpast : K.past = t.log)
    (hpast' : K.past' = t'.log) : Follows K.clock K.ticks t t' := by
  intro ms calls u hu
  rw [← hA] at hu
  obtain ⟨u', hu', hm⟩ := h.attended hu
  exact ⟨u', hu', hm.indistinct (hA ▸ Bystanders.isEmpty_nobody) hpast hpast'⟩

end Mirrors
end Trip
end LiveTrip
