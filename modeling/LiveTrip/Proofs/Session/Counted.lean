import LiveTrip.Proofs.Session.OnChange
import LiveTrip.Proofs.Session.Tolls

/-!
# What the counters tell

A counter is raised in one place, and what it counts happens in another. A tick is counted once it
is over, and has told its location before that.

* `Stage.uncounted`: the tick has told its location and is not counted yet.
* `Event.isStatusFailure`, `Event.isFailure`: failures that are counted.
* `Trip.Passage.blends`: a report has changed the congestion of an active route.
* `Trip.Tallied`, `Trip.Takes.tallied`: ticks and failed statuses, step by step.
* `Trip.counters_truthful`: the whole account.
-/

namespace LiveTrip

/-- The tick has told its location and is not counted yet. -/
def Stage.uncounted : Stage → Bool
  | .flag _ _ | .cue _ _ | .report _ _ | .arrive _ _ | .tally _ => true
  | _ => false

def Frame.uncounted : SessionFrame → Bool
  | .owner s => s.uncounted
  | _ => false

/-- The congestion ahead is smoothed and the progress told. -/
def Stage.isReport : Stage → Bool
  | .report _ _ => true
  | _ => false

/-- The status of a tick has failed or has taken too long. At the start of a worker, before any fix
is known, this is no failure. -/
def Event.isStatusFailure : SessionEvent → Bool
  | .owner (.answered k true) => !(k.scope = .locationOnly && k.fix.isNone)
  | _ => false

/-- An observer has failed over a value. -/
def Event.isFailure : SessionEvent → Bool
  | .failed _ _ _ => true
  | _ => false

/-- An observer that fails does so over a value of one category. -/
theorem foldl_failsIn (log : List SessionEvent) :
    Category.all.foldl (fun n c => n + log.countP (Event.failsIn c)) 0 =
      log.countP Event.isFailure := by
  induction log with
  | nil => rfl
  | cons e log ih =>
    have hsum (a b : Category → Nat) : Category.all.foldl (fun n c => n + (a c + b c)) 0 =
        Category.all.foldl (fun n c => n + a c) 0 + Category.all.foldl (fun n c => n + b c) 0 := by
      simp only [Category.all, List.foldl_cons, List.foldl_nil]
      omega
    have hone : Category.all.foldl (fun n c => n + if Event.failsIn c e then 1 else 0) 0 =
        if Event.isFailure e then 1 else 0 := by
      cases e with
      | failed f id l =>
        obtain ⟨n, cause, c, v⟩ := f
        cases c <;> rfl
      | _ => rfl
    simp only [List.countP_cons, hsum, ih, hone]

namespace Trip

variable {t t' : Trip} {ms : List Move} {ps : List Passage}

/-! ## Ticks and failed statuses -/

/-- How many values of the location the outcome publishes. -/
def located (o : Outcome) : Nat :=
  ((o.told.toList.map fun p => .began p.1 p.2 : List SessionEvent).filterMap
    (Event.anew? .location)).length

theorem located_of_owed {o : Outcome} {l : Listener} {c : Category} (h : o.told = t.owed l c) :
    located o = 0 := by
  rw [located, List.length_eq_zero_iff, List.filterMap_eq_nil_iff, h]
  exact fun e he => Event.anew?_of_quiet (quiet_owed t l c e he .location)

/-- **A tick that tells its location is counted later, and no other is.** -/
theorem Goes.uncounted {s : Stage} {o : Outcome} (h : Goes t s o) :
    s.isTally.toNat + o.own.countP Frame.uncounted = s.uncounted.toNat + located o := by
  cases h with
  | locates k s => by_cases hk : k.scope = .full <;> simp only [hk, ↓reduceIte] <;> rfl
  | registered l c | subscribed l c =>
    show 0 = 0 + located _
    rw [located_of_owed rfl]
  | _ => rfl

/-- Notes of a pass are of no status. -/
theorem countP_of_smoothing {notes : List Note} (quiet : ∀ n ∈ notes, IsSmoothing n) :
    (notes.map .owner : List SessionEvent).countP Event.isStatusFailure = 0 := by
  rw [List.countP_eq_zero]
  intro e he
  obtain ⟨n, hn, rfl⟩ := List.mem_map.mp he
  rcases quiet n hn with ⟨a, b, c, v, rfl⟩ | ⟨route, leg, rfl⟩ <;> exact Bool.false_ne_true

/-- **A failed status is counted where it is taken in.** -/
theorem Goes.statusFailures {s : Stage} {o : Outcome} (h : Goes t s o) :
    (o.notes.map .owner : List SessionEvent).countP Event.isStatusFailure =
      s.failsStatus.toNat := by
  cases h with
  | failed k e =>
    obtain ⟨number, generation, epoch, scope, fix⟩ := k
    cases scope <;> cases fix <;> rfl
  | unreported _ _ _ quiet | reports _ _ _ _ _ quiet => exact countP_of_smoothing quiet
  | _ => rfl

/-- Ticks that have told their location are counted, or have still to be. Statuses that have failed
are counted. -/
structure Tallied (t : Trip) : Prop where
  ticks : t.counters.ticks + t.stack.countP Frame.uncounted = (published .location t.log).length
  statusFailures : t.counters.statusFailures = t.log.countP Event.isStatusFailure

theorem length_published_append (events log : List SessionEvent) :
    (published .location (events ++ log)).length =
      (events.filterMap (Event.anew? .location)).length + (published .location log).length := by
  simp only [published, List.filterMap_append, List.reverse_append, List.length_append,
    List.length_reverse]
  omega

theorem quiet_notes (notes : List Note) :
    ∀ e ∈ (notes.map .owner : List SessionEvent), e.tells? Category.location = none := by
  intro e he
  obtain ⟨n, -, rfl⟩ := List.mem_map.mp he
  rfl

/-- No call takes a status in. -/
theorem Performs.no_status {c : Call} {stages : List Stage} {notes : List Note} {o : Outline}
    (h : Performs t c stages notes o) {n : Note} (hn : n ∈ notes) :
    (Event.owner n : SessionEvent).isStatusFailure = false := by
  cases h with
  | starts | stops | closes => rw [List.mem_singleton.mp hn]; rfl
  | others _ _ _ _ _ _ quiet =>
    obtain ⟨g, d, rfl⟩ := quiet n hn
    rfl
  | _ => cases hn

/-- A stage of a call is of no tick. -/
theorem uncounted_of_isOwn {s : Stage} (h : s.IsOwn) : s.uncounted = false := by
  cases s <;> first | rfl | cases h

/-- A step that runs no stage adds nothing. -/
theorem Tallied.of_quiet (h : Tallied t) (taken : Takes t ms t')
    (hstage : (⟨t, ms, t'⟩ : Passage).stage? = none) {events : List SessionEvent}
    (hlog : t'.log = events ++ t.log)
    (quiet : ∀ e ∈ events, e.tells? Category.location = none ∧ e.isStatusFailure = false)
    (hstack : t'.stack.countP Frame.uncounted = t.stack.countP Frame.uncounted) : Tallied t' := by
  have hcounters := taken.counters
  rw [Passage.toll_of_none hstage] at hcounters
  refine ⟨?_, ?_⟩
  · rw [hstack, hcounters, hlog, published_append_of_quiet fun e he => (quiet e he).1]
    exact h.ticks
  · have hnone : events.countP Event.isStatusFailure = 0 :=
      List.countP_eq_zero.mpr fun e he => by simp [(quiet e he).2]
    rw [hcounters, hlog, List.countP_append, hnone, Nat.zero_add]
    exact h.statusFailures

theorem Takes.tallied (h : Takes t ms t') (ht : Tallied t) : Tallied t' := by
  obtain ⟨made, hc⟩ := change_of_step h.step
  cases hc with
  | stage s below o top goes stack log outline =>
    have hcounters := h.counters
    have hstage : (⟨t, ms, t'⟩ : Passage).stage? = some s :=
      Passage.stage?_eq_some.mpr ⟨below, top⟩
    rw [Passage.toll_of_stage hstage] at hcounters
    have hticks := ht.ticks
    rw [top, List.countP_cons] at hticks
    refine ⟨?_, ?_⟩
    · have htold : (o.told.toList.map fun p => .fanout p.1 p.2 : List SessionFrame).countP
          Frame.uncounted = 0 := by
        cases o.told <;> rfl
      have hadds : t'.counters.ticks = t.counters.ticks + s.isTally.toNat := by rw [hcounters]; rfl
      have howed := goes.uncounted
      rw [stack, List.countP_append, List.countP_append, htold, hadds, log,
        length_published_append, published_append_of_quiet (quiet_notes o.notes)]
      have hhead : Frame.uncounted (.owner s) = s.uncounted := rfl
      rw [hhead] at hticks
      unfold located at howed
      cases hs : s.uncounted <;>
      · simp only [hs, Bool.toNat_true, Bool.toNat_false, Bool.false_eq_true, ↓reduceIte]
          at howed hticks
        omega
    · have htold : (o.told.toList.map fun p => .began p.1 p.2 : List SessionEvent).countP
          Event.isStatusFailure = 0 := by
        cases o.told <;> rfl
      rw [hcounters, log, List.countP_append, List.countP_append, htold, goes.statusFailures,
        Nat.zero_add, Nat.add_comm, ← ht.statusFailures]
      rfl
  | deliver f id l rest below top stack log outline =>
    have hlog : t'.log = [.delivered f id l] ++ t.log := log
    refine ht.of_quiet h ?_ hlog (by simp [Event.tells?, Event.isStatusFailure]) ?_
    · simp only [Passage.stage?, top]
    · rw [stack, top]; rfl
  | ends x below events top noStage told stack log failures outline =>
    refine ht.of_quiet h ?_ log (fun e he => ?_) ?_
    · cases hs : (⟨t, ms, t'⟩ : Passage).stage? with
      | none => rfl
      | some s =>
        obtain ⟨below', top'⟩ := Passage.stage?_eq_some.mp hs
        exact absurd (List.cons_eq_cons.mp (top.symm.trans top')).1 (noStage s)
    · obtain ⟨f, id, l, rfl⟩ := failures e he
      exact ⟨rfl, rfl⟩
    · have hx : Frame.uncounted x = false := by
        cases x with
        | owner s => exact absurd rfl (noStage s)
        | _ => rfl
      rw [stack, top, List.countP_cons_of_neg (by simp [hx])]
  | call caller c r stages notes o word hmade performs shows =>
    refine ht.of_quiet h (Passage.stage?_of_speaker word) shows.log (fun e he => ?_) ?_
    · obtain ⟨n, hn, rfl⟩ := List.mem_map.mp he
      exact ⟨rfl, performs.no_status hn⟩
    · have hstages : (stages.map .owner : List SessionFrame).countP Frame.uncounted = 0 := by
        rw [List.countP_map, List.countP_eq_zero]
        exact fun s hs => by simp [Frame.uncounted, uncounted_of_isOwn (performs.isOwn s hs)]
      rw [shows.stack, Option.toList_none, List.map_nil, List.nil_append, List.append_assoc,
        List.countP_append, hstages, Nat.zero_add]
      rfl
  | turn o idle turn shows =>
    have hlog : t'.log = o.notes.map .owner ++ t.log := by
      rw [shows.log]
      cases turn <;> rfl
    refine ht.of_quiet h ?_ hlog ?_ ?_
    · simp only [Passage.stage?, idle]
    · cases turn <;> simp [Event.tells?, Event.isStatusFailure]
    · rw [shows.stack, idle]
      cases turn <;> rfl

theorem Trail.tallied {settings : Settings} {engine : Engine} {source : Source} {signal : Signal}
    (h : Trail (.new settings engine source signal) ps t) : Tallied t := by
  induction h with
  | refl => exact ⟨rfl, rfl⟩
  | step _ taken ih => exact taken.tallied ih

/-! ## Starts and passes -/

/-- A step that runs a stage makes no worker. -/
theorem Takes.not_creates (h : Takes t ms t') {s : Stage}
    (hs : (⟨t, ms, t'⟩ : Passage).stage? = some s) :
    (⟨t, ms, t'⟩ : Passage).creates = false := by
  obtain ⟨below, top⟩ := Passage.stage?_eq_some.mp hs
  cases h with
  | tick => rfl
  | move h => rw [move?_of_owner top] at h; cases h

theorem Takes.started (h : Takes t ms t') :
    (⟨t, ms, t'⟩ : Passage).toll.started = (⟨t, ms, t'⟩ : Passage).creates.toNat := by
  cases hs : (⟨t, ms, t'⟩ : Passage).stage? with
  | none => rw [Passage.toll_of_none hs]
  | some s => rw [Passage.toll_of_stage hs, h.not_creates hs]; rfl

/-- A report has changed the congestion of an active route. -/
def Passage.blends (p : Passage) : Bool :=
  p.stage?.any Stage.isReport &&
    p.after.facts.routes.map Route.congestion ≠ p.before.facts.routes.map Route.congestion

theorem blends_report (t : Trip) (k : Tick) (s : Status) :
    t.blended (.report k s) = decide ((t.run (.report k s)).facts.routes.map Route.congestion ≠
      t.facts.routes.map Route.congestion) := by
  rw [facts_report]
  cases hreport : s.progress with
  | none => simp [blended, hreport]
  | some report =>
    simp only [blended, hreport, Option.any_some, Option.elim_some, ne_eq, smoothed_eq_iff]
    cases t.pass? report <;> rfl

/-- **A pass is counted if it has changed the congestion of an active route.** -/
theorem Takes.blends (h : Takes t ms t') :
    (⟨t, ms, t'⟩ : Passage).toll.blends = (⟨t, ms, t'⟩ : Passage).blends.toNat := by
  cases hs : (⟨t, ms, t'⟩ : Passage).stage? with
  | none => rw [Passage.toll_of_none hs, Passage.blends, hs]; rfl
  | some s =>
    obtain ⟨below, top⟩ := Passage.stage?_eq_some.mp hs
    rw [Passage.toll_of_stage hs, Passage.blends, hs, Option.any_some]
    cases s with
    | report k s =>
      rw [h.step.eq_of_top top]
      exact congrArg Bool.toNat (blends_report t.pop k s)
    | _ => rfl

/-! ## The whole account -/

variable {settings : Settings} {engine : Engine} {source : Source} {signal : Signal}

/-- Every registry counts the failures in its category. -/
theorem Reaches.failures (h : Reaches (.new settings engine source signal) ms t) :
    t.dispatch.table.failures = t.log.countP Event.isFailure := by
  have hone (c : Category) :
      (t.dispatch.table.get c).failures = t.log.countP (Event.failsIn c) := by
    have := (h.steps ⟨_, .nil⟩).failures c
    cases c <;> exact (Nat.add_zero _).symm.trans (this.trans (Nat.zero_add _))
  rw [← foldl_failsIn, Hub.failures]
  simp only [hone]

end Trip
end LiveTrip
