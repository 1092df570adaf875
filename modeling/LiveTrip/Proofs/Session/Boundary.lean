import LiveTrip.Proofs.Dispatch.LastTold
import LiveTrip.Proofs.Session.Account

/-!
# What comes after a stop

A stop that finds a running worker advances the generation, so ticks of that worker and of those
before it tell nothing more. What they have told may still be delivered: by the fan-out from inside
which the session is stopped, and by replays to new observers, as long as it is remembered.

* `Trip.Reaches.origin`: a remembered value is what was last told anew, if anything was.
* `Trip.Reaches.pending`: a stage that stands on the stack stands there until it is run.
* `Trip.Forgetting`: a stop has still to forget what was told of the trip.
* `Trip.stop_is_boundary`: the whole account.
* `Trip.told_before_stop_replayed_after`: such replays.
-/

namespace LiveTrip.Trip

variable {t t' : Trip} {made : Option Call}

/-! ## What stands on the stack -/

/-- What is below the uppermost frame stays. -/
theorem Change.above (h : Change t t' made) {x : SessionFrame} {below : List SessionFrame}
    (top : t.stack = x :: below) : ∃ upper, t'.stack = upper ++ below := by
  cases h with
  | stage s below' o top' goes stack =>
    obtain ⟨rfl, rfl⟩ : .owner s = x ∧ below' = below := by simpa using top'.symm.trans top
    exact ⟨_, by rw [stack, List.append_assoc]⟩
  | deliver f id l rest below' top' stack =>
    rw [top'] at top
    cases top
    exact ⟨[_, _], stack⟩
  | ends x' below' events top' _ _ stack =>
    rw [top'] at top
    cases top
    exact ⟨[], stack⟩
  | call caller c r stages notes o word hmade performs shows =>
    refine ⟨stages.map .owner ++ [.owner (.reply r), x], ?_⟩
    rw [shows.stack, top]
    simp
  | turn o idle => rw [idle] at top; cases top

/-- While a stage is uppermost, nobody has the word and no task takes a turn. -/
theorem move?_of_owner {s : Stage} {below : List SessionFrame} (top : t.stack = .owner s :: below)
    (m : Move) : t.move? m = none := by
  have hs : t.dispatch.stack = .owner s :: below := top
  cases m with
  | decide d => simp [move?, decide?, speaker, Dispatch.speaker, hs]
  | _ => simp [move?, work?, replay?, elapse?, idle, hs]

theorem tick?_of_owner {s : Stage} {below : List SessionFrame} (top : t.stack = .owner s :: below) :
    t.tick? = some (t.pop.run s) := by
  have hs : t.dispatch.stack = .owner s :: below := top
  simp only [tick?, hs]

/-- **A stage that stands on the stack stands there until it is run.** -/
theorem Reaches.pending {a b : Trip} {ns : List Move} (h : Reaches a ns b) {s : Stage}
    {below : List SessionFrame} (ha : ∃ upper, a.stack = upper ++ .owner s :: below) :
    (∃ upper, b.stack = upper ++ .owner s :: below) ∨
      ∃ before m after, Reaches a before m ∧ m.stack = .owner s :: below ∧
        Reaches (m.pop.run s) after b := by
  -- What is above it changes, and it stays below.
  have above {b b' : Trip} {made : Option Call} {x : SessionFrame} {upper : List SessionFrame}
      (hc : Change b b' made) (hb : b.stack = x :: upper ++ .owner s :: below) :
      ∃ upper, b'.stack = upper ++ .owner s :: below := by
    obtain ⟨upper', h⟩ := hc.above hb
    exact ⟨upper' ++ upper, by rw [h, List.append_assoc]; rfl⟩
  refine h.induct (P := fun _ b => (∃ upper, b.stack = upper ++ .owner s :: below) ∨
      ∃ before m after, Reaches a before m ∧ m.stack = .owner s :: below ∧
        Reaches (m.pop.run s) after b) (.inl ha) ?_ ?_
  · rintro ms b b' hr (⟨upper, hb⟩ | ⟨before, m, after, hm, top, hrest⟩) hs
    · cases upper with
      | nil =>
        rw [tick?_of_owner hb] at hs
        cases hs
        exact .inr ⟨ms, b, [], hr, hb, .refl _⟩
      | cons x upper => exact .inl (above (change_of_tick? hs) hb)
    · exact .inr ⟨before, m, after ++ [], hm, top, hrest.trans (.tick hs (.refl _))⟩
  · rintro ms mv b b' hr (⟨upper, hb⟩ | ⟨before, m, after, hm, top, hrest⟩) hs
    · cases upper with
      | nil => rw [move?_of_owner hb] at hs; cases hs
      | cons x upper =>
        obtain ⟨made, hc, -⟩ := change_of_move? hs
        exact .inl (above hc hb)
    · exact .inr ⟨before, m, after ++ [mv], hm, top, hrest.trans (.move hs (.refl _))⟩

/-! ## What is remembered -/

/-- Once it is forgotten what was told of the trip, only the lifecycle state and the phase are
remembered. -/
theorem last_of_forgetTrip (t : Trip) {c : Category} (hs : c ≠ .sessionState)
    (hp : c ≠ .navigationPhase) : (t.run .forgetTrip).dispatch.last c = none := by
  cases c <;> first | rfl | exact absurd rfl hs | exact absurd rfl hp

/-- A stop of the session, made when it was `a`, has still to forget what was told of the trip. -/
def Forgetting (a t : Trip) : Prop :=
  ∃ upper r, t.stack =
    upper ++ .owner .forgetTrip :: .owner (.enter .stopped) :: .owner (.reply r) :: a.stack

section Runs

variable {settings : Settings} {engine : Engine} {source : Source} {signal : Signal}
  {ms ns after : List Move} {a b m : Trip} {caller : Option Listener}

/-- **A remembered value is what was last told anew, if anything was.** -/
theorem Reaches.origin (h : Reaches (.new settings engine source signal) ms t) {c : Category}
    {v : c.Value} (hv : t.dispatch.last c = some v) :
    lastTold c t.log = none ∨ ∃ n cause, lastTold c t.log = some ⟨n, cause, c, v⟩ := by
  rcases (h.steps ⟨_, .nil⟩).last_cases hv with ⟨n, cause, _, _, -, -, htold⟩ | ⟨-, htold⟩
  · exact .inr ⟨n, cause, htold⟩
  · exact .inl htold

/-! ## Ticks of earlier generations -/

/-- Ticks that tell something on a run are of generations from its start on. They never tell of the
lifecycle. -/
theorem Reaches.generation_of_began (ha : Reaches (.new settings engine source signal) ms a)
    (hb : Reaches a ns b) {events : List SessionEvent} (hlog : b.log = events ++ a.log)
    {f : SessionFanout} {audience : List (ObserverId × Listener)}
    (hf : .began f audience ∈ events) {n : Nat} (hc : f.cause = .tick n) :
    f.category ≠ .sessionState ∧ ∃ k, Ticked b k ∧ k.number = n ∧ a.generation ≤ k.generation := by
  obtain ⟨before, m, after, hm, ht, hr⟩ := hb.tells_of_began hlog hf
  obtain ⟨hcat, k, hk, hn, hg⟩ := ht.of_tick (ha.trans hm).sound hc
  exact ⟨hcat, k, hr.ticked hk, hn, hg ▸ hm.le.1⟩

/-- A tick of an earlier generation tells nothing anew. -/
theorem Reaches.ne_tick_of_began (ha : Reaches (.new settings engine source signal) ms a)
    (hm : Reaches a ns m) (hb : Reaches m after b) {k : Tick} (hk : Ticked b k)
    (old : k.generation < a.generation) {events : List SessionEvent}
    (hlog : m.log = events ++ a.log) {f : SessionFanout}
    {audience : List (ObserverId × Listener)} (hf : .began f audience ∈ events) :
    f.cause ≠ .tick k.number := by
  intro hc
  obtain ⟨-, k', hk', hn, hg⟩ := ha.generation_of_began hm hlog hf hc
  have hsound := ((ha.trans hm).trans hb).sound
  obtain rfl := hsound.distinct k' k (hb.ticked hk') hk hn
  omega

/-- A session that has been given up has no worker. -/
theorem Reaches.idle_of_closed (h : Reaches (.new settings engine source signal) ms t)
    (hclosed : t.closed = true) : t.worker = none := by
  have hidle := h.invariant (P := fun t => t.outline.closed = true → t.outline.running = none)
    (fun _ b b' _ _ hb hc => ?_) (fun h => by cases h) hclosed
  · simpa [outline] using hidle
  · cases hc with
    | stage s below o top goes _ _ ho =>
      obtain ⟨_, _, _, _, hout, -⟩ := goes.outline_of
      rw [ho, hout]
      exact hb
    | deliver _ _ _ _ _ _ _ _ ho => rw [ho]; exact hb
    | ends _ _ _ _ _ _ _ _ _ ho => rw [ho]; exact hb
    | call caller c r stages notes o word made performs shows =>
      rw [shows.outline]
      cases performs with
      | refused opened | starts opened | routes _ _ opened | guides _ opened =>
        intro hc
        have hc : b.closed = true := hc
        rw [opened] at hc
        cases hc
      | stops | closes => exact fun _ => rfl
      | closesIdle opened idle => exact fun _ => by simp [outline, idle]
      | others => exact hb
    | turn o idle turn shows =>
      rw [shows.outline]
      cases turn <;> exact hb

/-! ## After a stop -/

/-- A stop that finds a running worker lets it go, and has then to take the off-route flag back, to
forget the trip and to enter the stopped state. -/
theorem Reaches.shows_stop (ha : Reaches (.new settings engine source signal) ms a)
    (running : a.worker.isSome = true) (caller : Option Listener) :
    ∃ r, Shows a (a.call caller .stop)
      { own := [.owner .leaveOffRoute, .owner .forgetTrip, .owner (.enter .stopped),
          .owner (.reply r)]
        notes := [.stopped a.generation]
        outline := { a.outline with
          generation := a.generation + 1, running := none, pending := none
          active := false } } := by
  obtain ⟨r, stages, notes, o, performs, shows⟩ := call_performs a caller .stop
  cases performs with
  | stops => exact ⟨r, shows⟩
  | others _ _ _ _ spares =>
    have hidle : a.worker = none := by
      rcases spares with hclosed | hidle
      · exact ha.idle_of_closed hclosed
      · exact hidle
    rw [hidle] at running
    cases running

/-- What is remembered of the trip after a stop was told since, unless it has still to be
forgotten. -/
theorem told_since_of_last (ha : Reaches (.new settings engine source signal) ms a)
    (word : a.speaker = some caller) (running : a.worker.isSome = true)
    (hm : Reaches (a.call caller .stop) ns m) {c : Category} (hs : c ≠ .sessionState)
    (hp : c ≠ .navigationPhase) {v : c.Value} (hv : m.dispatch.last c = some v) :
    Forgetting a m ∨ ∃ n cause audience events, m.log = events ++ (a.call caller .stop).log ∧
      .began ⟨n, cause, c, v⟩ audience ∈ events ∧ lastTold c m.log = some ⟨n, cause, c, v⟩ := by
  obtain ⟨r, shows⟩ := ha.shows_stop running caller
  rcases hm.pending ⟨[.owner .leaveOffRoute], shows.stack⟩ with
    ⟨upper, h⟩ | ⟨before, u, after, hu, top, hr⟩
  · exact .inl ⟨upper, r, h⟩
  · have hforget : Reaches u [] (u.pop.run .forgetTrip) := .tick (tick?_of_owner top) (.refl _)
    have hrun := ((ha.trans (reaches_call word .stop)).trans hu).trans hforget
    rcases (hr.steps (hrun.laid rfl)).last_cases hv with
      ⟨n, cause, audience, events, hlog, hbegan, htold⟩ | ⟨hlast, -⟩
    · obtain ⟨events', hlog'⟩ := (hu.trans hforget).log_grows
      refine .inr ⟨n, cause, audience, events ++ events', ?_, List.mem_append_left _ hbegan, htold⟩
      rw [List.append_assoc, ← hlog']
      exact hlog
    · rw [last_of_forgetTrip _ hs hp] at hlast
      cases hlast

/-- What is replayed after a stop was told by a tick of before only if it is the phase, or if the
stop has still to forget it. -/
theorem origin_of_replay (ha : Reaches (.new settings engine source signal) ms a)
    (word : a.speaker = some caller) (running : a.worker.isSome = true)
    (hm : Reaches (a.call caller .stop) ns m) (hb : Reaches m after b) {k : Tick}
    (hk : Ticked b k) (old : k.generation < (a.call caller .stop).generation)
    {f : SessionFanout} {audience : List (ObserverId × Listener)} (ht : Tells m f audience)
    (hc : f.cause = .replay) :
    lastTold f.category m.log = none ∨ ∃ g, lastTold f.category m.log = some g ∧
      f = ⟨f.serial, .replay, g.category, g.value⟩ ∧
      (g.cause = .tick k.number → f.category = .navigationPhase ∨ Forgetting a m) := by
  have hstop := ha.trans (reaches_call word .stop)
  have hnew := hstop.trans hm
  obtain ⟨_, _, -, hv⟩ := ht.of_replay (hnew.laid rfl) hc
  rcases hnew.origin hv with hnone | ⟨n, cause, htold⟩
  · exact .inl hnone
  · refine .inr ⟨_, htold, ?_, ?_⟩
    · show f = ⟨f.serial, .replay, f.category, f.value⟩
      rw [← hc]
    · intro hcause
      obtain ⟨audience', hbegan⟩ := mem_of_lastTold htold
      have hall : m.log = m.log ++ (Trip.new settings engine source signal).log := by
        simp [Trip.new]
      obtain ⟨hcat, -⟩ := (Reaches.refl _).generation_of_began hnew hall hbegan hcause
      by_cases hphase : f.category = .navigationPhase
      · exact .inl hphase
      · rcases told_since_of_last ha word running hm hcat hphase hv with
          h | ⟨n', cause', audience', events, hlog, hbegan', htold'⟩
        · exact .inr h
        · -- It was told since the stop, and so by no tick of before.
          rw [htold] at htold'
          cases htold'
          exact absurd hcause (hstop.ne_tick_of_began hm hb hk old hlog hbegan')

/-- **Once a stop that found a running worker has advanced the generation, no tick of a worker
started before it tells anything anew.** What such a tick has told is delivered only by the fan-out
from inside which the stop was made, to those still waiting and in their order, and by replays: of
the phase, and of the rest until the stop has forgotten what was told of the trip. -/
theorem stop_is_boundary (ha : Reaches (.new settings engine source signal) ms a)
    (word : a.speaker = some caller) (running : a.worker.isSome = true)
    (hb : Reaches (a.call caller .stop) ns b) {k : Tick} (hk : Ticked b k)
    (old : .owner (.started k.generation) ∈ a.log) :
    a.generation < b.generation ∧ ∃ events, b.log = events ++ a.log ∧
      (∀ f audience, .began f audience ∈ events → f.cause ≠ .tick k.number) ∧
      (∀ f id l, .delivered f id l ∈ events → f.cause = .tick k.number →
        ∃ upper rest s, a.stack = upper ++ [.fanout f rest, .owner s] ∧ (id, l) ∈ rest ∧
          toldIn f.serial events <+: rest) ∧
      (∀ f id l, .delivered f id l ∈ events → f.cause = .replay →
        ∃ before m after audience, Reaches (a.call caller .stop) before m ∧ Tells m f audience ∧
          Reaches m after b ∧
          (lastTold f.category m.log = none ∨ ∃ g, lastTold f.category m.log = some g ∧
            f = ⟨f.serial, .replay, g.category, g.value⟩ ∧
            (g.cause = .tick k.number → f.category = .navigationPhase ∨ Forgetting a m))) := by
  obtain ⟨r, shows⟩ := ha.shows_stop running caller
  obtain ⟨_, hlaid⟩ := ha.laid rfl
  have hstop := ha.trans (reaches_call word .stop)
  have hgen : (a.call caller .stop).generation = a.generation + 1 :=
    congrArg Outline.generation shows.outline
  have hearlier : k.generation < (a.call caller .stop).generation := by
    have := ha.sound.started _ old
    omega
  obtain ⟨since, hsince⟩ := hb.log_grows
  have hlog : b.log = (since ++ [.owner (.stopped a.generation)]) ++ a.log := by
    rw [hsince, shows.log]
    simp
  have hafter : b.dispatch.Accounted := (hstop.trans hb).accounted
  have hbegan (f : SessionFanout) (audience : List (ObserverId × Listener)) :
      .began f audience ∈ since ++ [.owner (.stopped a.generation)] →
        .began f audience ∈ since := by
    simp
  have hquiet (f : SessionFanout) (audience : List (ObserverId × Listener))
      (hf : .began f audience ∈ since ++ [.owner (.stopped a.generation)]) :
      f.cause ≠ .tick k.number :=
    hstop.ne_tick_of_began hb (.refl b) hk hearlier hsince (hbegan f audience hf)
  refine ⟨by have := hb.le.1; omega, _, hlog, hquiet, ?_, ?_⟩
  · intro f id l hd hc
    rcases ha.accounted.delivered_since hafter hlog hd with ⟨audience, hf⟩ | ⟨rest, h, hp⟩
    · exact absurd hc (hquiet f audience hf)
    · obtain ⟨upper, s, -, hst, -⟩ := hlaid.below_tick h hc
      exact ⟨upper, rest, s, hst, hp⟩
  · intro f id l hd hc
    rcases ha.accounted.delivered_since hafter hlog hd with ⟨audience, hf⟩ | ⟨rest, h, hp, -⟩
    · obtain ⟨before, m, after, hm, ht, hr⟩ := hb.tells_of_began hsince (hbegan f audience hf)
      exact ⟨before, m, after, audience, hm, ht, hr,
        origin_of_replay ha word running hm hr hk hearlier ht hc⟩
    · -- A replay of before the stop has told its only listener: it is the one that has the word.
      obtain rfl | ⟨hfalse, -⟩ := (laid_of_speaker hlaid word).told_of_replay h hc
      · cases hp
      · cases hfalse

end Runs

/-! ## A stop off route -/

/-- A session whose first tick arrives and whose second is off route. -/
def arrivingTrip : Trip :=
  scripted [
    { location := sampleLocation, tracking := .complete, progress := some ⟨"r", 0, 0, 0, 0, 0, 0⟩ },
    { location := sampleLocation, tracking := .offRoute }]

/-- In its second tick, an observer is told that the session is off route, and another waits to be
told. -/
def offRoute : Trip :=
  (play tick? move? 40
    [.decide (.call (.setDestination (some ⟨1, 1⟩))), .decide (.call (.setRoutes [{ id := "r" }])),
      .decide (.call (.setGuidance true)), .decide (.call (.observe (.named "a") .offRoute)),
      .decide (.call (.observe (.named "b") .offRoute)), .decide (.call .start),
      .decide (.call (.push sampleFix)), .work, .decide .finish, .decide .finish,
      .decide (.call (.push sampleFix)), .work] arrivingTrip).get rfl

/-- The observer stops the session, and nobody does anything else. -/
def offRouteStopped : Trip :=
  (play tick? move? 40 [.decide .finish, .decide .finish, .decide .finish]
    (offRoute.call (some (.named "a")) .stop)).get rfl

/-- The observer stops the session, and registers another for locations when it is told that the
session is no longer off route. After the stop, one more is registered for phases. -/
def offRouteReplayed : Trip :=
  (play tick? move? 40
    [.decide (.call (.observe (.named "c") .location)), .decide .finish, .decide .finish,
      .decide .finish, .decide .finish, .decide .finish,
      .decide (.call (.observe (.named "d") .navigationPhase))]
    (offRoute.call (some (.named "a")) .stop)).get rfl

theorem reaches_offRoute : ∃ ms, Reaches arrivingTrip ms offRoute :=
  ⟨_, reaches_of_runs (run_of_play 40 (Option.some_get _).symm)⟩

/-- The observer that has still to be told is told after the stop. -/
theorem stop_is_boundary_off_route :
    offRoute.generation < offRouteStopped.generation ∧
      ∃ f upper rest s events, offRouteStopped.log = events ++ offRoute.log ∧
        .delivered f 1 (.named "b") ∈ events ∧ f.cause = .tick 2 ∧
        offRoute.stack = upper ++ [.fanout f rest, .owner s] ∧
        toldIn f.serial events <+: rest := by
  obtain ⟨ms, ha⟩ := reaches_offRoute
  have hb := reaches_of_runs (run_of_play (b := offRouteStopped) 40 (Option.some_get _).symm)
  obtain ⟨hgen, events, hlog, -, htick, -⟩ := stop_is_boundary ha rfl rfl hb
    (k := ⟨2, 1, 1, .full, some sampleFix⟩)
    (List.mem_of_getElem? (i := 12) rfl) (List.mem_of_getElem? (i := 25) rfl)
  have hevents : offRouteStopped.log = offRouteStopped.log.take 7 ++ offRoute.log := rfl
  obtain rfl := List.append_cancel_right (hevents.symm.trans hlog)
  have hd : .delivered ⟨10, .tick 2, .offRoute, true⟩ 1 (.named "b") ∈ offRouteStopped.log.take 7 :=
    List.mem_of_getElem? (i := 0) rfl
  obtain ⟨upper, rest, s, hst, -, hpre⟩ := htick _ _ _ hd rfl
  exact ⟨hgen, _, upper, rest, s, _, hlog, hd, rfl, hst, hpre⟩

/-- A location and a phase that ticks have told before the stop are replayed after it, though no
fan-out from inside which the stop was made tells either. -/
theorem told_before_stop_replayed_after :
    (∃ ms, Reaches arrivingTrip ms offRoute) ∧
    offRoute.speaker = some (some (.named "a")) ∧ offRoute.worker.isSome = true ∧
    (∃ ns, Reaches (offRoute.call (some (.named "a")) .stop) ns offRouteReplayed) ∧
    .owner (.started 1) ∈ offRoute.log ∧
    Ticked offRoute ⟨1, 1, 1, .full, some sampleFix⟩ ∧
    .began ⟨7, .tick 1, .navigationPhase, .arrival⟩ [] ∈ offRoute.log ∧
    Ticked offRoute ⟨2, 1, 1, .full, some sampleFix⟩ ∧
    .began ⟨9, .tick 2, .location, sampleLocation⟩ [] ∈ offRoute.log ∧
    (∃ events, offRouteReplayed.log = events ++ offRoute.log ∧
      .delivered ⟨12, .replay, .location, sampleLocation⟩ 0 (.named "c") ∈ events ∧
      .delivered ⟨14, .replay, .navigationPhase, .arrival⟩ 0 (.named "d") ∈ events) ∧
    ∀ g rest, .fanout g rest ∈ offRoute.stack → g.category = .offRoute := by
  have hb := reaches_of_runs (run_of_play (b := offRouteReplayed) 40 (Option.some_get _).symm)
  have hstack : ∃ rest s, offRoute.stack = [.acting ⟨10, .tick 2, .offRoute, true⟩ 0 (.named "a"),
      .fanout ⟨10, .tick 2, .offRoute, true⟩ rest, .owner s] := ⟨_, _, rfl⟩
  refine ⟨reaches_offRoute, rfl, rfl, ⟨_, hb⟩, List.mem_of_getElem? (i := 25) rfl,
    List.mem_of_getElem? (i := 17) rfl, List.mem_of_getElem? (i := 9) rfl,
    List.mem_of_getElem? (i := 5) rfl, List.mem_of_getElem? (i := 2) rfl,
    ⟨offRouteReplayed.log.take 12, rfl, List.mem_of_getElem? (i := 7) rfl,
      List.mem_of_getElem? (i := 0) rfl⟩, fun g rest hg => ?_⟩
  obtain ⟨rest', s, hstack⟩ := hstack
  rw [hstack] at hg
  obtain ⟨rfl, -⟩ : g = _ ∧ rest = rest' := by simpa using hg
  rfl

end LiveTrip.Trip
