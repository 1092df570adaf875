import LiveTrip.Proofs.Session.Underway

/-!
# The engine and the session agree on the routes

A call that replaces the routes gives them to the engine first and to the session afterwards. It
holds the session while it does, so that nobody is told anything, but the worker reads, gives its
fix to the engine and takes its status in without holding anything, and may do so in between.

* `Simulated.statusOf_congr`: a status does not depend on the congestion of the routes.
* `Shared`, `Shared.Step`: a session that several use at once, with the routes that the engine has
  and the session has not yet.
* `Shared.Sound`: what every step keeps: the engine has the routes of the session, or those that
  have been offered to it, and statuses of the present epoch were worked out from either.
* `Shared.engine_agrees`: the whole account.
-/

namespace LiveTrip

/-! ## What a status is worked out from -/

theorem Route.length_bare (route : Route) : route.bare.length = route.length := by
  simp only [Route.length, Route.bare, List.foldl_map]
  rfl

theorem Route.projectLegs_bare (p : Point) (legs : List Leg) (n : Nat) (start : Float)
    (best : Option Projection) :
    Route.projectLegs p n start best (legs.map Leg.bare) = Route.projectLegs p n start best legs := by
  induction legs generalizing n start best with
  | nil => rfl
  | cons leg legs ih => exact ih _ _ _

theorem Route.project?_bare (route : Route) (p : Point) :
    route.bare.project? p = route.project? p := by
  simp only [Route.project?, Route.bare, Route.projectLegs_bare]

theorem Route.legs_bare (route : Route) (n : Nat) :
    route.bare.legs[n]? = route.legs[n]?.map Leg.bare := by
  simp only [Route.bare, List.getElem?_map]

namespace Simulated

/-- What a fix is matched to on a route. -/
def matchedOn (e : Simulated) (fix : Fix) (route : Route) : Option Status := do
  let p ← route.project? fix.point
  let leg ← route.legs[p.leg]?
  pure (e.statusAt route leg fix p)

theorem statusOf_eq (e : Simulated) (fix : Fix) : e.statusOf fix =
    (e.routes.head?.bind (e.matchedOn fix)).getD { location := fix.unmatched } := rfl

theorem statusAt_bare (e : Simulated) (route : Route) (leg : Leg) (fix : Fix) (p : Projection) :
    e.statusAt route.bare leg.bare fix p = e.statusAt route leg fix p := by
  simp only [statusAt, Route.length_bare]
  rfl

theorem matchedOn_bare (e : Simulated) (fix : Fix) (route : Route) :
    e.matchedOn fix route.bare = e.matchedOn fix route := by
  simp only [matchedOn, Route.project?_bare, Route.legs_bare, Option.bind_eq_bind, Option.bind_map]
  refine congrArg (Option.bind _) (funext fun p => ?_)
  refine congrArg (Option.bind _) (funext fun leg => ?_)
  exact congrArg some (statusAt_bare e route leg fix p)

/-- Of the engine, only its settings count for that. -/
theorem matchedOn_routes (e : Simulated) (routes : List Route) :
    { e with routes }.matchedOn = e.matchedOn := by
  funext fix route
  simp only [matchedOn, statusAt]

theorem statusOf_bare (e : Simulated) (fix : Fix) :
    { e with routes := e.routes.map Route.bare }.statusOf fix = e.statusOf fix := by
  have hbare : e.matchedOn fix ∘ Route.bare = e.matchedOn fix := funext (e.matchedOn_bare fix)
  simp only [statusOf_eq, matchedOn_routes, List.head?_map, Option.bind_map, hbare]

/-- **A status does not depend on the congestion of the routes.** -/
theorem statusOf_congr (e : Simulated) (fix : Fix) {routes : List Route}
    (h : e.routes.map Route.bare = routes.map Route.bare) :
    e.statusOf fix = { e with routes }.statusOf fix := by
  rw [← statusOf_bare e, ← statusOf_bare { e with routes }, h]

/-- A status that is given is worked out for the last fix. -/
theorem statusOf_of_status {e : Simulated} {s : Status} (h : e.status.2 = .ok s) :
    ∃ fix, e.lastFix = some fix ∧ s = e.statusOf fix := by
  unfold status at h
  split at h
  · cases h
  · split at h
    · cases h
    · cases h
      exact ⟨_, ‹_›, rfl⟩

end Simulated

/-! ## Several at once -/

/-- Stages that do without holding the session: they tell nobody anything. -/
def Stage.isFree : Stage → Bool
  | .announce k => k.fix.isNone
  | .ingest _ | .ask _ | .conclude _ _ | .tally _ | .proceed _ => true
  | _ => false

namespace Trip

/-- The trip with another stack. -/
def withStack (t : Trip) (stack : List SessionFrame) : Trip :=
  t.mapDispatch fun d => { d with stack }

/-- A step that can be taken while somebody else holds the session. -/
inductive FreeStep (t t' : Trip) : Prop
  | stage (s : Stage) (below : List SessionFrame) (top : t.stack = .owner s :: below)
      (free : s.isFree = true) (h : t.tick? = some t')
  | task (m : Move) (undecided : ∀ d, m ≠ .decide d) (h : t.move? m = some t')

theorem FreeStep.step {t t' : Trip} (h : FreeStep t t') : Step t t' := by
  cases h with
  | stage _ _ _ _ h => exact .tick h
  | task m _ h => exact .move m h

theorem FreeStep.held {t t' : Trip} (h : FreeStep t t') : t'.held = t.held := by
  cases h with
  | stage _ _ _ _ h => exact held_tick? h
  | task m undecided h => exact held_task undecided h

end Trip

/-- A session that several use at once. -/
structure Shared where
  trip : Trip
  /-- The routes of a call that the engine has taken, and the session not yet. -/
  offered : Option (List Route) := none

namespace Shared

/-- A step of a session that several use at once. Each of them has a part of the stack, and goes on
at the top of that; whoever comes new has nothing on it. -/
inductive Step : Shared → Shared → Prop
  | session {t u : Trip} (upper own below : List SessionFrame)
      (split : t.stack = upper ++ own ++ below) (h : Trip.Step (t.withStack own) u) :
      Step { trip := t } { trip := u.withStack (upper ++ u.stack ++ below) }
  /-- A call gives routes to the engine, which takes them. -/
  | offer {t : Trip} (routes : List Route) (engine : Engine) (opened : t.closed = false)
      (accepted : t.engine.setRoutes routes = .ok engine) :
      Step { trip := t } { trip := { t with engine }, offered := some routes }
  /-- Before the call goes on, others do what they can without holding the session. -/
  | meanwhile {t u : Trip} (routes : List Route) (upper own below : List SessionFrame)
      (split : t.stack = upper ++ own ++ below) (h : Trip.FreeStep (t.withStack own) u) :
      Step { trip := t, offered := some routes }
        { trip := u.withStack (upper ++ u.stack ++ below), offered := some routes }
  /-- The call goes on: the session takes the routes too. -/
  | adopt {t : Trip} (routes : List Route) (caller : Option Listener) :
      Step { trip := t, offered := some routes }
        { trip := (t.adopt routes).pushStages
            [.recompute .call, .reply { caller, call := .setRoutes routes, answer := .done }] }

/-- Any number of steps. -/
abbrev Reaches : Shared → Shared → Prop := Relation.ReflTransGen Step

/-- What a session does when one uses it at a time is among what it does when several do. -/
theorem of_reaches {a b : Trip} {ms : List Move} (h : Trip.Reaches a ms b) :
    Reaches { trip := a } { trip := b } := by
  have step {a b : Trip} (h : Trip.Step a b) : Step { trip := a } { trip := b } := by
    have hs := Step.session (t := a) (u := b) [] a.stack [] (by simp) h
    have hb : b.withStack ([] ++ b.stack ++ []) = b := by
      rw [List.nil_append, List.append_nil]
      rfl
    rwa [hb] at hs
  induction h with
  | refl => exact .refl
  | tick hs _ ih => exact .head (step (.tick hs)) ih
  | move hs _ ih => exact .head (step (.move _ hs)) ih

end Shared

/-! ## Parts of the stack -/

namespace Trip

variable {t u : Trip} {upper own below : List SessionFrame}

/-- What stands on the whole stands on the part, or beside it. -/
theorem mem_part {x : SessionFrame} {st : List SessionFrame} (h : x ∈ upper ++ st ++ below) :
    x ∈ st ∨ ∀ own, x ∈ upper ++ own ++ below := by
  simp only [List.append_assoc, List.mem_append] at h ⊢
  rcases h with h | h | h
  · exact .inr fun _ => .inl h
  · exact .inl h
  · exact .inr fun _ => .inr (.inr h)

theorem under_of_part (split : t.stack = upper ++ own ++ below) {k : Tick}
    (h : Under (t.withStack own) k) : Under t k := by
  rcases h with ⟨s, hs, hk⟩ | hk
  · refine .inl ⟨s, ?_, hk⟩
    rw [split]
    exact List.mem_append_left _ (List.mem_append_right _ hs)
  · exact .inr hk

theorem came_of_part (split : t.stack = upper ++ own ++ below) {k : Tick} {status : Status}
    (h : Came (t.withStack own) k status) : Came t k status := by
  obtain ⟨s, hs, hp⟩ := h
  refine ⟨s, ?_, hp⟩
  rw [split]
  exact List.mem_append_left _ (List.mem_append_right _ hs)

theorem under_part (split : t.stack = upper ++ own ++ below) {k : Tick}
    (h : Under (u.withStack (upper ++ u.stack ++ below)) k) : Under u k ∨ Under t k := by
  rcases h with ⟨s, hs, hk⟩ | hk
  · rcases mem_part hs with hs | hs
    · exact .inl (.inl ⟨s, hs, hk⟩)
    · exact .inr (.inl ⟨s, split ▸ hs own, hk⟩)
  · exact .inl (.inr hk)

theorem came_part (split : t.stack = upper ++ own ++ below) {k : Tick} {status : Status}
    (h : Came (u.withStack (upper ++ u.stack ++ below)) k status) :
    Came u k status ∨ Came t k status := by
  obtain ⟨s, hs, hp⟩ := h
  rcases mem_part hs with hs | hs
  · exact .inl ⟨s, hs, hp⟩
  · exact .inr ⟨s, split ▸ hs own, hp⟩

/-- A step on a part of the stack is one of the whole. -/
theorem Carries.part (split : t.stack = upper ++ own ++ below) (h : Carries (t.withStack own) u) :
    Carries t (u.withStack (upper ++ u.stack ++ below)) where
  held := h.held
  under k hk := by
    rcases under_part split hk with hk | hk
    · exact (h.under k hk).imp_left (under_of_part split)
    · exact .inl hk
  later := h.later
  came k status hk := by
    rcases came_part split hk with hk | hk
    · exact (h.came k status hk).imp_left (came_of_part split)
    · exact .inl hk

theorem Replaces.part {routes : List Route} (split : t.stack = upper ++ own ++ below)
    (h : Replaces (t.withStack own) u routes) :
    Replaces t (u.withStack (upper ++ u.stack ++ below)) routes where
  engine := h.engine
  session := h.session
  epoch := h.epoch
  under k hk := by
    rcases under_part split hk with hk | hk
    · exact under_of_part split (h.under k hk)
    · exact hk
  later := h.later

end Trip

/-! ## What every step keeps -/

namespace Shared

variable {x₀ x x' : Shared}

/-- The routes that the engine has to have. -/
def due (x : Shared) : List Route := x.offered.getD x.trip.facts.routes

/-- The routes are alike but for their congestion. -/
def Alike (routes routes' : List Route) : Prop := routes.map Route.bare = routes'.map Route.bare

/-- The status came for the tick in a step of the run. A simulated engine with such routes gave it
then. -/
def Given (x₀ x : Shared) (k : Tick) (status : Status) (routes : List Route) : Prop :=
  ∃ a b e, Reaches x₀ a ∧ Step a b ∧ Reaches b x ∧ ¬ a.trip.Came k status ∧
    b.trip.Came k status ∧ a.trip.engine = .simulated e ∧ e.status.2 = .ok status ∧
    Alike e.routes routes

/-- The engine has the routes it has to have. A status of the present epoch was worked out from
those of the session, or from those that the session is about to take. -/
structure Sound (x₀ x : Shared) : Prop where
  engine : ∃ e, x.trip.engine = .simulated e ∧ Alike e.routes x.due
  under : ∀ k, x.trip.Under k → k.epoch ≤ x.trip.epoch
  later : ∀ p, x.trip.awaited = some p → p.2 = .later
  came : ∀ k status, x.trip.Came k status → k.epoch = x.trip.epoch →
    Given x₀ x k status x.trip.facts.routes ∨ Given x₀ x k status x.due

theorem Given.mono {k : Tick} {status : Status} {routes routes' : List Route}
    (h : Given x₀ x k status routes) (hx : Reaches x x') (hr : Alike routes routes') :
    Given x₀ x' k status routes' := by
  obtain ⟨a, b, e, ha, hab, hbx, hno, hcame, he, hs, hroutes⟩ := h
  exact ⟨a, b, e, ha, hab, hbx.trans hx, hno, hcame, he, hs, hroutes.trans hr⟩

theorem simulated_of_routes? {engine : Engine} {routes : List Route}
    (h : engine.routes? = some routes) : ∃ e, engine = .simulated e ∧ e.routes = routes := by
  cases engine with
  | simulated e => exact ⟨e, rfl, Option.some.inj h⟩
  | scripted e => cases h

/-- A step that leaves the routes alone. -/
theorem Sound.carries {t t' : Trip} {offered : Option (List Route)}
    (h : Sound x₀ { trip := t, offered }) (hr : Reaches x₀ { trip := t, offered })
    (hs : Step { trip := t, offered } { trip := t', offered }) (hc : t.Carries t') :
    Sound x₀ { trip := t', offered } := by
  have hx : Reaches (Shared.mk t offered) { trip := t', offered } := .single hs
  have hepoch : t'.epoch = t.epoch := congrArg Held.epoch hc.held
  have hfacts : Alike t.facts.routes t'.facts.routes := (congrArg Held.session hc.held).symm
  have hdue : Alike (Shared.mk t offered).due (Shared.mk t' offered).due := by
    cases offered with
    | none => exact hfacts
    | some routes => rfl
  obtain ⟨e, he, hroutes⟩ := h.engine
  have hengine : t'.engine.routes? = some e.routes := by
    have hheld : t'.engine.routes? = t.engine.routes? := congrArg Held.engine hc.held
    have he : t.engine = .simulated e := he
    rw [hheld, he]
    rfl
  refine ⟨?_, fun k hk => ?_, fun p hp => ?_, fun k status hk hepoch' => ?_⟩
  · obtain ⟨e', he', hsame⟩ := simulated_of_routes? hengine
    exact ⟨e', he', (congrArg _ hsame).trans (hroutes.trans hdue)⟩
  · rcases hc.under k hk with hk | hk
    · exact Nat.le_trans (h.under k hk) (Nat.le_of_eq hepoch.symm)
    · exact Nat.le_of_eq (hk.trans hepoch.symm)
  · rcases hc.later p hp with hp | hp
    · exact h.later p hp
    · exact hp
  · by_cases hold : t.Came k status
    · rcases h.came k status hold (hepoch'.trans hepoch) with hgiven | hgiven
      · exact .inl (hgiven.mono hx hfacts)
      · exact .inr (hgiven.mono hx hdue)
    · obtain ⟨e', he', hstatus⟩ := (hc.came k status hk).resolve_left hold
      cases he'.symm.trans he
      exact .inr ⟨_, _, e, hr, hs, .refl, hold, hk, he, hstatus, hroutes.trans hdue⟩

/-- Routes are taken: what was given before is of an earlier epoch. -/
theorem Sound.replaced {t' : Trip} (h : Sound x₀ x)
    (hengine : ∃ e, t'.engine = .simulated e ∧ Alike e.routes t'.facts.routes)
    (hepoch : t'.epoch = x.trip.epoch + 1) (hunder : ∀ k, t'.Under k → x.trip.Under k)
    (hlater : ∀ p, t'.awaited = some p → x.trip.awaited = some p) : Sound x₀ { trip := t' } where
  engine := hengine
  under k hk := by
    have hle := h.under k (hunder k hk)
    exact Nat.le_trans hle (hepoch ▸ Nat.le_succ _)
  later p hp := h.later p (hlater p hp)
  came k status hk hk' := by
    have hle := h.under k (hunder k hk.under)
    have hk' : k.epoch = t'.epoch := hk'
    omega

theorem Sound.step (h : Sound x₀ x) (hr : Reaches x₀ x) (hs : Step x x') : Sound x₀ x' := by
  obtain ⟨e, he, hroutes⟩ := h.engine
  cases id hs with
  | @session t u upper own below split hstep =>
    rcases hstep.carries_or_replaces he h.later with hc | ⟨routes, hc⟩
    · exact h.carries hr hs (hc.part split)
    · have hc := hc.part split
      obtain ⟨e', he', hsame⟩ := simulated_of_routes? hc.engine
      exact h.replaced ⟨e', he', congrArg _ (hsame.trans hc.session.symm)⟩ hc.epoch hc.under
        hc.later
  | @offer t routes engine opened accepted =>
    have hengine := Engine.routes?_setRoutes accepted
    have he : t.engine = .simulated e := he
    rw [he] at hengine
    obtain ⟨e', he', hsame⟩ := simulated_of_routes? hengine
    refine ⟨⟨e', he', congrArg _ hsame⟩, h.under, h.later, fun k status hk hepoch => .inl ?_⟩
    rcases h.came k status hk hepoch with hgiven | hgiven <;>
      exact hgiven.mono (.single hs) rfl
  | @meanwhile t u routes upper own below split hstep =>
    rcases hstep.step.carries_or_replaces he h.later with hc | ⟨routes', hc⟩
    · exact h.carries hr hs (hc.part split)
    · have hepoch : u.epoch = t.epoch := congrArg Held.epoch hstep.held
      have hnext : u.epoch = t.epoch + 1 := hc.epoch
      omega
  | @adopt t routes caller =>
    refine h.replaced ⟨e, he, hroutes⟩ rfl (fun k hk => ?_) fun p hp => hp
    rcases hk with ⟨s, hs', hk⟩ | hk
    · refine .inl ⟨s, ?_, hk⟩
      rcases List.mem_cons.mp hs' with hs' | hs'
      · cases hs'; cases hk
      · rcases List.mem_cons.mp hs' with hs' | hs'
        · cases hs'; cases hk
        · exact hs'
    · exact .inr hk

section Runs

variable {settings : Settings} {e₀ : Simulated} {source : Source} {signal : Signal}

theorem Reaches.sound (h₀ : e₀.routes = [])
    (h : Reaches { trip := .new settings (.simulated e₀) source signal } x) :
    Sound { trip := .new settings (.simulated e₀) source signal } x := by
  induction h with
  | refl =>
    refine ⟨⟨e₀, rfl, congrArg _ h₀⟩, ?_, ?_, ?_⟩
    · rintro k (⟨s, hs, -⟩ | hk)
      · cases hs
      · cases hk
    · intro p hp; cases hp
    · rintro k status ⟨s, hs, -⟩; cases hs
  | tail hr hs ih => exact ih.step hr hs

/-- **While no call is giving the engine routes, the engine and the session have the same, but for
their congestion; and a status of which the epoch is found to be the present one was worked out from
these.** It is what it would be if it were worked out from the session's routes of now. -/
theorem engine_agrees (h₀ : e₀.routes = [])
    (h : Reaches { trip := .new settings (.simulated e₀) source signal } x)
    (free : x.offered = none) :
    (∃ e, x.trip.engine = .simulated e ∧ Alike e.routes x.trip.facts.routes) ∧
    ∀ k status, .owner (.cue k status) ∈ x.trip.stack → k.epoch = x.trip.epoch →
      ∃ a b e fix, Reaches { trip := .new settings (.simulated e₀) source signal } a ∧
        Step a b ∧ Reaches b x ∧ ¬ a.trip.Came k status ∧ b.trip.Came k status ∧
        a.trip.engine = .simulated e ∧ e.lastFix = some fix ∧ status = e.statusOf fix ∧
        Alike e.routes x.trip.facts.routes ∧
        status = { e with routes := x.trip.facts.routes }.statusOf fix := by
  have hs := Reaches.sound h₀ h
  have hdue : x.due = x.trip.facts.routes := by simp only [due, free, Option.getD_none]
  refine ⟨hdue ▸ hs.engine, fun k status hk hepoch => ?_⟩
  have hgiven : Given { trip := .new settings (.simulated e₀) source signal } x k status
      x.trip.facts.routes := by
    rcases hs.came k status ⟨_, hk, rfl⟩ hepoch with hgiven | hgiven
    · exact hgiven
    · rwa [hdue] at hgiven
  obtain ⟨a, b, e, ha, hab, hbx, hno, hcame, he, hstatus, hroutes⟩ := hgiven
  obtain ⟨fix, hfix, rfl⟩ := Simulated.statusOf_of_status hstatus
  exact ⟨a, b, e, fix, ha, hab, hbx, hno, hcame, he, hfix, rfl, hroutes,
    e.statusOf_congr fix hroutes⟩

end Runs

/-- A session on an engine that takes five milliseconds for a status. -/
def unhurriedTrip : Trip := .new {} (.simulated { delay := 5 }) (.manual {}) .none

/-- A route of one segment, with an instruction where it begins. -/
def instructedRoute : Route where
  id := "r"
  legs := [{
    geometry := [⟨0, 0⟩, ⟨1, 0⟩]
    congestion := [10]
    steps := [{ instruction := some "go", intersections := [{ index := 0 }] }] }]

/-- The cues of a status of the present epoch, which is the second, are to be told, and after them
its progress. -/
def cuesInTime (t : Trip) : Bool :=
  match t.stack with
  | [_, _, .owner (.cue k status)] =>
    k.epoch = t.epoch && t.epoch = 1 && status.progress.isSome && status.cues.isSome
  | _ => false

theorem of_cuesInTime {t : Trip} (h : cuesInTime t = true) :
    ∃ k status, .owner (.cue k status) ∈ t.stack ∧ k.epoch = t.epoch ∧ t.epoch = 1 ∧
      status.progress.isSome ∧ status.cues.isSome := by
  unfold cuesInTime at h
  split at h
  · rename_i k status hstack
    simp only [Bool.and_eq_true, decide_eq_true_eq] at h
    obtain ⟨⟨⟨hk, hepoch⟩, hprogress⟩, hcues⟩ := h
    exact ⟨k, status, by simp [hstack], hk, hepoch, hprogress, hcues⟩
  · cases h

/-- Routes are refused while a status is waited for. When it has come, with progress and cues, it is
of the present epoch, and worked out from the routes before. -/
theorem engine_agrees_of_refused :
    ∃ ms t k status, Trip.Reaches unhurriedTrip ms t ∧ t.epoch = 1 ∧
      status.progress.isSome ∧ status.cues.isSome ∧
      .owner (.cue k status) ∈ t.stack ∧ k.epoch = t.epoch ∧
      (∃ e, t.engine = .simulated e ∧ Alike e.routes t.facts.routes) ∧
      ∃ a b e fix, Reaches { trip := unhurriedTrip } a ∧ Step a b ∧ Reaches b { trip := t } ∧
        ¬ a.trip.Came k status ∧ b.trip.Came k status ∧ a.trip.engine = .simulated e ∧
        e.lastFix = some fix ∧ status = e.statusOf fix ∧ Alike e.routes t.facts.routes ∧
        status = { e with routes := t.facts.routes }.statusOf fix := by
  obtain ⟨t, ht, hp⟩ := Trip.exists_of_play 40 unhurriedTrip
    [.decide (.call (.setRoutes [instructedRoute])),
      .decide (.call (.observe (.named "a") .offRoute)), .decide (.call .start),
      .decide (.call (.push Trip.sampleFix)), .work, .elapse 5, .work,
      .decide (.call (.setRoutes [{ id := "s", legs := [{ geometry := [] }] }])), .elapse 10, .work]
    (p := cuesInTime) rfl
  obtain ⟨k, status, hmem, hk, ht₁, hprogress, hcues⟩ := of_cuesInTime hp
  obtain ⟨hengine, hstatus⟩ := engine_agrees (x := { trip := t }) rfl (of_reaches ht) rfl
  exact ⟨_, t, k, status, ht, ht₁, hprogress, hcues, hmem, hk, hengine,
    hstatus k status hmem hk⟩

end Shared
end LiveTrip
