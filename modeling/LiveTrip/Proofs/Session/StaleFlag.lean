import LiveTrip.Proofs.Session.Epoch

/-!
# Off-route flags of replaced routes

A status says whether the user is off the primary route, so its flag holds for the routes of its
tick. The flag is told before the epoch is compared: one of earlier routes takes effect whenever
they were replaced while the worker waited for the status, or by an observer of the tick's fix or its
location.

* `Trip.ReplacedAwaiting`, `Trip.ReplacedBefore`: routes were replaced while a status was awaited, or
  before a tick comes to its flag.
* `Trip.Early`: a tick that is still to come to its flag is of the present epoch, or the routes were
  replaced since it began. `Trip.Reaches.early`: this holds on every run.
* `Trip.stale_flag_iff_replaced_before`: the whole account.
-/

namespace LiveTrip

/-- The tick of a stage up to its flag. -/
def Stage.early? : Stage → Option Tick
  | .announce k | .ingest k | .ask k | .conclude k _ | .locate k _ | .flag k _ => some k
  | _ => none

theorem Stage.tick?_of_early? {s : Stage} {k : Tick} (h : s.early? = some k) : s.tick? = some k := by
  cases s <;> first | exact h | cases h

/-- Up to its flag, a tick has told the fix and the location at most. -/
theorem Stage.after_of_early? {s : Stage} {k : Tick} (h : s.early? = some k) :
    ∀ c ∈ s.after, c ∈ [Category.rawLocation, .location] := by
  cases s <;> first | (cases h; done) | simp [Stage.after]

namespace Trip

variable {t t' t₀ : Trip} {made : Option Call} {ms : List Move} {k : Tick}

/-! ## Routes replaced early in a tick -/

/-- On the run by `ms` from `t₀` to `t`, the routes were replaced while the worker waited for the
status of the tick. -/
def ReplacedAwaiting (t₀ : Trip) (ms : List Move) (t : Trip) (k : Tick) : Prop :=
  ∃ a caller routes, Made t₀ ms t a caller (.setRoutes routes) ∧ Accepts a routes ∧
    a.outline.pending = some k

/-- The routes were replaced after the tick began and before it comes to its flag: by an observer of
its fix or its location, or while its status was awaited. -/
def ReplacedBefore (t₀ : Trip) (ms : List Move) (t : Trip) (k : Tick) : Prop :=
  ReplacedWithin t₀ ms t k [.rawLocation, .location] ∨ ReplacedAwaiting t₀ ms t k

theorem ReplacedBefore.trans {ns : List Move} (h : ReplacedBefore t₀ ms t k)
    (hr : Reaches t ns t') : ReplacedBefore t₀ (ms ++ ns) t' k := by
  rcases h with h | ⟨a, caller, routes, hm, h⟩
  · exact .inl (h.trans hr)
  · exact .inr ⟨a, caller, routes, hm.trans hr, h⟩

/-- What is left to do of a tick up to its flag is of the present epoch, or the routes were replaced
since it began. -/
structure Early (t₀ : Trip) (ms : List Move) (t : Trip) : Prop where
  staged : ∀ s k, .owner s ∈ t.stack → s.early? = some k →
    k.epoch = t.epoch ∨ ReplacedBefore t₀ ms t k
  asked : ∀ k, t.outline.pending = some k → k.epoch = t.epoch ∨ ReplacedBefore t₀ ms t k

/-- An early stage of a tick follows an earlier one of it, or the tick begins. -/
theorem Goes.early_of_own {s s' : Stage} {o : Outcome} (h : Goes t s o) (hs : .owner s' ∈ o.own)
    (hk : s'.early? = some k) : s.early? = some k ∨ k.epoch = t.epoch := by
  cases h with
  | begins =>
    cases List.mem_singleton.mp hs
    cases hk
    exact .inr rfl
  | locates k' status current =>
    cases List.mem_singleton.mp hs
    by_cases hscope : k'.scope = .full
    · rw [if_pos hscope] at hk; exact .inl hk
    · rw [if_neg hscope] at hk; cases hk
  | announces | announceStale | announceNothing | ingested | asked | answered =>
    cases List.mem_singleton.mp hs
    exact .inl hk
  | arrives =>
    simp only [List.mem_cons, Frame.owner.injEq, List.not_mem_nil, or_false] at hs
    rcases hs with rfl | rfl <;> cases hk
  | refused | failed | locateStale | flags | flagged | flagStale | cueReplaced | cues | cued
  | cueStale | unreported | reports | arriveStale | tallied | rereads =>
    cases List.mem_singleton.mp hs
    cases hk
  | subscribed => cases List.mem_singleton.mp hs
  | _ => cases hs

/-- A tick that is still to come to its flag was so before the step, or it begins now. -/
theorem Change.early_cases (h : Change t t' made) {s : Stage} (hs : .owner s ∈ t'.stack)
    (hk : s.early? = some k) :
    ((∃ s', .owner s' ∈ t.stack ∧ s'.early? = some k) ∨ t.outline.pending = some k) ∨
      k.epoch = t'.epoch := by
  cases h with
  | stage s' below o top goes stack log outline =>
    rw [stack] at hs
    have hs : .owner s ∈ o.own ∨ .owner s ∈ below := by simpa using hs
    rcases hs with hs | hs
    · rcases goes.early_of_own hs hk with hk | hepoch
      · exact .inl (.inl ⟨s', by rw [top]; exact List.mem_cons_self, hk⟩)
      · obtain ⟨_, _, _, _, hout, -⟩ := goes.outline_of
        have he : t'.epoch = t.epoch := congrArg Outline.epoch (outline.trans hout)
        exact .inr (hepoch.trans he.symm)
    · exact .inl (.inl ⟨s, by rw [top]; exact List.mem_cons_of_mem _ hs, hk⟩)
  | deliver f id l rest below top stack =>
    rw [stack] at hs
    exact .inl (.inl ⟨s, by rw [top]; simpa using hs, hk⟩)
  | ends x below events top _ _ stack =>
    rw [stack] at hs
    exact .inl (.inl ⟨s, by rw [top]; exact List.mem_cons_of_mem _ hs, hk⟩)
  | call caller c r stages notes o word hmade performs shows =>
    rw [shows.stack] at hs
    have work := Stage.isWork_of_tick? (Stage.tick?_of_early? hk)
    have hs : s ∈ stages ∨ s = .reply r ∨ .owner s ∈ t.stack := by
      simpa [or_assoc] using hs
    rcases hs with hs | rfl | hs
    · exact absurd (performs.isOwn s hs) (Stage.not_isOwn_of_isWork work)
    · cases hk
    · exact .inl (.inl ⟨s, hs, hk⟩)
  | turn o idle turn shows =>
    rw [shows.stack, idle, List.append_nil] at hs
    have he : t'.epoch = o.outline.epoch := congrArg Outline.epoch shows.outline
    cases turn with
    | begins =>
      cases List.mem_singleton.mp hs
      cases hk
      exact .inr he.symm
    | concludes k' answer asked =>
      cases List.mem_singleton.mp hs
      cases hk
      exact .inl (.inr asked)
    | proceeds =>
      cases List.mem_singleton.mp hs
      cases hk
    | waits => cases hs

/-- Routes that were in place, or were replaced since the tick began, still are after a step, or
have been replaced since. -/
theorem Early.kept (h : Early t₀ ms t) (hr : Reaches t₀ ms t) (hl : ∃ b, Laid b t.stack)
    (hc : Change t t' made) {ns : List Move} (hn : Reaches t ns t')
    (hm : ∀ c, made = some c → ns = [.decide (.call c)])
    (hk : (∃ s, .owner s ∈ t.stack ∧ s.early? = some k) ∨ t.outline.pending = some k) :
    k.epoch = t'.epoch ∨ ReplacedBefore t₀ (ms ++ ns) t' k := by
  have hold : k.epoch = t.epoch ∨ ReplacedBefore t₀ ms t k := by
    rcases hk with ⟨s, hs, hk⟩ | hk
    · exact h.staged s k hs hk
    · exact h.asked k hk
  rcases hold with hold | hold
  · rcases hc.epoch with he | ⟨caller, routes, rfl, word, rfl, accepts⟩
    · exact .inl (hold.trans he.symm)
    · rw [hm _ rfl]
      rcases hk with ⟨s, hs, hk⟩ | hk
      · exact .inr (.inl ((replacedWithin_of_call hr hl hs (Stage.tick?_of_early? hk) word
          accepts).mono (Stage.after_of_early? hk)))
      · exact .inr (.inr ⟨t, caller, routes, made_call hr word, accepts, hk⟩)
  · exact .inr (hold.trans hn)

theorem Early.step (h : Early t₀ ms t) (hr : Reaches t₀ ms t) (hl : ∃ b, Laid b t.stack)
    (hc : Change t t' made) {ns : List Move} (hn : Reaches t ns t')
    (hm : ∀ c, made = some c → ns = [.decide (.call c)]) : Early t₀ (ms ++ ns) t' := by
  refine ⟨fun s k hs hk => ?_, fun k hk => ?_⟩
  · rcases hc.early_cases hs hk with hold | hepoch
    · exact h.kept hr hl hc hn hm hold
    · exact .inl hepoch
  · rcases hc.pending hk with hk | hs
    · exact h.kept hr hl hc hn hm (.inr hk)
    · exact h.kept hr hl hc hn hm (.inl ⟨_, hs, rfl⟩)

/-- **On every run, what is left to do of a tick up to its flag is of the present epoch, or the
routes were replaced since it began.** -/
theorem Reaches.early (h : Reaches t₀ ms t) (h₀ : t₀.stack = []) (hw : t₀.worker = none) :
    Early t₀ ms t := by
  have start : Early t₀ [] t₀ :=
    ⟨fun s k hs => (by rw [h₀] at hs; cases hs), fun k hk => (by simp [outline, hw] at hk)⟩
  refine h.induct start (fun ms t t' hr ih hs => ?_) fun ms m t t' hr ih hs => ?_
  · simpa using ih.step hr (hr.laid h₀) (change_of_tick? hs) (.tick hs (.refl _)) (by simp)
  · obtain ⟨made, hc, hm⟩ := change_of_move? hs
    exact ih.step hr (hr.laid h₀) hc (.move hs (.refl _)) fun c h => by rw [hm c h]

/-! ## What takes effect -/

variable {settings : Settings} {engine : Engine} {source : Source} {signal : Signal}

/-- A tick during which the routes were replaced before its flag is of an earlier epoch. -/
theorem ReplacedBefore.epoch_lt (h : ReplacedBefore (.new settings engine source signal) ms t k)
    (hr : Reaches (.new settings engine source signal) ms t) (hk : Ticked t k) :
    k.epoch < t.epoch := by
  rcases h with h | ⟨a, caller, routes, ⟨before, after, -, ha, word, hb⟩, accepts, hp⟩
  · exact h.epoch_lt hr hk
  · have hbefore := ha.sound.epoch k (ha.sound.asked k hp)
    have hafter := hb.le.2
    rw [epoch_of_accepts accepts caller] at hafter
    omega

/-- A tick tells of the flag in the stage for it, and of what its status says. -/
theorem Goes.flag_of_told {s : Stage} {o : Outcome} (h : Goes t s o) {f : SessionFanout}
    {audience : List (ObserverId × Listener)} (ho : o.told = some (f, audience)) {n : Nat}
    (hc : f.cause = .tick n) (hcat : f.category = .offRoute) :
    ∃ k status, s = .flag k status ∧ k.number = n ∧
      f = ⟨t.dispatch.serial, .tick k.number, .offRoute, status.offRoute⟩ := by
  cases h with
  | flags k status =>
    cases ho
    cases hc
    exact ⟨k, status, rfl, rfl, rfl⟩
  | registered l c | subscribed l c =>
    obtain ⟨v, id, rfl, -⟩ := owed_eq_some ho
    cases hc
  | leaves =>
    cases ho
    cases hc
  | enters | derives | announces | locates | cues | reports =>
    cases ho
    cases hcat
  | _ => cases ho

/-- A flag is told while the tick may tell something and the flag is another one than the last,
whatever the epoch. -/
theorem Goes.flags_iff {s : Status} {o : Outcome} (h : Goes t (.flag k s) o) :
    (∃ audience,
      o.told = some (⟨t.dispatch.serial, .tick k.number, .offRoute, s.offRoute⟩, audience)) ↔
      t.current k = true ∧ t.dispatch.last .offRoute ≠ some s.offRoute := by
  cases h with
  | flags _ _ current change => exact ⟨fun _ => ⟨current, change⟩, fun _ => ⟨_, rfl⟩⟩
  | flagged _ _ same =>
    exact ⟨fun ⟨_, ho⟩ => (by cases ho), fun ⟨_, change⟩ => absurd same change⟩
  | flagStale _ _ stale =>
    refine ⟨fun ⟨_, ho⟩ => (by cases ho), fun ⟨current, _⟩ => ?_⟩
    rw [current] at stale
    cases stale

/-- **An off-route flag of replaced routes takes effect whenever the routes were replaced after its
tick began and before it came to the flag.** Whatever the epoch, the flag is told while the tick may
tell something and it is another one than the last; it is of an earlier epoch just when the routes
were replaced while the worker waited for the status, or by an observer of the fix or the location of
the tick. -/
theorem stale_flag_iff_replaced_before (h : Reaches (.new settings engine source signal) ms t)
    (hs : Step t t') (hk : Ticked t k) :
    (∀ f audience, Begins t t' f audience → f.cause = .tick k.number → f.category = .offRoute →
      ∃ s below, t.stack = .owner (.flag k s) :: below ∧
        f = ⟨t.dispatch.serial, .tick k.number, .offRoute, s.offRoute⟩) ∧
    ∀ s below, t.stack = .owner (.flag k s) :: below →
      ((∃ audience,
          Begins t t' ⟨t.dispatch.serial, .tick k.number, .offRoute, s.offRoute⟩ audience) ↔
        t.current k = true ∧ t.dispatch.last .offRoute ≠ some s.offRoute) ∧
      (k.epoch < t.epoch ↔ ReplacedBefore (.new settings engine source signal) ms t k) := by
  obtain ⟨made, hc⟩ := change_of_step hs
  refine ⟨fun f audience hf hcause hcat => ?_, fun s below top => ⟨?_, ?_⟩⟩
  · obtain ⟨stage, below, o, top, goes, ho⟩ := hc.tells hf
    obtain ⟨k', s, rfl, hn, hvalue⟩ := goes.flag_of_told ho hcause hcat
    have hk' : Ticked t k' := h.sound.staged _ k' (by rw [top]; exact List.mem_cons_self) rfl
    obtain rfl := h.sound.distinct k' k hk' hk hn
    exact ⟨s, below, top, hvalue⟩
  · obtain ⟨o, goes, -, hbegins⟩ := hc.goes_of_top top
    simp only [hbegins]
    exact goes.flags_iff
  · have hearly := (h.early rfl rfl).staged (.flag k s) k (by rw [top]; exact List.mem_cons_self) rfl
    exact ⟨fun hlt => hearly.resolve_left (Nat.ne_of_lt hlt), fun hb => hb.epoch_lt h hk⟩

/-- A session whose engine takes ten milliseconds to say that the user is off the route, after a
first status that fails because no fix is known. -/
def slowOffRoute : Trip :=
  .new {} (.scripted { script := [
    { answer := .error (.status "none") },
    { delay := 10, answer := .ok { location := sampleLocation, tracking := .offRoute } }] })
    (.manual {}) .none

/-- The flag of a tick is about to be told, and the routes are of a later epoch. -/
def flagsStale (t : Trip) : Bool :=
  match t.stack with
  | .owner (.flag k s) :: _ =>
    k.epoch < t.epoch && t.current k && t.dispatch.last .offRoute ≠ some s.offRoute
  | _ => false

theorem of_flagsStale (h : t.flagsStale = true) :
    ∃ k s below, t.stack = .owner (.flag k s) :: below ∧ k.epoch < t.epoch ∧
      t.current k = true ∧ t.dispatch.last .offRoute ≠ some s.offRoute := by
  unfold flagsStale at h
  split at h
  · rename_i k s below top
    simp only [Bool.and_eq_true, decide_eq_true_eq] at h
    exact ⟨k, s, below, top, h.1.1, h.1.2, h.2⟩
  · cases h

/-- Routes that are replaced while the status is awaited are followed by the flag for the routes of
before. -/
theorem stale_flag_of_replaced_awaiting :
    ∃ ms t t' k f audience, Reaches slowOffRoute ms t ∧ Step t t' ∧ Ticked t k ∧
      Begins t t' f audience ∧ f.cause = .tick k.number ∧ f.category = .offRoute ∧
      k.epoch < t.epoch ∧ ReplacedBefore slowOffRoute ms t k := by
  obtain ⟨b, hb, hp⟩ := exists_of_play 40 slowOffRoute
    [.decide (.call (.observe (.named "a") .location)), .decide (.call .start),
      .decide (.call (.push sampleFix)), .work, .decide (.call (.setRoutes [{ id := "q" }])),
      .elapse 10, .work]
    (p := fun b => ((b.move? (.decide .finish)).bind tick?).any fun t =>
      t.flagsStale && t.tick?.isSome) rfl
  obtain ⟨t, hbt, ht⟩ := (Option.any_eq_true _ _).mp hp
  obtain ⟨c, hbc, hct⟩ := Option.bind_eq_some_iff.mp hbt
  obtain ⟨hstale, hnext⟩ := Bool.and_eq_true_iff.mp ht
  obtain ⟨t', hs⟩ := Option.isSome_iff_exists.mp hnext
  obtain ⟨k, s, below, top, hlt, htold⟩ := of_flagsStale hstale
  have h := hb.trans (.move hbc (.tick hct (.refl t)))
  have hk : Ticked t k := h.sound.staged _ k (by rw [top]; exact List.mem_cons_self) rfl
  obtain ⟨-, hflag⟩ := stale_flag_iff_replaced_before h (.tick hs) hk
  obtain ⟨hbegins, hreplaced⟩ := hflag s below top
  obtain ⟨audience, hf⟩ := hbegins.mpr htold
  exact ⟨_, t, t', k, _, audience, h, .tick hs, hk, hf, rfl, rfl, hlt, hreplaced.mp hlt⟩

end Trip
end LiveTrip
