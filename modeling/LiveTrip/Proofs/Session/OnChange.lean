import LiveTrip.Proofs.Session.Phase
import LiveTrip.Proofs.Session.Remembered
import Mathlib.Data.List.Chain

/-!
# What is told on a change only

The lifecycle state, the phase, the off-route flag and the cues are told when they are other than
what was told before. Each is compared with a memory of its own: the state with the one the session
is in, the phase with that of the tracker, the flag and the cues with the last value. The first two
are never forgotten; the others are forgotten by a stop, and the cues also when routes are taken.

* `Event.anew?`, `published`: the values that are told in a category, one after the other.
* `Repeats`: two values told one after the other are the same.
* `Trip.Goes.fresh`: a stage tells a value of these categories only if another is remembered.
* `Trip.Reaches.told`: a value that has been told was told in a step, and is remembered after it.
* `Trip.Reaches.kept_or_forgotten`: as long as no other is told, it is remembered or forgotten.
* `Trip.Reaches.chained`: what is never forgotten is never told twice in a row.
* `Trip.told_on_change_only`: the whole account.
-/

namespace LiveTrip

/-- What is told in these categories is compared with what was told before. -/
def Category.onChange : List Category := [.sessionState, .navigationPhase, .offRoute,
  .instructionCues]

/-! ## What is told in a category -/

/-- The value of a category that an event tells anew. -/
def Event.anew? (c : Category) : SessionEvent → Option c.Value
  | .began f _ =>
    if h : f.category = c then if f.cause = .replay then none else some (h ▸ f.value) else none
  | _ => none

variable {c : Category} {v : c.Value} {e : SessionEvent} {log : List SessionEvent}

theorem Event.anew?_began {n : Nat} {cause : Cause} (fresh : cause ≠ .replay)
    (audience : List (ObserverId × Listener)) :
    Event.anew? c (.began ⟨n, cause, c, v⟩ audience) = some v := by
  simp [Event.anew?, fresh]

theorem Event.anew?_of_quiet (h : e.tells? c = none) : e.anew? c = none := by
  cases e with
  | began f audience =>
    simp only [Event.tells?, ite_eq_right_iff, reduceCtorEq, imp_false, not_and] at h
    simp only [Event.anew?]
    split
    · rename_i hc
      rw [if_pos (Classical.not_not.mp (h hc))]
    · rfl
  | _ => rfl

/-- The values that are told in a category, first to last: what is known before anything is told,
and then what is told anew. -/
def published (c : Category) (log : List SessionEvent) : List c.Value :=
  (Hub.initial.get c).last.toList ++ (log.filterMap (Event.anew? c)).reverse

theorem published_cons_of_some (h : e.anew? c = some v) (log : List SessionEvent) :
    published c (e :: log) = published c log ++ [v] := by
  simp [published, h]

/-- What tells nothing anew adds nothing to what is published. -/
theorem published_append_of_quiet {events : List SessionEvent}
    (h : ∀ e ∈ events, e.tells? c = none) (log : List SessionEvent) :
    published c (events ++ log) = published c log := by
  have hnone : events.filterMap (Event.anew? c) = [] :=
    List.filterMap_eq_nil_iff.mpr fun e he => Event.anew?_of_quiet (h e he)
  simp [published, hnone]

/-- Two values that are told in a category one after the other are the same: the first when `past`
has happened, and the second right after `upTo` has. -/
def Repeats (c : Category) (log past upTo : List SessionEvent) : Prop :=
  ∃ v later second mid first earlier,
    past = first :: earlier ∧ upTo = mid ++ past ∧ log = later ++ second :: upTo ∧
      Event.anew? c first = some v ∧ Event.anew? c second = some v ∧
      ∀ e ∈ mid, Event.anew? c e = none

/-- Two values in a row that are the same make a repetition. -/
theorem exists_repeats {newer older : List c.Value}
    (h : log.filterMap (Event.anew? c) = newer ++ v :: v :: older) :
    ∃ past upTo, Repeats c log past upTo := by
  obtain ⟨log₁, log₂, rfl, -, h⟩ := List.filterMap_eq_append_iff.mp h
  obtain ⟨later, second, rest, rfl, -, hsecond, h⟩ := List.filterMap_eq_cons_iff.mp h
  obtain ⟨mid, first, earlier, rfl, hmid, hfirst, -⟩ := List.filterMap_eq_cons_iff.mp h
  exact ⟨_, _, v, log₁ ++ later, second, mid, first, earlier, rfl, rfl,
    (List.append_assoc ..).symm, hfirst, hsecond, hmid⟩

/-- Lists that are joined are the same past what does not have a certain entry. -/
theorem append_eq_append_of_not_mem {α : Type} {x : α} {front back upper below : List α}
    (hx : x ∉ front) (h : front ++ back = upper ++ x :: below) :
    ∃ upper', upper = front ++ upper' ∧ back = upper' ++ x :: below := by
  rcases List.append_eq_append_iff.mp h with ⟨upper', rfl, hback⟩ | ⟨rest, rfl, hrest⟩
  · exact ⟨upper', rfl, hback⟩
  · cases rest with
    | nil => exact ⟨[], (List.append_nil _).symm.trans (List.append_nil _).symm, hrest.symm⟩
    | cons y rest =>
      cases hrest
      simp at hx

namespace Trip

variable {t t' : Trip} {made : Option Call}

/-! ## What is told is new -/

/-- **A stage tells a value of these categories only if another is remembered.** -/
theorem Goes.fresh {s : Stage} {o : Outcome} (h : Goes t s o) {n : Nat} {cause : Cause}
    {audience : List (ObserverId × Listener)} (ho : o.told = some (⟨n, cause, c, v⟩, audience))
    (hfresh : cause ≠ .replay) (hc : c ∈ Category.onChange)
    (state : t.dispatch.last .sessionState = some t.facts.state)
    (phase : t.dispatch.last .navigationPhase = some t.facts.phase.current) :
    t.dispatch.last c ≠ some v := by
  cases h with
  | registered l c | subscribed l c =>
    obtain ⟨v, id, hf, -⟩ := owed_eq_some ho
    cases hf
    exact absurd rfl hfresh
  | enters s change =>
    cases ho
    rw [state]
    exact fun h => change (Option.some.inj h)
  | derives cause change =>
    cases ho
    rw [phase]
    exact fun h => of_decide_eq_true change (Option.some.inj h).symm
  | leaves set =>
    cases ho
    rw [set]
    simp
  | flags k s current change => cases ho; exact change
  | cues k s cues known epoch current change => cases ho; exact change
  | announces | locates | reports =>
    cases ho
    simp [Category.onChange] at hc
  | _ => cases ho

theorem Goes.forgetTrip_not_mem {s : Stage} {o : Outcome} (h : Goes t s o) :
    .owner .forgetTrip ∉ o.own := by
  cases h with
  | locates k s => by_cases hk : k.scope = .full <;> simp [hk]
  | _ => simp

/-! ## Along a run -/

/-- On the run by `ms` from `a` to `t`, a step with the moves `ns` leads from `b` to `b'`. -/
def Passes (a : Trip) (ms : List Move) (t b : Trip) (ns : List Move) (b' : Trip) : Prop :=
  ∃ before after, ms = before ++ (ns ++ after) ∧ Reaches a before b ∧ Takes b ns b' ∧
    Reaches b' after t

theorem Passes.first {a b : Trip} {ms ns : List Move} (hs : Takes a ns b) (hr : Reaches b ms t) :
    Passes a (ns ++ ms) t a ns b := ⟨[], ms, rfl, .refl a, hs, hr⟩

theorem Passes.later {a b u u' : Trip} {ms ns os : List Move} (hr : Reaches a ns b)
    (h : Passes b ms t u os u') : Passes a (ns ++ ms) t u os u' := by
  obtain ⟨before, after, rfl, hu, hs, ht⟩ := h
  exact ⟨ns ++ before, after, (List.append_assoc ..).symm, hr.trans hu, hs, ht⟩

theorem Passes.trans {a u u' : Trip} {ms ns os : List Move} (h : Passes a ms t u os u')
    (hr : Reaches t ns t') : Passes a (ms ++ ns) t' u os u' := by
  obtain ⟨before, after, rfl, hu, hs, ht⟩ := h
  exact ⟨before, after ++ ns, by simp only [List.append_assoc], hu, hs, ht.trans hr⟩

theorem Reaches.log_suffix {a : Trip} {ms : List Move} (h : Reaches a ms t) : a.log <:+ t.log := by
  obtain ⟨events, hlog⟩ := h.log_grows
  exact ⟨events, hlog.symm⟩

theorem Passes.log_between {a u u' : Trip} {ms os : List Move} (h : Passes a ms t u os u') :
    a.log <:+ u.log ∧ u.log <:+ t.log := by
  obtain ⟨before, after, -, hu, hs, ht⟩ := h
  exact ⟨hu.log_suffix, (hs.reaches.trans ht).log_suffix⟩

/-! ## Who forgets -/

/-- A call that leaves it to be done that the trip is forgotten is a stop. -/
theorem Performs.of_forgetTrip {d : Call} {stages : List Stage} {notes : List Note} {o : Outline}
    (h : Performs t d stages notes o) (hmem : .forgetTrip ∈ stages) :
    d = .stop ∧ t.worker.isSome = true ∧
      stages = [.leaveOffRoute, .forgetTrip, .enter .stopped] := by
  cases h with
  | stops opened running => exact ⟨rfl, running, rfl⟩
  | others _ _ _ _ _ telling =>
    rcases telling _ hmem with h | ⟨_, _, h⟩ | ⟨_, _, _, h⟩ <;> cases h
  | _ => simp at hmem

/-- Only a stop puts it on the stack that the trip has still to be forgotten. -/
theorem Change.forgetting (h : Change t t' made) {upper below : List SessionFrame}
    (hs : t'.stack = upper ++ .owner .forgetTrip :: below) :
    (∃ upper', t.stack = upper' ++ .owner .forgetTrip :: below) ∨
      ∃ caller r, made = some .stop ∧ t.speaker = some caller ∧ t' = t.call caller .stop ∧
        t.worker.isSome = true ∧
        below = .owner (.enter .stopped) :: .owner (.reply r) :: t.stack := by
  -- What is put on the stack is above what was there.
  have kept (front : List SessionFrame) {back : List SessionFrame}
      (hstack : t'.stack = front ++ back) (hfront : .owner .forgetTrip ∉ front) :
      ∃ upper', back = upper' ++ .owner .forgetTrip :: below := by
    obtain ⟨upper', -, h⟩ := append_eq_append_of_not_mem hfront (hstack.symm.trans hs)
    exact ⟨upper', h⟩
  cases h with
  | stage s below' o top goes stack =>
    obtain ⟨upper', h⟩ := kept _ (stack.trans (List.append_assoc ..).symm) (by
      simpa using goes.forgetTrip_not_mem)
    exact .inl ⟨.owner s :: upper', by rw [top, h]; rfl⟩
  | deliver f id l rest below' top stack =>
    obtain ⟨upper', h⟩ := kept [_, _] stack (by simp)
    exact .inl ⟨.fanout f ((id, l) :: rest) :: upper', by rw [top, h]; rfl⟩
  | ends x below' events top _ _ stack =>
    obtain ⟨upper', h⟩ := kept [] stack List.not_mem_nil
    exact .inl ⟨x :: upper', by rw [top, h]; rfl⟩
  | call caller c r stages notes o word hmade performs shows =>
    by_cases hmem : .forgetTrip ∈ stages
    · obtain ⟨rfl, running, rfl⟩ := performs.of_forgetTrip hmem
      obtain ⟨upper', h⟩ := kept [.owner .leaveOffRoute] shows.stack (by simp)
      cases upper' with
      | nil => exact .inr ⟨caller, r, rfl, word, hmade, running, (List.cons.inj h).2.symm⟩
      | cons x upper' =>
        have hrest : [.owner (.enter .stopped), .owner (.reply r)] ++ t.stack =
          upper' ++ .owner .forgetTrip :: below := (List.cons.inj h).2
        obtain ⟨upper, -, h⟩ := append_eq_append_of_not_mem (by simp) hrest
        exact .inl ⟨upper, h⟩
    · exact .inl (kept _ shows.stack (by simpa using hmem))
  | turn o idle turn shows =>
    exact .inl (kept _ (shows.stack.trans (List.append_assoc ..).symm) (by cases turn <;> simp))

/-- No two values that are told in a category one after the other are the same, and the last of them
is remembered. -/
structure Chained (c : Category) (t : Trip) : Prop where
  chain : (published c t.log).IsChain (· ≠ ·)
  last : (published c t.log).getLast? = t.dispatch.last c

section Runs

variable {settings : Settings} {engine : Engine} {source : Source} {signal : Signal}
  {ms ns : List Move} {a b : Trip}

/-- A step that tells a value of these categories finds another remembered. -/
theorem Reaches.fresh (h : Reaches (.new settings engine source signal) ms t) (hs : Step t t')
    {n : Nat} {cause : Cause} {audience : List (ObserverId × Listener)}
    {events : List SessionEvent}
    (hlog : t'.log = .began ⟨n, cause, c, v⟩ audience :: (events ++ t.log))
    (hfresh : cause ≠ .replay) (hc : c ∈ Category.onChange) : t.dispatch.last c ≠ some v := by
  obtain ⟨made, hchange⟩ := change_of_step hs
  obtain ⟨s, below, o, -, goes, ho⟩ := hchange.tells ⟨_ :: events, hlog, List.mem_cons_self⟩
  exact goes.fresh ho hfresh hc h.state_remembered h.upToDate.told

/-- **On every run, what has still to forget the trip is a stop that was made.** -/
theorem Reaches.made_stop (h : Reaches (.new settings engine source signal) ms t)
    {upper below : List SessionFrame} (hs : t.stack = upper ++ .owner .forgetTrip :: below) :
    ∃ a caller r, Made (.new settings engine source signal) ms t a caller .stop ∧
      a.worker.isSome = true ∧
      below = .owner (.enter .stopped) :: .owner (.reply r) :: a.stack := by
  refine h.induct (P := fun ms t => ∀ upper below, t.stack = upper ++ .owner .forgetTrip :: below →
    ∃ a caller r, Made (.new settings engine source signal) ms t a caller .stop ∧
      a.worker.isSome = true ∧ below = .owner (.enter .stopped) :: .owner (.reply r) :: a.stack)
    (fun upper _ hs => ?_) (fun ms t t' hr ih hs upper below htop => ?_)
    (fun ms m t t' hr ih hs upper below htop => ?_) upper below hs
  · cases upper <;> cases hs
  · rcases (change_of_tick? hs).forgetting htop with ⟨upper', h⟩ | ⟨caller, r, hmade, -⟩
    · obtain ⟨a, caller, r, made, hbelow⟩ := ih upper' below h
      have made' := made.trans (.tick hs (.refl _))
      rw [List.append_nil] at made'
      exact ⟨a, caller, r, made', hbelow⟩
    · cases hmade
  · obtain ⟨made, hchange, hmove⟩ := change_of_move? hs
    rcases hchange.forgetting htop with ⟨upper', h⟩ | ⟨caller, r, hmade, word, rfl, running, hbelow⟩
    · obtain ⟨a, caller, r, made, hbelow⟩ := ih upper' below h
      exact ⟨a, caller, r, made.trans (.move hs (.refl _)), hbelow⟩
    · rw [hmove _ hmade]
      exact ⟨t, caller, r, made_call hr word, running, hbelow⟩

/-- **What has been logged on a run was logged in one of its steps.** -/
theorem Reaches.logged (h : Reaches a ms t) {past : List SessionEvent}
    (hlog : e :: past <:+ t.log) (ha : a.log <:+ past) :
    ∃ b ns b' old new, Passes a ms t b ns b' ∧ past = old ++ b.log ∧ b'.log = new ++ b.log ∧
      e :: old <:+ new := by
  refine h.head_induct (P := fun a ms => a.log <:+ past → ∃ b ns b' old new,
    Passes a ms t b ns b' ∧ past = old ++ b.log ∧ b'.log = new ++ b.log ∧ e :: old <:+ new)
    (fun ht => ?_) (fun a b ns ms hs hr ih ha => ?_) ha
  · exact absurd (hlog.trans ht).length_le (Nat.not_succ_le_self _)
  · have hcases : e :: past <:+ b.log ∨ b.log <:+ past := by
      rcases List.suffix_or_suffix_of_suffix hlog hr.log_suffix with h | h
      · exact .inl h
      · rcases List.suffix_cons_iff.mp h with h | h
        · exact .inl (h ▸ List.suffix_refl _)
        · exact .inr h
    rcases hcases with hlogged | hlater
    · obtain ⟨new, hnew⟩ := hs.reaches.log_grows
      obtain ⟨old, rfl⟩ := ha
      refine ⟨a, ns, b, old, new, .first hs hr, rfl, hnew, ?_⟩
      rw [hnew, ← List.cons_append] at hlogged
      exact List.suffix_append_self_iff.mp hlogged
    · obtain ⟨u, os, u', old, new, passes, hold, hnew, hnews⟩ := ih hlater
      exact ⟨u, os, u', old, new, passes.later hs.reaches, hold, hnew, hnews⟩

/-- **A value that has been told was told in a step**, in which nothing else was told in its
category, and is remembered after it. -/
theorem Reaches.told (h : Reaches (.new settings engine source signal) ms t)
    {past : List SessionEvent} (hlog : e :: past <:+ t.log) (he : Event.anew? c e = some v) :
    ∃ b ns b' events, Passes (.new settings engine source signal) ms t b ns b' ∧
      b'.log = e :: past ∧ past = events ++ b.log ∧ (∀ x ∈ events, Event.anew? c x = none) ∧
      b'.dispatch.last c = some v ∧ (c ∈ Category.onChange → b.dispatch.last c ≠ some v) := by
  obtain ⟨b, ns, b', old, new, passes, rfl, hnew, hsuffix⟩ := h.logged hlog List.nil_suffix
  obtain ⟨before, after, rfl, hb, hs, ht⟩ := id passes
  have hmem : e ∈ new := hsuffix.subset List.mem_cons_self
  have noisy {events : List SessionEvent} (hquiet : ∀ x ∈ events, x.tells? c = none)
      (hsub : e ∈ events) : False := by
    rw [Event.anew?_of_quiet (hquiet e hsub)] at he
    cases he
  cases hs.recalls (hb.laid rfl) c with
  | stays last log =>
    obtain ⟨events, hlog, hquiet⟩ := log
    obtain rfl : new = events := List.append_cancel_right (hnew.symm.trans hlog)
    exact (noisy hquiet hmem).elim
  | forgotten forgets last log =>
    obtain rfl : new = [] := List.append_left_eq_self.mp (hnew.symm.trans log)
    cases hmem
  | told n cause u audience fresh last log =>
    obtain ⟨events, hlog, hquiet⟩ := log
    obtain rfl : new = .began ⟨n, cause, c, u⟩ audience :: events :=
      List.append_cancel_right (hnew.symm.trans hlog)
    rcases List.suffix_cons_iff.mp hsuffix with hsame | hless
    · cases hsame
      rw [Event.anew?_began fresh] at he
      cases he
      exact ⟨b, ns, b', _, passes, hlog, rfl, fun x hx => Event.anew?_of_quiet (hquiet x hx),
        last, hb.fresh hs.step hlog fresh⟩
    · exact (noisy hquiet (hless.subset List.mem_cons_self)).elim

/-- **As long as nothing is told in a category, what is remembered in it stays or is forgotten.** -/
theorem Reaches.kept_or_forgotten (h : Reaches a ms t) (hl : ∃ x, Laid x a.stack)
    {events : List SessionEvent} (hlog : t.log = events ++ a.log)
    (hquiet : ∀ e ∈ events, Event.anew? c e = none) :
    t.dispatch.last c = a.dispatch.last c ∨
      ∃ m ns m', Passes a ms t m ns m' ∧ Forgets m c ns m' ∧ m'.dispatch.last c = none := by
  refine h.head_induct (P := fun a ms => (∃ x, Laid x a.stack) → ∀ events,
    t.log = events ++ a.log → (∀ e ∈ events, Event.anew? c e = none) →
    t.dispatch.last c = a.dispatch.last c ∨
      ∃ m ns m', Passes a ms t m ns m' ∧ Forgets m c ns m' ∧ m'.dispatch.last c = none)
    (fun _ _ _ _ => .inl rfl) (fun a b ns ms hs hr ih hl events hlog hquiet => ?_) hl events hlog
    hquiet
  obtain ⟨later, hlater⟩ := hr.log_grows
  obtain ⟨new, hnew⟩ := hs.reaches.log_grows
  obtain rfl : events = later ++ new := by
    rw [hlater, hnew, ← List.append_assoc] at hlog
    exact (List.append_cancel_right hlog).symm
  cases hs.recalls hl c with
  | stays last =>
    obtain ⟨made, hchange⟩ := change_of_step hs.step
    rcases ih (hchange.laid hl) later hlater fun e he => hquiet e (List.mem_append_left _ he) with
      hkept | ⟨m, os, m', passes, hforgets, hnone⟩
    · exact .inl (hkept.trans last)
    · exact .inr ⟨m, os, m', passes.later hs.reaches, hforgets, hnone⟩
  | told n cause v audience fresh _ log =>
    obtain ⟨old, hlog, -⟩ := log
    obtain rfl : new = .began ⟨n, cause, c, v⟩ audience :: old :=
      List.append_cancel_right (hnew.symm.trans hlog)
    have htold := hquiet _ (List.mem_append_right _ List.mem_cons_self)
    rw [Event.anew?_began fresh] at htold
    cases htold
  | forgotten forgets last => exact .inr ⟨a, ns, b, .first hs hr, forgets, last⟩

/-- **Between two values of these categories that are the same, what was told was forgotten.** -/
theorem Reaches.forgotten_between (h : Reaches (.new settings engine source signal) ms t)
    (hc : c ∈ Category.onChange) {past upTo : List SessionEvent}
    (hrep : Repeats c t.log past upTo) :
    ∃ m ns m', Passes (.new settings engine source signal) ms t m ns m' ∧ Forgets m c ns m' ∧
      m'.dispatch.last c = none ∧ past <:+ m.log ∧ m.log <:+ upTo := by
  obtain ⟨v, later, second, mid, first, earlier, rfl, rfl, hlog, hfirst, hsecond, hmid⟩ := hrep
  obtain ⟨b, ns, b', events, ⟨before, after, rfl, hb, hs, ht⟩, -, hevents, hquiet, -, hfresh⟩ :=
    h.told ⟨later, hlog.symm⟩ hsecond
  have hunlike : first ∉ events := fun hmem => by
    rw [hquiet first hmem] at hfirst
    cases hfirst
  obtain ⟨mid, rfl, hlogb⟩ := append_eq_append_of_not_mem hunlike hevents.symm
  obtain ⟨a, os, a', _, ⟨before, _, rfl, ha, hs', hab⟩, hlog', -, -, hlast, -⟩ :=
    hb.told ⟨mid, hlogb.symm⟩ hfirst
  have hreach := ha.trans hs'.reaches
  rcases hab.kept_or_forgotten (hreach.laid rfl) (hlog'.symm ▸ hlogb)
    (fun e he => hmid e (List.mem_append_right _ he)) with hkept | ⟨m, os, m', passes, hf, hnone⟩
  · exact absurd (hkept.trans hlast) (hfresh hc)
  · obtain ⟨hpast, hupTo⟩ := passes.log_between
    have hpasses := (passes.later hreach).trans (hs.reaches.trans ht)
    refine ⟨m, os, m', ?_, hf, hnone, hlog' ▸ hpast, hupTo.trans ⟨events, hevents.symm⟩⟩
    simpa only [List.append_assoc] using hpasses

/-! ## What is never forgotten -/

theorem chained_new (c : Category) : Chained c (.new settings engine source signal) := by
  have hlog : published c (Trip.new settings engine source signal).log =
    (Hub.initial.get c).last.toList := List.append_nil _
  have hlast : (Trip.new settings engine source signal).dispatch.last c =
    (Hub.initial.get c).last := rfl
  constructor <;> simp only [hlog, hlast] <;> cases (Hub.initial.get c).last
  · exact .nil
  · exact List.isChain_singleton _
  · rfl
  · rfl

/-- What is never forgotten is told only if it is other than what was told before. -/
theorem Chained.step (ht : Chained c t) (h : Reaches (.new settings engine source signal) ms t)
    (hs : Takes t ns t') (hc : c ∈ Category.onChange) (trip : c ∉ Category.ofTrip)
    (routes : c ∉ Category.ofRoutes) : Chained c t' := by
  cases hs.recalls (h.laid rfl) c with
  | stays last log =>
    obtain ⟨events, hlog, hquiet⟩ := log
    have hpub : published c t'.log = published c t.log := by
      rw [hlog, published_append_of_quiet hquiet]
    exact ⟨hpub ▸ ht.chain, hpub ▸ ht.last.trans last.symm⟩
  | told n cause v audience fresh last log =>
    obtain ⟨events, hlog, hquiet⟩ := log
    have hpub : published c t'.log = published c t.log ++ [v] := by
      rw [hlog, published_cons_of_some (Event.anew?_began fresh audience),
        published_append_of_quiet hquiet]
    have hne := h.fresh hs.step hlog fresh hc
    refine ⟨?_, by rw [hpub, last, List.getLast?_concat]⟩
    rw [hpub]
    refine ht.chain.append (List.isChain_singleton v) fun u hu w hw => ?_
    obtain rfl : w = v := by simpa using hw.symm
    rintro rfl
    exact hne (ht.last.symm.trans hu)
  | forgotten forgets =>
    cases forgets with
    | trip _ _ told => exact absurd told trip
    | routes _ _ _ _ told => exact absurd told routes

/-- **What is never forgotten is never told twice in a row**, and what is remembered is what was
told last. -/
theorem Reaches.chained (h : Reaches (.new settings engine source signal) ms t)
    (hc : c ∈ Category.onChange) (trip : c ∉ Category.ofTrip) (routes : c ∉ Category.ofRoutes) :
    Chained c t :=
  h.induct (P := fun _ t => Chained c t) (chained_new c)
    (fun _ _ _ hr ih hs => ih.step hr (.tick hs) hc trip routes)
    fun _ _ _ _ hr ih hs => ih.step hr (.move hs) hc trip routes

/-! ## The whole account -/

/-- A stop that was made on the run by `ms` from `t₀` to `t` forgets what was told in a category,
when all of `past` has happened and nothing past `upTo`. -/
def StopForgets (t₀ : Trip) (ms : List Move) (t : Trip) (c : Category)
    (past upTo : List SessionEvent) : Prop :=
  ∃ before after a m caller r, ms = before ++ after ∧ Made t₀ before m a caller .stop ∧
    a.worker.isSome = true ∧
    m.stack = .owner .forgetTrip :: .owner (.enter .stopped) :: .owner (.reply r) :: a.stack ∧
    past <:+ m.log ∧ m.log <:+ upTo ∧ (m.pop.run .forgetTrip).dispatch.last c = none ∧
    Reaches (m.pop.run .forgetTrip) after t

/-- Routes that are taken on the run by `ms` from `t₀` to `t` forget what was told in a category,
when all of `past` has happened and nothing past `upTo`. -/
def RoutesForget (t₀ : Trip) (ms : List Move) (t : Trip) (c : Category)
    (past upTo : List SessionEvent) : Prop :=
  ∃ m caller routes, Made t₀ ms t m caller (.setRoutes routes) ∧ Accepts m routes ∧
    past <:+ m.log ∧ m.log <:+ upTo ∧ (m.call caller (.setRoutes routes)).dispatch.last c = none

/-- Between two values that are the same, a stop has forgotten the first, or routes that were taken
have. -/
theorem Reaches.forgotten_by (h : Reaches (.new settings engine source signal) ms t)
    (hc : c ∈ Category.onChange) {past upTo : List SessionEvent}
    (hrep : Repeats c t.log past upTo) :
    StopForgets (.new settings engine source signal) ms t c past upTo ∨
      c ∈ Category.ofRoutes ∧
        RoutesForget (.new settings engine source signal) ms t c past upTo := by
  obtain ⟨m, ns, m', ⟨before, after, rfl, hm, -, ht⟩, forgets, hnone, hpast, hupTo⟩ :=
    h.forgotten_between hc hrep
  cases forgets with
  | trip below top =>
    have htop : m.stack = [] ++ .owner .forgetTrip :: below := top
    obtain ⟨a, caller, r, made, running, rfl⟩ := hm.made_stop htop
    exact .inl ⟨before, after, a, m, caller, r, rfl, made, running, top, hpast, hupTo, hnone, ht⟩
  | routes caller routes word accepts told =>
    exact .inr ⟨told, m, caller, routes, ⟨before, after, rfl, hm, word, ht⟩, accepts, hpast, hupTo,
      hnone⟩

/-- **Lifecycle states and phases that are told begin with the stopped state and the free drive, and
no two in a row are the same. Off-route flags in a row are the same only if a stop has forgotten the
first before the second was told, and cues only if a stop or routes that were taken have.** -/
theorem told_on_change_only (h : Reaches (.new settings engine source signal) ms t) :
    ((published .sessionState t.log).head? = some .stopped ∧
      (published .sessionState t.log).IsChain (· ≠ ·)) ∧
    ((published .navigationPhase t.log).head? = some .freeDrive ∧
      (published .navigationPhase t.log).IsChain (· ≠ ·)) ∧
    (∀ past upTo, Repeats .offRoute t.log past upTo →
      StopForgets (.new settings engine source signal) ms t .offRoute past upTo) ∧
    ∀ past upTo, Repeats .instructionCues t.log past upTo →
      StopForgets (.new settings engine source signal) ms t .instructionCues past upTo ∨
        RoutesForget (.new settings engine source signal) ms t .instructionCues past upTo := by
  refine ⟨⟨rfl, ?_⟩, ⟨rfl, ?_⟩, fun past upTo hrep => ?_, fun past upTo hrep => ?_⟩
  · exact (h.chained (by decide) (by decide) (by decide)).chain
  · exact (h.chained (by decide) (by decide) (by decide)).chain
  · rcases h.forgotten_by (by decide) hrep with hstop | ⟨hof, -⟩
    · exact hstop
    · exact absurd hof (by decide)
  · exact (h.forgotten_by (by decide) hrep).imp_right And.right

end Runs

/-- Cues for a turn, on the route and off it. -/
def turn : Cues := { route := "r", leg := 0, step := 1 }

def turning : Status := { location := sampleLocation, cues := some turn }

def astray : Status := { turning with tracking := .offRoute }

/-- Two ticks find the session off its route, and it is given another one in between. It is stopped
and started again, and a third full tick finds it on its route. -/
def retold : Trip :=
  (play tick? move? 60
    [.decide (.call .start), .work, .decide (.call (.push sampleFix)), .work,
      .decide (.call (.setRoutes [{ id := "r" }])), .decide (.call (.push sampleFix)), .work,
      .decide (.call .stop), .decide (.call .start), .work, .decide (.call (.push sampleFix)),
      .work]
    (scripted [astray, astray, turning, turning])).get rfl

/-- The stop takes the flag back and forgets it, so that it is told again; the cues have been
forgotten twice. -/
theorem told_on_change_only_after_stop :
    published .sessionState retold.log = [.stopped, .started, .stopped, .started] ∧
      published .offRoute retold.log = [true, false, false] ∧
      published .instructionCues retold.log = [turn, turn, turn] ∧
      ∃ ms past upTo, Reaches (scripted [astray, astray, turning, turning]) ms retold ∧
        Repeats .offRoute retold.log past upTo ∧
        StopForgets (scripted [astray, astray, turning, turning]) ms retold .offRoute past
          upTo := by
  have h := reaches_of_runs (run_of_play (b := retold) 60 (Option.some_get _).symm)
  obtain ⟨-, -, hflags, -⟩ := told_on_change_only h
  have htold : retold.log.filterMap (Event.anew? .offRoute) = [] ++ false :: false :: [true] := rfl
  obtain ⟨past, upTo, hrep⟩ := exists_repeats htold
  exact ⟨rfl, rfl, rfl, _, past, upTo, h, hrep, hflags past upTo hrep⟩

end Trip
end LiveTrip
