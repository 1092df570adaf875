import LiveTrip.Proofs.Session.Numbers
import LiveTrip.Proofs.Session.OnChange
import LiveTrip.Proofs.Session.Past
import LiveTrip.Proofs.Session.Unseen

/-!
# No stale off-route flag

While observers do not call back from what they are told, one fan-out ends before the next begins.
Then whoever was last told that the session is off route is about to be told otherwise, or the
session remembers it so. A stop takes the flag back before it forgets it.

* `heard`: the flag that an observer was last told. `Trip.untold`: the flags that observers are
  still to be told.
* `Trip.NoCallbacks`: on a run, no observer has called back.
* `Flat`: nothing but observers at work is above a fan-out.
* `Trip.Flags`, `Trip.Takes.flags`: what becomes of the flag in a step, and of who has heard it.
* `Trip.Informed`: what observers have heard of the flag, against what is remembered.
  `Trip.Informed.step`, `Trip.Reaches.informed`: so it is after each step, and on every run.
* `Trip.on_route_without_worker`: nobody is left with a flag that is set.
-/

namespace LiveTrip

/-- The call is on the session or on one of its registries, which a guard is released from. -/
def Call.callsBack : Call → Bool
  | .release _ => true
  | c => c.onSession

/-- The off-route flag that an observer is told in an event. -/
def Event.heard? (id : ObserverId) : SessionEvent → Option Bool
  | .delivered ⟨_, _, .offRoute, v⟩ id' _ => if id' = id then some v else none
  | _ => none

/-- The off-route flag that an observer was last told. -/
def heard (id : ObserverId) (log : List SessionEvent) : Option Bool :=
  log.findSome? (Event.heard? id)

/-- The flags that observers are still to be told in a fan-out, with their numbers. -/
def Frame.flags : SessionFrame → List (ObserverId × Bool)
  | .fanout ⟨_, _, .offRoute, v⟩ rest => rest.map fun p => (p.1, v)
  | _ => []

theorem heard_append {events : List SessionEvent} {id : ObserverId}
    (h : ∀ e ∈ events, e.heard? id = none) (log : List SessionEvent) :
    heard id (events ++ log) = heard id log := by
  rw [heard, List.findSome?_append, List.findSome?_eq_none_iff.mpr h]
  rfl

theorem Frame.flags_nil (f : SessionFanout) : Frame.flags (.fanout f []) = [] := by
  obtain ⟨n, cause, c, v⟩ := f
  cases c <;> rfl

theorem Frame.flags_of_ne {f : SessionFanout} (h : f.category ≠ .offRoute)
    (rest : List (ObserverId × Listener)) : Frame.flags (.fanout f rest) = [] := by
  obtain ⟨n, cause, c, v⟩ := f
  cases c with
  | offRoute => exact absurd rfl h
  | _ => rfl

/-! ## One fan-out at a time -/

/-- `x` may stand above `y`: above a fan-out, calls have nothing to do but to answer. -/
def Frame.Over (x y : SessionFrame) : Prop :=
  ∀ s, x = .owner s → (∀ r, s ≠ .reply r) → ∀ f rest, y ≠ .fanout f rest

/-- Above a fan-out stand observers at work, and answers to them. -/
def Flat (st : List SessionFrame) : Prop := st.Pairwise Frame.Over

namespace Flat

variable {x : SessionFrame} {st : List SessionFrame}

theorem of_no_fanout (h : ∀ f rest, .fanout f rest ∉ st) : Flat st :=
  List.pairwise_of_forall_mem_list fun _ _ _ hy _ _ _ f rest hf => h f rest (hf ▸ hy)

theorem cons (h : Flat st) (hx : ∀ s, x = .owner s → ∃ r, s = .reply r) : Flat (x :: st) := by
  refine List.pairwise_cons.mpr ⟨fun y _ s hs hr => ?_, h⟩
  obtain ⟨r, rfl⟩ := hx s hs
  exact absurd rfl (hr r)

theorem tail (h : Flat (x :: st)) : Flat st := List.Pairwise.of_cons h

/-- While a call has something to do, no fan-out is under way. -/
theorem no_fanout {s : Stage} (h : Flat (.owner s :: st)) (hs : ∀ r, s ≠ .reply r)
    (f : SessionFanout) (rest : List (ObserverId × Listener)) :
    .fanout f rest ∉ .owner s :: st := by
  intro hf
  rcases List.mem_cons.mp hf with hf | hf
  · cases hf
  · exact List.rel_of_pairwise_cons h hf s rfl hs f rest rfl

end Flat

namespace Trip

variable {t t' t₀ : Trip} {made : Option Call} {ms ns : List Move}

/-- On the run by `ms` from `t₀` to `t`, no observer has called back from what it was told. -/
def NoCallbacks (t₀ : Trip) (ms : List Move) (t : Trip) : Prop :=
  ∀ a l c, Made t₀ ms t a (some l) c → c.callsBack = false

theorem NoCallbacks.of_trans (h : NoCallbacks t₀ (ms ++ ns) t') (hr : Reaches t ns t') :
    NoCallbacks t₀ ms t := fun a l c hm => h a l c (hm.trans hr)

/-- A call that calls back on nothing leaves nothing to do but to answer. -/
theorem stages_of_aside {c : Call} (hc : c.callsBack = false) (t : Trip) :
    (t.perform c).stages = [] := by
  unfold perform
  split
  · rfl
  · cases c with
    | detach | control | push | pushError | setLastKnown | failNextStart | haltSource => rfl
    | _ => cases hc

theorem stack_call_of_aside {c : Call} (hc : c.callsBack = false) (caller : Option Listener) :
    ∃ r, (t.call caller c).stack = .owner (.reply r) :: t.stack := by
  obtain ⟨notes, o, -, shows⟩ := perform_performs t c
  refine ⟨⟨caller, c, (t.perform c).answer⟩, ?_⟩
  show ((t.perform c).stages ++ [_]).map _ ++ (t.perform c).trip.stack = _
  rw [stages_of_aside hc, shows.stack]
  rfl

theorem stack_of_outside (h : t.speaker = some none) : t.stack = [] := by
  rcases stack_of_speaker h with hs | ⟨f, id, l, below, hs⟩
  · exact hs
  · unfold speaker Dispatch.speaker at h
    rw [show t.dispatch.stack = _ from hs] at h
    cases l <;> simp at h

/-- A stage puts no fan-out on the stack but the one of what it tells. -/
theorem Goes.own_plain {s : Stage} {o : Outcome} (h : Goes t s o) (f : SessionFanout)
    (rest : List (ObserverId × Listener)) : .fanout f rest ∉ o.own := by
  cases h with
  | locates k => by_cases hk : k.scope = .full <;> simp [hk]
  | _ => simp

theorem Change.flat (h : Change t t' made) (hf : Flat t.stack)
    (quiet : ∀ l c, t.speaker = some (some l) → made = some c → c.callsBack = false) :
    Flat t'.stack := by
  cases h with
  | stage s below o top goes stack =>
    rw [top] at hf
    by_cases hs : ∃ r, s = .reply r
    · obtain ⟨r, rfl⟩ := hs
      cases goes
      rw [stack]
      exact hf.tail
    · have hbelow : Flat (o.own ++ below) := by
        refine .of_no_fanout fun f rest hmem => ?_
        rcases List.mem_append.mp hmem with hmem | hmem
        · exact goes.own_plain f rest hmem
        · exact hf.no_fanout (fun r hr => hs ⟨r, hr⟩) f rest (List.mem_cons_of_mem _ hmem)
      rw [stack]
      cases o.told with
      | none => exact hbelow
      | some p => exact hbelow.cons fun s hs => by cases hs
  | deliver f id l rest below top stack =>
    rw [top] at hf
    rw [stack]
    exact (hf.tail.cons fun s hs => by cases hs).cons fun s hs => by cases hs
  | ends x below events top _ _ stack =>
    rw [top] at hf
    rw [stack]
    exact hf.tail
  | call caller c r stages notes o word hmade performs shows =>
    cases caller with
    | some l =>
      obtain ⟨r, hstack⟩ := stack_call_of_aside (quiet l c word rfl) (some l)
      rw [hmade, hstack]
      exact hf.cons fun s hs => by cases hs; exact ⟨r, rfl⟩
    | none =>
      have hidle := stack_of_outside word
      refine .of_no_fanout fun f rest hmem => ?_
      rw [shows.stack, hidle] at hmem
      simp at hmem
  | turn o idle turn shows =>
    refine .of_no_fanout fun f rest hmem => ?_
    rw [shows.stack, idle] at hmem
    cases turn <;> simp at hmem

/-! ## What becomes of the flag -/

/-- The flags that observers are still to be told, each with the number of the observer. -/
def untold (t : Trip) : List (ObserverId × Bool) := t.stack.flatMap Frame.flags

/-- A value that a step tells first of all is remembered after it. -/
theorem Takes.last_of_began (h : Takes t ms t') (hl : ∃ b, Laid b t.stack) {c : Category} {n : Nat}
    {cause : Cause} {v : c.Value} {audience : List (ObserverId × Listener)}
    {events : List SessionEvent} (fresh : cause ≠ .replay)
    (log : t'.log = .began ⟨n, cause, c, v⟩ audience :: (events ++ t.log)) :
    t'.dispatch.last c = some v := by
  cases h.recalls hl c with
  | stays _ hlog =>
    obtain ⟨events', hlog, hquiet⟩ := hlog
    have hevents : events' = .began ⟨n, cause, c, v⟩ audience :: events :=
      List.append_cancel_right (hlog.symm.trans log)
    have := hquiet _ (hevents ▸ List.mem_cons_self)
    simp [Event.tells?, fresh] at this
  | told n' cause' v' audience' _ last hlog =>
    obtain ⟨events', hlog, -⟩ := hlog
    have heq := (List.cons.inj (hlog.symm.trans log)).1
    simp only [Event.began.injEq, Fanout.mk.injEq, heq_eq_eq, true_and] at heq
    rw [last, heq.1.2.2]
  | forgotten _ _ hlog =>
    have := congrArg List.length (hlog.symm.trans log)
    simp only [List.length_cons, List.length_append] at this
    omega

/-- In a step that tells nothing anew in a category, what is remembered stays, or is forgotten by a
stop. -/
theorem Takes.last_of_quiet (h : Takes t ms t') (hl : ∃ b, Laid b t.stack) {c : Category}
    (hc : c ∉ Category.ofRoutes) {events : List SessionEvent} (log : t'.log = events ++ t.log)
    (quiet : ∀ e ∈ events, e.tells? c = none) :
    t'.dispatch.last c = t.dispatch.last c ∨
      ∃ below, t.stack = .owner .forgetTrip :: below ∧ t'.dispatch.last c = none := by
  cases h.recalls hl c with
  | stays last => exact .inl last
  | told n cause v audience fresh _ hlog =>
    obtain ⟨events', hlog, -⟩ := hlog
    have hevents : events = .began ⟨n, cause, c, v⟩ audience :: events' :=
      List.append_cancel_right (log.symm.trans hlog)
    have := quiet _ (hevents ▸ List.mem_cons_self)
    simp [Event.tells?, fresh] at this
  | forgotten forgets last =>
    cases forgets with
    | trip below top => exact .inr ⟨below, top, last⟩
    | routes _ _ _ _ told => exact absurd told hc

/-- What becomes in a step of the flag that is remembered, and of who has heard it. -/
inductive Flags (t t' : Trip) : Prop
  /-- A flag is told to whoever is registered. -/
  | told (v : Bool) (set : v = true → .owner .forgetTrip ∉ t'.stack)
      (untold : t'.untold = (t.dispatch.registry .offRoute).entries.map fun e => (e.1, v))
      (last : t'.dispatch.last .offRoute = some v)
      (same : ∀ id, heard id t'.log = heard id t.log)
  /-- An observer hears it. -/
  | hears (id : ObserverId) (v : Bool) (untold : t.untold = (id, v) :: t'.untold)
      (last : t'.dispatch.last .offRoute = t.dispatch.last .offRoute)
      (heard : ∀ x, heard x t'.log = if id = x then some v else heard x t.log)
  /-- It is as it was, and may be repeated to whoever registers. -/
  | stays (more : List (ObserverId × Bool)) (untold : t'.untold = more ++ t.untold)
      (repeats : ∀ p ∈ more, t.dispatch.last .offRoute = some p.2 ∧
        p.1 < (t'.dispatch.registry .offRoute).nextId)
      (last : t'.dispatch.last .offRoute = t.dispatch.last .offRoute)
      (same : ∀ id, heard id t'.log = heard id t.log)
  | forgotten (below : List SessionFrame) (top : t.stack = .owner .forgetTrip :: below)
      (untold : t'.untold = []) (last : t'.dispatch.last .offRoute = none)
      (same : ∀ id, heard id t'.log = heard id t.log)

theorem flags_of_no_fanout {st : List SessionFrame} (h : ∀ f rest, .fanout f rest ∉ st) :
    st.flatMap Frame.flags = [] := by
  rw [List.flatMap_eq_nil_iff]
  intro x hx
  cases x with
  | fanout f rest => exact absurd hx (h f rest)
  | _ => rfl

/-- Somebody has still something to do, so no flag is being told. -/
theorem untold_of_top {s : Stage} {below : List SessionFrame} (flat : Flat t.stack)
    (top : t.stack = .owner s :: below) (hs : ∀ r, s ≠ .reply r) : t.untold = [] := by
  rw [top] at flat
  rw [untold, top]
  exact flags_of_no_fanout (flat.no_fanout hs)

theorem unheard_notes (notes : List Note) : ∀ e ∈ (notes.map .owner : List SessionEvent),
    e.tells? .offRoute = none ∧ ∀ id, e.heard? id = none := by
  simp [Event.tells?, Event.heard?]

/-- A step in which nobody is told of the flag. -/
theorem Takes.flags_of_quiet (h : Takes t ms t') (hl : ∃ b, Laid b t.stack) (flat : Flat t.stack)
    {events : List SessionEvent} (log : t'.log = events ++ t.log)
    (quiet : ∀ e ∈ events, e.tells? .offRoute = none ∧ ∀ id, e.heard? id = none)
    (untold : t'.untold = t.untold) : Flags t t' := by
  have same (id : ObserverId) : heard id t'.log = heard id t.log := by
    rw [log, heard_append fun e he => (quiet e he).2 id]
  rcases h.last_of_quiet hl (by decide) log fun e he => (quiet e he).1 with
    last | ⟨below, top, last⟩
  · exact .stays [] untold (List.forall_mem_nil _) last same
  · exact .forgotten below top (untold.trans (untold_of_top flat top (by simp))) last same

/-- What a stage tells has still to be heard, and nothing else that was not before. -/
theorem Goes.untold {s : Stage} {o : Outcome} {below : List SessionFrame} (goes : Goes t s o)
    (top : t.stack = .owner s :: below)
    (stack : t'.stack = o.told.toList.map (fun p => .fanout p.1 p.2) ++ (o.own ++ below)) :
    t'.untold = (o.told.toList.flatMap fun p => Frame.flags (.fanout p.1 p.2)) ++ t.untold := by
  simp only [Trip.untold, stack, top, List.flatMap_append, List.flatMap_map, List.flatMap_cons,
    flags_of_no_fanout goes.own_plain]
  rfl

/-- What is put on the stack without a fan-out leaves what is untold. -/
theorem untold_append {front : List SessionFrame} (h : ∀ f rest, .fanout f rest ∉ front)
    (stack : t'.stack = front ++ t.stack) : t'.untold = t.untold := by
  rw [untold, untold, stack, List.flatMap_append, flags_of_no_fanout h, List.nil_append]

/-- A step in which whoever registers is told the flag that is remembered. -/
theorem Takes.flags_of_owed (h : Takes t ms t') (hl : ∃ b, Laid b t.stack) {l : Listener}
    {f : SessionFanout} {audience : List (ObserverId × Listener)} {events : List SessionEvent}
    (owed : t.owed l .offRoute = some (f, audience)) (log : t'.log = events ++ t.log)
    (quiet : ∀ e ∈ events, e.tells? .offRoute = none ∧ ∀ id, e.heard? id = none)
    (untold : t'.untold = Frame.flags (.fanout f audience) ++ t.untold)
    (top : ∀ below, t.stack ≠ .owner .forgetTrip :: below)
    (given : ((t.dispatch.registry .offRoute).enroll l).id <
      (t'.dispatch.registry .offRoute).nextId) : Flags t t' := by
  obtain ⟨v, hv, ho⟩ := Option.map_eq_some_iff.mp owed
  cases ho
  refine .stays _ untold (fun p hp => ?_) ?_ fun id => ?_
  · obtain rfl := List.mem_singleton.mp hp
    exact ⟨Registry.last_of_enroll_replay hv, given⟩
  · refine (h.last_of_quiet hl (by decide) log fun e he => (quiet e he).1).resolve_right ?_
    exact fun ⟨below, htop, _⟩ => top below htop
  · rw [log, heard_append fun e he => (quiet e he).2 id]

/-- A step in which a stage tells the flag, again or anew. -/
theorem Takes.flags_of_told (h : Takes t ms t') (hl : ∃ b, Laid b t.stack) (flat : Flat t.stack)
    (wellFormed : (t.dispatch.registry .offRoute).WellFormed) {s : Stage}
    {below : List SessionFrame} {o : Outcome} (top : t.stack = .owner s :: below)
    (goes : Goes t s o)
    (stack : t'.stack = o.told.toList.map (fun p => .fanout p.1 p.2) ++ (o.own ++ below))
    (log : t'.log = o.told.toList.map (fun p => .began p.1 p.2) ++ (o.notes.map .owner ++ t.log))
    {f : SessionFanout} {audience : List (ObserverId × Listener)}
    (told : o.told = some (f, audience)) (hf : f.category = .offRoute) : Flags t t' := by
  have huntold : t'.untold = Frame.flags (.fanout f audience) ++ t.untold := by
    simpa [told] using goes.untold top stack
  have hlog : t'.log = (.began f audience :: o.notes.map .owner) ++ t.log := by
    simpa [told] using log
  have again {l : Listener} (owed : t.owed l .offRoute = some (f, audience))
      (hs : s ≠ .forgetTrip) (given : ((t.dispatch.registry .offRoute).enroll l).id <
        (t'.dispatch.registry .offRoute).nextId) : Flags t t' := by
    obtain ⟨v, id, rfl, -⟩ := owed_eq_some owed
    refine h.flags_of_owed hl owed hlog (List.forall_mem_cons.mpr ⟨?_, unheard_notes _⟩) huntold
      (fun below htop => hs ?_) given
    · simp [Event.tells?, Event.heard?]
    · cases top.symm.trans htop
      rfl
  have anew (n : Nat) (cause : Cause) (v : Bool)
      (hp : (f, audience) = (⟨n, cause, .offRoute, v⟩, (t.dispatch.registry .offRoute).entries))
      (fresh : cause ≠ .replay) (hs : ∀ r, s ≠ .reply r)
      (set : v = true → .owner .forgetTrip ∉ t'.stack) : Flags t t' := by
    cases hp
    refine .told v set ?_ (h.last_of_began hl fresh hlog) fun id => ?_
    · rw [huntold, untold_of_top flat top hs, List.append_nil]
      rfl
    · rw [hlog]
      exact heard_append
        (List.forall_mem_cons.mpr ⟨rfl, fun e he => (unheard_notes _ e he).2 id⟩) _
  cases goes with
  | registered l c =>
    obtain ⟨v, id, rfl, -⟩ := owed_eq_some told
    cases hf
    refine again told (by simp) ?_
    rw [h.step.eq_of_top top]
    exact Dispatch.id_lt_of_register t.pop.dispatch .offRoute l wellFormed
  | subscribed l c slot =>
    obtain ⟨v, id, rfl, -⟩ := owed_eq_some told
    cases hf
    refine again told (by simp) ?_
    rw [h.step.eq_of_top top]
    exact Dispatch.id_lt_of_register (t.pop.dispatch.push _) .offRoute l wellFormed
  | leaves =>
    cases told
    exact anew _ _ _ rfl (by simp) (by simp) (by simp)
  | flags k s =>
    cases told
    refine anew _ _ _ rfl (by simp) (by simp) fun _ => ?_
    -- Below a stage of the worker there is nothing.
    obtain ⟨b, hl⟩ := hl
    rw [top] at hl
    cases hl with
    | work => simp [stack]
    | own own => cases own
  | enters | derives | announces | locates | cues | reports =>
    cases told
    cases hf
  | _ => cases told

theorem Takes.flags (h : Takes t ms t') (hl : ∃ b, Laid b t.stack) (flat : Flat t.stack)
    (wellFormed : (t.dispatch.registry .offRoute).WellFormed) : Flags t t' := by
  obtain ⟨made, hchange⟩ := change_of_step h.step
  cases hchange with
  | stage s below o top goes stack log =>
    by_cases hflag : ∃ f audience, o.told = some (f, audience) ∧ f.category = .offRoute
    · obtain ⟨f, audience, told, hf⟩ := hflag
      exact h.flags_of_told hl flat wellFormed top goes stack log told hf
    · have other (p : SessionFanout × List (ObserverId × Listener)) (hp : p ∈ o.told.toList) :
          p.1.category ≠ .offRoute := fun hc =>
        hflag ⟨p.1, p.2, by simpa using hp, hc⟩
      refine h.flags_of_quiet hl flat (log.trans (List.append_assoc ..).symm) ?_ ?_
      · refine List.forall_mem_append.mpr ⟨fun e he => ?_, unheard_notes _⟩
        obtain ⟨p, hp, rfl⟩ := List.mem_map.mp he
        exact ⟨if_neg fun hc => other p hp hc.1, fun _ => rfl⟩
      · rw [goes.untold top stack, List.flatMap_eq_nil_iff.mpr fun p hp =>
          Frame.flags_of_ne (other p hp) _, List.nil_append]
  | deliver f id l rest below top stack log =>
    obtain ⟨n, cause, c, v⟩ := f
    have hlog : t'.log = [.delivered ⟨n, cause, c, v⟩ id l] ++ t.log := log
    by_cases hflag : c = .offRoute
    · subst hflag
      refine .hears id v ?_ ?_ fun x => ?_
      · rw [untold, untold, stack, top]
        rfl
      · refine (h.last_of_quiet hl (by decide) hlog (by simp [Event.tells?])).resolve_right ?_
        rintro ⟨below', htop, -⟩
        cases top.symm.trans htop
      · rw [log, heard, List.findSome?_cons]
        by_cases hx : id = x <;> simp [Event.heard?, hx, heard]
    · refine h.flags_of_quiet hl flat hlog ?_ ?_
      · refine List.forall_mem_singleton.mpr ⟨rfl, fun x => ?_⟩
        cases c with
        | offRoute => exact absurd rfl hflag
        | _ => rfl
      · rw [untold, untold, stack, top]
        simp only [List.flatMap_cons, Frame.flags_of_ne (f := ⟨n, cause, c, v⟩) hflag]
        rfl
  | ends x below events top noStage told stack log failures =>
    refine h.flags_of_quiet hl flat log (fun e he => ?_) ?_
    · obtain ⟨f, id, l, rfl⟩ := failures e he
      exact ⟨rfl, fun _ => rfl⟩
    · rw [untold, untold, stack, top, List.flatMap_cons]
      cases x with
      | fanout f rest =>
        obtain rfl := told f rest rfl
        rw [Frame.flags_nil, List.nil_append]
      | owner s => exact absurd rfl (noStage s)
      | _ => rfl
  | call caller c r stages notes o word hmade performs shows =>
    exact h.flags_of_quiet hl flat shows.log (unheard_notes notes)
      (untold_append (by simp) shows.stack)
  | turn o idle turn shows =>
    have told : o.told = none := by cases turn <;> rfl
    have plain (f : SessionFanout) (rest : List (ObserverId × Listener)) :
        .fanout f rest ∉ o.own := by cases turn <;> simp
    have hlog : t'.log = o.notes.map .owner ++ t.log := by simpa [told] using shows.log
    exact h.flags_of_quiet hl flat hlog (unheard_notes _)
      (untold_append plain (by simpa [told] using shows.stack))

/-! ## What observers have heard -/

/-- What observers have heard of the flag, against what is remembered of it. -/
structure Informed (t : Trip) : Prop where
  flat : Flat t.stack
  /-- What is told is remembered. -/
  told : ∀ p ∈ t.untold, t.dispatch.last .offRoute = some p.2
  /-- Before it is forgotten, it is taken back. -/
  stopping : .owner .forgetTrip ∈ t.stack → t.dispatch.last .offRoute = some true →
    ∃ below, t.stack = .owner .leaveOffRoute :: below
  numbered : ∀ id, heard id t.log ≠ none ∨ id ∈ t.untold.map Prod.fst →
    id < (t.dispatch.registry .offRoute).nextId
  /-- Whoever last heard that it is set hears otherwise, or it is remembered so. -/
  heeds : ∀ e ∈ (t.dispatch.registry .offRoute).entries, heard e.1 t.log = some true →
    t.dispatch.last .offRoute = some true ∨ e.1 ∈ t.untold.map Prod.fst

/-- Whoever has heard anything, or is about to, has a number that was given. -/
theorem Informed.numbered_step (i : Informed t) (h : Flags t t')
    (wellFormed : (t.dispatch.registry .offRoute).WellFormed)
    (grows : (t.dispatch.registry .offRoute).Grows (t'.dispatch.registry .offRoute))
    (id : ObserverId) (hid : heard id t'.log ≠ none ∨ id ∈ t'.untold.map Prod.fst) :
    id < (t'.dispatch.registry .offRoute).nextId := by
  have before (hid : heard id t.log ≠ none ∨ id ∈ t.untold.map Prod.fst) :
      id < (t'.dispatch.registry .offRoute).nextId :=
    Nat.lt_of_lt_of_le (i.numbered id hid) grows.nextId
  cases h with
  | told v _ untold _ same =>
    rw [same, untold] at hid
    rcases hid with hid | hid
    · exact before (.inl hid)
    · obtain ⟨e, he, rfl⟩ : ∃ e ∈ (t.dispatch.registry .offRoute).entries, e.1 = id := by
        simpa using hid
      exact Nat.lt_of_lt_of_le (wellFormed.ids_below e he) grows.nextId
  | hears x v untold _ heard =>
    rw [untold] at before
    rw [heard] at hid
    by_cases hx : x = id
    · exact before (.inr (by simp [hx]))
    · rw [if_neg hx] at hid
      exact before (hid.imp_right (List.mem_cons_of_mem _))
  | stays more untold repeats _ same =>
    rw [same, untold, List.map_append, List.mem_append] at hid
    rcases hid with hid | hid | hid
    · exact before (.inl hid)
    · obtain ⟨p, hp, rfl⟩ := List.mem_map.mp hid
      exact (repeats p hp).2
    · exact before (.inr hid)
  | forgotten _ _ untold _ same =>
    rw [same, untold] at hid
    exact before (.inl (hid.resolve_right List.not_mem_nil))

/-- While a value is told, it stays remembered. -/
theorem Informed.told_step (i : Informed t) (h : Flags t t') (p : ObserverId × Bool)
    (hp : p ∈ t'.untold) : t'.dispatch.last .offRoute = some p.2 := by
  cases h with
  | told v _ untold last =>
    rw [untold] at hp
    obtain ⟨e, -, rfl⟩ := List.mem_map.mp hp
    exact last
  | hears x v untold last =>
    rw [last]
    exact i.told p (untold ▸ List.mem_cons_of_mem _ hp)
  | stays more untold repeats last =>
    rw [untold] at hp
    rw [last]
    rcases List.mem_append.mp hp with hp | hp
    · exact (repeats p hp).1
    · exact i.told p hp
  | forgotten _ _ untold =>
    rw [untold] at hp
    cases hp

/-- Whoever has heard that the flag is set is told of any other that comes to be remembered. -/
theorem Informed.heeds_step (i : Informed t) (h : Flags t t')
    (grows : (t.dispatch.registry .offRoute).Grows (t'.dispatch.registry .offRoute))
    (e : ObserverId × Listener) (he : e ∈ (t'.dispatch.registry .offRoute).entries)
    (hset : heard e.1 t'.log = some true) :
    t'.dispatch.last .offRoute = some true ∨ e.1 ∈ t'.untold.map Prod.fst := by
  -- Whoever is new has heard nothing, and is not about to.
  have old (hid : heard e.1 t.log ≠ none ∨ e.1 ∈ t.untold.map Prod.fst) :
      e ∈ (t.dispatch.registry .offRoute).entries :=
    (grows.entries e he).resolve_right (Nat.not_le.mpr (i.numbered e.1 hid))
  have before (hset : heard e.1 t.log = some true) :
      t.dispatch.last .offRoute = some true ∨ e.1 ∈ t.untold.map Prod.fst :=
    i.heeds e (old (.inl (by simp [hset]))) hset
  cases h with
  | told v _ untold _ same =>
    rw [same] at hset
    refine .inr ?_
    rw [untold, List.map_map]
    exact List.mem_map_of_mem (old (.inl (by simp [hset])))
  | hears x v untold last heard =>
    have hv := i.told (x, v) (untold ▸ List.mem_cons_self)
    rw [untold] at before
    rw [heard] at hset
    rw [last]
    by_cases hx : x = e.1
    · rw [if_pos hx] at hset
      exact .inl (hv.trans hset)
    · rw [if_neg hx] at hset
      refine (before hset).imp_right fun hmem => ?_
      exact (List.mem_cons.mp hmem).resolve_left fun h => hx h.symm
  | stays more untold _ last same =>
    rw [same] at hset
    rw [last, untold, List.map_append]
    exact (before hset).imp_right (List.mem_append_right _)
  | forgotten below top untold _ same =>
    rw [same] at hset
    rcases before hset with hlast | hmem
    · obtain ⟨below', htop⟩ := i.stopping (by simp [top]) hlast
      rw [top] at htop
      cases htop
    · rw [untold_of_top i.flat top (by simp)] at hmem
      cases hmem

/-- A stop that has to forget the trip takes the flag back first. -/
theorem Change.stopping (h : Change t t' made) (hmem : .owner .forgetTrip ∈ t'.stack) :
    .owner .forgetTrip ∈ t.stack ∨ ∃ below, t'.stack = .owner .leaveOffRoute :: below := by
  cases h with
  | stage s below o top goes stack =>
    rw [stack] at hmem
    have hfront : .owner .forgetTrip ∉ o.told.toList.map (fun p => .fanout p.1 p.2) ++ o.own := by
      simpa using goes.forgetTrip_not_mem
    rw [← List.append_assoc] at hmem
    rw [top]
    exact .inl (List.mem_cons_of_mem _ ((List.mem_append.mp hmem).resolve_left hfront))
  | deliver f id l rest below top stack =>
    rw [stack] at hmem
    rw [top]
    exact .inl (by simpa using hmem)
  | ends x below events top _ _ stack =>
    rw [stack] at hmem
    rw [top]
    exact .inl (List.mem_cons_of_mem _ hmem)
  | call caller c r stages notes o word hmade performs shows =>
    by_cases hstages : .forgetTrip ∈ stages
    · obtain ⟨-, -, rfl⟩ := performs.of_forgetTrip hstages
      exact .inr ⟨_, shows.stack⟩
    · rw [shows.stack] at hmem
      exact .inl (by simpa [hstages] using hmem)
  | turn o idle turn shows =>
    rw [shows.stack] at hmem
    exact .inl (by cases turn <;> simpa using hmem)

/-- The flag is not set again before a stop forgets it. -/
theorem Informed.stopping_step (i : Informed t) (hs : Step t t') (h : Flags t t')
    (hmem : .owner .forgetTrip ∈ t'.stack) (hlast : t'.dispatch.last .offRoute = some true) :
    ∃ below, t'.stack = .owner .leaveOffRoute :: below := by
  have before (hset : t.dispatch.last .offRoute = some true) :
      ∃ below, t'.stack = .owner .leaveOffRoute :: below := by
    obtain ⟨made, hchange⟩ := change_of_step hs
    refine (hchange.stopping hmem).resolve_left fun hmem => ?_
    obtain ⟨below, top⟩ := i.stopping hmem hset
    have hrun : t.pop.run .leaveOffRoute = t.pop.tell .call .offRoute false := if_pos hset
    rw [hs.eq_of_top top, hrun, tell, mapDispatch, Dispatch.last_publish] at hlast
    cases hlast
  cases h with
  | told v set _ last =>
    obtain rfl : v = true := Option.some.inj (last.symm.trans hlast)
    exact absurd hmem (set rfl)
  | hears _ _ _ last => exact before (last.symm.trans hlast)
  | stays _ _ _ last => exact before (last.symm.trans hlast)
  | forgotten _ _ _ last => rw [last] at hlast; cases hlast

/-- **In a step without a callback, observers stay informed.** -/
theorem Informed.step (i : Informed t) (h : Takes t ms t') (hl : ∃ b, Laid b t.stack)
    (wellFormed : (t.dispatch.registry .offRoute).WellFormed)
    (quiet : ∀ l c, t.speaker = some (some l) → ms = [.decide (.call c)] → c.callsBack = false) :
    Informed t' := by
  have hflags := h.flags hl i.flat wellFormed
  have grows := h.step.grows .offRoute
  have flat : Flat t'.stack := by
    cases h with
    | tick h => exact (change_of_tick? h).flat i.flat nofun
    | move h =>
      obtain ⟨made, hchange, hmade⟩ := change_of_move? h
      exact hchange.flat i.flat fun l c hw hc => quiet l c hw (by rw [hmade c hc])
  exact ⟨flat, i.told_step hflags, i.stopping_step h.step hflags,
    i.numbered_step hflags wellFormed grows, i.heeds_step hflags grows⟩

section Runs

variable {settings : Settings} {engine : Engine} {source : Source} {signal : Signal}

theorem informed_new : Informed (.new settings engine source signal) :=
  ⟨.nil, nofun, nofun, fun _ h => (h.elim (absurd rfl) List.not_mem_nil).elim, nofun⟩

/-- **On every run without a callback, observers are informed.** -/
theorem Reaches.informed (h : Reaches (.new settings engine source signal) ms t)
    (quiet : NoCallbacks (.new settings engine source signal) ms t) : Informed t := by
  refine h.induct
    (P := fun ms t => NoCallbacks (.new settings engine source signal) ms t → Informed t)
    (fun _ => informed_new) (fun ms t t' hr ih hs quiet => ?_)
    (fun ms m t t' hr ih hs quiet => ?_) quiet
  · have hquiet : NoCallbacks (.new settings engine source signal) (ms ++ []) t' := by
      rwa [List.append_nil]
    refine (ih (hquiet.of_trans (.tick hs (.refl _)))).step (.tick hs) (hr.laid rfl)
      (hr.wellFormed _) nofun
  · refine (ih (quiet.of_trans (.move hs (.refl _)))).step (.move hs) (hr.laid rfl)
      (hr.wellFormed _) fun l c hw hm => ?_
    cases hm
    have hcall : t' = t.call (some l) c := by
      simpa [move?, decide?, hw, eq_comm] using hs
    subst hcall
    exact quiet t l c (made_call hr hw)

/-- **No stale off-route flag.** As long as observers do not call back, whoever is registered was
last told that the session is on route, if anything, once it has no worker and nothing is going on.
A worker that has come to the end of its line is the session's until it is stopped. A session that
has been given up is not asked any more. -/
theorem on_route_without_worker (h : Reaches (.new settings engine source signal) ms t)
    (quiet : NoCallbacks (.new settings engine source signal) ms t) (idle : t.idle = true)
    (opened : t.closed = false) (noWorker : t.worker = none) :
    ∀ e ∈ (t.dispatch.registry .offRoute).entries, ∀ v, heard e.1 t.log = some v → v = false := by
  have hstack := stack_of_idle idle
  have hlast : t.dispatch.last .offRoute = none := by
    have hforgotten := h.forgotten opened (by simp [outline, noWorker])
    rw [hstack] at hforgotten
    exact hforgotten.resolve_left List.not_mem_nil _ (by simp [Category.ofTrip])
  intro e he v hv
  rw [← Bool.not_eq_true]
  rintro rfl
  rcases (h.informed quiet).heeds e he hv with hset | hmem
  · rw [hlast] at hset
    cases hset
  · rw [untold, hstack] at hmem
    cases hmem

end Runs

/-! ## An off-route trip that is stopped -/

/-- The same moves lead to one trip in which somebody has the word. -/
theorem Reaches.unique {u : Trip} (h : Reaches t₀ ms t) (h' : Reaches t₀ ms u)
    (word : t.speaker ≠ none) (word' : u.speaker ≠ none) : t = u := by
  obtain ⟨calls, h⟩ := attended_nobody_iff.mpr h
  obtain ⟨calls', h'⟩ := attended_nobody_iff.mpr h'
  exact (h.unique h' word word').2

/-- When the moves are played, the calls on the session and its registries come from outside. -/
def calledFromOutside (fuel : Nat) (t₀ : Trip) (ms : List Move) : Bool :=
  (List.range ms.length).all fun i =>
    match ms[i]? with
    | some (.decide (.call c)) =>
      !c.callsBack || (play tick? move? fuel (ms.take i) t₀).any (·.speaker = some none)
    | _ => true

theorem noCallbacks_of_calledFromOutside (fuel : Nat) (h : calledFromOutside fuel t₀ ms = true) :
    NoCallbacks t₀ ms t := by
  rintro a l c ⟨before, after, rfl, ha, word, -⟩
  have hcall := List.all_eq_true.mp h before.length (by simp)
  simp only [List.getElem?_append_right, Nat.le_refl, Nat.sub_self, List.getElem?_cons_zero,
    List.take_left', Bool.or_eq_true, Bool.not_eq_true'] at hcall
  refine hcall.resolve_right fun hplay => ?_
  obtain ⟨b, hb, hword⟩ := exists_of_play fuel t₀ before hplay
  have hword : b.speaker = some none := of_decide_eq_true hword
  obtain rfl := ha.unique hb (by simp [word]) (by simp [hword])
  rw [word] at hword
  cases hword

/-- A session whose first fix is off route. -/
def offCourse : Trip := scripted [{ location := sampleLocation, tracking := .offRoute }]

/-- An observer is told so, and the session is stopped. -/
def stopOffCourse : List Move :=
  [.decide (.call (.observe (.named "a") .offRoute)), .decide (.call .start),
    .decide (.call (.push sampleFix)), .work, .decide .finish, .decide (.call .stop),
    .decide .finish]

/-- An observer that was told that the session is off route is told otherwise by the stop. -/
theorem on_route_without_worker_off_course :
    ∃ t, Reaches offCourse stopOffCourse t ∧ NoCallbacks offCourse stopOffCourse t ∧
      t.idle = true ∧ t.closed = false ∧ t.worker = none ∧
      (0, .named "a") ∈ (t.dispatch.registry .offRoute).entries ∧
      (∃ e ∈ t.log, Event.heard? 0 e = some true) ∧ heard 0 t.log = some false := by
  obtain ⟨t, h, hp⟩ := exists_of_play 40 offCourse stopOffCourse
    (p := fun t => t.idle && !t.closed && t.worker.isNone &&
      decide ((0, .named "a") ∈ (t.dispatch.registry .offRoute).entries) &&
      t.log.any (fun e => Event.heard? 0 e = some true) && (heard 0 t.log).isSome) rfl
  simp only [Bool.and_eq_true, Bool.not_eq_true', Option.isNone_iff_eq_none, decide_eq_true_eq,
    List.any_eq_true, Option.isSome_iff_exists] at hp
  obtain ⟨⟨⟨⟨⟨idle, opened⟩, noWorker⟩, he⟩, hset⟩, v, hv⟩ := hp
  have quiet : NoCallbacks offCourse stopOffCourse t := noCallbacks_of_calledFromOutside 40 rfl
  have hfalse := on_route_without_worker h quiet idle opened noWorker _ he v hv
  exact ⟨t, h, quiet, idle, opened, noWorker, he, hset, by rw [hv, hfalse]⟩

end Trip
end LiveTrip
