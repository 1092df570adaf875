import LiveTrip.Proofs.Dispatch.Steps
import LiveTrip.Proofs.Session.Outline

/-!
# What each stage comes to

* `Trip.Goes`: the outcomes that a stage can have, one case per way it can go on, with what was
  checked before it.
* `Trip.run_goes`: a stage that is run has one of them.
-/

namespace LiveTrip.Trip

/-- A note that something was asked of the signal, or that a leg has changed. -/
def IsSmoothing (n : Note) : Prop :=
  (∃ a b c v, n = .estimated a b c v) ∨ ∃ route leg, n = .blended route leg

/-- The ways a stage can go on. -/
inductive Goes (t : Trip) : Stage → Outcome → Prop
  | replied (r : Reply) : Goes t (.reply r) { notes := [.replied r], outline := t.outline }
  | registered (l : Listener) (c : Category) :
      Goes t (.register l c) { told := t.owed l c, outline := t.outline }
  | subscribed (l : Listener) (c : Category) (slot : Slot) (g : Guard Category) :
      Goes t (.subscribe l c slot)
        { told := t.owed l c, own := [.keep slot g], outline := t.outline }
  /-- The lifecycle state is entered already. -/
  | entered (s : SessionState) (same : t.facts.state = s) :
      Goes t (.enter s) { outline := t.outline }
  | enters (s : SessionState) (change : t.facts.state ≠ s) :
      Goes t (.enter s)
        { told := t.telling .call .sessionState s, outline := { t.outline with state := s } }
  /-- The phase is as before. -/
  | derived (cause : Cause) (same : (t.facts.phase.update t.facts.phaseFacts).2.changed = false) :
      Goes t (.recompute cause) { outline := t.outline }
  | derives (cause : Cause) (change : (t.facts.phase.update t.facts.phaseFacts).2.changed = true) :
      Goes t (.recompute cause)
        { told := t.telling cause .navigationPhase
            (t.facts.phase.update t.facts.phaseFacts).2.phase
          outline := t.outline }
  /-- There is no flag to take back. -/
  | onRoute (unset : t.dispatch.last .offRoute ≠ some true) :
      Goes t .leaveOffRoute { outline := t.outline }
  | leaves (set : t.dispatch.last .offRoute = some true) :
      Goes t .leaveOffRoute { told := t.telling .call .offRoute false, outline := t.outline }
  | forgot : Goes t .forgetTrip { outline := t.outline }
  | announces (k : Tick) (fix : Fix) (known : k.fix = some fix) (current : t.current k = true) :
      Goes t (.announce k)
        { told := t.telling (.tick k.number) .rawLocation fix
          own := [.owner (.ingest k)], outline := t.outline }
  | announceStale (k : Tick) (known : k.fix.isSome) (stale : t.current k = false) :
      Goes t (.announce k) { own := [.owner (.ingest k)], outline := t.outline }
  | announceNothing (k : Tick) (unknown : k.fix = none) :
      Goes t (.announce k) { own := [.owner (.ask k)], outline := t.outline }
  | ingested (k : Tick) : Goes t (.ingest k) { own := [.owner (.ask k)], outline := t.outline }
  /-- The engine refuses the fix. -/
  | refused (k : Tick) :
      Goes t (.ingest k) { own := [.owner (.proceed k.generation)], outline := t.outline }
  /-- The worker has been let go. -/
  | orphaned (k : Tick) : Goes t (.ask k) { outline := t.outline }
  | asked (k : Tick) (answer : Except EngineError Status) :
      Goes t (.ask k) { own := [.owner (.conclude k answer)], outline := t.outline }
  /-- The worker waits for the status. -/
  | waits (k : Tick) (pending : Option Tick)
      (own : ∀ k', pending = some k' → t.outline.pending = some k' ∨ k' = k) :
      Goes t (.ask k) { outline := { t.outline with pending } }
  | answered (k : Tick) (s : Status) :
      Goes t (.conclude k (.ok s))
        { own := [.owner (.locate k s)], notes := [.answered k false], outline := t.outline }
  | failed (k : Tick) (e : EngineError) :
      Goes t (.conclude k (.error e))
        { own := [.owner (.proceed k.generation)], notes := [.answered k true]
          outline := t.outline }
  | locates (k : Tick) (s : Status) (current : t.current k = true) :
      Goes t (.locate k s)
        { told := t.telling (.tick k.number) .location s.location
          own := [.owner (if k.scope = .full then .flag k s else .tally k)]
          outline := t.outline }
  | locateStale (k : Tick) (s : Status) (stale : t.current k = false) :
      Goes t (.locate k s) { own := [.owner (.proceed k.generation)], outline := t.outline }
  | flags (k : Tick) (s : Status) (current : t.current k = true)
      (change : t.dispatch.last .offRoute ≠ some s.offRoute) :
      Goes t (.flag k s)
        { told := t.telling (.tick k.number) .offRoute s.offRoute
          own := [.owner (.cue k s)], outline := t.outline }
  | flagged (k : Tick) (s : Status) (same : t.dispatch.last .offRoute = some s.offRoute) :
      Goes t (.flag k s) { own := [.owner (.cue k s)], outline := t.outline }
  | flagStale (k : Tick) (s : Status) (stale : t.current k = false) :
      Goes t (.flag k s) { own := [.owner (.tally k)], outline := t.outline }
  /-- The status has route data of another epoch. -/
  | cueReplaced (k : Tick) (s : Status) (data : s.progress.isSome || s.cues.isSome)
      (replaced : k.epoch ≠ t.epoch) :
      Goes t (.cue k s) { own := [.owner (.tally k)], outline := t.outline }
  | cues (k : Tick) (s : Status) (cues : Cues) (known : s.cues = some cues)
      (epoch : k.epoch = t.epoch) (current : t.current k = true)
      (change : t.dispatch.last .instructionCues ≠ some cues) :
      Goes t (.cue k s)
        { told := t.telling (.tick k.number) .instructionCues cues
          own := [.owner (.report k s)], outline := t.outline }
  | cued (k : Tick) (s : Status)
      (epoch : s.progress.isSome || s.cues.isSome → k.epoch = t.epoch) :
      Goes t (.cue k s) { own := [.owner (.report k s)], outline := t.outline }
  | cueStale (k : Tick) (s : Status) (stale : t.current k = false) :
      Goes t (.cue k s) { own := [.owner (.tally k)], outline := t.outline }
  /-- There is no progress, or none of an active route, or it comes too late. -/
  | unreported (k : Tick) (s : Status) (notes : List Note)
      (quiet : ∀ n ∈ notes, IsSmoothing n)
      (nothing : ∀ report, s.progress = some report →
        (∀ r ∈ t.facts.routes, r.id ≠ report.route) ∨ t.current k = false) :
      Goes t (.report k s) { own := [.owner (.tally k)], notes, outline := t.outline }
  | reports (k : Tick) (s : Status) (report : ProgressReport) (progress : Progress)
      (notes : List Note)
      (quiet : ∀ n ∈ notes, IsSmoothing n)
      (known : s.progress = some report) (active : ∃ r ∈ t.facts.routes, r.id = report.route)
      (current : t.current k = true) :
      Goes t (.report k s)
        { told := t.telling (.tick k.number) .routeProgress progress
          own := [.owner (.arrive k progress.isComplete)], notes, outline := t.outline }
  | arrives (k : Tick) (complete : Bool) (current : t.current k = true) :
      Goes t (.arrive k complete)
        { own := [.owner (.recompute (.tick k.number)), .owner (.tally k)]
          outline := { t.outline with arrived := complete && t.facts.guidance } }
  | arriveStale (k : Tick) (complete : Bool) (stale : t.current k = false) :
      Goes t (.arrive k complete) { own := [.owner (.tally k)], outline := t.outline }
  | tallied (k : Tick) :
      Goes t (.tally k) { own := [.owner (.proceed k.generation)], outline := t.outline }
  /-- The worker has been let go, or waits. -/
  | rests (g : Nat) (pending : Option Tick)
      (own : ∀ k, pending = some k → t.outline.pending = some k) :
      Goes t (.proceed g) { outline := { t.outline with pending } }
  /-- There was nothing in what it has read. -/
  | rereads (g : Nat) (ds : List Delivery) (pending : Option Tick)
      (own : ∀ k, pending = some k → t.outline.pending = some k) :
      Goes t (.proceed g)
        { own := [.owner (.proceed g)], notes := [.read g ds]
          outline := { t.outline with pending } }
  | begins (g : Nat) (ds : List Delivery) (scope : Scope) (fix : Option Fix)
      (running : t.outline.running = some g) (pending : Option Tick)
      (own : ∀ k, pending = some k → t.outline.pending = some k) :
      Goes t (.proceed g)
        { own := [.owner (.announce ⟨t.ticks, g, t.epoch, scope, fix⟩)]
          notes := [.ticked ⟨t.ticks, g, t.epoch, scope, fix⟩, .read g ds]
          outline := { t.outline with pending, ticks := t.ticks + 1 } }

/-! ## Registering -/

variable {t t' : Trip}

theorem shows_register (t : Trip) (l : Listener) (c : Category) :
    Shows t (t.mapDispatch fun d => (d.register c l).1)
      { told := t.owed l c, outline := t.outline } := by
  cases h : ((t.dispatch.registry c).enroll l).replay with
  | none =>
    have ho : t.owed l c = none := by simp only [owed, h, Option.map_none]
    refine ⟨?_, ?_, rfl⟩ <;> simp only [ho, stack, log, mapDispatch, Dispatch.register, h] <;> rfl
  | some v =>
    have ho : t.owed l c = some (⟨t.dispatch.serial, .replay, c, v⟩,
        [(((t.dispatch.registry c).enroll l).id, l)]) := by
      simp only [owed, h, Option.map_some]
    refine ⟨?_, ?_, rfl⟩ <;> simp only [ho, stack, log, mapDispatch, Dispatch.register, h] <;> rfl

theorem shows_subscribe (t : Trip) (l : Listener) (c : Category) (slot : Slot) :
    Shows t (t.mapDispatch (·.subscribe c l slot))
      { told := t.owed l c, own := [.keep slot ⟨c, ((t.dispatch.registry c).enroll l).id⟩]
        outline := t.outline } := by
  obtain ⟨hs, hl, -⟩ :=
    shows_register (t.mapDispatch (·.push (.keep slot ⟨c, ((t.dispatch.registry c).enroll l).id⟩)))
      l c
  exact ⟨hs, hl, rfl⟩

/-! ## The worker waits, reads and begins ticks -/

theorem pending?_eq_some {w : Worker} {k : Tick} :
    w.pending? = some k ↔ ∃ a ready deadline, w.wait = .status k a ready deadline := by
  unfold Worker.pending?
  split
  · rename_i k' a ready deadline h
    simp [h]
  · rename_i h
    simp only [reduceCtorEq, false_iff, not_exists]
    exact fun a ready deadline hw => h k a ready deadline hw

/-- The worker waits for something else from now on. -/
theorem shows_await (t : Trip) (g : Nat) (wait : Wait) :
    ∃ pending, Shows t (t.await g wait) { outline := { t.outline with pending } } ∧
      ∀ k, pending = some k → t.outline.pending = some k ∨
        ∃ a ready deadline, wait = .status k a ready deadline := by
  obtain ⟨pending, ho, hp⟩ := outline_mapWorker { t with stamp := t.stamp + 1 } g
    (f := fun w => { w with wait, stamp := t.stamp }) (fun _ => rfl)
  refine ⟨pending, ⟨?_, ?_, ho⟩, fun k hk => ?_⟩
  · simp [await, stack]
  · simp [await, log]
  · rcases hp k hk with h | ⟨w, -, hw⟩
    · exact .inl h
    · exact .inr (pending?_eq_some.mp hw)

/-- The worker is changed, and waits for no status that it has not waited for. -/
theorem Shows.mapWorker {notes : List Note} {outline : Outline}
    (h : Shows t t' { notes, outline }) (g : Nat) {f : Worker → Worker}
    (hf : ∀ w, (f w).generation = w.generation)
    (hp : ∀ w, (f w).wait = w.wait ∨ (f w).pending? = none) :
    ∃ pending, Shows t (t'.mapWorker g f) { notes, outline := { outline with pending } } ∧
      ∀ k, pending = some k → outline.pending = some k := by
  obtain ⟨hs, hl, rfl⟩ := h
  obtain ⟨pending, ho, hk⟩ := outline_mapWorker t' g hf
  refine ⟨pending, ⟨?_, ?_, ho⟩, fun k h => ?_⟩
  · rw [Trip.stack, dispatch_mapWorker]; exact hs
  · rw [Trip.log, dispatch_mapWorker]; exact hl
  · rcases hk k h with h | ⟨w, hw, h⟩
    · exact h
    · rcases hp w with hwait | hnone
      · simpa [Trip.outline, hw, Worker.pending?, hwait] using h
      · rw [hnone] at h; cases h

theorem shows_readLine (t : Trip) (w : Worker) :
    ∃ pending, Shows t (t.readLine w).1
        { notes := [.read w.generation w.line.drain.2], outline := { t.outline with pending } } ∧
      ∀ k, pending = some k → t.outline.pending = some k := by
  obtain ⟨pending, hs, hp⟩ := (Shows.refl t).mapWorker w.generation
    (f := fun w' => { w' with
      line := w.line.drain.1
      hasFix := w'.hasFix || (Batch.ofList w.line.drain.2).newest.isSome })
    (fun _ => rfl) (fun _ => .inl rfl)
  have hc : Shows t ((t.mapWorker w.generation _).count
      (Batch.ofList w.line.drain.2).count) _ := ⟨hs.stack, hs.log, hs.outline⟩
  exact ⟨pending, hc.note _, hp⟩

theorem run_ask (t : Trip) (k : Tick) : ∃ o, Goes t (.ask k) o ∧ Shows t (t.ask k) o := by
  rcases he : t.engine.ask with ⟨engine, asked, delay⟩
  simp only [ask, he]
  split
  · exact ⟨_, .orphaned k, rfl, rfl, rfl⟩
  · split
    · exact ⟨_, .asked k _, rfl, rfl, rfl⟩
    · split
      · exact ⟨_, .asked k _, rfl, rfl, rfl⟩
      · obtain ⟨pending, ⟨hs, hl, ho⟩, hp⟩ := shows_await { t with engine } k.generation
          (.status k asked (t.now + delay) (t.now + t.settings.polling.timeout))
        refine ⟨_, .waits k pending fun k' hk' => ?_, hs, hl, ho⟩
        rcases hp k' hk' with h | ⟨a, ready, deadline, h⟩
        · exact .inl h
        · cases h; exact .inr rfl

/-- A tick begins. -/
theorem Shows.begin {notes : List Note} {outline : Outline} (h : Shows t t' { notes, outline })
    (g : Nat) (scope : Scope) (fix : Option Fix) :
    Shows t (t'.begin g scope fix)
      { own := [.owner (.announce ⟨outline.ticks, g, outline.epoch, scope, fix⟩)]
        notes := .ticked ⟨outline.ticks, g, outline.epoch, scope, fix⟩ :: notes
        outline := { outline with ticks := outline.ticks + 1 } } := by
  obtain ⟨hs, hl, rfl⟩ := h
  exact ⟨congrArg (List.cons _) hs, congrArg (List.cons _) hl, rfl⟩

/-- A worker that has read its line begins a tick, or goes on if there was nothing in it. -/
theorem goes_read {g : Nat} {ds : List Delivery} {pending : Option Tick}
    (hs : Shows t t' { notes := [.read g ds], outline := { t.outline with pending } })
    (hrun : t.outline.running = some g)
    (hp : ∀ k, pending = some k → t.outline.pending = some k) :
    (∃ o, Goes t (.proceed g) o ∧ Shows t (t'.pushStages [.proceed g]) o) ∧
      ∀ scope fix, ∃ o, Goes t (.proceed g) o ∧ Shows t (t'.begin g scope fix) o :=
  ⟨⟨_, .rereads g ds pending hp, hs.pushStages _⟩,
    fun scope fix => ⟨_, .begins g ds scope fix hrun pending hp, hs.begin g scope fix⟩⟩

theorem run_proceed (t : Trip) (g : Nat) :
    ∃ o, Goes t (.proceed g) o ∧ Shows t (t.proceed g) o := by
  have waits (wait : Wait) (hw : ∀ k a ready deadline, wait ≠ .status k a ready deadline) :
      ∃ o, Goes t (.proceed g) o ∧ Shows t (t.await g wait) o := by
    obtain ⟨pending, hs, hp⟩ := shows_await t g wait
    refine ⟨_, .rests g pending fun k hk => ?_, hs⟩
    rcases hp k hk with h | ⟨a, ready, deadline, h⟩
    · exact h
    · exact absurd h (hw k a ready deadline)
  have ends : ∃ o, Goes t (.proceed g) o ∧ Shows t (t.mapWorker g (·.ended)) o := by
    obtain ⟨pending, hs, hp⟩ := (Shows.refl t).mapWorker g (f := (·.ended)) (fun _ => rfl)
      fun _ => .inr rfl
    exact ⟨_, .rests g pending hp, hs⟩
  unfold proceed
  split
  · exact ⟨_, .rests g t.outline.pending fun _ => id, .refl t⟩
  · rename_i w hw
    obtain ⟨hworker, rfl⟩ := workerOf?_eq_some.mp hw
    have hrun : t.outline.running = some w.generation := by simp [outline, hworker]
    obtain ⟨pending, hs, hp⟩ := shows_readLine t w
    generalize t.readLine w = read at hs ⊢
    obtain ⟨t', batch⟩ := read
    obtain ⟨again, begins⟩ := goes_read hs hrun hp
    split
    · split
      · split
        · exact waits .delivery (by simp)
        · exact ends
      · simp only
        split
        · exact begins .full _
        · exact again
    · exact ends
    · rename_i period _ _
      obtain ⟨pending', hs', hp'⟩ := hs.mapWorker w.generation
        (f := fun w' => { w' with
          due := some (nextBeat period (w.due.getD t.now) t'.now) }) (fun _ => rfl)
        fun _ => .inl rfl
      obtain ⟨again, begins⟩ := goes_read hs' hrun fun k hk => hp k (hp' k hk)
      simp only
      split
      · split
        · exact begins .full _
        · exact again
      · exact waits .beat (by simp)

/-! ## Progress -/

/-- The signal is asked for an estimate, if it is asked at all. -/
theorem asked_of_outlook {s : SmootherSettings} {signal : Signal} {leg : Leg} {start : Nat}
    {n : Note} (h : (outlook s signal leg start).asked = some n) :
    ∃ a b c v, n = .estimated a b c v := by
  unfold outlook at h
  simp only at h
  split at h
  · split at h <;> (cases h; exact ⟨_, _, _, _, rfl⟩)
  · cases h

/-- Nothing has happened but that the signal was asked and a leg was smoothed. -/
structure Smooths (t t' : Trip) : Prop where
  shows : ∃ notes, (∀ n ∈ notes, IsSmoothing n) ∧ Shows t t' { notes, outline := t.outline }
  telling : ∀ (cause : Cause) (c : Category) (v : c.Value),
    t'.telling cause c v = t.telling cause c v
  steps : Dispatch.Steps t.dispatch t'.dispatch

theorem Smooths.refl (t : Trip) : Smooths t t :=
  ⟨⟨[], List.forall_mem_nil _, .refl t⟩, fun _ _ _ => rfl, .refl⟩

theorem Smooths.note (h : Smooths t t') {n : Note} (hn : IsSmoothing n) :
    Smooths t (t'.note n) := by
  obtain ⟨⟨notes, hq, hs⟩, ht, hd⟩ := h
  refine ⟨⟨n :: notes, ?_, hs.note n⟩, ht, hd.trans (Dispatch.Step.note _ n).steps⟩
  intro n' hn'
  rcases List.mem_cons.mp hn' with rfl | hn'
  · exact hn
  · exact hq n' hn'

theorem Smooths.count (h : Smooths t t') (f : Counters → Counters) : Smooths t (t'.count f) := by
  obtain ⟨⟨notes, hq, hs⟩, ht, hd⟩ := h
  exact ⟨⟨notes, hq, hs.stack, hs.log, hs.outline⟩, ht, hd⟩

theorem smooths_routes (t : Trip) (signal : Signal) (routes : List Route) :
    Smooths t ({ t with signal }.withFacts fun f => { f with routes }) :=
  ⟨⟨[], List.forall_mem_nil _, rfl, rfl, rfl⟩, fun _ _ _ => rfl, .refl⟩

/-- A report makes progress exactly if an active route has its name. -/
theorem progress_cases (t : Trip) (report : ProgressReport) (how : Tracking) :
    (∀ r ∈ t.facts.routes, r.id ≠ report.route) ∧ t.progress report how = (t, none) ∨
    (∃ r ∈ t.facts.routes, r.id = report.route) ∧
      ∃ t' progress, t.progress report how = (t', some progress) ∧ Smooths t t' := by
  unfold progress
  split
  · rename_i h
    rw [List.findIdx?_eq_none_iff] at h
    exact .inl ⟨fun r hr => by simpa using h r hr, rfl⟩
  · rename_i i hi
    refine .inr ⟨?_, ?_⟩
    · obtain ⟨hlt, hr, -⟩ := List.findIdx?_eq_some_iff_getElem.mp hi
      exact ⟨_, List.getElem_mem hlt, by simpa using hr⟩
    · split
      · exact ⟨_, _, rfl, .refl t⟩
      · rename_i leg _
        refine ⟨_, _, rfl, ?_⟩
        have hasked := smooths_routes t
          (outlook t.settings.smoother t.signal leg report.segment).signal
          (t.facts.routes.modify i fun r => { r with
            legs := r.legs.set report.leg
              (outlook t.settings.smoother t.signal leg report.segment).leg })
        cases ho : (outlook t.settings.smoother t.signal leg report.segment).asked with
        | none =>
          split
          · exact (hasked.count _).note (.inr ⟨_, _, rfl⟩)
          · exact hasked
        | some n =>
          have hnote := hasked.note (.inl (asked_of_outlook ho))
          split
          · exact (hnote.count _).note (.inr ⟨_, _, rfl⟩)
          · exact hnote

theorem run_report (t : Trip) (k : Tick) (s : Status) :
    ∃ o, Goes t (.report k s) o ∧ Shows t (t.run (.report k s)) o := by
  have silent (notes : List Note) (hq : ∀ n ∈ notes, IsSmoothing n) {t' : Trip}
      (hs : Shows t t' { notes, outline := t.outline })
      (hn : ∀ report, s.progress = some report →
        (∀ r ∈ t.facts.routes, r.id ≠ report.route) ∨ t.current k = false) :
      ∃ o, Goes t (.report k s) o ∧ Shows t (t'.pushStages [.tally k]) o :=
    ⟨_, .unreported k s notes hq hn, hs.pushStages _⟩
  cases hprogress : s.progress with
  | none =>
    simp only [run, hprogress]
    exact silent [] (List.forall_mem_nil _) (.refl t) (by simp [hprogress])
  | some report =>
    rcases progress_cases t report s.tracking with ⟨hno, hp⟩ | ⟨hact, t', progress, hp, hsm⟩
    · simp only [run, hprogress, hp]
      exact silent [] (List.forall_mem_nil _) (.refl t) fun report' h => by
        rw [hprogress] at h; cases h; exact .inl hno
    · simp only [run, hprogress, hp]
      obtain ⟨⟨notes, hq, hs⟩, htell, -⟩ := hsm
      have hcur : t'.current k = t.current k := by
        have hg : t'.generation = t.generation := congrArg Outline.generation hs.outline
        simp only [current, hg]
      rw [hcur]
      split
      · refine ⟨_, .reports k s report progress notes hq hprogress hact ‹_›, ?_⟩
        rw [← htell]
        exact (hs.pushStages _).tell _ _ _
      · have hdiscard : Shows t t'.discard { notes, outline := t.outline } :=
          ⟨hs.stack, hs.log, hs.outline⟩
        refine silent notes hq hdiscard fun _ _ => ?_
        exact .inr (Bool.eq_false_iff.mpr ‹_›)

theorem run_announce (t : Trip) (k : Tick) :
    ∃ o, Goes t (.announce k) o ∧ Shows t (t.run (.announce k)) o := by
  cases hfix : k.fix with
  | none =>
    simp only [run, hfix]
    exact ⟨_, .announceNothing k hfix, (Shows.refl t).pushStages _⟩
  | some fix =>
    simp only [run, hfix, Option.isSome_some, ↓reduceIte]
    split
    · exact ⟨_, .announces k fix hfix ‹_›, ((Shows.refl t).pushStages _).tell _ _ _⟩
    · refine ⟨_, .announceStale k (by simp [hfix]) ?_, rfl, rfl, rfl⟩
      exact Bool.eq_false_iff.mpr ‹_›

theorem run_cue (t : Trip) (k : Tick) (s : Status) :
    ∃ o, Goes t (.cue k s) o ∧ Shows t (t.run (.cue k s)) o := by
  simp only [run]
  split
  · rename_i h
    simp only [Bool.and_eq_true, decide_eq_true_eq] at h
    exact ⟨_, .cueReplaced k s h.1 h.2, rfl, rfl, rfl⟩
  · rename_i h
    simp only [Bool.and_eq_true, decide_eq_true_eq, not_and, Decidable.not_not] at h
    split
    · exact ⟨_, .cued k s h, rfl, rfl, rfl⟩
    · rename_i cues hcues
      split
      · split
        · exact ⟨_, .cued k s h, rfl, rfl, rfl⟩
        · exact ⟨_, .cues k s cues hcues (h (by simp [hcues])) ‹_› ‹_›, rfl, rfl, rfl⟩
      · exact ⟨_, .cueStale k s (Bool.eq_false_iff.mpr ‹_›), rfl, rfl, rfl⟩

/-- **A stage that is run goes on in one of its ways.** -/
theorem run_goes (t : Trip) (s : Stage) : ∃ o, Goes t s o ∧ Shows t (t.run s) o := by
  cases s with
  | reply r => exact ⟨_, .replied r, (Shows.refl t).note _⟩
  | register l c => exact ⟨_, .registered l c, shows_register t l c⟩
  | subscribe l c slot => exact ⟨_, .subscribed l c slot _, shows_subscribe t l c slot⟩
  | enter s =>
    simp only [run]
    split
    · exact ⟨_, .entered s ‹_›, .refl t⟩
    · exact ⟨_, .enters s ‹_›, rfl, rfl, rfl⟩
  | recompute cause =>
    cases hc : (t.facts.phase.update t.facts.phaseFacts).2.changed with
    | false =>
      refine ⟨_, .derived cause hc, ?_⟩
      simp only [run, hc, Bool.false_eq_true, ↓reduceIte]
      split <;> exact ⟨rfl, rfl, rfl⟩
    | true =>
      refine ⟨_, .derives cause hc, ?_⟩
      simp only [run, hc, ↓reduceIte]
      split <;> exact ⟨rfl, rfl, rfl⟩
  | leaveOffRoute =>
    simp only [run]
    split
    · exact ⟨_, .leaves ‹_›, (Shows.refl t).tell _ _ _⟩
    · exact ⟨_, .onRoute ‹_›, .refl t⟩
  | forgetTrip => exact ⟨_, .forgot, rfl, rfl, rfl⟩
  | announce k => exact run_announce t k
  | ingest k =>
    simp only [run]
    split
    · split
      · exact ⟨_, .ingested k, rfl, rfl, rfl⟩
      · exact ⟨_, .refused k, rfl, rfl, rfl⟩
    · exact ⟨_, .ingested k, rfl, rfl, rfl⟩
  | ask k => exact run_ask t k
  | conclude k answer =>
    cases answer with
    | ok s => exact ⟨_, .answered k s, rfl, rfl, rfl⟩
    | error e =>
      refine ⟨_, .failed k e, ?_⟩
      simp only [run]
      split <;> exact ⟨rfl, rfl, rfl⟩
  | locate k s =>
    simp only [run]
    split
    · exact ⟨_, .locates k s ‹_›, rfl, rfl, rfl⟩
    · exact ⟨_, .locateStale k s (Bool.eq_false_iff.mpr ‹_›), rfl, rfl, rfl⟩
  | flag k s =>
    simp only [run]
    split
    · split
      · exact ⟨_, .flagged k s ‹_›, rfl, rfl, rfl⟩
      · exact ⟨_, .flags k s ‹_› ‹_›, rfl, rfl, rfl⟩
    · exact ⟨_, .flagStale k s (Bool.eq_false_iff.mpr ‹_›), rfl, rfl, rfl⟩
  | cue k s => exact run_cue t k s
  | report k s => exact run_report t k s
  | arrive k complete =>
    simp only [run]
    split
    · exact ⟨_, .arrives k complete ‹_›, rfl, rfl, rfl⟩
    · exact ⟨_, .arriveStale k complete (Bool.eq_false_iff.mpr ‹_›), rfl, rfl, rfl⟩
  | tally k => exact ⟨_, .tallied k, rfl, rfl, rfl⟩
  | proceed g => exact run_proceed t g

end LiveTrip.Trip
