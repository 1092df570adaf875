import LiveTrip.Proofs.Session.Ahead
import LiveTrip.Proofs.Session.Working

/-!
# The first tick of a worker

A worker has its first turn before it reads its line or waits for a beat, and that turn begins a
tick that tells the location only. Every other tick comes after one of the same worker.

* `Trip.worker_run`, `Trip.roused_perform`, `Trip.roused_of_tick?`, `Trip.roused_of_move?`: a worker
  that has not had its first turn has it by a turn, and by nothing else.
* `Trip.HasTicked`: a tick of a generation has begun.
* `Trip.Opening`, `Trip.Reaches.opening`: a tick that tells more than the location is not the first
  of its generation.
-/

namespace LiveTrip.Trip

variable {t t' : Trip} {made : Option Call} {g : Nat}

/-! ## The first turn -/

theorem roused_eq_some :
    t.roused = some g ↔ ∃ w, t.worker = some w ∧ w.generation = g ∧ ∀ fix, w.wait ≠ .turn fix := by
  unfold roused
  cases t.worker with
  | none => simp
  | some w => cases hw : w.wait <;> simp [hw]

/-- No worker has its first turn, but perhaps that of the generation. -/
def Rouses (t t' : Trip) (g : Nat) : Prop := ∀ g', t'.roused = some g' → t.roused = some g' ∨ g' = g

theorem Rouses.congr {u : Trip} (h : Rouses t u g) (hw : t'.worker = u.worker) : Rouses t t' g := by
  intro g' hg
  rw [roused, hw] at hg
  exact h g' hg

theorem Rouses.refl (t : Trip) : Rouses t t g := fun _ => .inl

theorem Rouses.trans {u : Trip} (h : Rouses t u g) (h' : Rouses u t' g) : Rouses t t' g := by
  intro g' hg
  rcases h' g' hg with hu | rfl
  · exact h g' hu
  · exact .inr rfl

theorem rouses_mapWorker (t : Trip) (g : Nat) {f : Worker → Worker}
    (hf : ∀ w, (f w).generation = w.generation) : Rouses t (t.mapWorker g f) g := by
  intro g' hg
  unfold mapWorker at hg
  split at hg
  · rename_i w hw
    obtain ⟨-, rfl⟩ := workerOf?_eq_some.mp hw
    obtain ⟨w', hw', rfl, -⟩ := roused_eq_some.mp hg
    cases hw'
    exact .inr (hf w)
  · exact .inl hg

theorem rouses_await (t : Trip) (g : Nat) (wait : Wait) : Rouses t (t.await g wait) g :=
  rouses_mapWorker { t with stamp := t.stamp + 1 } g fun _ => rfl

theorem rouses_readLine (t : Trip) (w : Worker) : Rouses t (t.readLine w).1 w.generation := by
  have hmap := rouses_mapWorker t w.generation
    (f := fun w' => { w' with
      line := w.line.drain.1
      hasFix := w'.hasFix || (Batch.ofList w.line.drain.2).newest.isSome }) fun _ => rfl
  exact hmap.congr rfl

theorem rouses_proceed (t : Trip) (g : Nat) : Rouses t (t.proceed g) g := by
  have h := proceeds t g
  generalize t.proceed g = u at h ⊢
  cases h with
  | rests stamp f _ spares => exact rouses_mapWorker { t with stamp } g fun w => (spares w).1
  | rereads w f running _ _ spares | begins w f running _ spares =>
    obtain ⟨-, rfl⟩ := workerOf?_eq_some.mp running
    have hread := (rouses_readLine t w).trans (rouses_mapWorker _ _ fun w => (spares w).1)
    exact hread.congr rfl

theorem rouses_ask (t : Trip) (k : Tick) : Rouses t (t.ask k) k.generation := by
  have h := asks t k
  generalize t.ask k = u at h ⊢
  cases h with
  | orphaned | answered => exact (Rouses.refl t).congr rfl
  | waits =>
    have hasked : Rouses t { t with engine := t.engine.ask.1 } k.generation :=
      (Rouses.refl t).congr rfl
    exact hasked.trans (rouses_await _ _ _)

theorem worker_progress (t : Trip) (report : ProgressReport) (how : Tracking) :
    (t.progress report how).1.worker = t.worker := by
  obtain ⟨_, _, _, _, h, -⟩ := progress_eq t report how
  rw [h]

theorem worker_report (t : Trip) (k : Tick) (s : Status) :
    (t.run (.report k s)).worker = t.worker := by
  have h := reports t k s
  generalize t.run (.report k s) = u at h ⊢
  cases h with
  | nothing => rfl
  | unknown report | stale report | tells report => exact worker_progress t report s.tracking

/-- Other stages leave the worker alone. -/
theorem worker_run (t : Trip) {s : Stage} (proceeds : ∀ g, s ≠ .proceed g)
    (asks : ∀ k, s ≠ .ask k) : (t.run s).worker = t.worker := by
  cases s with
  | proceed g => exact absurd rfl (proceeds g)
  | ask k => exact absurd rfl (asks k)
  | report k s => exact worker_report t k s
  | announce k =>
    cases hfix : k.fix with
    | none => simp only [run, hfix]; rfl
    | some fix =>
      simp only [run, hfix, Option.isSome_some, ↓reduceIte]
      split <;> rfl
  | reply | forgetTrip | tally => rfl
  | register l c | subscribe l c slot => rfl
  | enter | leaveOffRoute | locate | arrive => simp only [run]; split <;> rfl
  | recompute | ingest | conclude | flag => simp only [run]; split <;> (try split) <;> rfl
  | cue =>
    simp only [run]
    split
    · rfl
    · split
      · rfl
      · split
        · split <;> rfl
        · rfl

/-! ## Calls -/

theorem roused_congr_line {w : Worker} (hw : t.worker = some w) (line : Line)
    (hw' : t'.worker = some { w with line }) : t'.roused = t.roused := by
  simp only [roused, hw, hw', Option.bind_some]

theorem roused_mapManual (t : Trip) (f : ManualSource → ManualSource) :
    (t.mapManual f).roused = t.roused := by
  unfold mapManual
  split <;> rfl

theorem roused_send (t : Trip) (d : Delivery) : (t.send d).1.roused = t.roused := by
  unfold send
  split
  · rename_i m w _ hw
    split
    · split
      · rename_i line _
        exact roused_congr_line hw line rfl
      · rfl
    · rfl
  · rfl

theorem roused_haltSource (t : Trip) : t.haltSource.roused = t.roused := by
  simp only [haltSource]
  split
  · rename_i m w _ hw
    exact (roused_congr_line hw _ rfl).trans (roused_mapManual t _)
  · exact roused_mapManual t _

/-- No call gives a worker its first turn. -/
theorem roused_perform {c : Call} (h : (t.perform c).trip.roused = some g) : t.roused = some g := by
  unfold perform at h
  split at h
  · exact h
  · cases c with
    | start =>
      simp only [start] at h
      split at h
      · exact h
      · split at h
        · exact h
        · cases h
    | stop =>
      simp only [stop] at h
      split at h
      · cases h
      · exact h
    | close =>
      simp only [close] at h
      split at h
      · cases h
      · exact h
    | setRoutes routes =>
      simp only [setRoutes] at h
      split at h <;> exact h
    | push fix => exact (roused_mapManual t _).symm.trans ((roused_send _ _).symm.trans h)
    | pushError cause => exact (roused_send t _).symm.trans h
    | setLastKnown fix => exact (roused_mapManual t _).symm.trans h
    | failNextStart => exact (roused_mapManual t _).symm.trans h
    | haltSource => exact (roused_haltSource t).symm.trans h
    | _ => exact h

/-! ## Steps -/

/-- A tick of the generation has begun. -/
def HasTicked (t : Trip) (g : Nat) : Prop := ∃ k, Ticked t k ∧ k.generation = g

/-- A tick that tells more than the location is not the first of its generation. -/
structure Opening (t : Trip) : Prop where
  roused : ∀ g, t.roused = some g → HasTicked t g
  proceeds : ∀ g, .owner (.proceed g) ∈ t.stack → HasTicked t g
  first : ∀ k, Ticked t k → k.scope = .locationOnly ∨
    ∃ k', Ticked t k' ∧ k'.generation = k.generation ∧ k'.number < k.number

/-- A worker has its first turn by a turn. Stages of ticks find that it has had it. -/
theorem roused_of_tick? (h : t.tick? = some t') (hs : Sound t) (ho : Opening t)
    (hg : t'.roused = some g) : HasTicked t g := by
  unfold tick? at h
  split at h
  · rename_i s below top
    have mem : .owner s ∈ t.stack := by rw [stack, top]; exact List.mem_cons_self
    cases h
    by_cases hp : ∃ g, s = .proceed g
    · obtain ⟨g', rfl⟩ := hp
      rcases rouses_proceed t.pop g' g hg with h | rfl
      · exact ho.roused g h
      · exact ho.proceeds g mem
    · by_cases ha : ∃ k, s = .ask k
      · obtain ⟨k, rfl⟩ := ha
        rcases rouses_ask t.pop k g hg with h | rfl
        · exact ho.roused g h
        · exact ⟨k, hs.staged _ k mem rfl, rfl⟩
      · have hworker := worker_run t.pop (fun g h => hp ⟨g, h⟩) fun k h => ha ⟨k, h⟩
        rw [Trip.roused, hworker] at hg
        exact ho.roused g hg
  · cases h
    refine ho.roused g ?_
    rw [← hg]
    split <;> rfl
  · obtain ⟨d, -, rfl⟩ := Option.map_eq_some_iff.mp h
    exact ho.roused g hg

theorem rouses_resume (t : Trip) (w : Worker) : Rouses t (t.resume w) w.generation := by
  have hawake := rouses_mapWorker t w.generation
    (f := fun w => { w with wait := .working }) fun _ => rfl
  unfold resume
  simp only
  split
  · exact hawake.congr rfl
  · split <;> exact hawake.congr rfl
  · exact hawake.congr rfl

/-- The first turn of a worker begins a tick. -/
theorem hasTicked_resume {w : Worker} {fix : Option Fix} (hw : w.wait = .turn fix) :
    HasTicked (t.resume w) w.generation := by
  have hawake : t.resume w = (t.mapWorker w.generation fun w => { w with wait := .working }).begin
      w.generation .locationOnly fix := by
    simp only [resume, hw]
  rw [hawake]
  exact ⟨_, List.mem_cons_self, rfl⟩

theorem roused_of_move? {m : Move} (h : t.move? m = some t') (ho : Opening t)
    (hg : t'.roused = some g) : HasTicked t g ∨ HasTicked t' g := by
  cases m with
  | decide d =>
    have h : t.decide? d = some t' := h
    unfold decide? at h
    split at h <;> cases h
    · exact .inl (ho.roused g (roused_perform hg))
    · exact .inl (ho.roused g hg)
    · exact .inl (ho.roused g hg)
  | work =>
    have h : t.work? = some t' := h
    unfold work? at h
    split at h
    · obtain ⟨w, hw, rfl⟩ := Option.map_eq_some_iff.mp h
      rcases rouses_resume t w g hg with h | rfl
      · exact .inl (ho.roused g h)
      · by_cases hturn : ∃ fix, w.wait = .turn fix
        · obtain ⟨fix, hturn⟩ := hturn
          exact .inr (hasTicked_resume hturn)
        · have hroused : t.roused = some w.generation :=
            roused_eq_some.mpr ⟨w, hw, rfl, fun fix h => hturn ⟨fix, h⟩⟩
          exact .inl (ho.roused _ hroused)
    · cases h
  | replay =>
    have h : t.replay? = some t' := h
    unfold replay? at h
    split at h
    · obtain ⟨⟨s, r⟩, -, rfl⟩ := Option.map_eq_some_iff.mp h
      refine .inl (ho.roused g ?_)
      cases hw : t.worker with
      | none =>
        simp only [Trip.roused, hw] at hg
        cases hg
      | some w =>
        simp only [Trip.roused, hw, Option.bind_some] at hg ⊢
        exact hg
    · cases h
  | elapse later =>
    have h : t.elapse? later = some t' := h
    unfold elapse? at h
    split at h <;> cases h
    exact .inl (ho.roused g hg)

/-- A worker goes on after a stage of one of its ticks, or of its own. -/
theorem Goes.proceed_of_own {s : Stage} {o : Outcome} (h : Goes t s o)
    (hs : .owner (.proceed g) ∈ o.own) :
    s = .proceed g ∨ ∃ k, s.tick? = some k ∧ k.generation = g := by
  cases h with
  | refused k | failed k | locateStale k | tallied k =>
    cases List.mem_singleton.mp hs
    exact .inr ⟨k, rfl, rfl⟩
  | rereads =>
    cases List.mem_singleton.mp hs
    exact .inl rfl
  | locates k =>
    have hs := List.mem_singleton.mp hs
    split at hs <;> cases hs
  | _ => simp at hs

theorem Opening.step (ho : Opening t) (hs : Sound t) (hc : Change t t' made) (hw : Works t t')
    (hr : ∀ g, t'.roused = some g → HasTicked t g ∨ HasTicked t' g) : Opening t' := by
  obtain ⟨events, ha⟩ := hc.adds
  have old {k : Tick} (hk : Ticked t k) : Ticked t' k := ha.mem.mpr (.inr hk)
  have grows {g : Nat} (h : HasTicked t g) : HasTicked t' g := by
    obtain ⟨k, hk, hg⟩ := h
    exact ⟨k, old hk, hg⟩
  refine ⟨fun g hg => ?_, fun g hg => ?_, fun k hk => ?_⟩
  · rcases hr g hg with h | h
    · exact grows h
    · exact h
  · refine grows ?_
    rcases hc.work_cases hg (.inr ⟨g, rfl⟩) with
      hg | ⟨s, below, o, top, goes, hg, -, -⟩ | ⟨o, turn, hg, -⟩
    · exact ho.proceeds g hg
    · have mem : .owner s ∈ t.stack := by rw [top]; exact List.mem_cons_self
      rcases goes.proceed_of_own hg with rfl | ⟨k, hk, rfl⟩
      · exact ho.proceeds g mem
      · exact ⟨k, hs.staged s k mem hk, rfl⟩
    · cases turn with
      | proceeds g' roused =>
        cases List.mem_singleton.mp hg
        exact ho.roused g roused
      | begins | concludes => cases List.mem_singleton.mp hg
      | waits => cases hg
  · -- A tick that begins is of a worker's first turn, or of one that has gone on.
    have first {k : Tick} (hk : Ticked t k) : k.scope = .locationOnly ∨
        ∃ k', Ticked t' k' ∧ k'.generation = k.generation ∧ k'.number < k.number := by
      rcases ho.first k hk with h | ⟨k', hk', h⟩
      · exact .inl h
      · exact .inr ⟨k', old hk', h⟩
    have hk := mem_ticksIn.mpr hk
    cases hw with
    | keeps _ _ begun =>
      rw [begun] at hk
      exact first (mem_ticksIn.mp hk)
    | tells _ _ _ _ _ _ _ _ begun =>
      rw [begun] at hk
      exact first (mem_ticksIn.mp hk)
    | begins k₀ number later _ _ begun =>
      rw [begun] at hk
      rcases List.mem_append.mp hk with hk | hk
      · exact first (mem_ticksIn.mp hk)
      · rw [List.mem_singleton.mp hk]
        rcases later with h | ⟨below, top⟩
        · exact .inl h
        · obtain ⟨k', hk', hg⟩ := ho.proceeds k₀.generation (by rw [top]; exact List.mem_cons_self)
          have := hs.numbered k' hk'
          exact .inr ⟨k', old hk', hg, by omega⟩

/-- **On every run, a tick that tells more than the location is not the first of its
generation.** -/
theorem Reaches.opening {settings : Settings} {engine : Engine} {source : Source} {signal : Signal}
    {ms : List Move} (h : Reaches (.new settings engine source signal) ms t) : Opening t := by
  refine h.induct (P := fun _ t => Opening t) ⟨?_, ?_, ?_⟩ ?_ ?_
  · intro g h; cases h
  · intro g h; cases h
  · intro k h; cases h
  · intro ms t t' hr ih hs
    have hc := change_of_tick? hs
    exact ih.step hr.sound hc (hc.works (hr.laid rfl) (hr.quiet rfl)) fun g hg =>
      .inl (roused_of_tick? hs hr.sound ih hg)
  · intro ms m t t' hr ih hs
    obtain ⟨made, hc, -⟩ := change_of_move? hs
    exact ih.step hr.sound hc (hc.works (hr.laid rfl) (hr.quiet rfl)) fun g hg =>
      roused_of_move? hs ih hg

end LiveTrip.Trip
