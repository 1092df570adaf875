import LiveTrip.Proofs.Session.Line
import Mathlib.Data.List.Induction

/-!
# What becomes of the samples

A worker reads all that waits in its line. The newest fix in a batch is taken by the next tick, the
others are superseded, and errors are failures.

* `fixesIn`, `errorsIn`, `newestIn`: what is in a batch. `Batch.newest_ofList` and so on: how it is
  counted.
* `readBy`, `takenBy`: what a worker has read, and what its ticks have taken, in order.
* `Trip.Handles`, `Trip.Takes.handles`: what becomes in a step of what waits in the line.
* `Trip.Served`, `Trip.Trail.served`: the account of a worker, along its life.
* `Trip.samples_accounted_for`: nothing is lost, told twice or out of order, but what is counted.
-/

namespace LiveTrip

/-! ## Batches -/

/-- The fixes among what was sent. -/
def fixesIn (ds : List Delivery) : List Fix := ds.filterMap Except.toOption

/-- How many errors there are among it. -/
def errorsIn (ds : List Delivery) : Nat := ds.countP fun d => !d.isOk

/-- The newest fix among it. -/
def newestIn (ds : List Delivery) : Option Fix := (fixesIn ds).getLast?

@[simp] theorem fixesIn_append (ds es : List Delivery) :
    fixesIn (ds ++ es) = fixesIn ds ++ fixesIn es := List.filterMap_append

@[simp] theorem errorsIn_append (ds es : List Delivery) :
    errorsIn (ds ++ es) = errorsIn ds + errorsIn es := List.countP_append

@[simp] theorem fixesIn_ok (fix : Fix) : fixesIn [.ok fix] = [fix] := rfl

@[simp] theorem fixesIn_error (cause : PositioningError) : fixesIn [.error cause] = [] := rfl

namespace Batch

theorem ofList_append (ds : List Delivery) (d : Delivery) :
    ofList (ds ++ [d]) = (ofList ds).add d :=
  List.foldl_append

theorem newest_ofList (ds : List Delivery) : (ofList ds).newest = newestIn ds := by
  induction ds using List.reverseRecOn with
  | nil => rfl
  | append_singleton ds d ih =>
    rw [ofList_append, newestIn, fixesIn_append]
    cases d with
    | ok fix => rw [fixesIn_ok, List.getLast?_concat]; rfl
    | error e => rw [fixesIn_error, List.append_nil]; exact ih

theorem received_ofList (ds : List Delivery) : (ofList ds).received = (fixesIn ds).length := by
  induction ds using List.reverseRecOn with
  | nil => rfl
  | append_singleton ds d ih =>
    rw [ofList_append, fixesIn_append, List.length_append, ← ih]
    cases d <;> rfl

/-- Every fix but the newest is superseded. -/
theorem superseded_ofList (ds : List Delivery) :
    (ofList ds).superseded + (newestIn ds).toList.length = (fixesIn ds).length := by
  induction ds using List.reverseRecOn with
  | nil => rfl
  | append_singleton ds d ih =>
    rw [ofList_append, newestIn, fixesIn_append]
    cases d with
    | error e => rw [fixesIn_error, List.append_nil]; exact ih
    | ok fix =>
      rw [← newest_ofList] at ih
      rw [fixesIn_ok, List.getLast?_concat, List.length_append, ← ih]
      cases hnewest : (ofList ds).newest <;> simp [add, hnewest]

theorem errors_ofList (ds : List Delivery) : (ofList ds).errors = errorsIn ds := by
  induction ds using List.reverseRecOn with
  | nil => rfl
  | append_singleton ds d ih =>
    rw [ofList_append, errorsIn_append, ← ih]
    cases d <;> rfl

end Batch

/-! ## What a worker reads and takes -/

/-- What the worker of a generation reads in an event. -/
def Event.readBy? (g : Nat) : SessionEvent → Option (List Delivery)
  | .owner (.read g' ds) => if g' = g then some ds else none
  | _ => none

/-- What the worker of a generation has read, one batch after the other. -/
def readBy (g : Nat) (log : List SessionEvent) : List (List Delivery) :=
  log.reverse.filterMap (Event.readBy? g)

/-- The sample that a regular tick of the worker of a generation carries. -/
def Tick.takenBy? (g : Nat) (k : Tick) : Option Fix :=
  if k.generation = g ∧ k.scope = .full then k.fix else none

/-- The samples that regular ticks of the worker of a generation have taken, in order. -/
def takenBy (g : Nat) (log : List SessionEvent) : List Fix :=
  (ticksIn log).filterMap (Tick.takenBy? g)

theorem readBy_append (g : Nat) (events log : List SessionEvent) :
    readBy g (events ++ log) = readBy g log ++ readBy g events := by
  simp [readBy]

theorem takenBy_append (g : Nat) (events log : List SessionEvent) :
    takenBy g (events ++ log) = takenBy g log ++ takenBy g events := by
  simp [takenBy, ticksIn_append]

/-- Nothing is read in it, and no regular tick begins. -/
def Event.isIdle : SessionEvent → Bool
  | .owner (.read _ _) => false
  | .owner (.ticked k) => k.scope = .locationOnly
  | _ => true

theorem of_isIdle {g : Nat} {events : List SessionEvent} (h : ∀ e ∈ events, e.isIdle = true) :
    readBy g events = [] ∧ takenBy g events = [] := by
  refine ⟨?_, ?_⟩
  · rw [readBy, List.filterMap_eq_nil_iff]
    intro e he
    have hidle := h e (List.mem_reverse.mp he)
    cases e with
    | owner n =>
      cases n with
      | read => cases hidle
      | _ => rfl
    | _ => rfl
  · rw [takenBy, List.filterMap_eq_nil_iff]
    intro k hk
    have hidle := h _ (mem_ticksIn.mp hk)
    have hscope : k.scope = .locationOnly := of_decide_eq_true hidle
    simp [Tick.takenBy?, hscope]

namespace Trip

variable {t t' : Trip} {ms : List Move} {ps : List Passage}

/-! ## Steps -/

/-- What the worker reads in a step. -/
def Passage.batch (p : Passage) : Batch := p.stage?.elim {} p.before.batch

/-- The engine refuses a fix in the step. -/
def Passage.refuses (p : Passage) : Bool := p.stage?.any p.before.refused

theorem Passage.toll_samples (p : Passage) :
    p.toll.samplesReceived = p.batch.received ∧ p.toll.samplesSuperseded = p.batch.superseded ∧
      p.toll.ingestionFailures = p.batch.errors + p.refuses.toNat := by
  cases hs : p.stage? with
  | none => rw [toll_of_none hs, batch, refuses, hs]; exact ⟨rfl, rfl, rfl⟩
  | some s => rw [toll_of_stage hs, batch, refuses, hs]; exact ⟨rfl, rfl, rfl⟩

/-- What becomes in a step of what waits in the line. -/
inductive Handles (t : Trip) (ms : List Move) (t' : Trip) : Prop
  /-- It waits on, and what is sent waits behind it, unless the worker is let go. -/
  | waits (events : List SessionEvent) (log : t'.log = events ++ t.log)
      (idle : ∀ e ∈ events, e.isIdle = true) (batch : (⟨t, ms, t'⟩ : Passage).batch = {})
      (inbox : (⟨t, ms, t'⟩ : Passage).creates = false → t'.inbox = none ∨
        t'.inbox = t.inbox.map fun b => (b.1, b.2 ++ (⟨t, ms, t'⟩ : Passage).sends))
  /-- The worker reads all of it. If there is a fix in it, a tick begins with the newest. -/
  | reads (w : Worker) (begun : Option Tick) (running : t.worker = some w) (silent : ms = [])
      (log : t'.log = begun.toList.map (.owner ∘ .ticked) ++
        .owner (.read w.generation w.line.queue) :: t.log)
      (batch : (⟨t, ms, t'⟩ : Passage).batch = .ofList w.line.queue)
      (own : ∀ k, begun = some k → k.generation = w.generation ∧ k.scope = .full)
      (newest : begun.bind Tick.fix = newestIn w.line.queue)
      (inbox : t'.inbox = some (w.generation, []))

theorem Goes.isIdle {s : Stage} {o : Outcome} (h : Goes t s o) (hs : ∀ g, s ≠ .proceed g) {n : Note}
    (hn : n ∈ o.notes) : (Event.owner n : SessionEvent).isIdle = true := by
  cases h with
  | rereads g | begins g => exact absurd rfl (hs g)
  | unreported _ _ _ quiet | reports _ _ _ _ _ quiet =>
    rcases quiet n hn with ⟨a, b, c, v, rfl⟩ | ⟨route, leg, rfl⟩ <;> rfl
  | replied | answered | failed => rw [List.mem_singleton.mp hn]; rfl
  | _ => cases hn

/-- Unless a worker goes on, nothing is read and no regular tick begins. -/
theorem Change.idle {made : Option Call} (h : Change t t' made)
    (hs : ∀ g below, t.stack ≠ .owner (.proceed g) :: below) :
    ∃ events, t'.log = events ++ t.log ∧ ∀ e ∈ events, e.isIdle = true := by
  cases h with
  | stage s below o top goes stack log outline =>
    refine ⟨_, log.trans (List.append_assoc ..).symm, fun e he => ?_⟩
    rcases List.mem_append.mp he with he | he
    · obtain ⟨p, -, rfl⟩ := List.mem_map.mp he
      rfl
    · obtain ⟨n, hn, rfl⟩ := List.mem_map.mp he
      exact goes.isIdle (fun g hg => hs g below (hg ▸ top)) hn
  | deliver f id l rest below top stack log outline =>
    exact ⟨_, log.trans (List.singleton_append ..).symm, by simp [Event.isIdle]⟩
  | ends x below events top noStage told stack log failures outline =>
    refine ⟨events, log, fun e he => ?_⟩
    obtain ⟨f, id, l, rfl⟩ := failures e he
    rfl
  | call caller c r stages notes o word hmade performs shows =>
    refine ⟨_, shows.log, fun e he => ?_⟩
    obtain ⟨n, hn, rfl⟩ := List.mem_map.mp he
    cases performs with
    | starts | stops | closes => rw [List.mem_singleton.mp hn]; rfl
    | others _ _ _ _ _ _ quiet =>
      obtain ⟨g, d, rfl⟩ := quiet n hn
      rfl
    | _ => cases hn
  | turn o idle turn shows =>
    refine ⟨_, shows.log.trans (List.append_assoc ..).symm, fun e he => ?_⟩
    cases turn with
    | begins => rw [List.mem_singleton.mp he]; rfl
    | _ => cases he

theorem log_readLine (t : Trip) (w : Worker) :
    (t.readLine w).1.log = .owner (.read w.generation w.line.queue) :: t.log := by
  show _ :: (t.mapWorker w.generation _).dispatch.log = _
  rw [dispatch_mapWorker]

theorem log_begin (t : Trip) (g : Nat) (scope : Scope) (fix : Option Fix) :
    ∃ k, (t.begin g scope fix).log = .owner (.ticked k) :: t.log ∧ k.generation = g ∧
      k.scope = scope ∧ k.fix = fix :=
  ⟨_, rfl, rfl, rfl, rfl⟩

/-- **What becomes in a step of what waits in the line.** -/
theorem Takes.handles (h : Takes t ms t') : Handles t ms t' := by
  by_cases hs : ∃ g below, t.stack = .owner (.proceed g) :: below
  · obtain ⟨g, below, top⟩ := hs
    have silent : ms = [] := by
      cases h with
      | tick => rfl
      | move h => rw [move?_of_owner top] at h; cases h
    have hbatch : (⟨t, ms, t'⟩ : Passage).batch = (t.reads? g).elim {} .ofList := by
      rw [Passage.batch, Passage.stage?_eq_some.mpr ⟨below, top⟩]
      rfl
    have hproceeds : Proceeds t.pop g t' := h.step.eq_of_top top ▸ proceeds t.pop g
    cases hproceeds with
    | rests stamp f reads spares =>
      refine .waits [] ?_ (by simp) ?_ fun _ => .inr ?_
      · show (mapWorker _ g f).dispatch.log = _
        rw [dispatch_mapWorker]
        rfl
      · have hreads : t.reads? g = none := reads
        rw [hbatch, hreads]
        rfl
      · have hinbox : (mapWorker { t.pop with stamp } g f).inbox = t.inbox :=
          inbox_mapWorker { t.pop with stamp } g spares
        rw [hinbox, silent]
        simp [Passage.sends]
    | rereads w f hw reads fixless spares =>
      obtain ⟨running, rfl⟩ : t.worker = some w ∧ w.generation = g := workerOf?_eq_some.mp hw
      have hreads : t.reads? w.generation = some w.line.queue := reads
      refine .reads w none running silent ?_ (by rw [hbatch, hreads]; rfl) (by simp)
        (fixless.symm.trans (Batch.newest_ofList _)) ?_
      · show (mapWorker _ w.generation f).dispatch.log = _
        rw [dispatch_mapWorker]
        exact log_readLine t.pop w
      · exact (inbox_mapWorker _ w.generation spares).trans (inbox_readLine running)
    | begins w f hw reads spares =>
      obtain ⟨running, rfl⟩ : t.worker = some w ∧ w.generation = g := workerOf?_eq_some.mp hw
      have hreads : t.reads? w.generation = some w.line.queue := reads
      have hlog : (mapWorker (t.pop.readLine w).1 w.generation f).log =
          (t.pop.readLine w).1.log := congrArg Dispatch.log (dispatch_mapWorker _ _ _)
      obtain ⟨k, log, own, full, newest⟩ :=
        log_begin ((t.pop.readLine w).1.mapWorker w.generation f) w.generation .full
          (Batch.ofList w.line.queue).newest
      refine .reads w (some k) running silent ?_ (by rw [hbatch, hreads]; rfl) ?_
        (newest.trans (Batch.newest_ofList _)) ?_
      · rw [log, hlog, log_readLine]
        rfl
      · rintro _ ⟨rfl⟩
        exact ⟨own, full⟩
      · exact (inbox_mapWorker _ w.generation spares).trans (inbox_readLine running)
  · have hs' (g : Nat) (below : List SessionFrame) : t.stack ≠ .owner (.proceed g) :: below :=
      fun top => hs ⟨g, below, top⟩
    obtain ⟨made, hc⟩ := change_of_step h.step
    obtain ⟨events, log, idle⟩ := hc.idle hs'
    refine .waits events log idle ?_ (h.inbox hs')
    cases hstage : (⟨t, ms, t'⟩ : Passage).stage? with
    | none => rw [Passage.batch, hstage]; rfl
    | some s =>
      obtain ⟨below, top⟩ := Passage.stage?_eq_some.mp hstage
      rw [Passage.batch, hstage]
      cases s with
      | proceed g => exact absurd top (hs' g below)
      | _ => rfl

/-! ## The account of a worker -/

/-- What becomes of the line of the worker of a generation in a step. -/
theorem Handles.reading {g : Nat} {queue : List Delivery} (h : Handles t ms t')
    (sole : (⟨t, ms, t'⟩ : Passage).creates = false)
    (own : ∀ b, t.inbox = some b → b = (g, queue)) :
    ∃ read unread, queue ++ (⟨t, ms, t'⟩ : Passage).sends = read.flatten ++ unread ∧
      (∀ b, t'.inbox = some b → b = (g, unread)) ∧
      readBy g t'.log = readBy g t.log ++ read ∧
      takenBy g t'.log = takenBy g t.log ++ read.filterMap newestIn ∧
      (⟨t, ms, t'⟩ : Passage).batch.received = (fixesIn read.flatten).length ∧
      (⟨t, ms, t'⟩ : Passage).batch.superseded + (read.filterMap newestIn).length =
        (fixesIn read.flatten).length ∧
      (⟨t, ms, t'⟩ : Passage).batch.errors = errorsIn read.flatten := by
  cases h with
  | waits events log idle batch inbox =>
    obtain ⟨hread, htaken⟩ := of_isIdle (g := g) idle
    refine ⟨[], queue ++ (⟨t, ms, t'⟩ : Passage).sends, rfl, fun b hb => ?_, ?_, ?_, ?_⟩
    · rcases inbox sole with h | h
      · rw [h] at hb; cases hb
      · rw [h] at hb
        obtain ⟨b', hb', rfl⟩ := Option.map_eq_some_iff.mp hb
        rw [own b' hb']
    · rw [log, readBy_append, hread]
    · rw [log, takenBy_append, htaken]; rfl
    · rw [batch]; exact ⟨rfl, rfl, rfl⟩
  | reads w begun running silent log batch mine newest inbox =>
    obtain ⟨rfl, rfl⟩ : w.generation = g ∧ w.line.queue = queue :=
      Prod.mk.inj (own _ (by rw [Trip.inbox, running]; rfl))
    subst silent
    have hone : [w.line.queue].filterMap newestIn = (newestIn w.line.queue).toList := by
      cases h : newestIn w.line.queue <;> simp [h]
    refine ⟨[w.line.queue], [], by simp [Passage.sends], ?_, ?_, ?_, ?_, ?_, ?_⟩
    · intro b hb
      rw [inbox] at hb
      exact (Option.some.inj hb).symm
    · rw [log]
      cases begun <;> simp [readBy, Event.readBy?]
    · have hread : takenBy w.generation (.owner (.read w.generation w.line.queue) :: t.log) =
          takenBy w.generation t.log :=
        (takenBy_append w.generation [_] t.log).trans (List.append_nil _)
      rw [log, takenBy_append, hread, hone, ← newest]
      congr 1
      cases begun with
      | none => rfl
      | some k =>
        have htaken : Tick.takenBy? w.generation k = k.fix := by simp [Tick.takenBy?, mine k rfl]
        show [k].filterMap (Tick.takenBy? w.generation) = k.fix.toList
        cases hfix : k.fix <;> simp [htaken, hfix]
    · rw [batch, Batch.received_ofList, List.flatten_singleton]
    · rw [batch, hone, Batch.superseded_ofList, List.flatten_singleton]
    · rw [batch, Batch.errors_ofList, List.flatten_singleton]

/-- What the worker of generation `g` has read and taken along the steps `ps` from `a`, and what of
it is counted. -/
structure Served (g : Nat) (a : Trip) (ps : List Passage) (t : Trip) : Prop where
  sent : ∃ unread, ps.flatMap Passage.sends = (readBy g t.log).flatten ++ unread ∧
    ∀ b, t.inbox = some b → b = (g, unread)
  taken : takenBy g t.log = (readBy g t.log).filterMap newestIn
  received : t.counters.samplesReceived =
    a.counters.samplesReceived + (fixesIn (readBy g t.log).flatten).length
  superseded : t.counters.samplesSuperseded + (takenBy g t.log).length =
    a.counters.samplesSuperseded + (fixesIn (readBy g t.log).flatten).length
  failures : t.counters.ingestionFailures =
    a.counters.ingestionFailures + errorsIn (readBy g t.log).flatten + ps.countP Passage.refuses

variable {a b c : Trip} {g : Nat}

theorem Served.step (h : Served g a ps b) (taken : Takes b ms c)
    (sole : (⟨b, ms, c⟩ : Passage).creates = false) : Served g a (ps ++ [⟨b, ms, c⟩]) c := by
  obtain ⟨unread, hsent, hline⟩ := h.sent
  obtain ⟨read, rest, hmoved, hrest, hread, htaken, hreceived, hsuperseded, herrors⟩ :=
    taken.handles.reading sole hline
  obtain ⟨tollReceived, tollSuperseded, tollFailures⟩ := (⟨b, ms, c⟩ : Passage).toll_samples
  have hcounters := taken.counters
  refine ⟨⟨rest, ?_, hrest⟩, ?_, ?_, ?_, ?_⟩
  · rw [List.flatMap_append, List.flatMap_singleton, hsent, hread, List.append_assoc, hmoved,
      List.flatten_append, List.append_assoc]
  · rw [htaken, hread, h.taken, List.filterMap_append]
  · have hadds : c.counters.samplesReceived =
        b.counters.samplesReceived + (⟨b, ms, c⟩ : Passage).toll.samplesReceived := by
      rw [hcounters]; rfl
    rw [hadds, tollReceived, hreceived, h.received, hread, List.flatten_append, fixesIn_append,
      List.length_append, Nat.add_assoc]
  · have hadds : c.counters.samplesSuperseded =
        b.counters.samplesSuperseded + (⟨b, ms, c⟩ : Passage).toll.samplesSuperseded := by
      rw [hcounters]; rfl
    have hbefore := h.superseded
    rw [hadds, tollSuperseded, htaken, hread, List.flatten_append, fixesIn_append,
      List.length_append, List.length_append]
    omega
  · have hadds : c.counters.ingestionFailures =
        b.counters.ingestionFailures + (⟨b, ms, c⟩ : Passage).toll.ingestionFailures := by
      rw [hcounters]; rfl
    rw [hadds, tollFailures, herrors, h.failures, hread, List.flatten_append, errorsIn_append,
      List.countP_append, countP_singleton_eq_toNat]
    omega

/-- **The account of a worker, along its life.** -/
theorem Trail.served (h : Trail a ps t) (born : Served g a [] a)
    (sole : ∀ q ∈ ps, q.creates = false) : Served g a ps t := by
  induction h with
  | refl => exact born
  | step _ taken ih =>
    have ih := ih fun q hq => sole q (List.mem_append_left _ hq)
    exact ih.step taken (sole _ (by simp))

variable {settings : Settings} {engine : Engine} {source : Source} {signal : Signal}

/-- What has been read, a worker of a generation that has been has read. -/
theorem Trail.read_le (h : Trail (.new settings engine source signal) ps t) {ds : List Delivery}
    (hread : .owner (.read g ds) ∈ t.log) : g ≤ t.generation := by
  induction h with
  | refl => cases hread
  | @step ps b c ms before taken ih =>
    have hle := taken.reaches.le.1
    cases taken.handles with
    | waits events log idle =>
      rw [log] at hread
      rcases List.mem_append.mp hread with hread | hread
      · cases idle _ hread
      · exact Nat.le_trans (ih hread) hle
    | reads w begun running silent log =>
      rw [log] at hread
      rcases List.mem_append.mp hread with hread | hread
      · obtain ⟨k, -, hk⟩ := List.mem_map.mp hread
        cases hk
      · rcases List.mem_cons.mp hread with hread | hread
        · cases hread
          have hg := before.reaches.sound.running w.generation (by rw [outline, running]; rfl)
          exact hg ▸ hle
        · exact Nat.le_trans (ih hread) hle

theorem readBy_eq_nil {log : List SessionEvent} (h : ∀ ds, .owner (.read g ds) ∉ log) :
    readBy g log = [] := by
  rw [readBy, List.filterMap_eq_nil_iff]
  intro e he
  have hne (ds : List Delivery) : e ≠ .owner (.read g ds) := fun hds =>
    h ds (hds ▸ List.mem_reverse.mp he)
  unfold Event.readBy?
  split
  · rename_i g' ds
    rw [if_neg fun hg => hne ds (by rw [hg])]
  · rfl

theorem takenBy_eq_nil (h : ∀ k, Ticked t k → k.generation ≠ g) : takenBy g t.log = [] := by
  rw [takenBy, List.filterMap_eq_nil_iff]
  intro k hk
  rw [Tick.takenBy?, if_neg fun hg => h k (mem_ticksIn.mp hk) hg.1]

/-- A worker that is made has read and taken nothing. -/
theorem Takes.served (h : Takes a ms b) (ha : Trail (.new settings engine source signal) ps a)
    (created : (⟨a, ms, b⟩ : Passage).creates = true) : Served b.generation b [] b := by
  obtain ⟨line, hlt⟩ := h.born created
  have hread : readBy b.generation a.log = [] :=
    readBy_eq_nil fun ds hds => Nat.not_le_of_lt hlt (ha.read_le hds)
  have htaken : takenBy b.generation a.log = [] :=
    takenBy_eq_nil fun k hk hg => Nat.not_le_of_lt hlt (hg ▸ ha.reaches.sound.generation k hk)
  cases h.handles with
  | reads _ _ _ silent => simp [Passage.creates, silent] at created
  | waits events log idle =>
    obtain ⟨hreadNow, htakenNow⟩ := of_isIdle (g := b.generation) idle
    have hread : readBy b.generation b.log = [] := by rw [log, readBy_append, hread, hreadNow]; rfl
    have htaken : takenBy b.generation b.log = [] := by
      rw [log, takenBy_append, htaken, htakenNow]; rfl
    refine ⟨⟨[], by rw [hread]; rfl, fun x hx => ?_⟩, ?_, ?_, ?_, ?_⟩
    · rw [line] at hx
      exact (Option.some.inj hx).symm
    · rw [hread, htaken]; rfl
    · rw [hread]; rfl
    · rw [hread, htaken]; rfl
    · rw [hread]; rfl

theorem Trail.takes (h : Trail a ps t) {q : Passage} (hq : q ∈ ps) :
    Takes q.before q.moves q.after := by
  induction h with
  | refl => cases hq
  | step _ taken ih =>
    rcases List.mem_append.mp hq with hq | hq
    · exact ih hq
    · rw [List.mem_singleton.mp hq]
      exact taken

/-- A regular tick that begins in a step takes the newest fix in the line, and leaves the line
empty. -/
theorem Takes.newest (h : Takes t ms t') {k : Tick} (now : Ticked t' k) (before : ¬ Ticked t k)
    (full : k.scope = .full) : ∃ w, t.worker = some w ∧ k.generation = w.generation ∧
      k.fix = newestIn w.line.queue ∧ t'.inbox = some (w.generation, []) := by
  cases h.handles with
  | waits events log idle =>
    rw [Ticked, log] at now
    have hscope := idle _ ((List.mem_append.mp now).resolve_right before)
    rw [Event.isIdle, full] at hscope
    cases hscope
  | reads w begun running silent log _ mine newest inbox =>
    rw [Ticked, log] at now
    rcases List.mem_append.mp now with now | now
    · obtain ⟨k', hk', hk⟩ := List.mem_map.mp now
      cases hk
      rw [Option.mem_toList.mp hk'] at newest mine
      exact ⟨w, running, (mine k rfl).1, newest, inbox⟩
    · rcases List.mem_cons.mp now with now | now
      · cases now
      · exact absurd now before

theorem newestIn_sublist (dss : List (List Delivery)) :
    (dss.filterMap newestIn).Sublist (fixesIn dss.flatten) := by
  induction dss with
  | nil => exact List.Sublist.refl _
  | cons ds dss ih =>
    rw [List.flatten_cons, fixesIn_append]
    cases h : newestIn ds with
    | none =>
      rw [List.filterMap_cons_none h]
      exact ih.trans (List.sublist_append_right _ _)
    | some fix =>
      rw [List.filterMap_cons_some h]
      have hmem : fix ∈ fixesIn ds := List.mem_of_getLast? h
      exact (List.singleton_sublist.mpr hmem).append ih

/-- **No sample is lost, told twice or out of order, but what is counted.** Whatever is sent down
the line of a worker is read once and in order, or waits. A regular tick takes the newest fix in the
line, the others of a batch are superseded, and every error read and fix refused is a failure. -/
theorem samples_accounted_for {p : Passage}
    (hp : Reaches (.new settings engine source signal) ms p.before)
    (taken : Takes p.before p.moves p.after) (created : p.creates = true)
    (h : Trail p.after ps t) (sole : ∀ q ∈ ps, q.creates = false) :
    (∃ unread, ps.flatMap Passage.sends = (readBy p.after.generation t.log).flatten ++ unread ∧
      ∀ w, t.worker = some w → w.generation = p.after.generation ∧ w.line.queue = unread) ∧
    (takenBy p.after.generation t.log).Sublist (fixesIn (ps.flatMap Passage.sends)) ∧
    takenBy p.after.generation t.log =
      (readBy p.after.generation t.log).filterMap newestIn ∧
    (∀ q ∈ ps, ∀ k, Ticked q.after k → ¬ Ticked q.before k → k.scope = .full →
      ∃ w, q.before.worker = some w ∧ k.generation = w.generation ∧
        k.fix = newestIn w.line.queue ∧ q.after.inbox = some (w.generation, [])) ∧
    t.metrics.samplesReceived + p.after.metrics.samplesSuperseded =
      p.after.metrics.samplesReceived + t.metrics.samplesSuperseded +
        (takenBy p.after.generation t.log).length ∧
    t.metrics.ingestionFailures = p.after.metrics.ingestionFailures +
      errorsIn (readBy p.after.generation t.log).flatten + ps.countP Passage.refuses := by
  obtain ⟨qs, hqs, -⟩ := hp.trail
  have hserved := h.served (taken.served hqs created) sole
  obtain ⟨unread, hsent, hline⟩ := hserved.sent
  refine ⟨⟨unread, hsent, fun w hw => ?_⟩, ?_, hserved.taken, ?_, ?_, hserved.failures⟩
  · exact Prod.mk.inj (hline (w.generation, w.line.queue) (by rw [inbox, hw]; rfl))
  · rw [hserved.taken, hsent, fixesIn_append]
    exact (newestIn_sublist _).trans (List.sublist_append_left _ _)
  · exact fun q hq k now before full => (h.takes hq).newest now before full
  · show t.counters.samplesReceived + p.after.counters.samplesSuperseded =
      p.after.counters.samplesReceived + t.counters.samplesSuperseded + _
    have hreceived := hserved.received
    have hsuperseded := hserved.superseded
    omega

/-- A session whose engine refuses all fixes. -/
def refusingTrip : Trip :=
  .new {} (.scripted { ingestError := some (.ingest "refused") }) (.manual {}) .none

/-- It is started. -/
def refusingStart : Passage :=
  ⟨refusingTrip, [.decide (.call .start)], refusingTrip.call none .start⟩

/-- Two fixes and an error are read at once: a fix is superseded, and the other is refused. -/
theorem samples_accounted_for_refused :
    ∃ ps t, Trail refusingStart.after ps t ∧ (∀ q ∈ ps, q.creates = false) ∧
      t.metrics.samplesReceived = 2 ∧ t.metrics.samplesSuperseded = 1 ∧
      (takenBy refusingStart.after.generation t.log).length = 1 ∧
      errorsIn (readBy refusingStart.after.generation t.log).flatten +
        ps.countP Passage.refuses = 2 := by
  obtain ⟨t, h, ht⟩ := exists_of_play 40 refusingStart.after
    [.work, .decide (.call (.push sampleFix)), .decide (.call (.pushError (.source "lost"))),
      .decide (.call (.push sampleFix)), .work]
    (p := fun t => t.metrics.samplesReceived = 2 && t.metrics.samplesSuperseded = 1 &&
      t.metrics.ingestionFailures = 2) rfl
  simp only [Bool.and_eq_true, decide_eq_true_eq] at ht
  obtain ⟨⟨received, superseded⟩, failures⟩ := ht
  obtain ⟨ps, hps, hms⟩ := h.trail
  have sole (q : Passage) (hq : q ∈ ps) : q.creates = false := by
    have hnone : q.moves.any Move.isStart = false := by
      rw [List.any_eq_false]
      intro m hm
      have hmem : m ∈ ps.flatMap (·.moves) := List.mem_flatMap.mpr ⟨q, hq, hm⟩
      rw [hms] at hmem
      simp only [List.mem_cons, List.not_mem_nil, or_false] at hmem
      rcases hmem with rfl | rfl | rfl | rfl | rfl <;> exact Bool.false_ne_true
    rw [Passage.creates, hnone]
    rfl
  obtain ⟨-, -, -, -, hreceived, hfailures⟩ :=
    samples_accounted_for (p := refusingStart) (.refl refusingTrip) (.move rfl) rfl hps sole
  have hnew : refusingStart.after.metrics = { started := 1 } := rfl
  rw [hnew, received, superseded] at hreceived
  rw [hnew, failures] at hfailures
  simp only [Nat.zero_add, Nat.add_zero] at hreceived hfailures
  exact ⟨ps, t, hps, sole, received, superseded, by omega, hfailures.symm⟩

end Trip
end LiveTrip
