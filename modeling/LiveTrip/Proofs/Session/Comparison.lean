import LiveTrip.Proofs.Dispatch.Mirror
import LiveTrip.Proofs.Session.Outline

/-!
# Sessions that go through the same

Two sessions may go through the same although their pasts have left them with other numbers of
generations, epochs and ticks, at other times, and with bystanders registered in the first alone.

* `Origins`: where two counts stand that go on alike.
* `Comparison`: who the bystanders of the first session are, and where its counts and those of the
  second stand.
* `Stage.Mirrors`, `Note.Mirrors`, `Worker.Mirrors`, `Source.Mirrors` and so on: what goes together
  under a comparison.
* `Trip.Mirrors`: the sessions go together.
-/

namespace LiveTrip

/-! ## Counts -/

/-- Where two counts stand. -/
structure Origins where
  left : Nat
  right : Nat

namespace Origins

variable {o : Origins} {m m' n n' : Nat}

/-- The numbers are as far from the one origin as from the other. -/
def Same (o : Origins) (n n' : Nat) : Prop := n + o.right = n' + o.left

/-- The numbers are as far past the one origin as past the other. -/
structure Since (o : Origins) (n n' : Nat) : Prop where
  same : o.Same n n'
  le : o.left ≤ n

/-- The numbers are as far past the one origin as past the other, or before both. -/
def Tied (o : Origins) (n n' : Nat) : Prop := o.Since n n' ∨ n < o.left ∧ n' < o.right

/-- Both counts stand at zero. -/
def zero : Origins := ⟨0, 0⟩

theorem same_zero : zero.Same n n' ↔ n = n' := Iff.rfl

theorem since_zero (n : Nat) : zero.Since n n := ⟨rfl, Nat.zero_le _⟩

theorem since_self (n n' : Nat) : Since ⟨n, n'⟩ n n' := ⟨Nat.add_comm _ _, Nat.le_refl _⟩

theorem tied_zero : zero.Tied n n' ↔ n = n' := by
  constructor
  · rintro (h | h)
    · exact h.same
    · exact absurd h.1 (Nat.not_lt_zero _)
  · rintro rfl
    exact .inl (since_zero n)

theorem Same.add (h : o.Same n n') (k : Nat) : o.Same (n + k) (n' + k) := by
  unfold Same at *; omega

theorem Same.le_iff (hm : o.Same m m') (hn : o.Same n n') : m ≤ n ↔ m' ≤ n' := by
  unfold Same at *; omega

theorem Since.succ (h : o.Since n n') : o.Since (n + 1) (n' + 1) :=
  ⟨h.same.add 1, Nat.le_succ_of_le h.le⟩

theorem Since.tied (h : o.Since n n') : o.Tied n n' := .inl h

/-- Numbers that have been reached since are equal in both counts or in neither. -/
theorem Since.eq_iff (h : o.Since n n') (hm : o.Tied m m') : n = m ↔ n' = m' := by
  obtain ⟨h, hle⟩ := h
  rcases hm with ⟨hm, hle'⟩ | ⟨hm, hm'⟩ <;> unfold Same at * <;> omega

end Origins

/-! ## Comparisons -/

/-- Bystanders of the first of two sessions, and where the counts of both stand. -/
structure Comparison where
  aside : Bystanders Category Listener := .nobody
  /-- The signal is no bystander: what it is told changes its estimates. -/
  signal : ∀ c, aside.who c .speedSignal = false := by exact fun _ => rfl
  clock : Origins := .zero
  generation : Origins := .zero
  epoch : Origins := .zero
  ticks : Origins := .zero
  /-- What had happened before in the first session, and in the second. -/
  past : List SessionEvent := []
  past' : List SessionEvent := []

/-! ## What goes together -/

section Sources

variable (clock : Origins)

structure ReplayRun.Mirrors (r r' : ReplayRun) : Prop where
  next : r.next = r'.next
  due : clock.Same r.due r'.due

/-- Sources that go together. A replay is as far from its next fix in both. -/
inductive Source.Mirrors : Source → Source → Prop
  | manual (m : ManualSource) : Source.Mirrors (.manual m) (.manual m)
  | replay (s : ReplaySource) {run' : Option ReplayRun}
      (run : Option.Rel (ReplayRun.Mirrors clock) s.run run') :
      Source.Mirrors (.replay s) (.replay { s with run := run' })

end Sources

/-- A call on behalf of a bystander, or with the guard of one. -/
def Call.Aside (A : Bystanders Category Listener) : Call → Prop
  | .observe l c | .unobserve l c => A.who c l = true
  | .subscribe l c slot => A.who c l = true ∧ A.slot slot = true
  | .release slot | .detach slot => A.slot slot = true
  | _ => False

/-- A call that is about no bystander. -/
def Call.Ordinary (A : Bystanders Category Listener) : Call → Prop
  | .observe l c | .unobserve l c => A.who c l = false
  | .subscribe l c slot => A.who c l = false ∧ A.slot slot = false
  | .release slot | .detach slot => A.slot slot = false
  | _ => True

instance (A : Bystanders Category Listener) (c : Call) : Decidable (c.Aside A) :=
  match c with
  | .observe l b | .unobserve l b => inferInstanceAs (Decidable (A.who b l = true))
  | .subscribe l b slot => inferInstanceAs (Decidable (A.who b l = true ∧ A.slot slot = true))
  | .release slot | .detach slot => inferInstanceAs (Decidable (A.slot slot = true))
  | .start | .stop | .setRoutes _ | .setGuidance _ | .setDestination _ | .query | .close
  | .control _ | .push _ | .pushError _ | .setLastKnown _ | .failNextStart | .haltSource =>
    inferInstanceAs (Decidable False)

instance (A : Bystanders Category Listener) (c : Call) : Decidable (c.Ordinary A) :=
  match c with
  | .observe l b | .unobserve l b => inferInstanceAs (Decidable (A.who b l = false))
  | .subscribe l b slot => inferInstanceAs (Decidable (A.who b l = false ∧ A.slot slot = false))
  | .release slot | .detach slot => inferInstanceAs (Decidable (A.slot slot = false))
  | .start | .stop | .setRoutes _ | .setGuidance _ | .setDestination _ | .query | .close
  | .control _ | .push _ | .pushError _ | .setLastKnown _ | .failNextStart | .haltSource =>
    inferInstanceAs (Decidable True)

theorem Call.not_isEmpty_of_aside {A : Bystanders Category Listener} {c : Call} (h : c.Aside A) :
    ¬ A.IsEmpty := by
  cases c with
  | observe | unobserve => exact Bystanders.not_isEmpty_of_who h
  | subscribe => exact Bystanders.not_isEmpty_of_who h.1
  | release | detach => exact Bystanders.not_isEmpty_of_slot h
  | _ => exact h.elim

theorem Call.not_aside_of_ordinary {A : Bystanders Category Listener} {c : Call}
    (h : c.Ordinary A) : ¬ c.Aside A := by
  cases c with
  | observe | unobserve | release | detach =>
    intro h'
    exact Bool.false_ne_true (Eq.trans (Eq.symm h) h')
  | subscribe =>
    intro h'
    exact Bool.false_ne_true (Eq.trans (Eq.symm h.1) h'.1)
  | _ => exact id

/-- Without bystanders, no call is about one. -/
theorem Call.ordinary_of_isEmpty {A : Bystanders Category Listener} (hA : A.IsEmpty) (c : Call) :
    c.Ordinary A := by
  cases c with
  | observe | unobserve => exact hA.1 _ _
  | subscribe => exact ⟨hA.1 _ _, hA.2 _⟩
  | release | detach => exact hA.2 _
  | _ => trivial

section Relations

variable (K : Comparison)

/-- Causes that go together. -/
inductive Cause.Mirrors : Cause → Cause → Prop
  | call : Cause.Mirrors .call .call
  | tick {n n' : Nat} (number : K.ticks.Same n n') : Cause.Mirrors (.tick n) (.tick n')
  | replay : Cause.Mirrors .replay .replay

structure Tick.Mirrors (k k' : Tick) : Prop where
  number : K.ticks.Same k.number k'.number
  generation : K.generation.Tied k.generation k'.generation
  epoch : K.epoch.Tied k.epoch k'.epoch
  scope : k.scope = k'.scope
  fix : k.fix = k'.fix

/-- What a worker is waiting for in both, from when and until when. -/
inductive Wait.Mirrors : Wait → Wait → Prop
  | turn (fix : Option Fix) : Wait.Mirrors (.turn fix) (.turn fix)
  | status {k k' : Tick} (asked : Asked) {ready ready' deadline deadline' : Nat}
      (tick : k.Mirrors K k') (isReady : K.clock.Same ready ready')
      (isLate : K.clock.Same deadline deadline') :
      Wait.Mirrors (.status k asked ready deadline) (.status k' asked ready' deadline')
  | delivery : Wait.Mirrors .delivery .delivery
  | beat : Wait.Mirrors .beat .beat
  | working : Wait.Mirrors .working .working
  | ended : Wait.Mirrors .ended .ended

structure Worker.Mirrors (w w' : Worker) : Prop where
  generation : K.generation.Since w.generation w'.generation
  line : w.line = w'.line
  hasFix : w.hasFix = w'.hasFix
  due : Option.Rel K.clock.Same w.due w'.due
  wait : w.wait.Mirrors K w'.wait

/-- What two sessions show when they are looked up. Bystanders only fail. -/
structure Snapshot.Mirrors (s s' : Snapshot) : Prop where
  last : ∀ c, (s.hub.get c).last = (s'.hub.get c).last
  facts : s.facts = s'.facts
  counters : { s.counters with observerFailures := 0 } =
    { s'.counters with observerFailures := 0 }
  source : s.source.Mirrors K.clock s'.source
  ingested : s.ingested = s'.ingested
  equal : K.aside.IsEmpty → s.hub = s'.hub ∧ s.counters = s'.counters

/-- Answers that go together. Observers may have other numbers where there are bystanders. -/
inductive Answer.Mirrors : Answer → Answer → Prop
  | done : Answer.Mirrors .done .done
  | refused (cause : TripError) : Answer.Mirrors (.refused cause) (.refused cause)
  | id {id id' : ObserverId} (equal : K.aside.IsEmpty → id = id') :
      Answer.Mirrors (.id id) (.id id')
  | flag (b : Bool) : Answer.Mirrors (.flag b) (.flag b)
  | noGuard : Answer.Mirrors .noGuard .noGuard
  | snapshot {s s' : Snapshot} (shown : s.Mirrors K s') :
      Answer.Mirrors (.snapshot s) (.snapshot s')
  | closed : Answer.Mirrors .closed .closed

structure Reply.Mirrors (r r' : Reply) : Prop where
  caller : r.caller = r'.caller
  call : r.call = r'.call
  ordinary : r.call.Ordinary K.aside
  answer : r.answer.Mirrors K r'.answer

/-- Stages that go together. -/
inductive Stage.Mirrors : Stage → Stage → Prop
  | reply {r r' : Reply} (reply : r.Mirrors K r') : Stage.Mirrors (.reply r) (.reply r')
  | register {l : Listener} {c : Category} (ordinary : K.aside.who c l = false) :
      Stage.Mirrors (.register l c) (.register l c)
  | subscribe {l : Listener} {c : Category} {slot : Slot} (ordinary : K.aside.who c l = false)
      (own : K.aside.slot slot = false) :
      Stage.Mirrors (.subscribe l c slot) (.subscribe l c slot)
  | enter (s : SessionState) : Stage.Mirrors (.enter s) (.enter s)
  | recompute {k k' : Cause} (cause : k.Mirrors K k') :
      Stage.Mirrors (.recompute k) (.recompute k')
  | leaveOffRoute : Stage.Mirrors .leaveOffRoute .leaveOffRoute
  | forgetTrip : Stage.Mirrors .forgetTrip .forgetTrip
  | announce {k k' : Tick} (tick : k.Mirrors K k') : Stage.Mirrors (.announce k) (.announce k')
  | ingest {k k' : Tick} (tick : k.Mirrors K k') : Stage.Mirrors (.ingest k) (.ingest k')
  | ask {k k' : Tick} (tick : k.Mirrors K k') : Stage.Mirrors (.ask k) (.ask k')
  | conclude {k k' : Tick} (tick : k.Mirrors K k') (answer : Except EngineError Status) :
      Stage.Mirrors (.conclude k answer) (.conclude k' answer)
  | locate {k k' : Tick} (tick : k.Mirrors K k') (s : Status) :
      Stage.Mirrors (.locate k s) (.locate k' s)
  | flag {k k' : Tick} (tick : k.Mirrors K k') (s : Status) :
      Stage.Mirrors (.flag k s) (.flag k' s)
  | cue {k k' : Tick} (tick : k.Mirrors K k') (s : Status) : Stage.Mirrors (.cue k s) (.cue k' s)
  | report {k k' : Tick} (tick : k.Mirrors K k') (s : Status) :
      Stage.Mirrors (.report k s) (.report k' s)
  | arrive {k k' : Tick} (tick : k.Mirrors K k') (complete : Bool) :
      Stage.Mirrors (.arrive k complete) (.arrive k' complete)
  | tally {k k' : Tick} (tick : k.Mirrors K k') : Stage.Mirrors (.tally k) (.tally k')
  | proceed {g g' : Nat} (generation : K.generation.Tied g g') :
      Stage.Mirrors (.proceed g) (.proceed g')

/-- Stages of a call on behalf of a bystander. -/
inductive Stage.Aside : Stage → Prop
  | reply {r : Reply} (about : r.call.Aside K.aside) : Stage.Aside (.reply r)
  | register {l : Listener} {c : Category} (bystander : K.aside.who c l = true) :
      Stage.Aside (.register l c)
  | subscribe {l : Listener} {c : Category} {slot : Slot} (bystander : K.aside.who c l = true)
      (reserved : K.aside.slot slot = true) : Stage.Aside (.subscribe l c slot)

/-- Notes that go together. -/
inductive Note.Mirrors : Note → Note → Prop
  | replied {r r' : Reply} (reply : r.Mirrors K r') : Note.Mirrors (.replied r) (.replied r')
  | started {g g' : Nat} (generation : K.generation.Tied g g') :
      Note.Mirrors (.started g) (.started g')
  | stopped {g g' : Nat} (generation : K.generation.Tied g g') :
      Note.Mirrors (.stopped g) (.stopped g')
  | sent {g g' : Nat} (generation : K.generation.Tied g g') (d : Delivery) :
      Note.Mirrors (.sent g d) (.sent g' d)
  | read {g g' : Nat} (generation : K.generation.Tied g g') (ds : List Delivery) :
      Note.Mirrors (.read g ds) (.read g' ds)
  | ticked {k k' : Tick} (tick : k.Mirrors K k') : Note.Mirrors (.ticked k) (.ticked k')
  | answered {k k' : Tick} (tick : k.Mirrors K k') (failed : Bool) :
      Note.Mirrors (.answered k failed) (.answered k' failed)
  | estimated (start stop : Nat) (congestion : List Nat) (value : Option Nat) :
      Note.Mirrors (.estimated start stop congestion value) (.estimated start stop congestion value)
  | blended (route : String) (leg : Nat) :
      Note.Mirrors (.blended route leg) (.blended route leg)

/-- A bystander is answered something. -/
inductive Note.Aside : Note → Prop
  | replied {r : Reply} (about : r.call.Aside K.aside) : Note.Aside (.replied r)

theorem Stage.not_isEmpty_of_aside {s : Stage} (h : s.Aside K) : ¬ K.aside.IsEmpty := by
  cases h with
  | reply about => exact Call.not_isEmpty_of_aside about
  | register bystander | subscribe bystander => exact Bystanders.not_isEmpty_of_who bystander

theorem Note.not_isEmpty_of_aside {n : Note} (h : n.Aside K) : ¬ K.aside.IsEmpty := by
  cases h with
  | replied about => exact Call.not_isEmpty_of_aside about

/-- How the dispatches of the sessions go together. -/
def Comparison.mirror : Mirror Category Category.Value Listener Stage Note where
  aside := K.aside
  cause := Cause.Mirrors K
  owner := Stage.Mirrors K
  ownerAside := Stage.Aside K
  event := Note.Mirrors K
  eventAside := Note.Aside K
  past := K.past
  past' := K.past'
  replay := .replay
  not_isEmpty_of_owner _ := Stage.not_isEmpty_of_aside K
  not_isEmpty_of_event _ := Note.not_isEmpty_of_aside K

end Relations

/-- **The second session mirrors the first**: it goes through the same, without the bystanders. -/
structure Trip.Mirrors (K : Comparison) (t t' : Trip) : Prop where
  settings : t.settings = t'.settings
  engine : t.engine = t'.engine
  source : t.source.Mirrors K.clock t'.source
  signal : t.signal = t'.signal
  dispatch : Dispatch.Mirrors K.mirror t.dispatch t'.dispatch
  facts : t.facts = t'.facts
  counters : t.counters = t'.counters
  generation : K.generation.Since t.generation t'.generation
  epoch : K.epoch.Since t.epoch t'.epoch
  worker : Option.Rel (Worker.Mirrors K) t.worker t'.worker
  ticks : K.ticks.Same t.ticks t'.ticks
  now : K.clock.Same t.now t'.now
  closed : t.closed = t'.closed

end LiveTrip
