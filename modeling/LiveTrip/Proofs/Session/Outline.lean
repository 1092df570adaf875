import LiveTrip.Session.Run

/-!
# Outlines and outcomes

A stage, a call or a turn of a task changes much of a trip, but which tick may tell what hangs on
little of it.

* `Outline`: that little: the generation, the route epoch, the worker, the lifecycle, the arrival.
* `Outcome`: what a stage, a call or a turn comes to: the fan-out it begins, what it puts on the
  stack below that, what it notes, and the outline it leaves.
* `Trip.Shows`: a trip that has changed in this way and no other, as far as stack, log and outline
  go.
-/

namespace LiveTrip

abbrev SessionFanout := Fanout Category Category.Value

abbrev SessionFrame := Frame Category Category.Value Listener Stage

abbrev SessionEvent := Event Category Category.Value Listener Note

/-- What the ticks that may still tell something hang on. -/
structure Outline where
  generation : Nat
  epoch : Nat
  ticks : Nat
  /-- Generation of the running worker. -/
  running : Option Nat
  /-- The tick whose status the worker waits for. -/
  pending : Option Tick
  state : SessionState
  arrived : Bool
  closed : Bool
  /-- The source is between its start and its end. -/
  active : Bool

/-- The tick whose status a worker waits for. -/
def Worker.pending? (w : Worker) : Option Tick :=
  match w.wait with
  | .status k _ _ _ => some k
  | _ => none

/-- Whether a source is between its start and its end. -/
def Source.active : Source → Bool
  | .manual m => m.running
  | .replay s => s.run.isSome

/-- What a stage, a call or a turn comes to. -/
structure Outcome where
  /-- The fan-out that begins, and whom it will tell. -/
  told : Option (SessionFanout × List (ObserverId × Listener)) := none
  /-- What is put on the stack below the fan-out. -/
  own : List SessionFrame := []
  /-- What is noted, last first. -/
  notes : List Note := []
  outline : Outline

namespace Trip

def outline (t : Trip) : Outline where
  generation := t.generation
  epoch := t.epoch
  ticks := t.ticks
  running := t.worker.map (·.generation)
  pending := t.worker.bind (·.pending?)
  state := t.facts.state
  arrived := t.facts.arrived
  closed := t.closed
  active := t.source.active

/-- Generation of the running worker, if it has had its first turn. -/
def roused (t : Trip) : Option Nat :=
  t.worker.bind fun w =>
    match w.wait with
    | .turn _ => none
    | _ => some w.generation

/-- The stack. -/
abbrev stack (t : Trip) : List SessionFrame := t.dispatch.stack

/-- What has happened, last first. -/
abbrev log (t : Trip) : List SessionEvent := t.dispatch.log

/-- The fan-out of a value that is told now. -/
def telling (t : Trip) (cause : Cause) (c : Category) (v : c.Value) :
    SessionFanout × List (ObserverId × Listener) :=
  (⟨t.dispatch.serial, cause, c, v⟩, (t.dispatch.registry c).entries)

/-- The fan-out that registering a listener now sets off: the last value, for one that is new. -/
def owed (t : Trip) (l : Listener) (c : Category) :
    Option (SessionFanout × List (ObserverId × Listener)) :=
  let e := (t.dispatch.registry c).enroll l
  e.replay.map fun v => (⟨t.dispatch.serial, .replay, c, v⟩, [(e.id, l)])

/-- As far as stack, log and outline go, `t` has become `t'` with the outcome `o`. -/
structure Shows (t t' : Trip) (o : Outcome) : Prop where
  stack : t'.stack = o.told.toList.map (fun p => .fanout p.1 p.2) ++ (o.own ++ t.stack)
  log : t'.log = o.told.toList.map (fun p => .began p.1 p.2) ++
    (o.notes.map .owner ++ t.log)
  outline : t'.outline = o.outline

variable {t t' : Trip} {o : Outcome}

@[simp] theorem stack_pop (t : Trip) : t.pop.stack = t.stack.tail := rfl

/-! ## The worker -/

theorem workerOf?_eq_some {g : Nat} {w : Worker} :
    t.workerOf? g = some w ↔ t.worker = some w ∧ w.generation = g := by
  simp [workerOf?, Option.filter_eq_some_iff]

/-- The running worker stays who it is, whatever it waits for. -/
theorem outline_mapWorker (t : Trip) (g : Nat) {f : Worker → Worker}
    (hf : ∀ w, (f w).generation = w.generation) :
    ∃ pending, (t.mapWorker g f).outline = { t.outline with pending } ∧
      ∀ k, pending = some k → t.outline.pending = some k ∨
        ∃ w, t.worker = some w ∧ (f w).pending? = some k := by
  unfold mapWorker
  split
  · rename_i w hw
    obtain ⟨hw, -⟩ := workerOf?_eq_some.mp hw
    exact ⟨(f w).pending?, by simp [outline, hw, hf], fun k hk => .inr ⟨w, hw, hk⟩⟩
  · exact ⟨t.outline.pending, rfl, fun _ => .inl⟩

@[simp] theorem dispatch_mapWorker (t : Trip) (g : Nat) (f : Worker → Worker) :
    (t.mapWorker g f).dispatch = t.dispatch := by
  unfold mapWorker; split <;> rfl

/-! ## One after another -/

theorem Shows.refl (t : Trip) : Shows t t { outline := t.outline } := ⟨rfl, rfl, rfl⟩

/-- Something else has changed. -/
theorem Shows.congr {u : Trip} (h : Shows t t' o) (hd : u.dispatch = t'.dispatch)
    (ho : u.outline = t'.outline) : Shows t u o := by
  refine ⟨?_, ?_, ho.trans h.outline⟩
  · rw [Trip.stack, hd]; exact h.stack
  · rw [Trip.log, hd]; exact h.log

/-- Something more is noted. -/
theorem Shows.note {own : List SessionFrame} {notes : List Note} {outline : Outline}
    (h : Shows t t' { own, notes, outline }) (n : Note) :
    Shows t (t'.note n) { own, notes := n :: notes, outline } :=
  ⟨h.stack, congrArg (List.cons (Event.owner n)) h.log, h.outline⟩

/-- Stages are put on top. -/
theorem Shows.pushStages {own : List SessionFrame} {notes : List Note} {outline : Outline}
    (h : Shows t t' { own, notes, outline }) (ss : List Stage) :
    Shows t (t'.pushStages ss) { own := ss.map .owner ++ own, notes, outline } where
  stack := by
    have hs : t'.stack = own ++ t.stack := h.stack
    show ss.map .owner ++ t'.stack = _
    rw [hs]
    simp
  log := h.log
  outline := h.outline

/-- A value is told. -/
theorem Shows.tell {own : List SessionFrame} {notes : List Note} {outline : Outline}
    (h : Shows t t' { own, notes, outline }) (cause : Cause) (c : Category) (v : c.Value) :
    Shows t (t'.tell cause c v) { told := t'.telling cause c v, own, notes, outline } where
  stack := congrArg (List.cons _) h.stack
  log := congrArg (List.cons _) h.log
  outline := h.outline

end Trip
end LiveTrip
