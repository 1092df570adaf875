import LiveTrip.Observer.Board
import LiveTrip.Proofs.Dispatch.Account
import LiveTrip.Proofs.Run

/-!
# Calls and the fan-outs they owe

On every run of a registry, with observers that call back into it from inside a delivery to any
depth, or fail.

* `Board.Runs`: the runs of a board, built at their end.
* `Board.Made`: a call that was made on a run.
* `Board.due`: the fan-out that a call owes, and to whom: a publish owes its value to all who are
  registered, and a registration owes the last value to an observer that is new.
* `Board.call_spec`: a call begins the fan-out it owes, above its own answer.
* `Board.began_of_made`, `Board.made_of_began`: the fan-outs of a run are those owed by its calls.
-/

namespace LiveTrip.Board

variable {O V : Type} [DecidableEq O]

/-! ## Runs -/

/-- The runs of a board. -/
abbrev Runs : Board O V → List (Decision (Call O V)) → Board O V → Prop :=
  ComputedRun tick? decide?

theorem Reaches.runs {a b : Board O V} {ds : List (Decision (Call O V))} (h : Reaches a ds b) :
    Runs a ds b := by
  induction h with
  | refl => exact .refl
  | tick hs _ ih => exact (Run.silent (.refl : Runs _ _ _) hs).trans ih
  | decide hs _ ih => exact (Run.act (.refl : Runs _ _ _) hs).trans ih

theorem Reaches.trans {a b c : Board O V} {ds es : List (Decision (Call O V))}
    (h : Reaches a ds b) (h' : Reaches b es c) : Reaches a (ds ++ es) c := by
  induction h with
  | refl => exact h'
  | tick hs _ ih => exact .tick hs (ih h')
  | decide hs _ ih => exact .decide hs (ih h')

theorem reaches_of_runs {a b : Board O V} {ds : List (Decision (Call O V))} (h : Runs a ds b) :
    Reaches a ds b := by
  induction h with
  | refl => exact .refl a
  | silent _ hs ih => simpa using ih.trans (.tick hs (.refl _))
  | act _ hs ih => exact ih.trans (.decide hs (.refl _))

/-- On the run by `ds` from an empty board to `e`, the call `c` was made when the board was `b`. -/
def Made (ds : List (Decision (Call O V))) (e b : Board O V) (caller : Option O) (c : Call O V) :
    Prop :=
  ∃ before after, ds = before ++ .call c :: after ∧ Reaches empty before b ∧
    b.speaker = some caller ∧ Reaches (b.call caller c) after e

/-! ## Every step is made of steps of the dispatch -/

theorem perform_steps (b : Board O V) (c : Call O V) : Dispatch.Steps b (b.perform c) := by
  cases c with
  | publish v => exact b.publish_steps () v nofun
  | register o => exact b.register_steps () o
  | unregister o => exact b.unregisterObserver_steps () o
  | unregisterId id => exact b.unregister_steps () id
  | subscribe o slot => exact b.subscribe_steps () o slot
  | release slot => exact b.release_steps slot
  | detach slot => exact b.guards_steps _
  | forget => exact b.forget_steps ()
  | last => exact .refl

theorem call_steps (b : Board O V) (caller : Option O) (c : Call O V) :
    Dispatch.Steps b (b.call caller c) :=
  (Dispatch.Step.push b _ rfl).steps.trans (perform_steps _ c)

omit [DecidableEq O] in
theorem tick?_steps {b b' : Board O V} (h : b.tick? = some b') : Dispatch.Steps b b' := by
  unfold tick? at h
  split at h
  · cases h
    exact (Dispatch.Step.pop b _ _ ‹_› fun _ => rfl).steps.trans (Dispatch.Step.note _ _).steps
  · exact Dispatch.advance?_steps h

theorem decide?_steps {b b' : Board O V} {d : Decision (Call O V)} (h : b.decide? d = some b') :
    Dispatch.Steps b b' := by
  unfold decide? at h
  split at h <;> cases h
  · exact call_steps _ _ _
  · exact b.finish_steps
  · exact b.fail_steps

theorem decide?_call {b : Board O V} {caller : Option O} (h : b.speaker = some caller)
    (c : Call O V) : b.decide? (.call c) = some (b.call caller c) := by
  simp only [decide?, h]

theorem Reaches.steps {a b : Board O V} {ds : List (Decision (Call O V))} (h : Reaches a ds b) :
    Dispatch.Steps a b := by
  induction h with
  | refl => exact .refl
  | tick hs _ ih => exact (tick?_steps hs).trans ih
  | decide hs _ ih => exact (decide?_steps hs).trans ih

theorem Reaches.accounted {b : Board O V} {ds : List (Decision (Call O V))}
    (h : Reaches empty ds b) : b.Accounted :=
  (Dispatch.Accounted.nil rfl rfl).steps h.steps

theorem Reaches.wellFormed {b : Board O V} {ds : List (Decision (Call O V))}
    (h : Reaches empty ds b) : b.items.WellFormed :=
  h.steps.wellFormed (fun _ => Registry.wellFormed_empty) ()

/-! ## What a call owes -/

/-- The fan-out that a call owes, and to whom. -/
def due (b : Board O V) : Call O V → Option (Fanout Unit (fun _ => V) × List (ObserverId × O))
  | .publish v => some (⟨b.serial, .call, (), v⟩, b.items.entries)
  | .register o | .subscribe o _ =>
    if (b.items.idOf? o).isSome then none
    else b.items.last.map fun v => (⟨b.serial, .replay, (), v⟩, [(b.items.nextId, o)])
  | _ => none

/-- A fan-out is owed by a publish, to all who are registered, or to a new observer while there is a
last value. -/
theorem due_cases {b : Board O V} {c : Call O V} {f : Fanout Unit (fun _ => V)}
    {audience : List (ObserverId × O)} (h : b.due c = some (f, audience)) :
    (∃ v, c = .publish v ∧ f = ⟨b.serial, .call, (), v⟩ ∧ audience = b.items.entries) ∨
    ∃ o v, (c = .register o ∨ ∃ slot, c = .subscribe o slot) ∧ b.items.idOf? o = none ∧
      b.items.last = some v ∧ f = ⟨b.serial, .replay, (), v⟩ ∧
      audience = [(b.items.nextId, o)] := by
  have owed {o : O} (h : b.due (.register o) = some (f, audience)) :
      b.items.idOf? o = none ∧ ∃ v, b.items.last = some v ∧ f = ⟨b.serial, .replay, (), v⟩ ∧
        audience = [(b.items.nextId, o)] := by
    simp only [due, Option.ite_none_left_eq_some, Option.not_isSome_iff_eq_none,
      Option.map_eq_some_iff] at h
    obtain ⟨ho, v, hv, hf⟩ := h
    cases hf
    exact ⟨ho, v, hv, rfl, rfl⟩
  cases c with
  | publish v => cases h; exact .inl ⟨v, rfl, rfl, rfl⟩
  | register o =>
    obtain ⟨ho, v, hv, hf, ha⟩ := owed h
    exact .inr ⟨o, v, .inl rfl, ho, hv, hf, ha⟩
  | subscribe o slot =>
    obtain ⟨ho, v, hv, hf, ha⟩ := owed h
    exact .inr ⟨o, v, .inr ⟨slot, rfl⟩, ho, hv, hf, ha⟩
  | _ => cases h

/-- A fan-out that is owed has the next number. -/
theorem serial_of_due {b : Board O V} {c : Call O V} {f : Fanout Unit (fun _ => V)}
    {audience : List (ObserverId × O)} (h : b.due c = some (f, audience)) :
    f.serial = b.serial := by
  rcases due_cases h with ⟨v, -, rfl, -⟩ | ⟨o, v, -, -, -, rfl, -⟩ <;> rfl

theorem register_spec (b : Board O V) (o : O) :
    (b.register () o).1.stack =
        (b.due (.register o)).toList.map (fun p => .fanout p.1 p.2) ++ b.stack ∧
      (b.register () o).1.log =
        (b.due (.register o)).toList.map (fun p => .began p.1 p.2) ++ b.log := by
  cases ho : b.items.idOf? o with
  | some id =>
    obtain ⟨hs, hl, -⟩ := Dispatch.register_of_some (d := b) (c := ()) ho
    simp [due, ho, hs, hl]
  | none =>
    cases hv : b.items.last with
    | none =>
      obtain ⟨hs, hl, -⟩ := Dispatch.register_of_none (d := b) (c := ()) ho hv
      simp [due, ho, hv, hs, hl]
    | some v =>
      obtain ⟨hs, hl⟩ := Dispatch.register_of_last (d := b) (c := ()) ho hv
      rw [hs, hl]
      simp [due, ho, hv]
      rfl

/-- A call begins the fan-out it owes, on top of plain frames of its own. -/
theorem perform_spec (b : Board O V) (c : Call O V) :
    ∃ own : List (Frame Unit (fun _ => V) O (Reply O V)), (∀ x ∈ own, x.isPlain = true) ∧
      (b.perform c).stack = (b.due c).toList.map (fun p => .fanout p.1 p.2) ++ (own ++ b.stack) ∧
      (b.perform c).log = (b.due c).toList.map (fun p => .began p.1 p.2) ++ b.log := by
  cases c with
  | publish v => exact ⟨[], List.forall_mem_nil _, rfl, rfl⟩
  | register o => exact ⟨[], List.forall_mem_nil _, register_spec b o⟩
  | unregister o =>
    obtain ⟨hs, hl, -⟩ := b.unregisterObserver_alike () o
    exact ⟨[], List.forall_mem_nil _, hs, hl⟩
  | unregisterId id => exact ⟨[], List.forall_mem_nil _, rfl, rfl⟩
  | subscribe o slot =>
    exact ⟨[.keep slot ⟨(), (b.items.enroll o).id⟩], by simp [Frame.isPlain],
      register_spec (b.push (.keep slot ⟨(), (b.items.enroll o).id⟩)) o⟩
  | release slot =>
    obtain ⟨hs, hl, -⟩ := b.release_alike slot
    exact ⟨[], List.forall_mem_nil _, hs, hl⟩
  | detach slot => exact ⟨[], List.forall_mem_nil _, rfl, rfl⟩
  | forget => exact ⟨[], List.forall_mem_nil _, rfl, rfl⟩
  | last => exact ⟨[], List.forall_mem_nil _, rfl, rfl⟩

/-- What a call puts on the stack, down to its answer. -/
theorem call_spec (b : Board O V) (caller : Option O) (c : Call O V) :
    ∃ own : List (Frame Unit (fun _ => V) O (Reply O V)), (∀ x ∈ own, x.isPlain = true) ∧
      (b.call caller c).stack = (b.due c).toList.map (fun p => .fanout p.1 p.2) ++
        (own ++ .owner ⟨caller, c, b.answer c⟩ :: b.stack) ∧
      (b.call caller c).log = (b.due c).toList.map (fun p => .began p.1 p.2) ++ b.log :=
  perform_spec (b.pushOwner ⟨caller, c, b.answer c⟩) c

/-- What a step that is no call does to the uppermost frame: it gives the answer that stands there,
tells an observer, or ends something. -/
def Quiet (b b' : Board O V) : Prop :=
  ∃ x below above events, b.stack = x :: below ∧ b'.stack = above ++ below ∧
    b'.log = events ++ b.log ∧ (∀ f audience, .began f audience ∉ events) ∧
    ∀ r, x = .owner r → above = [] ∧ events = [.owner r]

omit [DecidableEq O] in
theorem quiet_of_tick? {b b' : Board O V} (h : b.tick? = some b') : Quiet b b' := by
  unfold tick? at h
  split at h
  · rename_i r below top
    cases h
    exact ⟨_, below, [], [.owner r], top, rfl, rfl, by simp, fun _ hr => by cases hr; simp⟩
  · obtain ⟨f, below, top, rfl⟩ | ⟨f, id, o, rest, below, top, rfl⟩ | ⟨slot, g, below, top, rfl⟩ :=
      Dispatch.advance?_cases h
    · exact ⟨_, below, [], [], top, rfl, rfl, fun _ _ => List.not_mem_nil, nofun⟩
    · exact ⟨_, below, [.acting f id o, .fanout f rest], [.delivered f id o], top, rfl, rfl,
        by simp, nofun⟩
    · obtain ⟨hs, hl, -⟩ := Dispatch.keep_alike { b with stack := below } slot g
      exact ⟨_, below, [], [], top, hs, hl, fun _ _ => List.not_mem_nil, nofun⟩

/-- Whoever decides makes a call, or is an observer that is done or fails. -/
theorem decide?_cases {b b' : Board O V} {d : Decision (Call O V)}
    (h : b.decide? d = some b') :
    (∃ caller c, b.speaker = some caller ∧ d = .call c ∧ b' = b.call caller c) ∨ Quiet b b' := by
  unfold decide? at h
  split at h <;> cases h
  · exact .inl ⟨_, _, ‹_›, rfl, rfl⟩
  · obtain ⟨f, id, below, top⟩ := Dispatch.acting_of_speaker ‹_›
    rw [Dispatch.finish_eq top]
    exact .inr ⟨_, below, [], [], top, rfl, rfl, fun _ _ => List.not_mem_nil, nofun⟩
  · obtain ⟨f, id, below, top⟩ := Dispatch.acting_of_speaker ‹_›
    rw [Dispatch.fail_eq top]
    exact .inr ⟨_, below, [], [.failed f id _], top, rfl, rfl, by simp, nofun⟩

/-! ## Fan-outs and the calls that owe them -/

/-- A call begins the fan-out it owes. -/
theorem began_of_made {ds : List (Decision (Call O V))} {e b : Board O V} {caller : Option O}
    {c : Call O V} (h : Made ds e b caller c) {f : Fanout Unit (fun _ => V)}
    {audience : List (ObserverId × O)} (hd : b.due c = some (f, audience)) :
    .began f audience ∈ e.log := by
  obtain ⟨before, after, -, -, -, hr⟩ := h
  obtain ⟨own, -, -, hl⟩ := call_spec b caller c
  obtain ⟨events, he⟩ := hr.steps.log_grows
  rw [he, hl, hd]
  simp

/-- A call that was made stays made. -/
theorem Made.trans {ds es : List (Decision (Call O V))} {e e' b : Board O V} {caller : Option O}
    {c : Call O V} (h : Made ds e b caller c) (hr : Reaches e es e') :
    Made (ds ++ es) e' b caller c := by
  obtain ⟨before, after, rfl, hb, hs, he⟩ := h
  exact ⟨before, after ++ es, by simp, hb, hs, he.trans hr⟩

/-- Every fan-out that begins is owed by a call. -/
theorem made_of_began {ds : List (Decision (Call O V))} {e : Board O V}
    (h : Reaches empty ds e) {f : Fanout Unit (fun _ => V)} {audience : List (ObserverId × O)}
    (hf : .began f audience ∈ e.log) :
    ∃ b caller c, Made ds e b caller c ∧ b.due c = some (f, audience) := by
  -- By induction on the run from its end: a fan-out has begun before the last step or in it.
  have hr := h.runs
  clear h
  induction hr with
  | refl => cases hf
  | silent hr hs ih =>
    obtain ⟨-, -, -, events, -, -, hl, hn, -⟩ := quiet_of_tick? hs
    rw [hl] at hf
    obtain ⟨b, caller, c, hm, hd⟩ := ih ((List.mem_append.mp hf).resolve_left (hn f audience))
    exact ⟨b, caller, c, by simpa using hm.trans (.tick hs (.refl _)), hd⟩
  | @act ds b b' d hr hs ih =>
    have old (hf : .began f audience ∈ b.log) :
        ∃ a caller c, Made (ds ++ [d]) b' a caller c ∧ a.due c = some (f, audience) := by
      obtain ⟨a, caller, c, hm, hd⟩ := ih hf
      exact ⟨a, caller, c, hm.trans (.decide hs (.refl _)), hd⟩
    obtain ⟨caller, c, hsp, rfl, rfl⟩ | ⟨-, -, -, events, -, -, hl, hn, -⟩ := decide?_cases hs
    · obtain ⟨own, -, -, hl⟩ := call_spec b caller c
      rw [hl] at hf
      rcases List.mem_append.mp hf with hf | hf
      · obtain ⟨p, hp, he⟩ := List.mem_map.mp hf
        cases he
        exact ⟨b, caller, c, ⟨ds, [], by simp, reaches_of_runs hr, hsp, .refl _⟩,
          by simpa using hp⟩
      · exact old hf
    · rw [hl] at hf
      exact old ((List.mem_append.mp hf).resolve_left (hn f audience))

end LiveTrip.Board
