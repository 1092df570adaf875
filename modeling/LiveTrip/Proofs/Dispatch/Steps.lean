import LiveTrip.Observer.Dispatch
import LiveTrip.Proofs.Registry
import Mathlib.Logic.Relation

/-!
# Single steps of a dispatch

Whatever a dispatch does is made of the steps of `Dispatch.Step`, so a property of all that it does
is one case per step.

* `Dispatch.Step`: one step. The last value of a category changes when a value is published or
  forgotten, a replay repeats the last value, and a failure is counted when an observer fails.
* `Dispatch.Steps`: any number of steps. Each operation of a dispatch is some (`publish_steps`,
  `register_steps`, `subscribe_steps`, `release_steps`, `advance?_steps` and so on).
* `Dispatch.Steps.log_grows`: nothing that has happened is taken back.
-/

namespace LiveTrip

/-- Something of the owner, or a guard that waits for its slot. -/
def Frame.isPlain {C : Type} {V : C → Type} {O X : Type} : Frame C V O X → Bool
  | .keep _ _ | .owner _ => true
  | _ => false

/-- Those that a fan-out has still to tell, for the fan-out with a number. -/
def Frame.awaiting {C : Type} {V : C → Type} {O X : Type} (n : Nat) :
    Frame C V O X → List (ObserverId × O)
  | .fanout f rest => if f.serial = n then rest else []
  | _ => []

namespace Dispatch

variable {T C : Type} {V : C → Type} {O X E : Type} [RegistryTable T C V O]

/-- One step of a dispatch. -/
inductive Step : Dispatch T C V O X E → Dispatch T C V O X E → Prop
  /-- Registries change, but no value is published and no failure counted. -/
  | table (d : Dispatch T C V O X E) (t : T)
      (wellFormed : ∀ c, (d.registry c).WellFormed → (RegistryTable.get t c).WellFormed)
      (failures : ∀ c, (RegistryTable.get t c).failures = (d.registry c).failures)
      (last : ∀ c, (RegistryTable.get t c).last = d.last c ∨ (RegistryTable.get t c).last = none) :
      Step d { d with table := t }
  | guards (d : Dispatch T C V O X E) (guards : List (Slot × Guard C)) : Step d { d with guards }
  | push (d : Dispatch T C V O X E) (x : Frame C V O X) (plain : x.isPlain = true) :
      Step d (d.push x)
  /-- What is uppermost is over. -/
  | pop (d : Dispatch T C V O X E) (x : Frame C V O X) (below : List (Frame C V O X))
      (top : d.stack = x :: below) (spent : ∀ n, x.awaiting n = []) :
      Step d { d with stack := below }
  | note (d : Dispatch T C V O X E) (e : E) : Step d (d.note e)
  | publish (d : Dispatch T C V O X E) (cause : Cause) (c : C) (v : V c)
      (fresh : cause ≠ .replay) : Step d (d.publish cause c v)
  | replay (d : Dispatch T C V O X E) (c : C) (v : V c) (audience : List (ObserverId × O))
      (cached : d.last c = some v) : Step d (d.begin .replay c v audience)
  | deliver (d : Dispatch T C V O X E) (f : Fanout C V) (id : ObserverId) (o : O)
      (rest : List (ObserverId × O)) (below : List (Frame C V O X))
      (top : d.stack = .fanout f ((id, o) :: rest) :: below) :
      Step d ({ d with stack := .acting f id o :: .fanout f rest :: below }.emit
        (.delivered f id o))
  | fail (d : Dispatch T C V O X E) (f : Fanout C V) (id : ObserverId) (o : O)
      (below : List (Frame C V O X)) (top : d.stack = .acting f id o :: below) : Step d d.fail

/-- Any number of steps. -/
abbrev Steps : Dispatch T C V O X E → Dispatch T C V O X E → Prop := Relation.ReflTransGen Step

theorem Step.steps {d d' : Dispatch T C V O X E} (h : Step d d') : Steps d d' := .single h

@[simp] theorem registry_setRegistry (d : Dispatch T C V O X E) (c : C) (r : Registry O (V c)) :
    (d.setRegistry c r).registry c = r := RegistryTable.get_set_self _ _ _

theorem registry_setRegistry_of_ne (d : Dispatch T C V O X E) {c c' : C} (r : Registry O (V c))
    (h : c' ≠ c) : (d.setRegistry c r).registry c' = d.registry c' :=
  RegistryTable.get_set_of_ne _ _ _ _ h

/-! ## The operations -/

/-- A registry changes in who is registered, and its last value may be dropped. -/
theorem setRegistry_steps {d : Dispatch T C V O X E} {c : C} {r : Registry O (V c)}
    (hw : (d.registry c).WellFormed → r.WellFormed) (hf : r.failures = (d.registry c).failures)
    (hl : r.last = (d.registry c).last ∨ r.last = none) : Steps d (d.setRegistry c r) := by
  refine (Step.table d _ (fun c' => ?_) (fun c' => ?_) fun c' => ?_).steps
  · by_cases h : c' = c
    · subst h; rw [RegistryTable.get_set_self]; exact hw
    · rw [RegistryTable.get_set_of_ne _ _ _ _ h]; exact id
  · by_cases h : c' = c
    · subst h; rw [RegistryTable.get_set_self]; exact hf
    · rw [RegistryTable.get_set_of_ne _ _ _ _ h]; rfl
  · by_cases h : c' = c
    · subst h; rw [RegistryTable.get_set_self]; exact hl
    · rw [RegistryTable.get_set_of_ne _ _ _ _ h]; exact .inl rfl

theorem publish_steps (d : Dispatch T C V O X E) {cause : Cause} (c : C) (v : V c)
    (h : cause ≠ .replay) : Steps d (d.publish cause c v) := (Step.publish d cause c v h).steps

theorem forget_steps (d : Dispatch T C V O X E) (c : C) : Steps d (d.forget c) :=
  setRegistry_steps (·.forget) rfl (.inr rfl)

theorem unregister_steps (d : Dispatch T C V O X E) (c : C) (id : ObserverId) :
    Steps d (d.unregister c id).1 := setRegistry_steps (·.remove id) rfl (.inl rfl)

theorem guards_steps (d : Dispatch T C V O X E) (guards : List (Slot × Guard C)) :
    Steps d { d with guards } := (Step.guards d guards).steps

theorem release_steps (d : Dispatch T C V O X E) (slot : Slot) : Steps d (d.release slot) := by
  unfold release
  split
  · exact (guards_steps d _).trans (unregister_steps _ _ _)
  · exact .refl

theorem keep_steps (d : Dispatch T C V O X E) (slot : Slot) (g : Guard C) :
    Steps d (d.keep slot g) := (release_steps d slot).trans (guards_steps _ _)

theorem advance?_steps {d d' : Dispatch T C V O X E} (h : d.advance? = some d') : Steps d d' := by
  unfold advance? at h
  split at h <;> cases h
  · exact (Step.pop d _ _ ‹_› (by simp [Frame.awaiting])).steps
  · exact (Step.deliver d _ _ _ _ _ ‹_›).steps
  · exact (Step.pop d _ _ ‹_› (by simp [Frame.awaiting])).steps.trans (keep_steps _ _ _)

theorem finish_steps (d : Dispatch T C V O X E) : Steps d d.finish := by
  unfold finish
  split
  · exact (Step.pop d _ _ ‹_› (by simp [Frame.awaiting])).steps
  · exact .refl

theorem fail_steps (d : Dispatch T C V O X E) : Steps d d.fail := by
  by_cases h : ∃ f id o below, d.stack = .acting f id o :: below
  · obtain ⟨f, id, o, below, h⟩ := h
    exact (Step.fail d f id o below h).steps
  · have hd : d.fail = d := by
      unfold fail
      split
      · exact absurd ⟨_, _, _, _, ‹_›⟩ h
      · rfl
    rw [hd]

section Observers

variable [DecidableEq O]

theorem unregisterObserver_steps (d : Dispatch T C V O X E) (c : C) (o : O) :
    Steps d (d.unregisterObserver c o).1 := by
  unfold unregisterObserver
  split
  · exact unregister_steps d c _
  · exact .refl

theorem register_steps (d : Dispatch T C V O X E) (c : C) (o : O) :
    Steps d (d.register c o).1 := by
  have he : Steps d (d.setRegistry c ((d.registry c).enroll o).registry) :=
    setRegistry_steps (·.enroll o) (Registry.enroll_failures _ _) (.inl (Registry.enroll_last _ _))
  unfold register
  simp only
  split
  · rename_i v hv
    refine he.trans (Step.replay _ c v _ ?_).steps
    rw [last, registry_setRegistry, Registry.enroll_last]
    exact Registry.last_of_enroll_replay hv
  · exact he

theorem subscribe_steps (d : Dispatch T C V O X E) (c : C) (o : O) (slot : Slot) :
    Steps d (d.subscribe c o slot) :=
  (Step.push d _ rfl).steps.trans (register_steps _ c o)

end Observers

/-! ## What the operations leave alone -/

/-- Neither the stack, nor the log, nor the count of fan-outs has changed. -/
def Alike (d d' : Dispatch T C V O X E) : Prop :=
  d'.stack = d.stack ∧ d'.log = d.log ∧ d'.serial = d.serial

theorem release_alike (d : Dispatch T C V O X E) (slot : Slot) : Alike d (d.release slot) := by
  unfold release
  split <;> exact ⟨rfl, rfl, rfl⟩

theorem keep_alike (d : Dispatch T C V O X E) (slot : Slot) (g : Guard C) :
    Alike d (d.keep slot g) := release_alike d slot

theorem unregisterObserver_alike [DecidableEq O] (d : Dispatch T C V O X E) (c : C) (o : O) :
    Alike d (d.unregisterObserver c o).1 := by
  unfold unregisterObserver
  split <;> exact ⟨rfl, rfl, rfl⟩

/-- An observer that is there already is told nothing. -/
theorem register_of_some [DecidableEq O] {d : Dispatch T C V O X E} {c : C} {o : O}
    {id : ObserverId} (h : (d.registry c).idOf? o = some id) : Alike d (d.register c o).1 := by
  simp only [register, Registry.enroll_of_some h]
  exact ⟨rfl, rfl, rfl⟩

/-- A new observer is told nothing if there is no last value. -/
theorem register_of_none [DecidableEq O] {d : Dispatch T C V O X E} {c : C} {o : O}
    (h : (d.registry c).idOf? o = none) (hl : d.last c = none) :
    Alike d (d.register c o).1 := by
  have hl : (d.registry c).last = none := hl
  simp only [register, Registry.enroll_of_none h, hl]
  exact ⟨rfl, rfl, rfl⟩

/-- A new observer is told the last value. -/
theorem register_of_last [DecidableEq O] {d : Dispatch T C V O X E} {c : C} {o : O} {v : V c}
    (h : (d.registry c).idOf? o = none) (hl : d.last c = some v) :
    (d.register c o).1.stack =
        .fanout ⟨d.serial, .replay, c, v⟩ [((d.registry c).nextId, o)] :: d.stack ∧
      (d.register c o).1.log =
        .began ⟨d.serial, .replay, c, v⟩ [((d.registry c).nextId, o)] :: d.log := by
  have hl : (d.registry c).last = some v := hl
  simp only [register, Registry.enroll_of_none h, hl]
  exact ⟨rfl, rfl⟩

/-! ## What happens at the top of the stack -/

/-- A fan-out is over, or tells the next observer, or a guard is put into its slot. -/
theorem advance?_cases {d d' : Dispatch T C V O X E} (h : d.advance? = some d') :
    (∃ f below, d.stack = .fanout f [] :: below ∧ d' = { d with stack := below }) ∨
    (∃ f id o rest below, d.stack = .fanout f ((id, o) :: rest) :: below ∧
      d' = { d with stack := .acting f id o :: .fanout f rest :: below }.emit
        (.delivered f id o)) ∨
    ∃ slot g below, d.stack = .keep slot g :: below ∧
      d' = { d with stack := below }.keep slot g := by
  unfold advance? at h
  split at h <;> cases h
  · exact .inl ⟨_, _, ‹_›, rfl⟩
  · exact .inr (.inl ⟨_, _, _, _, _, ‹_›, rfl⟩)
  · exact .inr (.inr ⟨_, _, _, ‹_›, rfl⟩)

omit [RegistryTable T C V O] in
theorem finish_eq {d : Dispatch T C V O X E} {f : Fanout C V} {id : ObserverId} {o : O}
    {below : List (Frame C V O X)} (top : d.stack = .acting f id o :: below) :
    d.finish = { d with stack := below } := by
  simp only [finish, top]

theorem fail_eq {d : Dispatch T C V O X E} {f : Fanout C V} {id : ObserverId} {o : O}
    {below : List (Frame C V O X)} (top : d.stack = .acting f id o :: below) :
    d.fail = ({ d with stack := below }.setRegistry f.category
      (d.registry f.category).countFailure).emit (.failed f id o) := by
  simp only [Dispatch.fail, top]; rfl

omit [RegistryTable T C V O] in
/-- An observer has the word if it is at work. -/
theorem acting_of_speaker {d : Dispatch T C V O X E} {o : O} (h : d.speaker = some (some o)) :
    ∃ f id below, d.stack = .acting f id o :: below := by
  unfold speaker at h
  split at h <;> cases h
  exact ⟨_, _, _, ‹_›⟩

/-! ## The log and the numbers -/

theorem Step.log_grows {d d' : Dispatch T C V O X E} (h : Step d d') :
    ∃ events, d'.log = events ++ d.log := by
  cases h with
  | table | guards | push | pop => exact ⟨[], rfl⟩
  | note e => exact ⟨[.owner e], rfl⟩
  | publish cause c v => exact ⟨[.began ⟨d.serial, cause, c, v⟩ (d.registry c).entries], rfl⟩
  | replay c v audience => exact ⟨[.began ⟨d.serial, .replay, c, v⟩ audience], rfl⟩
  | deliver f id o => exact ⟨[.delivered f id o], rfl⟩
  | fail f id o below top => exact ⟨[.failed f id o], by rw [fail_eq top]; rfl⟩

/-- Nothing that has happened is taken back. -/
theorem Steps.log_grows {d d' : Dispatch T C V O X E} (h : Steps d d') :
    ∃ events, d'.log = events ++ d.log := by
  induction h with
  | refl => exact ⟨[], rfl⟩
  | tail _ hs ih =>
    obtain ⟨events, he⟩ := ih
    obtain ⟨more, hm⟩ := hs.log_grows
    exact ⟨more ++ events, by rw [hm, he, List.append_assoc]⟩

end Dispatch
end LiveTrip
