import LiveTrip.Proofs.Dispatch.Steps

/-!
# What each operation leaves of the last values

A last value changes where its category is published or forgotten, and nowhere else.

* `Dispatch.last_publish`, `Dispatch.last_publish_of_ne`, `Dispatch.last_forget_of_ne`: the two that
  change one.
* `Dispatch.last_register`, `Dispatch.last_advance?` and so on: all others leave every one.
-/

namespace LiveTrip.Dispatch

variable {T C : Type} {V : C → Type} {O X E : Type} [RegistryTable T C V O]
  (d : Dispatch T C V O X E)

/-- A registry that is replaced by one with the same last value. -/
theorem last_setRegistry {d : Dispatch T C V O X E} {b : C} {r : Registry O (V b)}
    (h : r.last = (d.registry b).last) (c : C) : (d.setRegistry b r).last c = d.last c := by
  by_cases hc : c = b
  · subst hc
    rw [last, registry_setRegistry]
    exact h
  · rw [last, registry_setRegistry_of_ne d _ hc]
    rfl

@[simp] theorem last_publish (cause : Cause) (c : C) (v : V c) :
    (d.publish cause c v).last c = some v := by
  show ((d.setRegistry c ((d.registry c).record v)).registry c).last = some v
  rw [registry_setRegistry]
  rfl

theorem last_publish_of_ne (cause : Cause) {b c : C} (h : c ≠ b) (v : V b) :
    (d.publish cause b v).last c = d.last c := by
  show ((d.setRegistry b ((d.registry b).record v)).registry c).last = d.last c
  rw [registry_setRegistry_of_ne d _ h]
  rfl

theorem last_forget_of_ne {b c : C} (h : c ≠ b) : (d.forget b).last c = d.last c := by
  rw [last, forget, registry_setRegistry_of_ne d _ h]
  rfl

@[simp] theorem last_unregister (b : C) (id : ObserverId) (c : C) :
    (d.unregister b id).1.last c = d.last c :=
  last_setRegistry (r := (d.registry b).remove id) rfl c

@[simp] theorem last_release (slot : Slot) (c : C) : (d.release slot).last c = d.last c := by
  unfold release
  split
  · exact last_unregister _ _ _ _
  · rfl

@[simp] theorem last_keep (slot : Slot) (g : Guard C) (c : C) :
    (d.keep slot g).last c = d.last c := last_release d slot c

@[simp] theorem last_finish (c : C) : d.finish.last c = d.last c := by
  unfold finish
  split <;> rfl

@[simp] theorem last_fail (c : C) : d.fail.last c = d.last c := by
  unfold fail
  split
  · rename_i f id o below _
    exact last_setRegistry (r := (d.registry f.category).countFailure) rfl c
  · rfl

theorem last_advance? {d d' : Dispatch T C V O X E} (h : d.advance? = some d') (c : C) :
    d'.last c = d.last c := by
  obtain ⟨f, below, -, rfl⟩ | ⟨f, id, o, rest, below, -, rfl⟩ | ⟨slot, g, below, -, rfl⟩ :=
    advance?_cases h
  · rfl
  · rfl
  · exact last_keep _ slot g c

section Observers

variable [DecidableEq O]

@[simp] theorem last_unregisterObserver (b : C) (o : O) (c : C) :
    (d.unregisterObserver b o).1.last c = d.last c := by
  unfold unregisterObserver
  split
  · exact last_unregister _ _ _ _
  · rfl

@[simp] theorem last_register (b : C) (o : O) (c : C) :
    (d.register b o).1.last c = d.last c := by
  have he : (d.setRegistry b ((d.registry b).enroll o).registry).last c = d.last c :=
    last_setRegistry (Registry.enroll_last _ _) c
  unfold register
  simp only
  split <;> exact he

@[simp] theorem last_subscribe (b : C) (o : O) (slot : Slot) (c : C) :
    (d.subscribe b o slot).last c = d.last c := last_register _ b o c

end Observers

end LiveTrip.Dispatch
