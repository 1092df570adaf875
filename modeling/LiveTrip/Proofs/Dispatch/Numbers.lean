import LiveTrip.Proofs.Dispatch.Account

/-!
# Numbers are given once

Whatever is done to a registry, whoever is in it after was there before, with the same number, or has
a number that nobody had.

* `Registry.Grows`: this, from one state of a registry to a later one.
* `Dispatch.Grows`: the same for all registries of a dispatch. Each operation keeps it
  (`Dispatch.grows_publish`, `Dispatch.grows_register`, `Dispatch.grows_advance?` and so on).
* `Dispatch.id_lt_of_register`: the number of whoever registers is taken after.
-/

namespace LiveTrip

/-- Whoever is in the registry after was there before, or has a number that was not given before. -/
structure Registry.Grows {O V : Type} (r r' : Registry O V) : Prop where
  nextId : r.nextId ≤ r'.nextId
  entries : ∀ e ∈ r'.entries, e ∈ r.entries ∨ r.nextId ≤ e.1

namespace Registry

variable {O V : Type} {r r' r'' : Registry O V}

/-- Nothing but the list and the next number matters. -/
theorem Grows.of_same (he : r'.entries = r.entries) (hn : r'.nextId = r.nextId) : r.Grows r' :=
  ⟨Nat.le_of_eq hn.symm, fun _ h => .inl (he ▸ h)⟩

theorem Grows.refl (r : Registry O V) : r.Grows r := .of_same rfl rfl

theorem Grows.trans (h : r.Grows r') (h' : r'.Grows r'') : r.Grows r'' where
  nextId := Nat.le_trans h.nextId h'.nextId
  entries e he := by
    rcases h'.entries e he with he | he
    · exact h.entries e he
    · exact .inr (Nat.le_trans h.nextId he)

theorem grows_remove (r : Registry O V) (id : ObserverId) : r.Grows (r.remove id) :=
  ⟨Nat.le_refl _, fun _ he => .inl (List.mem_filter.mp he).1⟩

theorem grows_enroll [DecidableEq O] (r : Registry O V) (o : O) :
    r.Grows (r.enroll o).registry := by
  cases h : r.idOf? o with
  | some id => rw [enroll_of_some h]; exact .refl r
  | none =>
    rw [enroll_of_none h]
    refine ⟨Nat.le_succ _, fun e he => ?_⟩
    rcases List.mem_append.mp he with he | he
    · exact .inl he
    · rw [List.mem_singleton.mp he]
      exact .inr (Nat.le_refl _)

/-- The number of whoever enrols is taken after. -/
theorem WellFormed.id_lt_enroll [DecidableEq O] (h : r.WellFormed) (o : O) :
    (r.enroll o).id < (r.enroll o).registry.nextId := by
  cases hid : r.idOf? o with
  | none =>
    rw [enroll_of_none hid]
    exact Nat.lt_succ_self _
  | some id =>
    rw [enroll_of_some hid]
    exact h.ids_below _ (mem_of_idOf? hid)

end Registry

namespace Dispatch

variable {T C : Type} {V : C → Type} {O X E : Type} [RegistryTable T C V O]

/-- All registries grow. -/
def Grows (d d' : Dispatch T C V O X E) : Prop := ∀ c, (d.registry c).Grows (d'.registry c)

variable {d d' d'' : Dispatch T C V O X E}

theorem Grows.of_table (h : d'.table = d.table) : d.Grows d' := fun c => by
  simp only [registry, h]
  exact .refl _

theorem Grows.trans (h : d.Grows d') (h' : d'.Grows d'') : d.Grows d'' :=
  fun c => (h c).trans (h' c)

theorem grows_setRegistry {c : C} {r : Registry O (V c)} (h : (d.registry c).Grows r) :
    d.Grows (d.setRegistry c r) :=
  forall_registry_setRegistry (P := fun c r => (d.registry c).Grows r) h fun _ => .refl _

variable (d)

theorem grows_publish (cause : Cause) (c : C) (v : V c) : d.Grows (d.publish cause c v) :=
  grows_setRegistry (r := (d.registry c).record v) (.of_same rfl rfl)

theorem grows_forget (c : C) : d.Grows (d.forget c) :=
  grows_setRegistry (r := (d.registry c).forget) (.of_same rfl rfl)

theorem grows_release (slot : Slot) : d.Grows (d.release slot) := by
  unfold release
  split
  · rename_i g _
    exact grows_setRegistry (r := (d.registry g.category).remove g.id) (Registry.grows_remove _ _)
  · exact .of_table rfl

theorem grows_finish : d.Grows d.finish := by
  unfold finish
  split <;> exact .of_table rfl

theorem grows_fail : d.Grows d.fail := by
  unfold fail
  split
  · rename_i f id o below _
    exact grows_setRegistry (r := (d.registry f.category).countFailure) (.of_same rfl rfl)
  · exact .of_table rfl

theorem grows_advance? (h : d.advance? = some d') : d.Grows d' := by
  obtain ⟨f, below, -, rfl⟩ | ⟨f, id, o, rest, below, -, rfl⟩ | ⟨slot, g, below, -, rfl⟩ :=
    advance?_cases h
  · exact .of_table rfl
  · exact .of_table rfl
  · exact grows_release { d with stack := below } slot

section Observers

variable [DecidableEq O] (c : C) (o : O)

theorem grows_unregisterObserver : d.Grows (d.unregisterObserver c o).1 := by
  unfold unregisterObserver
  split
  · exact grows_setRegistry (Registry.grows_remove _ _)
  · exact .of_table rfl

/-- Whoever registers is enrolled, and told the last value if there is one. -/
theorem registry_register : (d.register c o).1.registry c = ((d.registry c).enroll o).registry := by
  unfold register
  simp only
  split <;> exact registry_setRegistry d c _

theorem grows_register : d.Grows (d.register c o).1 := by
  have henroll : d.Grows (d.setRegistry c ((d.registry c).enroll o).registry) :=
    grows_setRegistry (Registry.grows_enroll _ o)
  unfold register
  simp only
  split <;> exact henroll

theorem grows_subscribe (slot : Slot) : d.Grows (d.subscribe c o slot) :=
  grows_register (d.push _) c o

/-- The number of whoever registers is taken after. -/
theorem id_lt_of_register (h : (d.registry c).WellFormed) :
    ((d.registry c).enroll o).id < ((d.register c o).1.registry c).nextId := by
  rw [registry_register]
  exact h.id_lt_enroll o

end Observers

end Dispatch
end LiveTrip
