import LiveTrip.Observer.Registry

/-!
# Registries stay well formed

Every operation of a registry keeps `Registry.WellFormed`: numbers rise along the list and are below
the next one, and no observer is there twice. Enrolling counts no failure and keeps the last value,
and what a new observer is owed is that value.
-/

namespace LiveTrip.Registry

variable {O V : Type} {r : Registry O V}

theorem wellFormed_empty : ({} : Registry O V).WellFormed := ⟨.nil, nofun, .nil⟩

/-- Nothing but the list and the next number matters. -/
theorem WellFormed.congr {W : Type} {r' : Registry O W} (h : r.WellFormed)
    (he : r'.entries = r.entries) (hn : r'.nextId = r.nextId) : r'.WellFormed := by
  refine ⟨?_, ?_, ?_⟩
  · rw [he]; exact h.ids_rise
  · rw [he, hn]; exact h.ids_below
  · rw [he]; exact h.observers_differ

theorem WellFormed.record (h : r.WellFormed) (v : V) : (r.record v).WellFormed := h.congr rfl rfl

theorem WellFormed.forget (h : r.WellFormed) : r.forget.WellFormed := h.congr rfl rfl

theorem WellFormed.countFailure (h : r.WellFormed) : r.countFailure.WellFormed := h.congr rfl rfl

theorem WellFormed.remove (h : r.WellFormed) (id : ObserverId) : (r.remove id).WellFormed where
  ids_rise := h.ids_rise.sublist List.filter_sublist
  ids_below e he := h.ids_below e (List.mem_filter.mp he).1
  observers_differ := h.observers_differ.sublist List.filter_sublist

theorem has_iff {id : ObserverId} : r.has id = true ↔ ∃ o, (id, o) ∈ r.entries := by
  simp [has]

/-- A number that nobody has is removed from nobody. -/
theorem remove_of_not_has {id : ObserverId} (h : r.has id = false) : r.remove id = r := by
  have hkept : r.entries.filter (·.1 ≠ id) = r.entries :=
    List.filter_eq_self.mpr fun e he => by simpa using List.any_eq_false.mp h e he
  simp only [remove, hkept]

section Enroll

variable [DecidableEq O]

/-- The number of an observer is that of its entry. -/
theorem mem_of_idOf? {o : O} {id : ObserverId} (h : r.idOf? o = some id) : (id, o) ∈ r.entries := by
  obtain ⟨e, he, rfl⟩ := Option.map_eq_some_iff.mp h
  obtain rfl : e.2 = o := by simpa using List.find?_some he
  exact List.mem_of_find?_eq_some he

theorem idOf?_eq_none {o : O} (h : r.idOf? o = none) : ∀ e ∈ r.entries, e.2 ≠ o := by
  intro e he ho
  have : r.entries.find? (·.2 = o) = none := by simpa [idOf?] using h
  rw [List.find?_eq_none] at this
  exact this e he (by simpa using ho)

/-- An observer that is there keeps its number. -/
theorem enroll_of_some {o : O} {id : ObserverId} (h : r.idOf? o = some id) :
    r.enroll o = { registry := r, id, replay := none } := by
  unfold enroll; rw [h]

/-- An observer that is not there gets the next number and is owed the last value. -/
theorem enroll_of_none {o : O} (h : r.idOf? o = none) :
    r.enroll o = {
      registry := { r with entries := r.entries ++ [(r.nextId, o)], nextId := r.nextId + 1 }
      id := r.nextId
      replay := r.last } := by
  unfold enroll; rw [h]

theorem WellFormed.enroll (h : r.WellFormed) (o : O) : (r.enroll o).registry.WellFormed := by
  cases ho : r.idOf? o with
  | some id => rw [enroll_of_some ho]; exact h
  | none =>
    rw [enroll_of_none ho]
    refine ⟨?_, ?_, ?_⟩
    · refine List.pairwise_append.mpr ⟨h.ids_rise, List.pairwise_singleton _ _, ?_⟩
      intro e he e' he'
      rw [List.mem_singleton.mp he']
      exact h.ids_below e he
    · intro e he
      rcases List.mem_append.mp he with he | he
      · exact Nat.lt_succ_of_lt (h.ids_below e he)
      · rw [List.mem_singleton.mp he]; exact Nat.lt_succ_self _
    · refine List.pairwise_append.mpr ⟨h.observers_differ, List.pairwise_singleton _ _, ?_⟩
      intro e he e' he'
      rw [List.mem_singleton.mp he']
      exact idOf?_eq_none ho e he

theorem enroll_failures (r : Registry O V) (o : O) :
    (r.enroll o).registry.failures = r.failures := by
  unfold enroll; split <;> rfl

theorem enroll_last (r : Registry O V) (o : O) : (r.enroll o).registry.last = r.last := by
  unfold enroll; split <;> rfl

/-- What an observer is owed when it enrols is the last value. -/
theorem last_of_enroll_replay {o : O} {v : V} (h : (r.enroll o).replay = some v) :
    r.last = some v := by
  unfold enroll at h
  split at h
  · cases h
  · exact h

end Enroll
end LiveTrip.Registry
