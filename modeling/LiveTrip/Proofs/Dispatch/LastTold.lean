import LiveTrip.Proofs.Dispatch.Steps

/-!
# Where a last value comes from

* `lastTold`: the fan-out by which a log says that a value of a category was last told anew. A
  replay tells nothing anew.
* `Dispatch.Steps.last_cases`: the last value of a category was told anew by that fan-out, or it was
  the last value before and nothing has been told anew since.
-/

namespace LiveTrip

section Logs

variable {C : Type} {V : C → Type} {O E : Type} [DecidableEq C]

/-- The fan-out by which an event tells a value of a category anew. -/
def Event.tells? (c : C) : Event C V O E → Option (Fanout C V)
  | .began f _ => if f.category = c ∧ f.cause ≠ .replay then some f else none
  | _ => none

/-- The fan-out by which a value of a category was last told anew. -/
def lastTold (c : C) (log : List (Event C V O E)) : Option (Fanout C V) :=
  log.findSome? (Event.tells? c)

theorem lastTold_cons_of_none {c : C} {e : Event C V O E} (h : e.tells? c = none)
    (log : List (Event C V O E)) : lastTold c (e :: log) = lastTold c log := by
  simp [lastTold, h]

theorem lastTold_began {c : C} {v : V c} {n : Nat} {cause : Cause} (h : cause ≠ .replay)
    (audience : List (ObserverId × O)) (log : List (Event C V O E)) :
    lastTold c (.began ⟨n, cause, c, v⟩ audience :: log) = some ⟨n, cause, c, v⟩ := by
  simp [lastTold, Event.tells?, h]

theorem mem_of_lastTold {c : C} {log : List (Event C V O E)} {f : Fanout C V}
    (h : lastTold c log = some f) : ∃ audience, .began f audience ∈ log := by
  obtain ⟨e, he, ht⟩ := List.exists_of_findSome?_eq_some h
  cases e with
  | began g audience =>
    simp only [Event.tells?, Option.ite_none_right_eq_some, Option.some.injEq] at ht
    obtain ⟨-, rfl⟩ := ht
    exact ⟨audience, he⟩
  | _ => cases ht

end Logs

namespace Dispatch

variable {T C : Type} {V : C → Type} {O X E : Type} [RegistryTable T C V O] [DecidableEq C]
  {d d' : Dispatch T C V O X E} {c : C} {v : V c}

/-- A step tells the last value anew, or leaves it. -/
theorem Step.last_cases (h : Step d d') (hv : d'.last c = some v) :
    (∃ n cause audience, cause ≠ .replay ∧
      d'.log = .began ⟨n, cause, c, v⟩ audience :: d.log) ∨
    d.last c = some v ∧ lastTold c d'.log = lastTold c d.log := by
  cases h with
  | table t _ _ last =>
    have hv : (RegistryTable.get t c).last = some v := hv
    rcases last c with h | h
    · exact .inr ⟨h.symm.trans hv, rfl⟩
    · rw [h] at hv; cases hv
  | guards | push | pop => exact .inr ⟨hv, rfl⟩
  | note e => exact .inr ⟨hv, lastTold_cons_of_none rfl _⟩
  | publish cause b u fresh =>
    have hv : ((d.setRegistry b ((d.registry b).record u)).registry c).last = some v := hv
    by_cases hb : c = b
    · subst hb
      rw [registry_setRegistry] at hv
      cases hv
      exact .inl ⟨_, cause, _, fresh, rfl⟩
    · rw [registry_setRegistry_of_ne d _ hb] at hv
      refine .inr ⟨hv, lastTold_cons_of_none ?_ _⟩
      simp [Event.tells?, Ne.symm hb]
  | replay b u audience =>
    exact .inr ⟨hv, lastTold_cons_of_none (by simp [Event.tells?]) _⟩
  | deliver => exact .inr ⟨hv, lastTold_cons_of_none rfl _⟩
  | fail f id o below top =>
    rw [fail_eq top] at hv ⊢
    refine .inr ⟨?_, lastTold_cons_of_none rfl _⟩
    by_cases hc : c = f.category
    · subst hc
      have hv : ((d.setRegistry f.category (d.registry f.category).countFailure).registry
        f.category).last = some v := hv
      rw [registry_setRegistry] at hv
      exact hv
    · have hv : ((d.setRegistry f.category (d.registry f.category).countFailure).registry c).last =
        some v := hv
      rwa [registry_setRegistry_of_ne d _ hc] at hv

/-- **A last value was last told anew since, or it was the last value before.** -/
theorem Steps.last_cases (h : Steps d d') (hv : d'.last c = some v) :
    (∃ n cause audience events, d'.log = events ++ d.log ∧
      .began ⟨n, cause, c, v⟩ audience ∈ events ∧
      lastTold c d'.log = some ⟨n, cause, c, v⟩) ∨
    d.last c = some v ∧ lastTold c d'.log = lastTold c d.log := by
  induction h with
  | refl => exact .inr ⟨hv, rfl⟩
  | tail hb hs ih =>
    rcases hs.last_cases hv with ⟨n, cause, audience, fresh, hlog⟩ | ⟨hv, hlast⟩
    · obtain ⟨events, hevents⟩ := Steps.log_grows hb
      refine .inl ⟨n, cause, audience, _ :: events, by rw [hlog, hevents]; rfl, List.mem_cons_self,
        ?_⟩
      rw [hlog, lastTold_began fresh]
    · rcases ih hv with ⟨n, cause, audience, events, hlog, hbegan, htold⟩ | ⟨hd, htold⟩
      · obtain ⟨more, hmore⟩ := hs.log_grows
        exact .inl ⟨n, cause, audience, more ++ events, by rw [hmore, hlog, List.append_assoc],
          List.mem_append_right _ hbegan, hlast.trans htold⟩
      · exact .inr ⟨hd, hlast.trans htold⟩

end Dispatch
end LiveTrip
