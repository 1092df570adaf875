import LiveTrip.Phase

/-!
# The phase tracker under the same facts and under new ones

* `PhaseTracker.Settled`: the tracker has taken these facts in: taking them in again changes neither
  the phase nor the latch.
* `PhaseTracker.settled_update`: so it is after an update.
* `PhaseTracker.Settled.latched`: a settled phase of arrival is held by the latch, with a
  destination
  and routes. `PhaseTracker.update_of_latched`: it is held for as long as there are both.
-/

namespace LiveTrip

@[simp] theorem PhaseFacts.consistent_hasDestination (f : PhaseFacts) :
    f.consistent.hasDestination = f.hasDestination := by
  unfold consistent; split <;> rfl

@[simp] theorem PhaseFacts.consistent_hasRoutes (f : PhaseFacts) :
    f.consistent.hasRoutes = f.hasRoutes := by
  unfold consistent; split <;> rfl

/-- Only facts with a destination and routes make for an arrival. -/
theorem PhaseRule.of_derive_eq_arrival {rule : PhaseRule} {f : PhaseFacts}
    (h : rule.derive f = .arrival) : f.hasDestination = true ∧ f.hasRoutes = true := by
  unfold derive at h
  split at h
  · cases h
  · split at h
    · split at h <;> cases h
    · simp_all

namespace PhaseTracker

variable {t : PhaseTracker} {facts : PhaseFacts}

/-- Taking the facts in again changes neither the phase nor the latch. -/
structure Settled (t : PhaseTracker) (facts : PhaseFacts) : Prop where
  phase : (t.update facts).2.phase = t.current
  latch : (t.update facts).1.latched = t.latched

/-- An update takes the facts in. -/
theorem settled_update (t : PhaseTracker) (facts : PhaseFacts) :
    (t.update facts).1.Settled facts := by
  cases hd : facts.hasDestination <;> cases hr : facts.hasRoutes <;>
    constructor <;> simp [update, hd, hr]

/-- A phase of arrival that is settled is held. -/
theorem Settled.latched (h : t.Settled facts) (ha : t.current = .arrival) :
    t.latched = true ∧ facts.hasDestination = true ∧ facts.hasRoutes = true := by
  have hphase := h.phase
  rw [ha] at hphase
  -- Whether it is held or derived, there are a destination and routes.
  have hboth : facts.hasDestination = true ∧ facts.hasRoutes = true := by
    by_cases hderive : t.rule.derive facts.consistent = .arrival
    · simpa using PhaseRule.of_derive_eq_arrival hderive
    · simp only [update] at hphase
      split at hphase
      · rename_i hheld
        simp only [PhaseFacts.consistent_hasDestination, PhaseFacts.consistent_hasRoutes,
          Bool.and_eq_true] at hheld
        exact hheld.1
      · exact absurd hphase hderive
  refine ⟨?_, hboth⟩
  rw [← h.latch]
  by_cases hl : t.latched = true
  · simp [update, hboth, hl]
  · simp only [update, PhaseFacts.consistent_hasDestination, PhaseFacts.consistent_hasRoutes,
      hboth, hl, Bool.true_and, Bool.false_or, decide_eq_true_eq] at hphase ⊢
    split at hphase <;> simp_all

/-- While there are a destination and routes, an arrival is held. -/
theorem update_of_latched (hl : t.latched = true) (hd : facts.hasDestination = true)
    (hr : facts.hasRoutes = true) :
    (t.update facts).1.current = .arrival ∧ (t.update facts).1.latched = true := by
  simp [update, hl, hd, hr]

/-- An update says what the phase is afterwards. -/
@[simp] theorem update_phase (t : PhaseTracker) (facts : PhaseFacts) :
    (t.update facts).2.phase = (t.update facts).1.current := rfl

/-- A phase that has not changed is the one of before. -/
theorem current_of_unchanged (h : (t.update facts).2.changed = false) :
    (t.update facts).1.current = t.current := by
  simpa [update] using h

end PhaseTracker
end LiveTrip
