import Mathlib.Data.List.DropRight
import LiveTrip.Proofs.Phase

/-!
# The phase and the facts that led to it

The latch of a tracker is a memory of all the facts it has taken in. Here is what it remembers, said
of these facts alone.

* `PhaseTracker.Input`, `PhaseTracker.after`: what can be done to a tracker, and the tracker after
  some of it.
* `PhaseTracker.sinceReset`: the facts since the last reset.
* `PhaseTracker.HoldsArrival`: among them was an arrival under guidance, and since then there have
  always been a destination and routes.
* `PhaseTracker.Remembers`, `PhaseTracker.remembers_after`: the latch says just that.
* `PhaseTracker.phase_of_history`: the phase, the changes reported and the contradictions counted.
-/

namespace LiveTrip

/-- **An arrival is derived from facts that have all there is to have.** -/
theorem PhaseRule.derive_consistent_eq_arrival {rule : PhaseRule} {f : PhaseFacts} :
    rule.derive f.consistent = .arrival ↔
      f.hasDestination = true ∧ f.hasRoutes = true ∧ f.guidance = true ∧ f.arrived = true := by
  obtain ⟨preview⟩ := rule
  obtain ⟨destination, routes, guidance, arrived⟩ := f
  cases preview <;> cases destination <;> cases routes <;> cases guidance <;> cases arrived <;>
    decide

namespace PhaseTracker

/-! ## Inputs -/

/-- What can be done to a tracker. -/
inductive Input
  | update (facts : PhaseFacts)
  | reset
  deriving DecidableEq, Repr

/-- The facts that are taken in. -/
def Input.facts? : Input → Option PhaseFacts
  | .update facts => some facts
  | .reset => none

/-- The tracker after one thing is done to it. -/
def take (t : PhaseTracker) : Input → PhaseTracker
  | .update facts => (t.update facts).1
  | .reset => t.reset

/-- A new tracker after some inputs, oldest first. -/
def after (rule : PhaseRule) (inputs : List Input) : PhaseTracker := inputs.foldl take { rule }

/-- The facts taken in since the last reset, oldest first. -/
def sinceReset (inputs : List Input) : List PhaseFacts :=
  (inputs.rtakeWhile (· ≠ .reset)).filterMap Input.facts?

/-- All facts taken in, resets or not. -/
def taken (inputs : List Input) : List PhaseFacts := inputs.filterMap Input.facts?

@[simp] theorem after_nil (rule : PhaseRule) : after rule [] = { rule } := rfl

@[simp] theorem after_concat (rule : PhaseRule) (inputs : List Input) (i : Input) :
    after rule (inputs ++ [i]) = (after rule inputs).take i := List.foldl_append

@[simp] theorem sinceReset_nil : sinceReset [] = [] := rfl

@[simp] theorem sinceReset_update (inputs : List Input) (facts : PhaseFacts) :
    sinceReset (inputs ++ [.update facts]) = sinceReset inputs ++ [facts] := by
  rw [sinceReset, List.rtakeWhile_concat_pos _ _ _ (by simp), List.filterMap_append]
  rfl

@[simp] theorem sinceReset_reset (inputs : List Input) :
    sinceReset (inputs ++ [.reset]) = [] := by
  rw [sinceReset, List.rtakeWhile_concat_neg _ _ _ (by simp)]
  rfl

/-! ## What is remembered of the facts -/

/-- Among these facts, oldest first, was an arrival under guidance with a destination and routes,
and both have been there ever since. -/
def HoldsArrival (past : List PhaseFacts) : Prop :=
  ∃ before f later, past = before ++ f :: later ∧
    (f.hasDestination = true ∧ f.hasRoutes = true ∧ f.guidance = true ∧ f.arrived = true) ∧
    ∀ g ∈ later, g.hasDestination = true ∧ g.hasRoutes = true

/-- The phase of the last of these facts by themselves, and a free drive where there are none. -/
def lastDerived (rule : PhaseRule) (past : List PhaseFacts) : Phase :=
  (past.getLast?.map fun f => rule.derive f.consistent).getD .freeDrive

theorem not_holdsArrival_nil : ¬ HoldsArrival [] := by
  rintro ⟨before, f, later, h, -⟩
  simp at h

/-- An arrival is held on by a destination and routes, or is there anew. -/
theorem holdsArrival_concat {past : List PhaseFacts} {f : PhaseFacts} :
    HoldsArrival (past ++ [f]) ↔ f.hasDestination = true ∧ f.hasRoutes = true ∧
      (HoldsArrival past ∨ f.guidance = true ∧ f.arrived = true) := by
  constructor
  · rintro ⟨before, g, later, hsplit, hg, hlater⟩
    cases later using List.reverseRecOn with
    | nil =>
      obtain ⟨rfl, rfl⟩ := List.append_inj' hsplit rfl |>.imp_right List.singleton_inj.mp
      exact ⟨hg.1, hg.2.1, .inr hg.2.2⟩
    | append_singleton later f' =>
      have hsplit : past ++ [f] = (before ++ g :: later) ++ [f'] := by simpa using hsplit
      obtain ⟨rfl, rfl⟩ := List.append_inj' hsplit rfl |>.imp_right List.singleton_inj.mp
      have hf := hlater f (by simp)
      exact ⟨hf.1, hf.2,
        .inl ⟨before, g, later, rfl, hg, fun g' hg' => hlater g' (List.mem_append_left _ hg')⟩⟩
  · rintro ⟨hd, hr, ⟨before, g, later, rfl, hg, hlater⟩ | hnew⟩
    · refine ⟨before, g, later ++ [f], by simp, hg, fun g' hg' => ?_⟩
      rcases List.mem_append.mp hg' with hg' | hg'
      · exact hlater g' hg'
      · rw [List.mem_singleton.mp hg']
        exact ⟨hd, hr⟩
    · exact ⟨past, f, [], rfl, ⟨hd, hr, hnew⟩, by simp⟩

/-- The tracker remembers of these facts whether they hold an arrival on, and shows that or the
phase of the last of them. -/
structure Remembers (rule : PhaseRule) (past : List PhaseFacts) (t : PhaseTracker) : Prop where
  same : t.rule = rule
  latched : t.latched = true ↔ HoldsArrival past
  current : t.current = if t.latched then .arrival else lastDerived rule past

theorem Remembers.update {rule : PhaseRule} {past : List PhaseFacts} {t : PhaseTracker}
    (h : Remembers rule past t) (facts : PhaseFacts) :
    Remembers rule (past ++ [facts]) (t.update facts).1 where
  same := h.same
  latched := by
    simp only [PhaseTracker.update, PhaseFacts.consistent_hasDestination,
      PhaseFacts.consistent_hasRoutes, Bool.and_eq_true, Bool.or_eq_true, decide_eq_true_eq,
      PhaseRule.derive_consistent_eq_arrival, h.latched, holdsArrival_concat]
    tauto
  current := by simp [PhaseTracker.update, lastDerived, h.same]

/-- **After any inputs, a tracker remembers the facts since the last reset.** -/
theorem remembers_after (rule : PhaseRule) (inputs : List Input) :
    Remembers rule (sinceReset inputs) (after rule inputs) := by
  induction inputs using List.reverseRecOn with
  | nil => exact ⟨rfl, by simp [not_holdsArrival_nil], rfl⟩
  | append_singleton inputs i ih =>
    cases i with
    | update facts =>
      rw [sinceReset_update, after_concat]
      exact ih.update facts
    | reset =>
      rw [sinceReset_reset, after_concat]
      exact ⟨ih.same, by simp [take, reset, not_holdsArrival_nil], rfl⟩

/-- Resets or not, every contradiction is counted. -/
theorem contradictions_after (rule : PhaseRule) (inputs : List Input) :
    (after rule inputs).contradictions = (taken inputs).countP (·.Contradictory) := by
  induction inputs using List.reverseRecOn with
  | nil => rfl
  | append_singleton inputs i ih =>
    rw [after_concat, taken, List.filterMap_append, List.countP_append, ← taken, ← ih]
    cases i with
    | update facts =>
      by_cases h : facts.Contradictory <;> simp [take, update, Input.facts?, h]
    | reset => rfl

/-! ## The whole account -/

/-- **The phase is an arrival just while one is held on since the last reset, and else it is that of
the last facts by themselves.** An update reports the phase it leaves, and a change just if the
phase was another before. Every contradiction is counted, also across resets. -/
theorem phase_of_history (rule : PhaseRule) (inputs : List Input) :
    ((after rule inputs).current = .arrival ↔ HoldsArrival (sinceReset inputs)) ∧
    (¬ HoldsArrival (sinceReset inputs) →
      (after rule inputs).current = lastDerived rule (sinceReset inputs)) ∧
    (∀ earlier facts later, inputs = earlier ++ .update facts :: later →
      ((after rule earlier).update facts).2.phase =
          (after rule (earlier ++ [.update facts])).current ∧
        (((after rule earlier).update facts).2.changed = true ↔
          (after rule (earlier ++ [.update facts])).current ≠ (after rule earlier).current)) ∧
    (after rule inputs).contradictions = (taken inputs).countP (·.Contradictory) := by
  have h := remembers_after rule inputs
  refine ⟨⟨fun harrival => ?_, fun hheld => ?_⟩, fun hnone => ?_, fun earlier facts later _ => ?_,
    contradictions_after rule inputs⟩
  · -- Facts that make for an arrival by themselves hold it on.
    by_contra hnone
    have hlatch : (after rule inputs).latched = false :=
      Bool.eq_false_iff.mpr fun hl => hnone (h.latched.mp hl)
    have hderived := h.current.symm.trans harrival
    rw [hlatch, if_neg Bool.false_ne_true] at hderived
    generalize sinceReset inputs = past at hderived hnone
    cases past using List.reverseRecOn with
    | nil => cases hderived
    | append_singleton past f =>
      simp only [lastDerived, List.getLast?_concat, Option.map_some, Option.getD_some,
        PhaseRule.derive_consistent_eq_arrival] at hderived
      exact hnone (holdsArrival_concat.mpr ⟨hderived.1, hderived.2.1, .inr hderived.2.2⟩)
  · rw [h.current, if_pos (h.latched.mpr hheld)]
  · rw [h.current, if_neg fun hl => hnone (h.latched.mp hl)]
  · rw [after_concat]
    simp [take, update]

/-- An arrival is held on while guidance ends, and is gone after a reset. -/
example (arrived ended : Input) (ha : arrived = .update ⟨true, true, true, true⟩)
    (he : ended = .update ⟨true, true, false, false⟩) :
    (after {} [arrived, ended]).current = .arrival ∧
    (after {} [arrived, .reset, ended]).current = .routePreview := by
  subst ha he
  exact ⟨rfl, rfl⟩

end PhaseTracker
end LiveTrip
