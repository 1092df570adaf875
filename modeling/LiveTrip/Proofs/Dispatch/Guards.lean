import LiveTrip.Proofs.Dispatch.Roster

/-!
# What guards keep registered

An observer that registers again keeps its number, so several guards may have one number, and an
observer that is registered without a guard may have a guard too. Releasing any of these guards
unregisters the observer, whatever else is out for it.

* `Board.History.unregisters_of_struck`: a number is struck only by a call that says so.
* `Board.Recorded.not_released`: a number that is given once and is held is not released.
* `Board.registered_until_release`: the whole account.
-/

namespace LiveTrip.Board

variable {O V : Type}

/-- Whether the call unregisters an observer by itself or by a number. -/
def Call.unregisters : Call O V → Bool
  | .unregister _ | .unregisterId _ => true
  | _ => false

namespace Deed

/-- Whether it gives out the number. -/
def gives (n : ObserverId) : Deed O → Bool
  | .given _ id _ => id = n
  | _ => false

/-- Whether it gives out the number and makes no guard. -/
def givesPlain (n : ObserverId) : Deed O → Bool
  | .given _ id false => id = n
  | _ => false

end Deed

/-- A number is given out with a guard or without. -/
theorem count_guarded (n : ObserverId) (deeds : List (Deed O)) :
    (deeds.filterMap Deed.guarded?).count n + deeds.countP (Deed.givesPlain n) =
      deeds.countP (Deed.gives n) := by
  induction deeds with
  | nil => rfl
  | cons x deeds ih =>
    rw [List.filterMap_cons, List.countP_cons, List.countP_cons]
    cases x with
    | given o id guarded =>
      cases guarded <;> simp only [Deed.guarded?, Deed.gives, Deed.givesPlain, List.count_cons,
        beq_iff_eq, decide_eq_true_eq, Bool.false_eq_true, if_false] <;> omega
    | _ => simpa [Deed.guarded?, Deed.gives, Deed.givesPlain] using ih

variable [DecidableEq O]

/-- What strikes a number is a call that unregisters. -/
theorem History.unregisters_of_struck {ds : List (Decision (Call O V))} {deeds : List (Deed O)}
    {e : Board O V} (h : History ds deeds e) {n : ObserverId} (hn : .struck n ∈ deeds) :
    ∃ c : Call O V, .call c ∈ ds ∧ c.unregisters = true := by
  induction h with
  | start => cases hn
  | @tick ds deeds b b' _ _ ih =>
    refine ih ((List.mem_append.mp hn).resolve_left fun hn => ?_)
    unfold displaced? at hn
    split at hn
    · simp at hn
    · cases hn
  | @decide ds deeds b b' d _ _ ih =>
    rcases List.mem_append.mp hn with hn | hn
    · cases d with
      | call c =>
        refine ⟨c, List.mem_append_right _ (List.mem_singleton_self _), ?_⟩
        cases c <;> first | rfl | simp [decided?, deed?] at hn
      | _ => cases hn
    · obtain ⟨c, hc, hu⟩ := ih hn
      exact ⟨c, List.mem_append_left _ hc, hu⟩

omit [DecidableEq O] in
/-- Where a number is given once, and a guard of it is in its slot or was detached, or there is none,
no guard of it was released. -/
theorem Recorded.not_released {deeds : List (Deed O)} {b : Board O V} (h : Recorded deeds b)
    {o : O} {n : ObserverId} {guarded : Bool} (given : .given o n guarded ∈ deeds)
    (once : deeds.countP (Deed.gives n) = 1)
    (held : n ∈ b.live ∨ .detached n ∈ deeds ∨ guarded = false) : .released n ∉ deeds := by
  intro hreleased
  have hguards := h.guards.count_eq n
  have hgiven := count_guarded n deeds
  simp only [List.count_append] at hguards
  have hone : 0 < (deeds.filterMap Deed.released?).count n :=
    List.count_pos_iff.mpr (List.mem_filterMap.mpr ⟨_, hreleased, rfl⟩)
  rcases held with hlive | hdetached | rfl
  · have := List.count_pos_iff.mpr hlive
    omega
  · have : 0 < (deeds.filterMap Deed.detached?).count n :=
      List.count_pos_iff.mpr (List.mem_filterMap.mpr ⟨_, hdetached, rfl⟩)
    omega
  · have : 0 < deeds.countP (Deed.givesPlain n) :=
      List.countP_pos_iff.mpr ⟨_, given, by simp [Deed.givesPlain]⟩
    omega

/-- **While nobody unregisters anyone by a call, an observer is registered under a number it was
given until the first guard of that number is released.** Other guards of the number do not count,
nor does a registration without a guard; a number has several of these only if its observer was
registered again while it had the number, and a number that was given once is kept by its guard, by a
guard that was detached, or without one. -/
theorem registered_until_release {ds : List (Decision (Call O V))} {e : Board O V}
    (h : Reaches empty ds e) (hcalls : ∀ c : Call O V, .call c ∈ ds → c.unregisters = false) :
    ∃ deeds, History ds deeds e ∧
      (∀ n o, (n, o) ∈ e.items.entries ↔
        (∃ guarded, .given o n guarded ∈ deeds) ∧ .released n ∉ deeds) ∧
      (∀ o o' n guarded guarded', .given o n guarded ∈ deeds → .given o' n guarded' ∈ deeds →
        o = o') ∧
      (deeds.filterMap Deed.guarded?).Perm
        (deeds.filterMap Deed.released? ++ deeds.filterMap Deed.detached? ++
          (e.live ++ e.pending)) ∧
      ∀ o n guarded, .given o n guarded ∈ deeds → deeds.countP (Deed.gives n) = 1 →
        n ∈ e.live ∨ .detached n ∈ deeds ∨ guarded = false → (n, o) ∈ e.items.entries := by
  obtain ⟨deeds, hd⟩ := h.history
  have hrec := hd.recorded
  have hstruck (n : ObserverId) : .struck n ∉ deeds := fun hn => by
    obtain ⟨c, hc, hu⟩ := hd.unregisters_of_struck hn
    rw [hcalls c hc] at hu
    cases hu
  have hregistered (n : ObserverId) (o : O) : (n, o) ∈ e.items.entries ↔
      (∃ guarded, .given o n guarded ∈ deeds) ∧ .released n ∉ deeds :=
    (hrec.registered n o).trans (and_congr_right fun _ => and_iff_right (hstruck n))
  refine ⟨deeds, hd, hregistered, hrec.single, hrec.guards, fun o n guarded hgiven once held => ?_⟩
  exact (hregistered n o).mpr ⟨⟨guarded, hgiven⟩, hrec.not_released hgiven once held⟩

/-- An observer subscribes twice, and the first guard is released. -/
def subscribedTwice : List (Decision (Call Nat Nat)) :=
  [.call (.subscribe 7 "first"), .call (.subscribe 7 "second"), .call (.release "first")]

/-- The second guard is still in its slot, and the observer is registered no more. -/
theorem registered_until_release_of_other_guard :
    ∃ e, Reaches empty subscribedTwice e ∧
      (∀ c, .call c ∈ subscribedTwice → c.unregisters = false) ∧
      e.live = [0] ∧ e.items.entries = [] ∧
      ∃ deeds, History subscribedTwice deeds e ∧ .released 0 ∈ deeds := by
  have h : Reaches empty subscribedTwice _ := reaches_of_runs (run_of_play 9 rfl)
  have hcalls (c : Call Nat Nat) (hc : .call c ∈ subscribedTwice) : c.unregisters = false := by
    simp only [subscribedTwice, List.mem_cons, Decision.call.injEq, List.not_mem_nil,
      or_false] at hc
    rcases hc with rfl | rfl | rfl <;> rfl
  obtain ⟨deeds, hd, hregistered, -, hguards, -⟩ := registered_until_release h hcalls
  refine ⟨_, h, hcalls, rfl, rfl, deeds, hd, Classical.byContradiction fun hn => ?_⟩
  have hmade : 0 ∈ deeds.filterMap Deed.guarded? :=
    hguards.mem_iff.mpr (List.mem_append_right _ List.mem_cons_self)
  obtain ⟨x, hx, hid⟩ := List.mem_filterMap.mp hmade
  rcases x with ⟨o, n, guarded⟩ | _ | _ | _
  · cases guarded
    · cases hid
    · cases hid
      exact List.not_mem_nil ((hregistered 0 o).mpr ⟨⟨true, hx⟩, hn⟩)
  all_goals cases hid

end LiveTrip.Board
