import Mathlib.Data.List.Basic
import LiveTrip.Proofs.Session.Startup

/-!
# What ticks tell comes in blocks

What ticks tell, in the order it begins, is one block after the other: a block for each tick, in the
order the ticks begin. A tick that is cut short leaves a shorter block, and a worker that is started
meanwhile begins its blocks after it.

* `block`, `IsTiled`: what a tick has told, and a log that is one block after the other.
* `Fits`: what a tick has told and may still tell keeps to its order, and goes past the raw location
  only with the location.
* `Trip.Tiled`: the invariant. Only the newest tick has something ahead of it.
* `Trip.told_in_blocks`: the whole account.
-/

namespace LiveTrip

open Category

/-! ## Blocks -/

/-- What the tick of this number has told, in the order it began. -/
def block (n : Nat) (log : List SessionEvent) : List SessionFanout :=
  (toldByTicks log).filter fun f => f.cause = .tick n

/-- The categories of a block. -/
def shape (n : Nat) (log : List SessionEvent) : List Category := (block n log).map (·.category)

section Block

variable {log log' : List SessionEvent} {f : SessionFanout} {n : Nat}

theorem block_congr (h : toldByTicks log' = toldByTicks log) (n : Nat) :
    block n log' = block n log := by
  rw [block, h, block]

/-- What a tick tells comes last in its block. -/
theorem block_of_told (h : toldByTicks log' = toldByTicks log ++ [f]) (hf : f.cause = .tick n) :
    block n log' = block n log ++ [f] := by
  simp [block, h, List.filter_append, hf]

/-- It leaves other blocks alone. -/
theorem block_of_other (h : toldByTicks log' = toldByTicks log ++ [f]) (hf : f.cause ≠ .tick n) :
    block n log' = block n log := by
  simp [block, h, List.filter_append, hf]

theorem shape_congr (h : toldByTicks log' = toldByTicks log) (n : Nat) :
    shape n log' = shape n log := by
  rw [shape, block_congr h, shape]

theorem shape_of_told (h : toldByTicks log' = toldByTicks log ++ [f]) (hf : f.cause = .tick n) :
    shape n log' = shape n log ++ [f.category] := by
  rw [shape, block_of_told h hf, List.map_append, List.map_singleton, shape]

theorem shape_of_other (h : toldByTicks log' = toldByTicks log ++ [f]) (hf : f.cause ≠ .tick n) :
    shape n log' = shape n log := by
  rw [shape, block_of_other h hf, shape]

/-- What ticks have told is one block after the other, for so many ticks. -/
def IsTiled (m : Nat) (log : List SessionEvent) : Prop :=
  toldByTicks log = (List.range m).flatMap fun n => block n log

/-- A tick that has not begun has told nothing. -/
theorem IsTiled.block_eq_nil {m : Nat} (h : IsTiled m log) (hn : m ≤ n) : block n log = [] := by
  rw [block, List.filter_eq_nil_iff]
  intro f hf hcause
  rw [h] at hf
  obtain ⟨k, hk, hf⟩ := List.mem_flatMap.mp hf
  have hcause' := (List.mem_filter.mp hf).2
  simp only [decide_eq_true_eq] at hcause hcause'
  have : k = n := by simpa [hcause] using hcause'.symm
  have := List.mem_range.mp hk
  omega

theorem IsTiled.congr {m : Nat} (h : IsTiled m log) (ht : toldByTicks log' = toldByTicks log) :
    IsTiled m log' := by
  rw [IsTiled, ht, h]
  simp only [block_congr ht]

/-- The newest tick tells something: only the last block grows. -/
theorem IsTiled.tell {m : Nat} (h : IsTiled (m + 1) log)
    (ht : toldByTicks log' = toldByTicks log ++ [f]) (hf : f.cause = .tick m) :
    IsTiled (m + 1) log' := by
  have hbefore : ((List.range m).flatMap fun n => block n log') =
      (List.range m).flatMap fun n => block n log := by
    refine List.flatMap_congr fun n hn => block_of_other ht fun hn' => ?_
    have hmn : m = n := by simpa [hf] using hn'
    have := List.mem_range.mp hn
    omega
  rw [IsTiled, ht, h, List.range_succ, List.flatMap_append, List.flatMap_append, hbefore,
    List.flatMap_singleton, List.flatMap_singleton, block_of_told ht hf, List.append_assoc]

/-- A tick begins: its block is empty. -/
theorem IsTiled.begin {m : Nat} (h : IsTiled m log) : IsTiled (m + 1) log := by
  rw [IsTiled, List.range_succ, List.flatMap_append, List.flatMap_singleton,
    h.block_eq_nil (Nat.le_refl m), List.append_nil]
  exact h

end Block

/-! ## What fits a tick -/

/-- What a tick has told and may still tell keeps to its order, and goes past the raw location only
with the location. -/
structure Fits (k : Tick) (told ahead : List Category) : Prop where
  order : (told ++ ahead).Sublist k.scope.order
  located : location ∈ told ∨ location ∈ ahead

section Fits

variable {k : Tick} {d a b : List Category}

theorem Fits.start (k : Tick) : Fits k [] k.scope.order :=
  ⟨List.Sublist.refl _, .inr (by cases k.scope <;> simp [Scope.order])⟩

/-- Less is ahead. -/
theorem Fits.sub (h : Fits k d a) (hs : b.Sublist a) (hl : location ∈ a → location ∈ b) :
    Fits k d b :=
  ⟨((List.Sublist.refl d).append hs).trans h.order, h.located.imp_right hl⟩

/-- Something that was ahead is told. -/
theorem Fits.tell {c : Category} (h : Fits k d a) (hs : (c :: b).Sublist a)
    (hl : location ∈ a → location = c ∨ location ∈ b) : Fits k (d ++ [c]) b := by
  refine ⟨?_, ?_⟩
  · rw [List.append_assoc]
    exact ((List.Sublist.refl d).append hs).trans h.order
  · rcases h.located with h | h
    · exact .inl (List.mem_append_left _ h)
    · rcases hl h with rfl | h
      · exact .inl (List.mem_append_right _ (List.mem_singleton_self _))
      · exact .inr h

theorem Fits.told (h : Fits k d a) : d.Sublist k.scope.order :=
  (List.sublist_append_left d a).trans h.order

/-- Until the location is told, there is only the raw location. -/
theorem Fits.located_of_mem (h : Fits k d a) {c : Category} (hc : c ∈ d)
    (hraw : c ≠ rawLocation) : location ∈ d := by
  rcases h.located with hl | hl
  · exact hl
  · exfalso
    obtain ⟨rest, horder, hrest⟩ :
        ∃ rest, k.scope.order = rawLocation :: location :: rest ∧ location ∉ rest := by
      cases k.scope
      · exact ⟨_, rfl, by decide⟩
      · exact ⟨_, rfl, by decide⟩
    -- What was told before the location is among what stands before it in the order.
    obtain ⟨before, after, hsplit, htold, hahead⟩ := List.append_sublist_iff.mp h.order
    rw [horder] at hsplit
    match before, hsplit with
    | [], _ => exact absurd (htold.subset hc) (by simp)
    | [_], hsplit =>
      cases hsplit
      exact hraw (List.mem_singleton.mp (htold.subset hc))
    | _ :: _ :: before, hsplit =>
      simp only [List.cons_append, List.cons.injEq] at hsplit
      exact hrest (hsplit.2.2 ▸ List.mem_append_right before (hahead.subset hl))

end Fits

namespace Trip

variable {t t' : Trip} {made : Option Call}

/-! ## Steps -/

theorem Ahead.ticked {k : Tick} {a : List Category} (h : Ahead t k a) (hs : Sound t) :
    Ticked t k := by
  cases h with
  | stage mem tick => exact hs.staged _ k mem tick
  | derive hst => exact hs.staged (.tally k) k (by rw [hst]; simp) rfl
  | pending asked => exact hs.asked k asked

/-- What ticks have told is one block after the other, and only the newest tick has something ahead
of it. -/
structure Tiled (t : Trip) : Prop where
  numbers : (ticksIn t.log).map (·.number) = List.range t.ticks
  newest : ∀ k a, Ahead t k a → k.number + 1 = t.ticks
  tiles : IsTiled t.ticks t.log
  fits : ∀ k a, Ahead t k a → Fits k (shape k.number t.log) a
  /-- Every tick has told what fits it, whatever was ahead of it when it was over. -/
  shaped : ∀ k ∈ ticksIn t.log, ∃ a, Fits k (shape k.number t.log) a

theorem Tiled.step (h : Tiled t) (hs : Sound t) (hw : Works t t') : Tiled t' := by
  cases hw with
  | keeps ahead told begun ticks =>
    refine ⟨by rw [begun, ticks]; exact h.numbers, fun k b hb => ?_,
      by rw [ticks]; exact h.tiles.congr told, fun k b hb => ?_, fun k hk => ?_⟩
    · obtain ⟨a, ha, -⟩ := ahead k b hb
      rw [ticks]
      exact h.newest k a ha
    · obtain ⟨a, ha, hsub, hloc⟩ := ahead k b hb
      rw [shape_congr told]
      exact (h.fits k a ha).sub hsub hloc
    · rw [begun] at hk
      rw [shape_congr told]
      exact h.shaped k hk
  | tells f k a cause was still ahead told begun ticks =>
    have hnumber := h.newest k a was
    have hfits {b : List Category} (hb : Ahead t' k b) : Fits k (shape k.number t'.log) b := by
      obtain ⟨-, hsub, hloc⟩ := ahead k b hb
      rw [shape_of_told told cause]
      exact (h.fits k a was).tell hsub hloc
    refine ⟨by rw [begun, ticks]; exact h.numbers, fun k' b hb => ?_, ?_, fun k' b hb => ?_,
      fun k' hk => ?_⟩
    · obtain ⟨rfl, -⟩ := ahead k' b hb
      rw [ticks, hnumber]
    · have htiles := h.tiles
      rw [← hnumber] at htiles
      rw [ticks, ← hnumber]
      exact htiles.tell told cause
    · obtain ⟨rfl, -⟩ := ahead k' b hb
      exact hfits hb
    · rw [begun] at hk
      by_cases hn : k'.number = k.number
      · obtain rfl := hs.distinct k' k (mem_ticksIn.mp hk) (was.ticked hs) hn
        obtain ⟨b, hb⟩ := still
        exact ⟨b, hfits hb⟩
      · have hother : f.cause ≠ .tick k'.number := by
          rw [cause]
          exact fun h => hn (Cause.tick.inj h).symm
        rw [shape_of_other told hother]
        exact h.shaped k' hk
  | begins k number later ahead told begun ticks =>
    have hstart : Fits k (shape k.number t'.log) k.scope.order := by
      rw [shape_congr told, shape, number, h.tiles.block_eq_nil (Nat.le_refl _)]
      exact .start k
    refine ⟨?_, fun k' b hb => ?_, by rw [ticks]; exact (h.tiles.congr told).begin,
      fun k' b hb => ?_, fun k' hk => ?_⟩
    · rw [begun, ticks, List.range_succ, List.map_append, h.numbers, List.map_singleton, number]
    · obtain ⟨rfl, -⟩ := ahead k' b hb
      rw [number, ticks]
    · obtain ⟨rfl, rfl⟩ := ahead k' b hb
      exact hstart
    · rw [begun] at hk
      rcases List.mem_append.mp hk with hk | hk
      · rw [shape_congr told]
        exact h.shaped k' hk
      · rw [List.mem_singleton.mp hk]
        exact ⟨_, hstart⟩

/-- **On every run, what ticks have told is one block after the other.** -/
theorem Reaches.tiled {settings : Settings} {engine : Engine} {source : Source} {signal : Signal}
    {ms : List Move} (h : Reaches (.new settings engine source signal) ms t) : Tiled t := by
  have nothing (k : Tick) (a : List Category) :
      ¬ Ahead (.new settings engine source signal) k a := by
    intro h
    cases h with
    | stage mem => cases mem
    | derive hst => cases hst
    | pending asked => cases asked
  exact h.invariant
    (fun _ _ _ _ hr ht hc => ht.step hr.sound (hc.works (hr.laid rfl) (hr.quiet rfl)))
    ⟨rfl, fun k a h => absurd h (nothing k a), rfl, fun k a h => absurd h (nothing k a),
      fun k hk => absurd hk List.not_mem_nil⟩

/-! ## The whole account -/

/-- **What ticks tell, in the order it begins, is one block after the other, a block for each tick
in the order the ticks begin. A block has each category at most once, in order, and goes past the
raw location only with the location. That of the first tick of a worker has at most these two.** -/
theorem told_in_blocks {settings : Settings} {engine : Engine} {source : Source} {signal : Signal}
    {ms : List Move} (h : Reaches (.new settings engine source signal) ms t) :
    toldByTicks t.log = (ticksIn t.log).flatMap (fun k => block k.number t.log) ∧
    (ticksIn t.log).map (·.number) = List.range t.ticks ∧
    ∀ k ∈ ticksIn t.log,
      (shape k.number t.log).Sublist
        [.rawLocation, .location, .offRoute, .instructionCues, .routeProgress, .navigationPhase] ∧
      (∀ c ∈ shape k.number t.log, c ≠ .rawLocation → .location ∈ shape k.number t.log) ∧
      ((∀ k' ∈ ticksIn t.log, k'.generation = k.generation → k.number ≤ k'.number) →
        (shape k.number t.log).Sublist [.rawLocation, .location]) := by
  have htiled := h.tiled
  refine ⟨?_, htiled.numbers, fun k hk => ?_⟩
  · have htiles := htiled.tiles
    rwa [IsTiled, ← htiled.numbers, List.flatMap_map] at htiles
  · obtain ⟨a, hfits⟩ := htiled.shaped k hk
    refine ⟨?_, fun c hc hraw => hfits.located_of_mem hc hraw, fun hfirst => ?_⟩
    · refine hfits.told.trans ?_
      cases k.scope <;> decide
    · rcases h.opening.first k (mem_ticksIn.mp hk) with hscope | ⟨k', hk', hg, hlt⟩
      · have htold := hfits.told
        rwa [hscope] at htold
      · have := hfirst k' (mem_ticksIn.mpr hk') hg
        omega

/-- A session that is at the end of the route and off route by turns. -/
def wanderingTrip : Trip :=
  let status (how : Tracking) : Status :=
    { location := sampleLocation, tracking := how, progress := some ⟨"r", 0, 0, 0, 0, 0, 0⟩ }
  scripted [status .complete, status .offRoute, status .complete, status .offRoute]

/-- An observer stops it when it is told that it is off route, and starts it again at once. It is
told once more by a tick of the new worker. -/
def restartedOffRoute : Trip :=
  (play tick? move? 40
    [.decide (.call (.setDestination (some ⟨1, 1⟩))), .decide (.call (.setRoutes [{ id := "r" }])),
      .decide (.call (.setGuidance true)), .decide (.call (.setLastKnown (some sampleFix))),
      .decide (.call .start), .work, .decide (.call (.push sampleFix)), .work,
      .decide (.call (.observe (.named "a") .offRoute)), .decide .finish,
      .decide (.call (.push sampleFix)), .work, .decide (.call .stop), .decide .finish,
      .decide (.call .start), .decide .finish, .work, .decide (.call (.push sampleFix)), .work]
    wanderingTrip).get rfl

/-- The third tick is cut short by the stop, and the fourth is the first of the new worker. -/
theorem told_in_blocks_of_restart :
    (∃ ms, Reaches wanderingTrip ms restartedOffRoute) ∧
    (ticksIn restartedOffRoute.log).map (·.generation) = [1, 1, 1, 3, 3] ∧
    (toldByTicks restartedOffRoute.log).map (·.category) =
      [.rawLocation] ++ [.rawLocation, .location, .offRoute, .routeProgress, .navigationPhase] ++
        [.rawLocation, .location, .offRoute] ++ [.rawLocation, .location] ++
        [.rawLocation, .location, .offRoute] ∧
    toldByTicks restartedOffRoute.log =
      (ticksIn restartedOffRoute.log).flatMap (fun k => block k.number restartedOffRoute.log) ∧
    (shape 3 restartedOffRoute.log).Sublist [.rawLocation, .location] := by
  have h := reaches_of_runs (run_of_play (b := restartedOffRoute) 40 (Option.some_get _).symm)
  obtain ⟨htiles, -, hblocks⟩ := told_in_blocks h
  have hfourth : ⟨3, 3, 1, .locationOnly, some sampleFix⟩ ∈ ticksIn restartedOffRoute.log :=
    List.mem_of_getElem? (i := 3) rfl
  obtain ⟨-, -, hfirst⟩ := hblocks _ hfourth
  exact ⟨⟨_, h⟩, rfl, rfl, htiles, hfirst (by decide)⟩

end Trip
end LiveTrip
