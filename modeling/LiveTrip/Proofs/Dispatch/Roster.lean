import LiveTrip.Proofs.Dispatch.FanOut
import LiveTrip.Proofs.Dispatch.Numbers

/-!
# Who is registered, and which guards are out

* `Board.Deed`: what one step does to who is registered and to the guards.
* `Board.deed?`, `Board.displaced?`: what a call does, and what happens by itself.
* `Board.live`, `Board.pending`: the numbers of the guards in slots, and of those that wait for one.
* `Board.Does`: a step does this deed, and nothing else, to the roster. Every step does its own
  (`Board.tick?_does`, `Board.decide?_does`).
* `Board.History`: a run from an empty board with all that it has done. Every run has one
  (`Board.Reaches.history`).
-/

namespace LiveTrip

/-- The number of the guard that waits for a slot. -/
def Frame.pending? {C : Type} {V : C → Type} {O X : Type} : Frame C V O X → Option ObserverId
  | .keep _ g => some g.id
  | _ => none

namespace Board

variable {O V : Type}

/-- What a step does to who is registered and to the guards. -/
inductive Deed (O : Type)
  /-- An observer is given a number, which it may have already, with a guard or without. -/
  | given (o : O) (id : ObserverId) (guarded : Bool)
  /-- A call unregisters an observer. -/
  | struck (id : ObserverId)
  /-- A guard is released. -/
  | released (id : ObserverId)
  /-- A guard is taken away, and its observer stays. -/
  | detached (id : ObserverId)
  deriving DecidableEq, Repr

namespace Deed

def id : Deed O → ObserverId
  | .given _ id _ | .struck id | .released id | .detached id => id

/-- What it makes of a registry. -/
def on [DecidableEq O] (r : Registry O V) : Deed O → Registry O V
  | .given o _ _ => (r.enroll o).registry
  | .struck id | .released id => r.remove id
  | .detached _ => r

/-- The number of the guard that it makes. -/
def guarded? : Deed O → Option ObserverId
  | .given _ id true => some id
  | _ => none

/-- The number of the guard that it releases. -/
def released? : Deed O → Option ObserverId
  | .released id => some id
  | _ => none

/-- The number of the guard that it detaches. -/
def detached? : Deed O → Option ObserverId
  | .detached id => some id
  | _ => none

end Deed

/-- The numbers of the guards in their slots. -/
def live (b : Board O V) : List ObserverId := b.guards.map (·.2.id)

/-- The numbers of the guards that wait for their slots. -/
def pending (b : Board O V) : List ObserverId := b.stack.filterMap Frame.pending?

/-- Every guard has a slot of its own. -/
def SlotsDiffer (b : Board O V) : Prop := b.guards.Pairwise fun g g' => g.1 ≠ g'.1

/-- What happens to the roster by itself: a guard that gets its slot releases the one there. -/
def displaced? (b : Board O V) : Option (Deed O) :=
  match b.stack with
  | .keep slot _ :: _ => (b.guard? slot).map fun g => .released g.id
  | _ => none

variable [DecidableEq O]

/-- What a call does to the roster. -/
def deed? (b : Board O V) : Call O V → Option (Deed O)
  | .register o => some (.given o (b.items.enroll o).id false)
  | .subscribe o _ => some (.given o (b.items.enroll o).id true)
  | .unregister o => (b.items.idOf? o).map .struck
  | .unregisterId id => if b.items.has id then some (.struck id) else none
  | .release slot => (b.guard? slot).map fun g => .released g.id
  | .detach slot => (b.guard? slot).map fun g => .detached g.id
  | .publish _ | .forget | .last => none

/-- What whoever has the word does to the roster. -/
def decided? (b : Board O V) : Decision (Call O V) → Option (Deed O)
  | .call c => b.deed? c
  | .finish | .fail => none

/-- A deed is one that can be done to the board. -/
def Deed.Fits (b : Board O V) : Deed O → Prop
  | .given o id _ => id = (b.items.enroll o).id
  | .struck id => b.items.has id = true
  | .released id | .detached id => id ∈ b.live

/-- A step does this to who is registered and to the guards, and nothing else. -/
structure Does (b : Board O V) (deed : Option (Deed O)) (b' : Board O V) : Prop where
  entries : b'.items.entries = (deed.elim b.items (·.on b.items)).entries
  nextId : b'.items.nextId = (deed.elim b.items (·.on b.items)).nextId
  fits : ∀ x, deed = some x → x.Fits b
  differ : b.SlotsDiffer → b'.SlotsDiffer
  guards : b.SlotsDiffer →
    (deed.toList.filterMap Deed.guarded? ++ (b.live ++ b.pending)).Perm
      (deed.toList.filterMap Deed.released? ++ deed.toList.filterMap Deed.detached? ++
        (b'.live ++ b'.pending))

/-! ## Guards in their slots -/

section Guards

omit [DecidableEq O]

/-- Where a slot is empty, nothing is taken out of it. -/
theorem filter_of_guard?_none {b : Board O V} {slot : Slot} (h : b.guard? slot = none) :
    b.guards.filter (·.1 != slot) = b.guards := by
  refine List.filter_eq_self.mpr fun g hg => ?_
  have hfind : b.guards.find? (·.1 == slot) = none := Option.map_eq_none_iff.mp h
  simpa using List.find?_eq_none.mp hfind g hg

theorem mem_live_of_guard? {b : Board O V} {slot : Slot} {g : Guard Unit}
    (h : b.guard? slot = some g) : g.id ∈ b.live := by
  obtain ⟨p, hp, rfl⟩ := Option.map_eq_some_iff.mp h
  exact List.mem_map_of_mem (List.mem_of_find?_eq_some hp)

/-- Taking out the guard of a slot takes out that one. -/
theorem live_perm_of_guard? {guards : List (Slot × Guard Unit)} {slot : Slot} {g : Guard Unit}
    (differ : guards.Pairwise fun g g' => g.1 ≠ g'.1)
    (h : (guards.find? (·.1 == slot)).map (·.2) = some g) :
    (guards.map (·.2.id)).Perm (g.id :: (guards.filter (·.1 != slot)).map (·.2.id)) := by
  induction guards with
  | nil => cases h
  | cons p guards ih =>
    obtain ⟨hp, differ⟩ := List.pairwise_cons.mp differ
    by_cases hs : p.1 = slot
    · have hfirst : p.2 = g := by simpa [List.find?_cons, hs] using h
      have hrest : guards.filter (·.1 != slot) = guards :=
        List.filter_eq_self.mpr fun q hq => by simpa [hs] using (hp q hq).symm
      simp [hs, hrest, hfirst]
    · have h : (guards.find? (·.1 == slot)).map (·.2) = some g := by
        simpa [List.find?_cons, hs] using h
      have hfilter : (p :: guards).filter (·.1 != slot) = p :: guards.filter (·.1 != slot) := by
        simp [hs]
      rw [hfilter, List.map_cons, List.map_cons]
      exact ((ih differ h).cons _).trans (.swap _ _ _)

end Guards

/-! ## What each step does -/

namespace Does

variable {b b' : Board O V}

/-- Nothing is done where the entries, the next number, the guards and those that wait are kept. -/
theorem nothing (he : b'.items.entries = b.items.entries) (hn : b'.items.nextId = b.items.nextId)
    (hg : b'.guards = b.guards) (hp : b'.pending = b.pending) : Does b none b' where
  entries := he
  nextId := hn
  fits := nofun
  differ h := by rwa [SlotsDiffer, hg]
  guards _ := by simp only [live, hg, hp]; exact .refl _

/-- A call that unregisters. -/
theorem strike {id : ObserverId} (he : b'.items = b.items.remove id) (hid : b.items.has id = true)
    (hg : b'.guards = b.guards) (hp : b'.pending = b.pending) : Does b (some (.struck id)) b' where
  entries := by rw [he]; rfl
  nextId := by rw [he]; rfl
  fits := by rintro _ ⟨⟩; exact hid
  differ h := by rwa [SlotsDiffer, hg]
  guards _ := by simp only [live, hg, hp]; exact .refl _

/-- An observer enrols, and a guard for it waits or not. -/
theorem give {o : O} {guarded : Bool} (he : b'.items = (b.items.enroll o).registry)
    (hg : b'.guards = b.guards)
    (hp : b'.pending = (if guarded then [(b.items.enroll o).id] else []) ++ b.pending) :
    Does b (some (.given o (b.items.enroll o).id guarded)) b' where
  entries := by rw [he]; rfl
  nextId := by rw [he]; rfl
  fits := by rintro _ ⟨⟩; rfl
  differ h := by rwa [SlotsDiffer, hg]
  guards _ := by
    simp only [live, hg, hp]
    cases guarded with
    | true =>
      exact (List.perm_middle : (b.live ++ (b.items.enroll o).id :: b.pending).Perm _).symm
    | false => exact .refl _

omit [DecidableEq O] in
theorem slotsDiffer_filter {guards : List (Slot × Guard Unit)}
    (h : guards.Pairwise fun g g' => g.1 ≠ g'.1) (slot : Slot) :
    (guards.filter (·.1 != slot)).Pairwise fun g g' => g.1 ≠ g'.1 := h.sublist List.filter_sublist

/-- A guard is released by a call. -/
theorem release {slot : Slot} {g : Guard Unit} (h : b.guard? slot = some g)
    (he : b'.items = b.items.remove g.id) (hg : b'.guards = b.guards.filter (·.1 != slot))
    (hp : b'.pending = b.pending) : Does b (some (.released g.id)) b' where
  entries := by rw [he]; rfl
  nextId := by rw [he]; rfl
  fits := by rintro _ ⟨⟩; exact mem_live_of_guard? h
  differ hd := by
    rw [SlotsDiffer, hg]
    exact slotsDiffer_filter hd slot
  guards hd := by
    simp only [live, hg, hp]
    exact (live_perm_of_guard? hd h).append_right _

/-- A guard is detached. -/
theorem detach {slot : Slot} {g : Guard Unit} (h : b.guard? slot = some g)
    (he : b'.items = b.items) (hg : b'.guards = b.guards.filter (·.1 != slot))
    (hp : b'.pending = b.pending) : Does b (some (.detached g.id)) b' where
  entries := by rw [he]; rfl
  nextId := by rw [he]; rfl
  fits := by rintro _ ⟨⟩; exact mem_live_of_guard? h
  differ hd := by
    rw [SlotsDiffer, hg]
    exact slotsDiffer_filter hd slot
  guards hd := by
    simp only [live, hg, hp]
    exact (live_perm_of_guard? hd h).append_right _

end Does

omit [DecidableEq O] in
theorem pending_of_top {b : Board O V} {x : Frame Unit (fun _ => V) O (Reply O V)}
    {below : List (Frame Unit (fun _ => V) O (Reply O V))} (top : b.stack = x :: below) :
    b.pending = x.pending?.toList ++ below.filterMap Frame.pending? := by
  rw [pending, top, List.filterMap_cons]
  cases x.pending? <;> rfl

/-- The fan-out that is owed to a new observer makes no guard wait. -/
theorem pending_register (b : Board O V) (o : O) : pending (b.register () o).1 = b.pending := by
  have hfanout : ((b.due (.register o)).toList.map fun p =>
      Frame.fanout (O := O) (X := Reply O V) p.1 p.2).filterMap Frame.pending? = [] := by
    simp [List.filterMap_map, Function.comp_def, Frame.pending?]
  rw [pending, (register_spec b o).1, List.filterMap_append, hfanout]
  rfl

theorem guards_register (b : Board O V) (o : O) : (b.register () o).1.guards = b.guards := by
  simp only [Dispatch.register]
  split <;> rfl

theorem items_register (b : Board O V) (o : O) :
    items (b.register () o).1 = (b.items.enroll o).registry := b.registry_register () o

/-- What a call sets off does its deed. -/
theorem perform_does (b : Board O V) (c : Call O V) : Does b (b.deed? c) (b.perform c) := by
  cases c with
  | publish v => exact .nothing rfl rfl rfl rfl
  | register o => exact .give (items_register b o) (guards_register b o) (pending_register b o)
  | unregister o =>
    simp only [deed?, perform, Dispatch.unregisterObserver]
    have hregistry : Dispatch.registry b () = b.items := rfl
    rw [hregistry]
    cases ho : b.items.idOf? o with
    | none => exact .nothing rfl rfl rfl rfl
    | some id => exact .strike rfl (Registry.has_iff.mpr ⟨o, Registry.mem_of_idOf? ho⟩) rfl rfl
  | unregisterId id =>
    have hitems : items (b.perform (.unregisterId id)) = b.items.remove id := rfl
    simp only [deed?]
    cases hid : b.items.has id with
    | true => exact .strike hitems hid rfl rfl
    | false =>
      rw [Registry.remove_of_not_has hid] at hitems
      exact .nothing (by rw [hitems]) (by rw [hitems]) rfl rfl
  | subscribe o slot =>
    exact .give (items_register _ o) (guards_register _ o) (pending_register _ o)
  | release slot =>
    simp only [deed?, perform, Dispatch.release]
    cases hg : b.guard? slot with
    | none => exact .nothing rfl rfl rfl rfl
    | some g => exact .release hg rfl rfl rfl
  | detach slot =>
    simp only [deed?, perform, Dispatch.detach]
    cases hg : b.guard? slot with
    | none => exact .nothing rfl rfl (filter_of_guard?_none hg) rfl
    | some g => exact .detach hg rfl rfl rfl
  | forget => exact .nothing rfl rfl rfl rfl
  | last => exact .nothing rfl rfl rfl rfl

/-- Each call does its deed. -/
theorem call_does (b : Board O V) (caller : Option O) (c : Call O V) :
    Does b (b.deed? c) (b.call caller c) := by
  have h := perform_does (b.pushOwner ⟨caller, c, b.answer c⟩) c
  have hdeed : deed? (b.pushOwner ⟨caller, c, b.answer c⟩) c = b.deed? c := by cases c <;> rfl
  rw [hdeed] at h
  exact ⟨h.entries, h.nextId, h.fits, h.differ, h.guards⟩

/-- A guard gets its slot, and the one that was there is released. -/
theorem keep_does {b : Board O V} {slot : Slot} {g : Guard Unit}
    {below : List (Frame Unit (fun _ => V) O (Reply O V))} (top : b.stack = .keep slot g :: below) :
    Does b ((b.guard? slot).map fun old => .released old.id)
      (Dispatch.keep { b with stack := below } slot g) := by
  have hwaits : b.pending = g.id :: below.filterMap Frame.pending? := pending_of_top top
  have differ {guards : List (Slot × Guard Unit)} (hd : guards.Pairwise fun g g' => g.1 ≠ g'.1) :
      ((slot, g) :: guards.filter (·.1 != slot)).Pairwise fun g g' => g.1 ≠ g'.1 := by
    refine List.pairwise_cons.mpr ⟨fun q hq => ?_, Does.slotsDiffer_filter hd slot⟩
    exact Ne.symm (by simpa using (List.mem_filter.mp hq).2)
  have hguard : Dispatch.guard? { b with stack := below } slot = b.guard? slot := rfl
  simp only [Dispatch.keep, Dispatch.release, hguard]
  cases hold : b.guard? slot with
  | none =>
    have hkept := filter_of_guard?_none hold
    refine ⟨rfl, rfl, nofun, fun hd => ?_, fun _ => ?_⟩
    · have hd := differ hd
      rwa [hkept] at hd
    · rw [hwaits]
      exact List.perm_middle
  | some old =>
    refine ⟨rfl, rfl, ?_, differ, fun hd => ?_⟩
    · rintro _ ⟨⟩
      exact mem_live_of_guard? hold
    · rw [hwaits]
      exact ((live_perm_of_guard? hd hold).append_right _).trans (List.perm_middle.cons _)

theorem tick?_does {b b' : Board O V} (h : b.tick? = some b') : Does b b.displaced? b' := by
  unfold tick? at h
  split at h
  · rename_i r below top
    cases h
    rw [displaced?, top]
    exact .nothing rfl rfl rfl (pending_of_top top).symm
  · obtain ⟨f, below, top, rfl⟩ | ⟨f, id, o, rest, below, top, rfl⟩ | ⟨slot, g, below, top, rfl⟩ :=
      Dispatch.advance?_cases h
    · rw [displaced?, top]
      exact .nothing rfl rfl rfl (pending_of_top top).symm
    · rw [displaced?, top]
      exact .nothing rfl rfl rfl (pending_of_top top).symm
    · rw [displaced?, top]
      exact keep_does top

theorem decide?_does {b b' : Board O V} {d : Decision (Call O V)} (h : b.decide? d = some b') :
    Does b (b.decided? d) b' := by
  unfold decide? at h
  split at h <;> cases h
  · exact call_does _ _ _
  · obtain ⟨f, id, below, top⟩ := Dispatch.acting_of_speaker ‹_›
    rw [Dispatch.finish_eq top]
    exact .nothing rfl rfl rfl (pending_of_top top).symm
  · obtain ⟨f, id, below, top⟩ := Dispatch.acting_of_speaker ‹_›
    rw [Dispatch.fail_eq top]
    exact .nothing rfl rfl rfl (pending_of_top top).symm

/-! ## What a run has done -/

/-- A run by `ds` from an empty board to `e`, with what it has done, last first. -/
inductive History : List (Decision (Call O V)) → List (Deed O) → Board O V → Prop
  | start : History [] [] empty
  | tick {ds : List (Decision (Call O V))} {deeds : List (Deed O)} {b b' : Board O V} :
      History ds deeds b → b.tick? = some b' → History ds (b.displaced?.toList ++ deeds) b'
  | decide {ds : List (Decision (Call O V))} {deeds : List (Deed O)} {b b' : Board O V}
      {d : Decision (Call O V)} : History ds deeds b → b.decide? d = some b' →
      History (ds ++ [d]) ((b.decided? d).toList ++ deeds) b'

/-- Every run has done something. -/
theorem Reaches.history {ds : List (Decision (Call O V))} {e : Board O V}
    (h : Reaches empty ds e) : ∃ deeds, History ds deeds e := by
  have hr := h.runs
  clear h
  induction hr with
  | refl => exact ⟨[], .start⟩
  | silent _ hs ih =>
    obtain ⟨deeds, h⟩ := ih
    exact ⟨_, h.tick hs⟩
  | act _ hs ih =>
    obtain ⟨deeds, h⟩ := ih
    exact ⟨_, h.decide hs⟩

/-- The roster of a board is what the deeds have made it. -/
structure Recorded (deeds : List (Deed O)) (b : Board O V) : Prop where
  wellFormed : b.items.WellFormed
  known : ∀ x ∈ deeds, x.id < b.items.nextId
  registered : ∀ n o, (n, o) ∈ b.items.entries ↔
    (∃ guarded, .given o n guarded ∈ deeds) ∧ .struck n ∉ deeds ∧ .released n ∉ deeds
  /-- A number is given to one observer only. -/
  single : ∀ o o' n guarded guarded', .given o n guarded ∈ deeds → .given o' n guarded' ∈ deeds →
    o = o'
  differ : b.SlotsDiffer
  /-- Every guard that was made is released, detached, in a slot or waits for one. -/
  guards : (deeds.filterMap Deed.guarded?).Perm
    (deeds.filterMap Deed.released? ++ deeds.filterMap Deed.detached? ++ (b.live ++ b.pending))

namespace Recorded

variable {deeds : List (Deed O)} {b b' : Board O V}

omit [DecidableEq O] in
theorem start : Recorded [] (empty : Board O V) where
  wellFormed := Registry.wellFormed_empty
  known := nofun
  registered n o := by simp [empty, items]
  single _ _ _ _ _ := nofun
  differ := .nil
  guards := .nil

omit [DecidableEq O] in
/-- The numbers of guards have been given out. -/
theorem guard_lt (h : Recorded deeds b) {n : ObserverId} (hn : n ∈ b.live ++ b.pending) :
    n < b.items.nextId := by
  have hmade : n ∈ deeds.filterMap Deed.guarded? :=
    h.guards.mem_iff.mpr (List.mem_append_right _ hn)
  obtain ⟨x, hx, hid⟩ := List.mem_filterMap.mp hmade
  have hlt := h.known x hx
  cases x with
  | given o id guarded =>
    cases guarded with
    | true => cases hid; exact hlt
    | false => cases hid
  | _ => cases hid

/-- Whoever is given a number that somebody has been given already is that one. -/
theorem eq_of_enroll (h : Recorded deeds b) {o p : O} {guarded : Bool}
    (hp : .given p (b.items.enroll o).id guarded ∈ deeds) : p = o := by
  cases ho : b.items.idOf? o with
  | none =>
    rw [Registry.enroll_of_none ho] at hp
    exact absurd (h.known _ hp) (Nat.lt_irrefl _)
  | some id =>
    rw [Registry.enroll_of_some ho] at hp
    obtain ⟨⟨_, hgiven⟩, -⟩ := (h.registered id o).mp (Registry.mem_of_idOf? ho)
    exact h.single p o id _ _ hp hgiven

/-- Who is registered once an observer has enrolled. -/
theorem registered_enroll (h : Recorded deeds b) (o : O) (guarded : Bool) (n : ObserverId) (p : O) :
    (n, p) ∈ (b.items.enroll o).registry.entries ↔
      (∃ guarded', .given p n guarded' ∈ .given o (b.items.enroll o).id guarded :: deeds) ∧
      .struck n ∉ deeds ∧ .released n ∉ deeds := by
  have hold := h.registered n p
  cases ho : b.items.idOf? o with
  | none =>
    rw [Registry.enroll_of_none ho]
    have fresh (x : Deed O) (hx : x.id = b.items.nextId) : x ∉ deeds := fun hmem =>
      Nat.lt_irrefl _ (hx ▸ h.known x hmem)
    rw [List.mem_append, List.mem_singleton, hold]
    constructor
    · rintro (⟨⟨guarded', hg⟩, hs⟩ | ⟨rfl, rfl⟩)
      · exact ⟨⟨guarded', .tail _ hg⟩, hs⟩
      · exact ⟨⟨guarded, .head _⟩, fresh _ rfl, fresh _ rfl⟩
    · rintro ⟨⟨guarded', hg⟩, hs⟩
      rcases List.mem_cons.mp hg with hg | hg
      · cases hg
        exact .inr rfl
      · exact .inl ⟨⟨guarded', hg⟩, hs⟩
  | some id =>
    rw [Registry.enroll_of_some ho]
    refine hold.trans (and_congr_left fun _ => ⟨Exists.imp fun _ => List.mem_cons_of_mem _, ?_⟩)
    rintro ⟨guarded', hg⟩
    rcases List.mem_cons.mp hg with hg | hg
    · cases hg
      exact ((h.registered id o).mp (Registry.mem_of_idOf? ho)).1
    · exact ⟨guarded', hg⟩

/-- What is done to a registry that is well formed leaves it so. -/
theorem wellFormed_on (h : Recorded deeds b) (x : Deed O) : (x.on b.items).WellFormed := by
  cases x with
  | given o id guarded => exact h.wellFormed.enroll o
  | struck id => exact h.wellFormed.remove id
  | released id => exact h.wellFormed.remove id
  | detached id => exact h.wellFormed

/-- The number of a deed is taken after it. -/
theorem id_lt_on (h : Recorded deeds b) {x : Deed O} (fits : x.Fits b) :
    x.id < (x.on b.items).nextId := by
  cases x with
  | given o id guarded =>
    cases fits
    exact h.wellFormed.id_lt_enroll o
  | struck id =>
    obtain ⟨o, ho⟩ := Registry.has_iff.mp fits
    exact h.wellFormed.ids_below _ ho
  | released id => exact h.guard_lt (List.mem_append_left _ fits)
  | detached id => exact h.guard_lt (List.mem_append_left _ fits)

theorem nextId_le_on (r : Registry O V) (x : Deed O) : r.nextId ≤ (x.on r).nextId := by
  cases x with
  | given o id guarded => exact (Registry.grows_enroll r o).nextId
  | _ => exact Nat.le_refl _

/-- Who is registered once a deed is done. -/
theorem registered_on (h : Recorded deeds b) {x : Deed O} (fits : x.Fits b) (n : ObserverId)
    (o : O) : (n, o) ∈ (x.on b.items).entries ↔
      (∃ guarded, .given o n guarded ∈ x :: deeds) ∧ .struck n ∉ x :: deeds ∧
      .released n ∉ x :: deeds := by
  have hold := h.registered n o
  cases x with
  | given p id guarded =>
    cases fits
    rw [Deed.on, h.registered_enroll p guarded n o]
    simp only [List.mem_cons, reduceCtorEq, false_or]
  | struck id =>
    simp only [Deed.on, Registry.remove, List.mem_filter, hold, List.mem_cons, reduceCtorEq,
      false_or, Deed.struck.injEq, ne_eq, decide_eq_true_eq, not_or]
    constructor
    · rintro ⟨⟨hg, hs, hr⟩, hne⟩
      exact ⟨hg, ⟨hne, hs⟩, hr⟩
    · rintro ⟨hg, ⟨hne, hs⟩, hr⟩
      exact ⟨⟨hg, hs, hr⟩, hne⟩
  | released id =>
    simp only [Deed.on, Registry.remove, List.mem_filter, hold, List.mem_cons, reduceCtorEq,
      false_or, Deed.released.injEq, ne_eq, decide_eq_true_eq, not_or]
    constructor
    · rintro ⟨⟨hg, hs, hr⟩, hne⟩
      exact ⟨hg, hs, hne, hr⟩
    · rintro ⟨hg, hs, hne, hr⟩
      exact ⟨⟨hg, hs, hr⟩, hne⟩
  | detached id => simpa [Deed.on] using hold

/-- A step keeps it, with its deed. -/
theorem does {deed : Option (Deed O)} (h : Recorded deeds b) (hd : Does b deed b') :
    Recorded (deed.toList ++ deeds) b' := by
  have hguards : ((deed.toList ++ deeds).filterMap Deed.guarded?).Perm
      ((deed.toList ++ deeds).filterMap Deed.released? ++
        (deed.toList ++ deeds).filterMap Deed.detached? ++ (b'.live ++ b'.pending)) := by
    refine List.perm_iff_count.mpr fun n => ?_
    have hstep := (hd.guards h.differ).count_eq n
    have hold := h.guards.count_eq n
    simp only [List.filterMap_append, List.count_append] at hstep hold ⊢
    omega
  cases deed with
  | none =>
    exact ⟨h.wellFormed.congr hd.entries hd.nextId, fun x hx => hd.nextId ▸ h.known x hx,
      fun n o => hd.entries ▸ h.registered n o, h.single, hd.differ h.differ, hguards⟩
  | some x =>
    have fits := hd.fits x rfl
    refine ⟨(h.wellFormed_on x).congr hd.entries hd.nextId, fun y hy => ?_,
      fun n o => hd.entries ▸ h.registered_on fits n o, ?_, hd.differ h.differ, hguards⟩
    · rw [hd.nextId]
      rcases List.mem_cons.mp hy with rfl | hy
      · exact h.id_lt_on fits
      · exact Nat.lt_of_lt_of_le (h.known y hy) (nextId_le_on b.items x)
    · intro o o' n guarded guarded' ho ho'
      rcases List.mem_cons.mp ho with hx | hold <;> rcases List.mem_cons.mp ho' with hx' | hold'
      · rw [← hx] at hx'
        cases hx'
        rfl
      · subst hx
        cases fits
        exact (h.eq_of_enroll hold').symm
      · subst hx'
        cases fits
        exact h.eq_of_enroll hold
      · exact h.single o o' n _ _ hold hold'

end Recorded

/-- **The roster at the end of a run is what its deeds have made it.** -/
theorem History.recorded {ds : List (Decision (Call O V))} {deeds : List (Deed O)} {e : Board O V}
    (h : History ds deeds e) : Recorded deeds e := by
  induction h with
  | start => exact .start
  | tick _ hs ih => exact ih.does (tick?_does hs)
  | decide _ hs ih => exact ih.does (decide?_does hs)

end Board
end LiveTrip
