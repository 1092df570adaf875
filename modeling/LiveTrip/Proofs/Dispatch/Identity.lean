import LiveTrip.Proofs.Dispatch.Roster
import Mathlib.Data.List.Nodup

/-!
# Numbers that identify

Over every run of a registry, with observers that call back into it from inside a delivery.

* `Registry.Follows`: a registry comes out of another one: those who are left, in the same order,
  and then newer ones with newer numbers. What a run makes of a registry follows it
  (`Board.Reaches.follows`).
* `Board.replies`: the answers that were given and those that wait. `Board.Reaches.struck`: a number
  is struck with success once at most.
* `Board.Removes`: a step that unregisters by a number, as a call or as a guard.
* `Board.numbers_identify`: the whole account.
-/

namespace LiveTrip

/-! ## What follows a registry -/

/-- Those who are left, in the same order, and then newer ones. -/
structure Registry.Follows {O V : Type} (r r' : Registry O V) : Prop where
  nextId : r.nextId ≤ r'.nextId
  entries : ∃ kept newer, r'.entries = kept ++ newer ∧ kept.Sublist r.entries ∧
    ∀ e ∈ newer, r.nextId ≤ e.1

namespace Registry

variable {O V : Type} {r r' r'' : Registry O V}

theorem Follows.of_sublist (he : r'.entries.Sublist r.entries) (hn : r'.nextId = r.nextId) :
    r.Follows r' :=
  ⟨Nat.le_of_eq hn.symm, r'.entries, [], (List.append_nil _).symm, he, nofun⟩

theorem Follows.refl (r : Registry O V) : r.Follows r := .of_sublist (.refl _) rfl

theorem Follows.trans (h : r.Follows r') (h' : r'.Follows r'') : r.Follows r'' := by
  obtain ⟨kept, newer, he, hkept, hnewer⟩ := h.entries
  obtain ⟨kept', newer', he', hkept', hnewer'⟩ := h'.entries
  rw [he] at hkept'
  obtain ⟨old, young, rfl, hold, hyoung⟩ := List.sublist_append_iff.mp hkept'
  refine ⟨Nat.le_trans h.nextId h'.nextId, old, young ++ newer', ?_, hold.trans hkept, ?_⟩
  · rw [he', List.append_assoc]
  · intro e hmem
    rcases List.mem_append.mp hmem with hmem | hmem
    · exact hnewer e (hyoung.subset hmem)
    · exact Nat.le_trans h.nextId (hnewer' e hmem)

theorem follows_remove (r : Registry O V) (id : ObserverId) : r.Follows (r.remove id) :=
  .of_sublist List.filter_sublist rfl

theorem follows_enroll [DecidableEq O] (r : Registry O V) (o : O) :
    r.Follows (r.enroll o).registry := by
  cases h : r.idOf? o with
  | some id => rw [enroll_of_some h]; exact .refl r
  | none =>
    rw [enroll_of_none h]
    refine ⟨Nat.le_succ _, r.entries, [(r.nextId, o)], rfl, .refl _, fun e he => ?_⟩
    cases List.mem_singleton.mp he
    exact Nat.le_refl _

/-- Whoever has a number that was given before has had it before. -/
theorem Follows.mem (h : r.Follows r') {e : ObserverId × O} (he : e ∈ r'.entries)
    (hid : e.1 < r.nextId) : e ∈ r.entries := by
  obtain ⟨kept, newer, heq, hkept, hnewer⟩ := h.entries
  rw [heq] at he
  refine hkept.subset ((List.mem_append.mp he).resolve_right fun hmem => ?_)
  exact Nat.not_lt.mpr (hnewer e hmem) hid

/-- A number that nobody has any more stays so. -/
theorem Follows.not_has (h : r.Follows r') {id : ObserverId} (hid : id < r.nextId)
    (hn : r.has id = false) : r'.has id = false := by
  refine Bool.eq_false_iff.mpr fun hhas => ?_
  obtain ⟨o, ho⟩ := has_iff.mp hhas
  rw [has_iff.mpr ⟨o, h.mem ho hid⟩] at hn
  cases hn

/-- A number is that of one observer. -/
theorem WellFormed.eq_of_mem (h : r.WellFormed) {id : ObserverId} {o p : O}
    (ho : (id, o) ∈ r.entries) (hp : (id, p) ∈ r.entries) : o = p := by
  have hnodup : (r.entries.map (·.1)).Nodup :=
    List.pairwise_map.mpr (h.ids_rise.imp fun hlt => Nat.ne_of_lt hlt)
  exact congrArg Prod.snd (List.inj_on_of_nodup_map hnodup ho hp rfl)

theorem mem_enroll [DecidableEq O] (r : Registry O V) (o : O) :
    ((r.enroll o).id, o) ∈ (r.enroll o).registry.entries := by
  cases h : r.idOf? o with
  | none =>
    rw [enroll_of_none h]
    exact List.mem_append_right _ (List.mem_singleton_self _)
  | some id =>
    rw [enroll_of_some h]
    exact mem_of_idOf? h

end Registry

namespace Board

variable {O V : Type} [DecidableEq O] {b b' e : Board O V} {ds : List (Decision (Call O V))}

theorem Does.follows {deed : Option (Deed O)} (h : Does b deed b') : b.items.Follows b'.items := by
  have hdone : b.items.Follows (deed.elim b.items (·.on b.items)) := by
    cases deed with
    | none => exact .refl _
    | some x =>
      cases x with
      | given o id guarded => exact Registry.follows_enroll _ o
      | struck id => exact Registry.follows_remove _ id
      | released id => exact Registry.follows_remove _ id
      | detached id => exact .refl _
  exact hdone.trans (.of_sublist (h.entries ▸ .refl _) h.nextId)

/-- What a run makes of a registry follows it. -/
theorem Reaches.follows (h : Reaches b ds e) : b.items.Follows e.items := by
  induction h with
  | refl => exact .refl _
  | tick hs _ ih => exact (tick?_does hs).follows.trans ih
  | decide hs _ ih => exact (decide?_does hs).follows.trans ih

/-! ## Answers -/

/-- The answer that waits at a level. -/
def waiting? : Frame Unit (fun _ => V) O (Reply O V) → Option (Reply O V)
  | .owner r => some r
  | _ => none

/-- The answer that an event gives. -/
def given? : Event Unit (fun _ => V) O (Reply O V) → Option (Reply O V)
  | .owner r => some r
  | _ => none

/-- The answers that wait, and those that were given. -/
def replies (b : Board O V) : List (Reply O V) :=
  b.stack.filterMap waiting? ++ b.log.filterMap given?

/-- The answer says that the number was unregistered. -/
def Reply.strikes (id : ObserverId) : Reply O V → Bool
  | ⟨_, .unregisterId n, .flag true⟩ => n = id
  | _ => false

omit [DecidableEq O] in
theorem replies_of_alike (h : Dispatch.Alike b b') : replies b' = b.replies := by
  rw [replies, h.1, h.2.1, replies]

theorem replies_register (b : Board O V) (o : O) :
    replies (b.register () o).1 = b.replies := by
  obtain ⟨hs, hl⟩ := register_spec b o
  rw [replies, hs, hl, List.filterMap_append, List.filterMap_append, List.filterMap_map,
    List.filterMap_map]
  have hfanouts (l : List (Fanout Unit (fun _ => V) × List (ObserverId × O))) :
      l.filterMap (waiting? ∘ fun p => .fanout p.1 p.2) = [] :=
    List.filterMap_eq_nil_iff.mpr fun _ _ => rfl
  have hbegan (l : List (Fanout Unit (fun _ => V) × List (ObserverId × O))) :
      l.filterMap (given? ∘ fun p => .began p.1 p.2) = [] :=
    List.filterMap_eq_nil_iff.mpr fun _ _ => rfl
  rw [hfanouts, hbegan]
  rfl

theorem replies_perform (b : Board O V) (c : Call O V) : replies (b.perform c) = b.replies := by
  cases c with
  | register o => exact replies_register b o
  | subscribe o slot => exact replies_register _ o
  | unregister o => exact replies_of_alike (b.unregisterObserver_alike () o)
  | release slot => exact replies_of_alike (b.release_alike slot)
  | _ => rfl

/-- A call has one answer. -/
theorem replies_call (b : Board O V) (caller : Option O) (c : Call O V) :
    replies (b.call caller c) = ⟨caller, c, b.answer c⟩ :: b.replies := replies_perform _ c

omit [DecidableEq O] in
theorem replies_of_tick? (h : b.tick? = some b') : (replies b').Perm b.replies := by
  unfold tick? at h
  split at h
  · rename_i r below top
    cases h
    rw [replies, replies, top]
    exact List.perm_middle
  · obtain ⟨f, below, top, rfl⟩ | ⟨f, id, o, rest, below, top, rfl⟩ | ⟨slot, g, below, top, rfl⟩ :=
      Dispatch.advance?_cases h
    · rw [replies, replies, top]
      exact .refl _
    · rw [replies, replies, top]
      exact .refl _
    · rw [replies_of_alike (Dispatch.keep_alike { b with stack := below } slot g), replies, replies,
        top]
      exact .refl _

theorem replies_of_decide? {d : Decision (Call O V)} (h : b.decide? d = some b') :
    (∃ caller c, b' = b.call caller c) ∨ replies b' = b.replies := by
  unfold decide? at h
  split at h <;> cases h
  · exact .inl ⟨_, _, rfl⟩
  · obtain ⟨f, id, below, top⟩ := Dispatch.acting_of_speaker ‹_›
    rw [Dispatch.finish_eq top, replies, replies, top]
    exact .inr rfl
  · obtain ⟨f, id, below, top⟩ := Dispatch.acting_of_speaker ‹_›
    rw [Dispatch.fail_eq top, replies, replies, top]
    exact .inr rfl

/-- A number is struck with success once at most, and then nobody has it. -/
def StruckOnce (b : Board O V) (id : ObserverId) : Prop :=
  b.replies.countP (Reply.strikes id) ≤ 1 ∧
    (0 < b.replies.countP (Reply.strikes id) → id < b.items.nextId ∧ b.items.has id = false)

omit [DecidableEq O] in
/-- Where nothing is answered anew, it stays so. -/
theorem StruckOnce.mono {id : ObserverId} (h : StruckOnce b id)
    (hf : b.items.Follows (items b')) (hp : (replies b').Perm b.replies) : StruckOnce b' id := by
  rw [StruckOnce, hp.countP_eq]
  refine ⟨h.1, fun hpos => ?_⟩
  obtain ⟨hid, hgone⟩ := h.2 hpos
  exact ⟨Nat.lt_of_lt_of_le hid hf.nextId, hf.not_has hid hgone⟩

/-- Only a call for a number that somebody has strikes it. -/
theorem call_of_strikes {id : ObserverId} {caller : Option O} {c : Call O V}
    (h : Reply.strikes id ⟨caller, c, b.answer c⟩ = true) :
    c = .unregisterId id ∧ b.items.has id = true := by
  cases c with
  | unregisterId n =>
    cases hhas : b.items.has n with
    | true =>
      simp only [Reply.strikes, answer, hhas, decide_eq_true_eq] at h
      exact ⟨by rw [h], h ▸ hhas⟩
    | false => simp [Reply.strikes, answer, hhas] at h
  | _ => simp [Reply.strikes] at h

theorem StruckOnce.call {id : ObserverId} (h : StruckOnce b id) (hw : b.items.WellFormed)
    (caller : Option O) (c : Call O V) : StruckOnce (b.call caller c) id := by
  have hf : b.items.Follows (items (b.call caller c)) := (call_does b caller c).follows
  rw [StruckOnce, replies_call, List.countP_cons]
  cases hs : Reply.strikes id ⟨caller, c, b.answer c⟩ with
  | false =>
    refine ⟨h.1, fun hpos => ?_⟩
    obtain ⟨hid, hgone⟩ := h.2 hpos
    exact ⟨Nat.lt_of_lt_of_le hid hf.nextId, hf.not_has hid hgone⟩
  | true =>
    obtain ⟨rfl, hhas⟩ := call_of_strikes hs
    -- The number was there until now, so it was not struck before.
    have hnone : b.replies.countP (Reply.strikes id) = 0 := by
      refine Nat.eq_zero_of_not_pos fun hpos => ?_
      rw [(h.2 hpos).2] at hhas
      cases hhas
    obtain ⟨o, ho⟩ := Registry.has_iff.mp hhas
    refine ⟨by simp [hnone], fun _ => ⟨hw.ids_below _ ho, ?_⟩⟩
    show (b.items.remove id).has id = false
    simp [Registry.has, Registry.remove]

/-- **A number is struck with success once at most.** -/
theorem Reaches.struckOnce (h : Reaches empty ds e) (id : ObserverId) : StruckOnce e id := by
  have hr := h.runs
  clear h
  induction hr with
  | refl => exact ⟨Nat.zero_le _, fun h => absurd h (Nat.lt_irrefl 0)⟩
  | silent _ hs ih => exact ih.mono (tick?_does hs).follows (replies_of_tick? hs)
  | act hr hs ih =>
    rcases replies_of_decide? hs with ⟨caller, c, rfl⟩ | hreplies
    · exact ih.call (reaches_of_runs hr).wellFormed caller c
    · exact ih.mono (decide?_does hs).follows (hreplies ▸ .refl _)

/-! ## The whole account -/

/-- The observer that a call registers. -/
def Call.registers? : Call O V → Option O
  | .register o | .subscribe o _ => some o
  | _ => none

/-- A step that unregisters by a number: a call does, or a guard that is released by a call or by
another one that gets its slot. -/
inductive Removes (b : Board O V) : ObserverId → Board O V → Prop
  | unregister (caller : Option O) (id : ObserverId) : Removes b id (b.call caller (.unregisterId id))
  | release (caller : Option O) {slot : Slot} {g : Guard Unit} :
      b.guard? slot = some g → Removes b g.id (b.call caller (.release slot))
  | keep {slot : Slot} {g old : Guard Unit} {below : List (Frame Unit (fun _ => V) O (Reply O V))}
      {b' : Board O V} : b.stack = .keep slot g :: below → b.guard? slot = some old →
      b.tick? = some b' → Removes b old.id b'

omit [DecidableEq O] in
theorem items_release {slot : Slot} {g : Guard Unit} (h : b.guard? slot = some g) :
    items (b.release slot) = b.items.remove g.id := by
  simp only [Dispatch.release, h]
  rfl

/-- What it takes out is who has the number, and nothing else. -/
theorem Removes.items {id : ObserverId} (h : Removes b id b') : b'.items = b.items.remove id := by
  cases h with
  | unregister caller => rfl
  | @release caller slot g hg =>
    exact items_release (b := b.pushOwner ⟨caller, .release slot, b.answer (.release slot)⟩) hg
  | @keep slot g old below _ top hg hs =>
    simp only [tick?, Dispatch.advance?, top, Option.some.injEq] at hs
    subst hs
    exact items_release (b := { b with stack := below }) hg

/-- A number that is given out is taken from then on, by the observer that it is given to. -/
theorem Made.enrolled {m : Board O V} {caller : Option O} {c : Call O V} (h : Made ds e m caller c)
    {o : O} (hc : c.registers? = some o) :
    (m.items.enroll o).id < e.items.nextId ∧
      ∀ p, ((m.items.enroll o).id, p) ∈ e.items.entries → p = o := by
  obtain ⟨before, after, -, hm, -, he⟩ := h
  have henrolled : items (m.call caller c) = (m.items.enroll o).registry := by
    cases c with
    | register o' => cases hc; exact items_register _ o
    | subscribe o' slot => cases hc; exact items_register _ o
    | _ => cases hc
  have hfollows := he.follows
  rw [henrolled] at hfollows
  have hid := hm.wellFormed.id_lt_enroll o
  refine ⟨Nat.lt_of_lt_of_le hid hfollows.nextId, fun p hp => ?_⟩
  exact (hm.wellFormed.enroll o).eq_of_mem (hfollows.mem hp hid) (m.items.mem_enroll o)

/-- **Numbers rise in the order of registration and stay below the next one, no observer is there
twice, and a number that is gone never comes back.** A number is given to one observer, it is struck
with success once at most, and whatever unregisters by a number takes out who has it, if anybody
does, and leaves all others in their order. -/
theorem numbers_identify {es : List (Decision (Call O V))} (h : Reaches empty ds b)
    (h' : Reaches b es e) :
    e.items.WellFormed ∧ b.items.Follows e.items ∧
    (∀ id < b.items.nextId, b.items.has id = false →
      e.items.has id = false ∧ ∀ e', Removes e id e' → e'.items = e.items) ∧
    (∀ m caller c o, Made (ds ++ es) e m caller c → c.registers? = some o →
      (m.items.enroll o).id < e.items.nextId ∧
      ∀ p, ((m.items.enroll o).id, p) ∈ e.items.entries → p = o) ∧
    (∀ id ∈ e.live ++ e.pending, id < e.items.nextId) ∧
    (∀ id, (e.log.filterMap given?).countP (Reply.strikes id) ≤ 1) ∧
    ∀ id e', Removes e id e' →
      e'.items.entries = e.items.entries.filter (·.1 ≠ id) ∧ e'.items.nextId = e.items.nextId := by
  have he := h.trans h'
  obtain ⟨deeds, hd⟩ := he.history
  have hfollows := h'.follows
  refine ⟨he.wellFormed, hfollows, fun id hid hgone => ?_, fun m caller c o hm hc => hm.enrolled hc,
    fun id hid => hd.recorded.guard_lt hid, fun id => ?_, fun id e' hr => ?_⟩
  · have hn := hfollows.not_has hid hgone
    exact ⟨hn, fun e' hr => hr.items.trans (Registry.remove_of_not_has hn)⟩
  · have honce := (he.struckOnce id).1
    rw [replies, List.countP_append] at honce
    omega
  · rw [hr.items]
    exact ⟨rfl, rfl⟩

/-- An observer gets a guard and is unregistered. -/
def leftGuarded : List (Decision (Call Nat Nat)) :=
  [.call (.subscribe 7 "slot"), .call (.unregisterId 0)]

/-- When it is there again, under a new number, the guard for the old one takes nobody out. -/
theorem numbers_identify_late_guard :
    ∃ b e, Reaches empty leftGuarded b ∧ Reaches b [.call (.register 7)] e ∧
      b.items.has 0 = false ∧ e.items.entries = [(1, 7)] ∧ e.live = [0] ∧
      ∀ e', Removes e 0 e' → e'.items = e.items := by
  have h : Reaches empty leftGuarded ((play tick? decide? 9 leftGuarded empty).get rfl) :=
    reaches_of_runs (run_of_play 9 rfl)
  have h' : Reaches ((play tick? decide? 9 leftGuarded empty).get rfl) [.call (.register 7)] _ :=
    reaches_of_runs (run_of_play 9 rfl)
  obtain ⟨-, -, hgone, -⟩ := numbers_identify h h'
  exact ⟨_, _, h, h', rfl, rfl, rfl, (hgone 0 (by decide) rfl).2⟩

end Board
end LiveTrip
