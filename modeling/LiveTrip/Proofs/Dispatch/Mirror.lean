import LiveTrip.Proofs.Dispatch.Bystanders
import LiveTrip.Proofs.Dispatch.Steps

/-!
# A dispatch with and without bystanders

A dispatch mirrors another one that has bystanders: it goes through the same, but tells them
nothing, and has nothing of theirs on its stack. Each operation keeps this, whether it is done to
both or, on behalf of a bystander, to the first alone.

* `Mirror`: who the bystanders are, and what goes with what of the owner's.
* `Frame.Mirrors`, `Event.Mirrors`: frames and events that go together. `Frame.Aside`,
  `Event.Aside`: those of bystanders.
* `Dispatch.Mirrors`: the two dispatches go together.
* `Mirrors.publish`, `Mirrors.register`, `Mirrors.keep` and so on: done to both.
* `Mirrors.registerAside`, `Mirrors.releaseAside` and so on: done to the first alone.
* `Mirrors.advance?`: a step of the first is a step of both, or of the first alone.
-/

namespace LiveTrip

variable {T C : Type} {V : C → Type} {O X E : Type}

/-- Who is set aside in the first of two dispatches, and what goes with what. -/
structure Mirror (C : Type) (V : C → Type) (O X E : Type) where
  aside : Bystanders C O
  cause : Cause → Cause → Prop
  owner : X → X → Prop
  ownerAside : X → Prop
  event : E → E → Prop
  eventAside : E → Prop
  /-- What had happened before in the first dispatch, and in the second. -/
  past : List (Event C V O E)
  past' : List (Event C V O E)
  replay : cause .replay .replay
  not_isEmpty_of_owner : ∀ x, ownerAside x → ¬ aside.IsEmpty
  not_isEmpty_of_event : ∀ e, eventAside e → ¬ aside.IsEmpty

/-! ## Frames, events and guards -/

variable {K : Mirror C V O X E} {p q : C → Pairing}

/-- Frames that go together. Fan-outs may be numbered differently. -/
inductive Frame.Mirrors (K : Mirror C V O X E) (p : C → Pairing) :
    Frame C V O X → Frame C V O X → Prop
  | fanout {n n' : Nat} {k k' : Cause} {c : C} {v : V c} {rest rest' : List (ObserverId × O)}
      (cause : K.cause k k') (told : K.aside.Entries c (p c) rest rest') :
      Frame.Mirrors K p (.fanout ⟨n, k, c, v⟩ rest) (.fanout ⟨n', k', c, v⟩ rest')
  | acting {n n' : Nat} {k k' : Cause} {c : C} {v : V c} {id id' : ObserverId} {o : O}
      (cause : K.cause k k') (ordinary : K.aside.who c o = false) (paired : p c id (some id')) :
      Frame.Mirrors K p (.acting ⟨n, k, c, v⟩ id o) (.acting ⟨n', k', c, v⟩ id' o)
  | keep {slot : Slot} {c : C} {id id' : ObserverId} (ordinary : K.aside.slot slot = false)
      (paired : p c id (some id')) : Frame.Mirrors K p (.keep slot ⟨c, id⟩) (.keep slot ⟨c, id'⟩)
  | owner {x x' : X} (owner : K.owner x x') : Frame.Mirrors K p (.owner x) (.owner x')

/-- Frames of bystanders. -/
inductive Frame.Aside (K : Mirror C V O X E) (p : C → Pairing) : Frame C V O X → Prop
  | fanout {f : Fanout C V} {rest : List (ObserverId × O)} (some : ¬ K.aside.IsEmpty)
      (told : ∀ e ∈ rest, K.aside.who f.category e.2 = true) : Frame.Aside K p (.fanout f rest)
  | acting {f : Fanout C V} {id : ObserverId} {o : O} (who : K.aside.who f.category o = true) :
      Frame.Aside K p (.acting f id o)
  | keep {slot : Slot} {g : Guard C} (reserved : K.aside.slot slot = true)
      (alone : p g.category g.id none) : Frame.Aside K p (.keep slot g)
  | owner {x : X} (owner : K.ownerAside x) : Frame.Aside K p (.owner x)

/-- Events that go together. -/
inductive Event.Mirrors (K : Mirror C V O X E) (p : C → Pairing) :
    Event C V O E → Event C V O E → Prop
  | began {n n' : Nat} {k k' : Cause} {c : C} {v : V c} {audience audience' : List (ObserverId × O)}
      (cause : K.cause k k') (told : K.aside.Entries c (p c) audience audience') :
      Event.Mirrors K p (.began ⟨n, k, c, v⟩ audience) (.began ⟨n', k', c, v⟩ audience')
  | delivered {n n' : Nat} {k k' : Cause} {c : C} {v : V c} {id id' : ObserverId} {o : O}
      (cause : K.cause k k') (ordinary : K.aside.who c o = false) (paired : p c id (some id')) :
      Event.Mirrors K p (.delivered ⟨n, k, c, v⟩ id o) (.delivered ⟨n', k', c, v⟩ id' o)
  | failed {n n' : Nat} {k k' : Cause} {c : C} {v : V c} {id id' : ObserverId} {o : O}
      (cause : K.cause k k') (ordinary : K.aside.who c o = false) (paired : p c id (some id')) :
      Event.Mirrors K p (.failed ⟨n, k, c, v⟩ id o) (.failed ⟨n', k', c, v⟩ id' o)
  | owner {e e' : E} (event : K.event e e') : Event.Mirrors K p (.owner e) (.owner e')

/-- Events of bystanders. -/
inductive Event.Aside (K : Mirror C V O X E) : Event C V O E → Prop
  | began {f : Fanout C V} {audience : List (ObserverId × O)} (some : ¬ K.aside.IsEmpty)
      (told : ∀ e ∈ audience, K.aside.who f.category e.2 = true) :
      Event.Aside K (.began f audience)
  | delivered {f : Fanout C V} {id : ObserverId} {o : O}
      (who : K.aside.who f.category o = true) : Event.Aside K (.delivered f id o)
  | failed {f : Fanout C V} {id : ObserverId} {o : O} (who : K.aside.who f.category o = true) :
      Event.Aside K (.failed f id o)
  | owner {e : E} (event : K.eventAside e) : Event.Aside K (.owner e)

theorem Frame.Aside.not_isEmpty {x : Frame C V O X} (h : x.Aside K p) : ¬ K.aside.IsEmpty := by
  cases h with
  | fanout some => exact some
  | acting who => exact Bystanders.not_isEmpty_of_who who
  | keep reserved => exact Bystanders.not_isEmpty_of_slot reserved
  | owner owner => exact K.not_isEmpty_of_owner _ owner

theorem Event.Aside.not_isEmpty {e : Event C V O E} (h : e.Aside K) : ¬ K.aside.IsEmpty := by
  cases h with
  | began some => exact some
  | delivered who | failed who => exact Bystanders.not_isEmpty_of_who who
  | owner event => exact K.not_isEmpty_of_event _ event

/-- Guards of the same observer. -/
inductive Guard.Mirrors (p : C → Pairing) : Guard C → Guard C → Prop
  | mk {c : C} {id id' : ObserverId} (paired : p c id (some id')) :
      Guard.Mirrors p ⟨c, id⟩ ⟨c, id'⟩

/-- Guards in the same slot. -/
structure Mirror.Keeps (K : Mirror C V O X E) (p : C → Pairing) (s s' : Slot × Guard C) :
    Prop where
  slot : s.1 = s'.1
  ordinary : K.aside.slot s.1 = false
  guard : s.2.Mirrors p s'.2

/-- A guard in a slot that is set aside. -/
structure Mirror.KeepsAside (K : Mirror C V O X E) (p : C → Pairing) (s : Slot × Guard C) :
    Prop where
  slot : K.aside.slot s.1 = true
  alone : p s.2.category s.2.id none

/-- What has happened since goes together. -/
def Mirror.Logs (K : Mirror C V O X E) (p : C → Pairing) (log log' : List (Event C V O E)) : Prop :=
  ∃ es es', log = es ++ K.past ∧ log' = es' ++ K.past' ∧
    Mirrored (Event.Mirrors K p) (Event.Aside K) es es'

/-- Without bystanders, a frame goes with itself if what the owner put there does. -/
theorem Frame.Mirrors.refl (he : K.aside.IsEmpty) (cause : ∀ k, K.cause k k)
    {x : Frame C V O X} (owner : ∀ y, x = .owner y → K.owner y y) :
    x.Mirrors K (fun _ => Pairing.same) x := by
  cases x with
  | fanout f rest => exact .fanout (cause _) (.refl fun _ _ => ⟨rfl, he.1 _ _, rfl⟩)
  | acting f id o => exact .acting (cause _) (he.1 _ _) rfl
  | keep slot g => exact .keep (he.2 _) rfl
  | owner y => exact .owner (owner y rfl)

section Mono

variable (hpq : ∀ c id x, p c id x → q c id x)

include hpq

theorem Frame.Mirrors.mono {x x' : Frame C V O X} (h : x.Mirrors K p x') : x.Mirrors K q x' := by
  cases h with
  | fanout cause told => exact .fanout cause (Bystanders.entries_mono told (hpq _))
  | acting cause ordinary paired => exact .acting cause ordinary (hpq _ _ _ paired)
  | keep ordinary paired => exact .keep ordinary (hpq _ _ _ paired)
  | owner owner => exact .owner owner

theorem Frame.Aside.mono {x : Frame C V O X} (h : x.Aside K p) : x.Aside K q := by
  cases h with
  | fanout some told => exact .fanout some told
  | acting who => exact .acting who
  | keep reserved alone => exact .keep reserved (hpq _ _ _ alone)
  | owner owner => exact .owner owner

theorem Event.Mirrors.mono {e e' : Event C V O E} (h : e.Mirrors K p e') : e.Mirrors K q e' := by
  cases h with
  | began cause told => exact .began cause (Bystanders.entries_mono told (hpq _))
  | delivered cause ordinary paired => exact .delivered cause ordinary (hpq _ _ _ paired)
  | failed cause ordinary paired => exact .failed cause ordinary (hpq _ _ _ paired)
  | owner event => exact .owner event

theorem Mirror.Keeps.mono {s s' : Slot × Guard C} (h : K.Keeps p s s') : K.Keeps q s s' := by
  obtain ⟨hslot, hord, hguard⟩ := h
  refine ⟨hslot, hord, ?_⟩
  generalize s.2 = g at hguard ⊢
  generalize s'.2 = g' at hguard ⊢
  cases hguard with
  | mk paired => exact .mk (hpq _ _ _ paired)

theorem Mirror.Logs.mono {log log' : List (Event C V O E)} (h : K.Logs p log log') :
    K.Logs q log log' := by
  obtain ⟨es, es', hlog, hlog', hm⟩ := h
  exact ⟨es, es', hlog, hlog', hm.mono (fun _ _ he => he.mono hpq) fun _ he => he⟩

end Mono

namespace Mirror.Logs

variable {log log' : List (Event C V O E)}

theorem cons (h : K.Logs p log log') {e e' : Event C V O E} (he : e.Mirrors K p e') :
    K.Logs p (e :: log) (e' :: log') := by
  obtain ⟨es, es', rfl, rfl, hm⟩ := h
  exact ⟨e :: es, e' :: es', rfl, rfl, .cons he hm⟩

theorem aside (h : K.Logs p log log') {e : Event C V O E} (he : e.Aside K) :
    K.Logs p (e :: log) log' := by
  obtain ⟨es, es', rfl, rfl, hm⟩ := h
  exact ⟨e :: es, es', rfl, rfl, .aside he hm⟩

end Mirror.Logs

/-! ## Dispatches -/

namespace Dispatch

variable [RegistryTable T C V O] {d d' : Dispatch T C V O X E}

/-- The dispatches go together, with the numbers of observers paired in this way. -/
structure MirrorsBy (K : Mirror C V O X E) (p : C → Pairing) (d d' : Dispatch T C V O X E) :
    Prop where
  registries : ∀ c, (d.registry c).Mirrors K.aside c (p c) (d'.registry c)
  guards : Mirrored (K.Keeps p) (K.KeepsAside p) d.guards d'.guards
  stack : Mirrored (Frame.Mirrors K p) (Frame.Aside K p) d.stack d'.stack
  log : K.Logs p d.log d'.log

/-- **The second dispatch mirrors the first**, in which there may be bystanders besides. -/
def Mirrors (K : Mirror C V O X E) (d d' : Dispatch T C V O X E) : Prop :=
  ∃ p, MirrorsBy K p d d'

namespace MirrorsBy

/-- Both stacks are replaced. -/
theorem withStack (h : MirrorsBy K p d d') {st st' : List (Frame C V O X)}
    (hs : Mirrored (Frame.Mirrors K p) (Frame.Aside K p) st st') :
    MirrorsBy K p { d with stack := st } { d' with stack := st' } :=
  ⟨h.registries, h.guards, hs, h.log⟩

/-- The first stack is replaced. -/
theorem withStackAside (h : MirrorsBy K p d d') {st : List (Frame C V O X)}
    (hs : Mirrored (Frame.Mirrors K p) (Frame.Aside K p) st d'.stack) :
    MirrorsBy K p { d with stack := st } d' := h.withStack hs

/-- Both lists of guards are replaced. -/
theorem withGuards (h : MirrorsBy K p d d') {gs gs' : List (Slot × Guard C)}
    (hg : Mirrored (K.Keeps p) (K.KeepsAside p) gs gs') :
    MirrorsBy K p { d with guards := gs } { d' with guards := gs' } :=
  ⟨h.registries, hg, h.stack, h.log⟩

/-- Both tables are replaced, and more numbers may be paired. -/
theorem withTable (h : MirrorsBy K p d d') (hpq : ∀ c id x, p c id x → q c id x) {t t' : T}
    (registries : ∀ c,
      (RegistryTable.get t c).Mirrors K.aside c (q c) (RegistryTable.get t' c)) :
    MirrorsBy K q { d with table := t } { d' with table := t' } where
  registries
  guards := h.guards.mono (fun _ _ hs => hs.mono hpq) fun _ hs => ⟨hs.slot, hpq _ _ _ hs.alone⟩
  stack := h.stack.mono (fun _ _ hx => hx.mono hpq) fun _ hx => hx.mono hpq
  log := h.log.mono hpq

section Registries

variable {c : C} {pc : Pairing} (hpc : ∀ id x, p c id x → pc id x) {r r' : Registry O (V c)}

include hpc in
/-- A registry of both is replaced, and more of its numbers may be paired. -/
theorem setRegistry (h : MirrorsBy K p d d') (hr : r.Mirrors K.aside c pc r') :
    MirrorsBy K (Pairing.extend p c pc) (d.setRegistry c r) (d'.setRegistry c r') := by
  refine h.withTable (fun b id x => Pairing.le_extend) fun b => ?_
  by_cases hb : b = c
  · subst hb
    rw [RegistryTable.get_set_self, RegistryTable.get_set_self, Pairing.extend_self hpc]
    exact hr
  · rw [RegistryTable.get_set_of_ne _ _ _ _ hb, RegistryTable.get_set_of_ne _ _ _ _ hb,
      Pairing.extend_of_ne hb]
    exact h.registries b

include hpc in
/-- A registry of the first alone is replaced, and more of its numbers may be paired. -/
theorem setRegistryAside (h : MirrorsBy K p d d') (hr : r.Mirrors K.aside c pc (d'.registry c)) :
    MirrorsBy K (Pairing.extend p c pc) (d.setRegistry c r) d' := by
  have registries (b : C) : (RegistryTable.get (RegistryTable.set d.table c r) b).Mirrors K.aside b
      (Pairing.extend p c pc b) (RegistryTable.get d'.table b) := by
    by_cases hb : b = c
    · subst hb
      rw [RegistryTable.get_set_self, Pairing.extend_self hpc]
      exact hr
    · rw [RegistryTable.get_set_of_ne _ _ _ _ hb, Pairing.extend_of_ne hb]
      exact h.registries b
  exact h.withTable (fun b id x => Pairing.le_extend) registries

/-- A registry of both is replaced. -/
theorem withRegistry (h : MirrorsBy K p d d') (hr : r.Mirrors K.aside c (p c) r') :
    MirrorsBy K p (d.setRegistry c r) (d'.setRegistry c r') := by
  have := h.setRegistry (fun _ _ hx => hx) hr
  rwa [Pairing.extend_eq] at this

/-- A registry of the first alone is replaced. -/
theorem withRegistryAside (h : MirrorsBy K p d d')
    (hr : r.Mirrors K.aside c (p c) (d'.registry c)) : MirrorsBy K p (d.setRegistry c r) d' := by
  have := h.setRegistryAside (fun _ _ hx => hx) hr
  rwa [Pairing.extend_eq] at this

end Registries

theorem emit (h : MirrorsBy K p d d') {e e' : Event C V O E} (he : e.Mirrors K p e') :
    MirrorsBy K p (d.emit e) (d'.emit e') :=
  ⟨h.registries, h.guards, h.stack, h.log.cons he⟩

theorem emitAside (h : MirrorsBy K p d d') {e : Event C V O E} (he : e.Aside K) :
    MirrorsBy K p (d.emit e) d' :=
  ⟨h.registries, h.guards, h.stack, h.log.aside he⟩

theorem begin (h : MirrorsBy K p d d') {k k' : Cause} (hk : K.cause k k') {c : C} (v : V c)
    {audience audience' : List (ObserverId × O)}
    (ha : K.aside.Entries c (p c) audience audience') :
    MirrorsBy K p (d.begin k c v audience) (d'.begin k' c v audience') :=
  ⟨h.registries, h.guards, .cons (.fanout hk ha) h.stack, h.log.cons (.began hk ha)⟩

theorem beginAside (h : MirrorsBy K p d d') (k : Cause) {c : C} (v : V c)
    {audience : List (ObserverId × O)} (hne : ¬ K.aside.IsEmpty)
    (ha : ∀ e ∈ audience, K.aside.who c e.2 = true) :
    MirrorsBy K p (d.begin k c v audience) d' :=
  ⟨h.registries, h.guards, .aside (.fanout hne ha) h.stack, h.log.aside (.began hne ha)⟩

/-! ### Guards -/

/-- The same slots hold guards, of the same observers. -/
theorem guard? (h : MirrorsBy K p d d') {slot : Slot} (hs : K.aside.slot slot = false) :
    Option.Rel (Guard.Mirrors p) (d.guard? slot) (d'.guard? slot) := by
  have hfind : Option.Rel (K.Keeps p) (d.guards.find? (·.1 == slot))
      (d'.guards.find? (·.1 == slot)) := by
    refine h.guards.find? (fun s s' hk => by rw [hk.slot]) fun s hk => ?_
    rw [beq_eq_false_iff_ne]
    rintro rfl
    simp [hk.slot] at hs
  unfold Dispatch.guard?
  generalize d.guards.find? _ = x at hfind
  generalize d'.guards.find? _ = y at hfind
  cases hfind with
  | some hk => exact .some hk.guard
  | none => exact .none

theorem detach (h : MirrorsBy K p d d') (slot : Slot) :
    MirrorsBy K p (d.detach slot) (d'.detach slot) :=
  h.withGuards (h.guards.filter fun s s' hk => by rw [hk.slot])

theorem detachAside (h : MirrorsBy K p d d') {slot : Slot} (hs : K.aside.slot slot = true) :
    MirrorsBy K p (d.detach slot) d' := by
  refine ⟨h.registries, h.guards.filter_left fun s s' hk => ?_, h.stack, h.log⟩
  rw [bne_iff_ne]
  rintro rfl
  simp [hk.ordinary] at hs

theorem unregister (h : MirrorsBy K p d d') {c : C} {id id' : ObserverId}
    (hid : p c id (some id')) :
    MirrorsBy K p (d.unregister c id).1 (d'.unregister c id').1 :=
  h.withRegistry ((h.registries c).remove hid)

theorem unregisterAside (h : MirrorsBy K p d d') (hne : ¬ K.aside.IsEmpty) {c : C}
    {id : ObserverId} (hid : p c id none) : MirrorsBy K p (d.unregister c id).1 d' :=
  h.withRegistryAside ((h.registries c).removeAside hid hne)

theorem release (h : MirrorsBy K p d d') {slot : Slot} (hs : K.aside.slot slot = false) :
    MirrorsBy K p (d.release slot) (d'.release slot) := by
  have hguard := h.guard? hs
  unfold Dispatch.release
  generalize d.guard? slot = x at hguard
  generalize d'.guard? slot = y at hguard
  cases hguard with
  | some hg =>
    cases hg with
    | mk paired => exact (h.detach slot).unregister paired
  | none => exact h

theorem releaseAside (h : MirrorsBy K p d d') {slot : Slot} (hs : K.aside.slot slot = true) :
    MirrorsBy K p (d.release slot) d' := by
  unfold Dispatch.release
  split
  · rename_i g hg
    obtain ⟨s, hs', rfl⟩ := Option.map_eq_some_iff.mp hg
    obtain rfl : s.1 = slot := by simpa using List.find?_some hs'
    refine (h.detachAside hs).unregisterAside (Bystanders.not_isEmpty_of_slot hs) ?_
    rcases h.guards.left_of_mem (List.mem_of_find?_eq_some hs') with ⟨s', hk⟩ | hk
    · simp [hk.ordinary] at hs
    · exact hk.alone
  · exact h

theorem keep (h : MirrorsBy K p d d') {slot : Slot} (hs : K.aside.slot slot = false) {c : C}
    {id id' : ObserverId} (hid : p c id (some id')) :
    MirrorsBy K p (d.keep slot ⟨c, id⟩) (d'.keep slot ⟨c, id'⟩) :=
  (h.release hs).withGuards (.cons ⟨rfl, hs, .mk hid⟩ (h.release hs).guards)

theorem keepAside (h : MirrorsBy K p d d') {slot : Slot} (hs : K.aside.slot slot = true)
    {g : Guard C} (hid : p g.category g.id none) : MirrorsBy K p (d.keep slot g) d' :=
  ⟨(h.releaseAside hs).registries, .aside ⟨hs, hid⟩ (h.releaseAside hs).guards,
    (h.releaseAside hs).stack, (h.releaseAside hs).log⟩

/-! ### Enrolling -/

section Enroll

variable [DecidableEq O] {c : C} {o : O}

/-- An observer enrols in both. -/
theorem enroll (h : MirrorsBy K p d d') (ho : K.aside.who c o = false) :
    ∃ q : C → Pairing,
      MirrorsBy K q (d.setRegistry c ((d.registry c).enroll o).registry)
        (d'.setRegistry c ((d'.registry c).enroll o).registry) ∧
      q c ((d.registry c).enroll o).id (some ((d'.registry c).enroll o).id) ∧
      ((d.registry c).enroll o).replay = ((d'.registry c).enroll o).replay := by
  obtain ⟨pc, hpc, hr, hid, hreplay⟩ := (h.registries c).enroll ho
  refine ⟨_, h.setRegistry hpc hr, ?_, hreplay⟩
  rw [Pairing.extend_self hpc]
  exact hid

/-- A bystander enrols. -/
theorem enrollAside (h : MirrorsBy K p d d') (ho : K.aside.who c o = true) :
    ∃ q : C → Pairing, MirrorsBy K q (d.setRegistry c ((d.registry c).enroll o).registry) d' ∧
      q c ((d.registry c).enroll o).id none := by
  obtain ⟨pc, hpc, hr, hid⟩ := (h.registries c).enrollAside ho
  refine ⟨_, h.setRegistryAside hpc hr, ?_⟩
  rw [Pairing.extend_self hpc]
  exact hid

end Enroll
end MirrorsBy

/-! ## Operations -/

/-- An observer that has enrolled is told what it is owed. -/
def owe (d : Dispatch T C V O X E) (c : C) (o : O) (e : Registry.Enrolment O (V c)) :
    Dispatch T C V O X E :=
  match e.replay with
  | some v => d.begin .replay c v [(e.id, o)]
  | none => d

theorem register_eq [DecidableEq O] (d : Dispatch T C V O X E) (c : C) (o : O) :
    (d.register c o).1 =
      (d.setRegistry c ((d.registry c).enroll o).registry).owe c o ((d.registry c).enroll o) := by
  cases h : ((d.registry c).enroll o).replay <;> simp only [register, owe, h]

theorem subscribe_eq [DecidableEq O] (d : Dispatch T C V O X E) (c : C) (o : O) (slot : Slot) :
    d.subscribe c o slot =
      ((d.setRegistry c ((d.registry c).enroll o).registry).push
        (.keep slot ⟨c, ((d.registry c).enroll o).id⟩)).owe c o ((d.registry c).enroll o) :=
  register_eq (d.push (.keep slot ⟨c, ((d.registry c).enroll o).id⟩)) c o

theorem MirrorsBy.owe (h : MirrorsBy K p d d') {c : C} {o : O} (ho : K.aside.who c o = false)
    {e e' : Registry.Enrolment O (V c)} (hid : p c e.id (some e'.id))
    (hreplay : e.replay = e'.replay) : MirrorsBy K p (d.owe c o e) (d'.owe c o e') := by
  unfold Dispatch.owe
  rw [← hreplay]
  cases e.replay with
  | some v => exact h.begin K.replay v (.cons ⟨rfl, ho, hid⟩ .nil)
  | none => exact h

theorem MirrorsBy.oweAside (h : MirrorsBy K p d d') {c : C} {o : O}
    (ho : K.aside.who c o = true) (e : Registry.Enrolment O (V c)) :
    MirrorsBy K p (d.owe c o e) d' := by
  unfold Dispatch.owe
  cases e.replay with
  | some v => exact h.beginAside _ v (Bystanders.not_isEmpty_of_who ho) (by simpa using ho)
  | none => exact h

namespace Mirrors

theorem last (h : Mirrors K d d') (c : C) : d.last c = d'.last c := by
  obtain ⟨p, h⟩ := h
  exact (h.registries c).last

/-- Without bystanders the registries are equal. -/
theorem registry_eq (h : Mirrors K d d') (he : K.aside.IsEmpty) (c : C) :
    d.registry c = d'.registry c := by
  obtain ⟨p, h⟩ := h
  exact (h.registries c).equal he

/-- The owner puts things on both stacks. -/
theorem pushOwners (h : Mirrors K d d') {xs xs' : List X} (hx : List.Forall₂ K.owner xs xs') :
    Mirrors K { d with stack := xs.map .owner ++ d.stack }
      { d' with stack := xs'.map .owner ++ d'.stack } := by
  obtain ⟨p, h⟩ := h
  refine ⟨p, h.withStack (.append (.of_forall₂ ?_) h.stack)⟩
  exact List.forall₂_map_left_iff.mpr (List.forall₂_map_right_iff.mpr (hx.imp fun _ _ => .owner))

/-- The owner puts things on the first stack on behalf of a bystander. -/
theorem pushOwnersAside (h : Mirrors K d d') {xs : List X} (hx : ∀ x ∈ xs, K.ownerAside x) :
    Mirrors K { d with stack := xs.map .owner ++ d.stack } d' := by
  obtain ⟨p, h⟩ := h
  have aside : Mirrored (Frame.Mirrors K p) (Frame.Aside K p) (xs.map .owner) [] := by
    refine .of_aside fun _ hmem => ?_
    obtain ⟨x, hin, rfl⟩ := List.mem_map.mp hmem
    exact .owner (hx x hin)
  exact ⟨p, h.withStackAside (aside.append h.stack)⟩

theorem note (h : Mirrors K d d') {e e' : E} (he : K.event e e') :
    Mirrors K (d.note e) (d'.note e') := by
  obtain ⟨p, h⟩ := h
  exact ⟨p, h.emit (.owner he)⟩

theorem noteAside (h : Mirrors K d d') {e : E} (he : K.eventAside e) :
    Mirrors K (d.note e) d' := by
  obtain ⟨p, h⟩ := h
  exact ⟨p, h.emitAside (.owner he)⟩

/-- The same slots hold guards. -/
theorem isSome_guard? (h : Mirrors K d d') {slot : Slot} (hs : K.aside.slot slot = false) :
    (d.guard? slot).isSome = (d'.guard? slot).isSome := by
  obtain ⟨p, h⟩ := h
  have hguard := h.guard? hs
  generalize d.guard? slot = x at hguard
  generalize d'.guard? slot = y at hguard
  cases hguard <;> rfl

theorem detach (h : Mirrors K d d') (slot : Slot) : Mirrors K (d.detach slot) (d'.detach slot) := by
  obtain ⟨p, h⟩ := h
  exact ⟨p, h.detach slot⟩

theorem detachAside (h : Mirrors K d d') {slot : Slot} (hs : K.aside.slot slot = true) :
    Mirrors K (d.detach slot) d' := by
  obtain ⟨p, h⟩ := h
  exact ⟨p, h.detachAside hs⟩

theorem publish (h : Mirrors K d d') {k k' : Cause} (hk : K.cause k k') (c : C) (v : V c) :
    Mirrors K (d.publish k c v) (d'.publish k' c v) := by
  obtain ⟨p, h⟩ := h
  exact ⟨p, (h.withRegistry ((h.registries c).record v)).begin hk v (h.registries c).entries⟩

theorem forget (h : Mirrors K d d') (c : C) : Mirrors K (d.forget c) (d'.forget c) := by
  obtain ⟨p, h⟩ := h
  exact ⟨p, h.withRegistry (h.registries c).forget⟩

theorem release (h : Mirrors K d d') {slot : Slot} (hs : K.aside.slot slot = false) :
    Mirrors K (d.release slot) (d'.release slot) := by
  obtain ⟨p, h⟩ := h
  exact ⟨p, h.release hs⟩

theorem releaseAside (h : Mirrors K d d') {slot : Slot} (hs : K.aside.slot slot = true) :
    Mirrors K (d.release slot) d' := by
  obtain ⟨p, h⟩ := h
  exact ⟨p, h.releaseAside hs⟩

section Observers

variable [DecidableEq O] {c : C} {o : O}

theorem register (h : Mirrors K d d') (ho : K.aside.who c o = false) :
    Mirrors K (d.register c o).1 (d'.register c o).1 := by
  obtain ⟨p, h⟩ := h
  obtain ⟨q, hq, hid, hreplay⟩ := h.enroll ho
  rw [register_eq, register_eq]
  exact ⟨q, hq.owe ho hid hreplay⟩

theorem registerAside (h : Mirrors K d d') (ho : K.aside.who c o = true) :
    Mirrors K (d.register c o).1 d' := by
  obtain ⟨p, h⟩ := h
  obtain ⟨q, hq, -⟩ := h.enrollAside ho
  rw [register_eq]
  exact ⟨q, hq.oweAside ho _⟩

theorem subscribe (h : Mirrors K d d') (ho : K.aside.who c o = false) {slot : Slot}
    (hs : K.aside.slot slot = false) :
    Mirrors K (d.subscribe c o slot) (d'.subscribe c o slot) := by
  obtain ⟨p, h⟩ := h
  obtain ⟨q, hq, hid, hreplay⟩ := h.enroll ho
  rw [subscribe_eq, subscribe_eq]
  exact ⟨q, (hq.withStack (.cons (.keep hs hid) hq.stack)).owe ho hid hreplay⟩

theorem subscribeAside (h : Mirrors K d d') (ho : K.aside.who c o = true) {slot : Slot}
    (hs : K.aside.slot slot = true) : Mirrors K (d.subscribe c o slot) d' := by
  obtain ⟨p, h⟩ := h
  obtain ⟨q, hq, hid⟩ := h.enrollAside ho
  rw [subscribe_eq]
  exact ⟨q, (hq.withStackAside (.aside (.keep hs hid) hq.stack)).oweAside ho _⟩

/-- An observer is unregistered from both, or was registered in neither. -/
theorem unregisterObserver (h : Mirrors K d d') (ho : K.aside.who c o = false) :
    Mirrors K (d.unregisterObserver c o).1 (d'.unregisterObserver c o).1 ∧
      (d.unregisterObserver c o).2 = (d'.unregisterObserver c o).2 := by
  obtain ⟨p, h⟩ := h
  have hid := (h.registries c).idOf? ho
  unfold Dispatch.unregisterObserver
  generalize (d.registry c).idOf? o = x at hid
  generalize (d'.registry c).idOf? o = y at hid
  cases hid with
  | some hid => exact ⟨⟨p, h.unregister hid⟩, (h.registries c).has_eq hid⟩
  | none => exact ⟨⟨p, h⟩, rfl⟩

theorem unregisterObserverAside (h : Mirrors K d d') (ho : K.aside.who c o = true) :
    Mirrors K (d.unregisterObserver c o).1 d' := by
  obtain ⟨p, h⟩ := h
  unfold Dispatch.unregisterObserver
  split
  · exact ⟨p, h.unregisterAside (Bystanders.not_isEmpty_of_who ho)
      ((h.registries c).idOf?_aside ho ‹_›)⟩
  · exact ⟨p, h⟩

end Observers

/-! ## What is uppermost -/

/-- Nothing is going on in the second if nothing is in the first. -/
theorem stack_nil (h : Mirrors K d d') (top : d.stack = []) : d'.stack = [] := by
  obtain ⟨p, h⟩ := h
  have hs := h.stack
  rw [top] at hs
  generalize d'.stack = st' at hs
  cases hs
  rfl

/-- Something of the owner is uppermost in both, or is a bystander's. -/
theorem pop_owner (h : Mirrors K d d') {x : X} {below : List (Frame C V O X)}
    (top : d.stack = .owner x :: below) :
    K.ownerAside x ∧ Mirrors K { d with stack := below } d' ∨
    ∃ x' below', d'.stack = .owner x' :: below' ∧ K.owner x x' ∧
      Mirrors K { d with stack := below } { d' with stack := below' } := by
  obtain ⟨p, h⟩ := h
  have hs := h.stack
  rw [top] at hs
  generalize hst : d'.stack = st' at hs
  cases hs with
  | cons head tail =>
    cases head with
    | owner hx => exact .inr ⟨_, _, rfl, hx, p, h.withStack tail⟩
  | aside head tail =>
    cases head with
    | owner hx => exact .inl ⟨hx, p, h.withStackAside (hst ▸ tail)⟩

/-- An observer is at work in both, unless it is a bystander. -/
theorem pop_acting (h : Mirrors K d d') {f : Fanout C V} {id : ObserverId} {o : O}
    {below : List (Frame C V O X)} (top : d.stack = .acting f id o :: below)
    (ho : K.aside.who f.category o = false) :
    ∃ n k id' below', d'.stack = .acting ⟨n, k, f.category, f.value⟩ id' o :: below' ∧
      Mirrors K d.finish d'.finish ∧ Mirrors K d.fail d'.fail := by
  obtain ⟨p, h⟩ := h
  have hs := h.stack
  rw [top] at hs
  generalize hst : d'.stack = st' at hs
  cases hs with
  | cons head tail =>
    cases head with
    | acting cause ordinary paired =>
      refine ⟨_, _, _, _, rfl, ?_, ?_⟩
      · rw [finish_eq top, finish_eq hst]
        exact ⟨p, h.withStack tail⟩
      · rw [fail_eq top, fail_eq hst]
        exact ⟨p, ((h.withStack tail).withRegistry (h.registries _).countFailure).emit
          (.failed cause ordinary paired)⟩
  | aside head tail =>
    cases head with
    | acting who => simp [who] at ho

/-- A bystander is at work in the first alone. -/
theorem pop_bystander (h : Mirrors K d d') {f : Fanout C V} {id : ObserverId} {o : O}
    {below : List (Frame C V O X)} (top : d.stack = .acting f id o :: below)
    (ho : K.aside.who f.category o = true) : Mirrors K d.finish d' ∧ Mirrors K d.fail d' := by
  obtain ⟨p, h⟩ := h
  have hs := h.stack
  rw [top] at hs
  generalize hst : d'.stack = st' at hs
  cases hs with
  | cons head tail =>
    cases head with
    | acting cause ordinary => simp [ordinary] at ho
  | aside head tail =>
    have hbelow : MirrorsBy K p { d with stack := below } d' := h.withStackAside (hst ▸ tail)
    rw [finish_eq top, fail_eq top]
    exact ⟨⟨p, hbelow⟩, p, (hbelow.withRegistryAside ((h.registries _).countFailureAside
      (Bystanders.not_isEmpty_of_who ho))).emitAside (.failed ho)⟩

/-- **A step of the first is a step of both, or tells or keeps something of a bystander's.** -/
theorem advance? (h : Mirrors K d d') {e : Dispatch T C V O X E} (he : d.advance? = some e) :
    Mirrors K e d' ∨ ∃ e', d'.advance? = some e' ∧ Mirrors K e e' := by
  obtain ⟨p, h⟩ := h
  have hs := h.stack
  generalize hst : d'.stack = st' at hs
  -- The first alone goes on, and the second stays.
  have alone {st : List (Frame C V O X)}
      (tail : Mirrored (Frame.Mirrors K p) (Frame.Aside K p) st st') :
      MirrorsBy K p { d with stack := st } d' := h.withStackAside (hst ▸ tail)
  obtain ⟨f, below, top, rfl⟩ | ⟨f, id, o, rest, below, top, rfl⟩ | ⟨slot, g, below, top, rfl⟩ :=
    advance?_cases he <;> rw [top] at hs
  · cases hs with
    | cons head tail =>
      cases head with
      | fanout cause told =>
        cases told
        exact .inr ⟨_, by simp only [Dispatch.advance?, hst], p, h.withStack tail⟩
    | aside _ tail => exact .inl ⟨p, alone tail⟩
  · cases hs with
    | cons head tail =>
      cases head with
      | fanout cause told =>
        cases told with
        | cons pair told =>
          obtain ⟨observer, ordinary, paired⟩ := pair
          cases observer
          refine .inr ⟨_, by simp only [Dispatch.advance?, hst]; rfl, p, ?_⟩
          exact (h.withStack (.cons (.acting cause ordinary paired)
            (.cons (.fanout cause told) tail))).emit (.delivered cause ordinary paired)
        | aside bystander told =>
          exact .inl ⟨p, (alone (.aside (.acting bystander.bystander)
            (.cons (.fanout cause told) tail))).emitAside (.delivered bystander.bystander)⟩
    | aside head tail =>
      cases head with
      | fanout some told =>
        have ho := told _ List.mem_cons_self
        exact .inl ⟨p, (alone (.aside (.acting ho) (.aside (.fanout some fun e he =>
          told e (List.mem_cons_of_mem _ he)) tail))).emitAside (.delivered ho)⟩
  · cases hs with
    | cons head tail =>
      cases head with
      | keep ordinary paired =>
        exact .inr ⟨_, by simp only [Dispatch.advance?, hst], p,
          (h.withStack tail).keep ordinary paired⟩
    | aside head tail =>
      cases head with
      | keep reserved lone => exact .inl ⟨p, (alone tail).keepAside reserved lone⟩

/-! ## Without bystanders -/

/-- Dispatches of the same observers, with everyone's number paired with itself. -/
theorem of_same (he : K.aside.IsEmpty) (registries : ∀ c, d.registry c = d'.registry c)
    (guards : d.guards = d'.guards)
    (stack : List.Forall₂ (Frame.Mirrors K fun _ => Pairing.same) d.stack d'.stack)
    (past : d.log = K.past) (past' : d'.log = K.past') : Mirrors K d d' := by
  refine ⟨fun _ => Pairing.same, fun c => ?_, ?_, .of_forall₂ stack, [], [], past, past', .nil⟩
  · rw [registries c]
    exact .refl he _
  · rw [guards]
    exact .refl fun s _ => ⟨rfl, he.2 _, .mk rfl⟩

/-- Without bystanders, the same one has the word in both. -/
theorem speaker_eq (h : Mirrors K d d') (he : K.aside.IsEmpty) : d.speaker = d'.speaker := by
  obtain ⟨p, h⟩ := h
  have hs := h.stack.forall₂ fun x hx => hx.not_isEmpty he
  unfold speaker
  generalize d.stack = st at hs
  generalize d'.stack = st' at hs
  cases hs with
  | nil => rfl
  | cons head _ => cases head <;> rfl

theorem guards_eq (h : Mirrors K d d') (he : K.aside.IsEmpty) : d.guards = d'.guards := by
  obtain ⟨p, h⟩ := h
  refine List.forall₂_eq_eq_eq ▸ (h.guards.forall₂ fun s hs => ?_).imp fun s s' hs => ?_
  · exact Bystanders.not_isEmpty_of_slot hs.slot he
  · obtain ⟨slot, g⟩ := s
    obtain ⟨slot', g'⟩ := s'
    obtain ⟨hslot, -, hguard⟩ := hs
    cases hguard with
    | mk paired =>
      have hslot : slot = slot' := hslot
      rw [hslot, (h.registries _).fits.equal he _ _ paired]

/-- Without bystanders, what has happened goes together one by one. -/
theorem news (h : Mirrors K d d') (he : K.aside.IsEmpty) :
    ∃ es es', d.log = es ++ K.past ∧ d'.log = es' ++ K.past' ∧
      List.Forall₂ (fun e e' => ∃ p : C → Pairing, (∀ c i k, p c i (some k) → i = k) ∧
        Event.Mirrors K p e e') es es' := by
  obtain ⟨p, h⟩ := h
  obtain ⟨es, es', hlog, hlog', hm⟩ := h.log
  refine ⟨es, es', hlog, hlog', (hm.forall₂ fun e hx => hx.not_isEmpty he).imp fun e e' hx => ?_⟩
  exact ⟨p, fun c => (h.registries c).fits.equal he, hx⟩

end Mirrors
end Dispatch
end LiveTrip
