import LiveTrip.Observer.Dispatch
import LiveTrip.Proofs.Registry
import Mathlib.Data.List.Forall2

/-!
# Registries with and without bystanders

Two registries go through the same, but in one of them there are observers besides, who do not
count: the bystanders. So the numbers of observers differ, and who is who is written down as they
enrol.

* `Mirrored`: a list mirrors another, which has some elements besides.
* `Bystanders`: the observers, and the slots of guards, that are set aside.
* `Pairing`: which number of the one registry goes with which of the other, or is a bystander's.
* `Registry.Mirrors`: the other observers are the same, in the same order, and the last value is.
  Every operation keeps it, done to both (`Mirrors.enroll`, `Mirrors.remove`) or on behalf of a
  bystander (`Mirrors.enrollAside`, `Mirrors.removeAside`). Without bystanders the registries are
  equal.
-/

namespace LiveTrip

/-! ## Lists -/

/-- The second list goes with the first, up to elements of the first that are set aside. -/
inductive Mirrored {α β : Type} (R : α → β → Prop) (Aside : α → Prop) : List α → List β → Prop
  | nil : Mirrored R Aside [] []
  | cons {a : α} {b : β} {as : List α} {bs : List β} (head : R a b)
      (tail : Mirrored R Aside as bs) : Mirrored R Aside (a :: as) (b :: bs)
  | aside {a : α} {as : List α} {bs : List β} (head : Aside a) (tail : Mirrored R Aside as bs) :
      Mirrored R Aside (a :: as) bs

namespace Mirrored

variable {α β : Type} {R R' : α → β → Prop} {Aside Aside' : α → Prop} {as as' : List α}
  {bs bs' : List β}

theorem mono (h : Mirrored R Aside as bs) (hR : ∀ a b, R a b → R' a b)
    (hA : ∀ a, Aside a → Aside' a) : Mirrored R' Aside' as bs := by
  induction h with
  | nil => exact .nil
  | cons head _ ih => exact .cons (hR _ _ head) ih
  | aside head _ ih => exact .aside (hA _ head) ih

theorem append (h : Mirrored R Aside as bs) (h' : Mirrored R Aside as' bs') :
    Mirrored R Aside (as ++ as') (bs ++ bs') := by
  induction h with
  | nil => exact h'
  | cons head _ ih => exact .cons head ih
  | aside head _ ih => exact .aside head ih

/-- An element of the first list goes with one of the second, or is set aside. -/
theorem left_of_mem (h : Mirrored R Aside as bs) {a : α} (ha : a ∈ as) :
    (∃ b, R a b) ∨ Aside a := by
  induction h with
  | nil => cases ha
  | @cons a' b _ _ head _ ih =>
    rcases List.mem_cons.mp ha with rfl | ha
    · exact .inl ⟨b, head⟩
    · exact ih ha
  | aside head _ ih =>
    rcases List.mem_cons.mp ha with rfl | ha
    · exact .inr head
    · exact ih ha

/-- Elements that go together are kept or dropped together. -/
theorem filter {p : α → Bool} {q : β → Bool} (h : Mirrored R Aside as bs)
    (hpq : ∀ a b, R a b → p a = q b) : Mirrored R Aside (as.filter p) (bs.filter q) := by
  induction h with
  | nil => exact .nil
  | @cons a b _ _ head _ ih =>
    rw [List.filter_cons, List.filter_cons, hpq a b head]
    split
    · exact .cons head ih
    · exact ih
  | @aside a _ _ head _ ih =>
    rw [List.filter_cons]
    split
    · exact .aside head ih
    · exact ih

/-- Elements that are set aside are dropped, or not. -/
theorem filter_left {p : α → Bool} (h : Mirrored R Aside as bs) (hp : ∀ a b, R a b → p a = true) :
    Mirrored R Aside (as.filter p) bs := by
  have := h.filter (q := fun _ => true) hp
  rwa [List.filter_eq_self.mpr fun _ _ => rfl] at this

/-- What is looked for, and never set aside, is found in both or in neither. -/
theorem find? {p : α → Bool} {q : β → Bool} (h : Mirrored R Aside as bs)
    (hpq : ∀ a b, R a b → p a = q b) (hp : ∀ a, Aside a → p a = false) :
    Option.Rel R (as.find? p) (bs.find? q) := by
  induction h with
  | nil => exact .none
  | @cons a b _ _ head _ ih =>
    rw [List.find?_cons, List.find?_cons, ← hpq a b head]
    cases p a with
    | true => exact .some head
    | false => exact ih
  | @aside a _ _ head _ ih =>
    rw [List.find?_cons, hp a head]
    exact ih

theorem any_eq {p : α → Bool} {q : β → Bool} (h : Mirrored R Aside as bs)
    (hpq : ∀ a b, R a b → p a = q b) (hp : ∀ a, Aside a → p a = false) : as.any p = bs.any q := by
  induction h with
  | nil => rfl
  | @cons a b _ _ head _ ih => rw [List.any_cons, List.any_cons, hpq a b head, ih]
  | @aside a _ _ head _ ih => rw [List.any_cons, hp a head, Bool.false_or, ih]

/-- What is read off elements, and off none that is set aside, is the same. -/
theorem filterMap_eq {γ : Type} {f : α → Option γ} {g : β → Option γ} (h : Mirrored R Aside as bs)
    (hfg : ∀ a b, R a b → f a = g b) (hf : ∀ a, Aside a → f a = none) :
    as.filterMap f = bs.filterMap g := by
  induction h with
  | nil => rfl
  | @cons a b _ _ head _ ih => rw [List.filterMap_cons, List.filterMap_cons, hfg a b head, ih]
  | @aside a _ _ head _ ih => rw [List.filterMap_cons, hf a head, ih]

/-- With nothing to set aside, the lists go together element by element. -/
theorem forall₂ (h : Mirrored R Aside as bs) (hA : ∀ a, ¬ Aside a) : List.Forall₂ R as bs := by
  induction h with
  | nil => exact .nil
  | cons head _ ih => exact .cons head ih
  | aside head => exact absurd head (hA _)

theorem of_forall₂ (h : List.Forall₂ R as bs) : Mirrored R Aside as bs := by
  induction h with
  | nil => exact .nil
  | cons head _ ih => exact .cons head ih

/-- All elements are set aside. -/
theorem of_aside (h : ∀ a ∈ as, Aside a) : Mirrored R Aside as ([] : List β) := by
  induction as with
  | nil => exact .nil
  | cons a as ih =>
    exact .aside (h a List.mem_cons_self) (ih fun b hb => h b (List.mem_cons_of_mem _ hb))

theorem refl {R : α → α → Prop} {as : List α} (h : ∀ a ∈ as, R a a) : Mirrored R Aside as as :=
  of_forall₂ (List.forall₂_same.mpr h)

end Mirrored

/-! ## Bystanders -/

/-- Observers, by category, and slots of guards that are set aside. -/
structure Bystanders (C O : Type) where
  who : C → O → Bool
  slot : Slot → Bool

namespace Bystanders

variable {C O : Type}

/-- Nobody is a bystander. -/
def nobody : Bystanders C O where
  who _ _ := false
  slot _ := false

/-- Nobody is set aside. -/
def IsEmpty (A : Bystanders C O) : Prop := (∀ c o, A.who c o = false) ∧ ∀ s, A.slot s = false

theorem isEmpty_nobody : (nobody : Bystanders C O).IsEmpty := ⟨fun _ _ => rfl, fun _ => rfl⟩

theorem not_isEmpty_of_who {A : Bystanders C O} {c : C} {o : O} (h : A.who c o = true) :
    ¬ A.IsEmpty := fun he => by simp [he.1 c o] at h

theorem not_isEmpty_of_slot {A : Bystanders C O} {s : Slot} (h : A.slot s = true) :
    ¬ A.IsEmpty := fun he => by simp [he.2 s] at h

end Bystanders

/-! ## Who is who -/

/-- The number that goes with a number, or `none` for a bystander's. -/
abbrev Pairing := ObserverId → Option ObserverId → Prop

namespace Pairing

/-- One more number is paired. -/
def add (p : Pairing) (id : ObserverId) (x : Option ObserverId) : Pairing :=
  fun i y => p i y ∨ i = id ∧ y = x

theorem le_add (p : Pairing) (id : ObserverId) (x : Option ObserverId) {i : ObserverId}
    {y : Option ObserverId} (h : p i y) : p.add id x i y := .inl h

theorem add_self (p : Pairing) (id : ObserverId) (x : Option ObserverId) : p.add id x id x :=
  .inr ⟨rfl, rfl⟩

section Extend

variable {C : Type} {p : C → Pairing} {b c : C} {pc : Pairing}

/-- In one category, more numbers are paired. -/
def extend (p : C → Pairing) (c : C) (pc : Pairing) : C → Pairing :=
  fun b id x => p b id x ∨ b = c ∧ pc id x

theorem le_extend {id : ObserverId} {x : Option ObserverId} (h : p b id x) :
    extend p c pc b id x := .inl h

theorem extend_self (hpc : ∀ id x, p c id x → pc id x) : extend p c pc c = pc := by
  funext id x
  exact propext ⟨fun h => h.elim (hpc id x) And.right, fun h => .inr ⟨rfl, h⟩⟩

theorem extend_of_ne (h : b ≠ c) : extend p c pc b = p b := by
  funext id x
  exact propext ⟨fun hx => hx.resolve_right fun hb => h hb.1, .inl⟩

theorem extend_eq : extend p c (p c) = p := by
  funext b id x
  refine propext ⟨?_, .inl⟩
  rintro (hx | ⟨rfl, hx⟩) <;> exact hx

end Extend

/-- Every number goes with itself. -/
def same : Pairing := fun i x => x = some i

/-- The pairing is one to one, and says nothing of numbers that are still to be given out. With
`exact`, numbers are only paired with themselves. -/
structure Fits (exact : Prop) (p : Pairing) (next next' : ObserverId) : Prop where
  functional : ∀ {i : ObserverId} {x y : Option ObserverId}, p i x → p i y → x = y
  injective : ∀ {i j k : ObserverId}, p i (some k) → p j (some k) → i = j
  known : (∀ i x, p i x → i < next ∧ ∀ k, x = some k → k < next') ∨ exact ∧ p = same
  equal : exact → ∀ i k, p i (some k) → i = k

theorem fits_same {exact : Prop} (h : exact) (n : ObserverId) : Fits exact same n n where
  functional hx hy := hx.trans hy.symm
  injective hi hj := by
    cases hi
    cases hj
    rfl
  known := .inr ⟨h, rfl⟩
  equal _ _ _ hi := by cases hi; rfl

theorem fits_empty (exact : Prop) (n n' : ObserverId) : Fits exact (fun _ _ => False) n n' where
  functional := False.elim
  injective := False.elim
  known := .inl fun _ _ => False.elim
  equal _ _ _ := False.elim

namespace Fits

variable {exact : Prop} {p : Pairing} {next next' : ObserverId}

/-- The next numbers of both are paired. -/
theorem add_pair (h : Fits exact p next next') (he : exact → next = next') :
    Fits exact (p.add next (some next')) (next + 1) (next' + 1) := by
  rcases h.known with hk | ⟨hexact, rfl⟩
  · have fresh {x : Option ObserverId} (hx : p next x) : False :=
      Nat.lt_irrefl _ (hk next x hx).1
    have fresh' {i : ObserverId} (hi : p i (some next')) : False :=
      Nat.lt_irrefl _ ((hk i _ hi).2 next' rfl)
    refine ⟨?_, ?_, .inl ?_, ?_⟩
    · rintro i x y (hx | ⟨rfl, rfl⟩) (hy | ⟨h', rfl⟩)
      · exact h.functional hx hy
      · subst h'
        exact (fresh hx).elim
      · exact (fresh hy).elim
      · rfl
    · rintro i j k (hi | ⟨rfl, hi⟩) (hj | ⟨rfl, hj⟩)
      · exact h.injective hi hj
      · cases hj
        exact (fresh' hi).elim
      · cases hi
        exact (fresh' hj).elim
      · rfl
    · rintro i x (hx | ⟨rfl, rfl⟩)
      · obtain ⟨hi, hk⟩ := hk i x hx
        exact ⟨Nat.lt_succ_of_lt hi, fun k hx => Nat.lt_succ_of_lt (hk k hx)⟩
      · exact ⟨Nat.lt_succ_self _, fun k hk => by cases hk; exact Nat.lt_succ_self _⟩
    · rintro hexact i k (hi | ⟨rfl, hi⟩)
      · exact h.equal hexact i k hi
      · cases hi
        exact he hexact
  · have hsame : same.add next (some next') = same := by
      funext i x
      refine propext ⟨?_, .inl⟩
      rintro (hi | ⟨rfl, rfl⟩)
      · exact hi
      · rw [he hexact]
        rfl
    rw [hsame, he hexact]
    exact fits_same hexact _

/-- The next number is a bystander's. -/
theorem add_aside (h : Fits exact p next next') (he : ¬ exact) :
    Fits exact (p.add next none) (next + 1) next' := by
  have hk := h.known.resolve_right fun hexact => he hexact.1
  have fresh {x : Option ObserverId} (hx : p next x) : False := Nat.lt_irrefl _ (hk next x hx).1
  refine ⟨?_, ?_, .inl ?_, fun hexact => absurd hexact he⟩
  · rintro i x y (hx | ⟨rfl, rfl⟩) (hy | ⟨h', rfl⟩)
    · exact h.functional hx hy
    · subst h'
      exact (fresh hx).elim
    · exact (fresh hy).elim
    · rfl
  · rintro i j k (hi | ⟨-, hi⟩) (hj | ⟨-, hj⟩)
    · exact h.injective hi hj
    · cases hj
    · cases hi
    · cases hi
  · rintro i x (hx | ⟨rfl, rfl⟩)
    · obtain ⟨hi, hk⟩ := hk i x hx
      exact ⟨Nat.lt_succ_of_lt hi, hk⟩
    · exact ⟨Nat.lt_succ_self _, by simp⟩

theorem iff_of_pair (h : Fits exact p next next') {i i' j j' : ObserverId} (hi : p i (some i'))
    (hj : p j (some j')) : i = j ↔ i' = j' := by
  constructor
  · rintro rfl
    exact Option.some.inj (h.functional hi hj)
  · rintro rfl
    exact h.injective hi hj

theorem ne_of_aside (h : Fits exact p next next') {i i' j : ObserverId} (hi : p i (some i'))
    (hj : p j none) : i ≠ j := by
  rintro rfl
  cases h.functional hi hj

end Fits
end Pairing

/-! ## Registries -/

section Entries

variable {C O : Type} (A : Bystanders C O) (c : C) (p : Pairing)

/-- Entries of the same observer, who is no bystander. -/
structure Bystanders.Pairs (e e' : ObserverId × O) : Prop where
  observer : e.2 = e'.2
  ordinary : A.who c e.2 = false
  paired : p e.1 (some e'.1)

/-- An entry of a bystander. -/
structure Bystanders.Alone (e : ObserverId × O) : Prop where
  bystander : A.who c e.2 = true
  alone : p e.1 none

/-- The entries of the others go together. -/
abbrev Bystanders.Entries : List (ObserverId × O) → List (ObserverId × O) → Prop :=
  Mirrored (A.Pairs c p) (A.Alone c p)

variable {A c p} {q : Pairing} {es es' : List (ObserverId × O)}

theorem Bystanders.Pairs.mono {e e' : ObserverId × O} (h : A.Pairs c p e e')
    (hpq : ∀ i x, p i x → q i x) : A.Pairs c q e e' := ⟨h.observer, h.ordinary, hpq _ _ h.paired⟩

theorem Bystanders.entries_mono (h : A.Entries c p es es') (hpq : ∀ i x, p i x → q i x) :
    A.Entries c q es es' :=
  h.mono (fun _ _ he => he.mono hpq) fun _ he => ⟨he.bystander, hpq _ _ he.alone⟩

/-- Without bystanders, and with every number paired with itself, the entries are equal. -/
theorem Bystanders.entries_eq (h : A.Entries c p es es') (hA : A.IsEmpty)
    (hp : ∀ i k, p i (some k) → i = k) : es = es' := by
  refine List.forall₂_eq_eq_eq ▸ (h.forall₂ fun e he => ?_).imp fun e e' he => ?_
  · exact Bystanders.not_isEmpty_of_who he.bystander hA
  · exact Prod.ext (hp _ _ he.paired) he.observer

end Entries

namespace Registry

variable {C O V : Type} {A : Bystanders C O} {c : C} {p : Pairing} {r r' : Registry O V}

/-- The registries go together, up to the bystanders of the first. -/
structure Mirrors (A : Bystanders C O) (c : C) (p : Pairing) (r r' : Registry O V) : Prop where
  last : r.last = r'.last
  entries : A.Entries c p r.entries r'.entries
  fits : p.Fits A.IsEmpty r.nextId r'.nextId
  equal : A.IsEmpty → r = r'

namespace Mirrors

/-- Without bystanders, a registry goes with itself. -/
theorem refl (hA : A.IsEmpty) (r : Registry O V) : r.Mirrors A c Pairing.same r :=
  ⟨rfl, .refl fun _ _ => ⟨rfl, hA.1 _ _, rfl⟩, Pairing.fits_same hA _, fun _ => rfl⟩

theorem record (h : r.Mirrors A c p r') (v : V) : (r.record v).Mirrors A c p (r'.record v) :=
  ⟨rfl, h.entries, h.fits, fun he => by rw [h.equal he]⟩

theorem forget (h : r.Mirrors A c p r') : r.forget.Mirrors A c p r'.forget :=
  ⟨rfl, h.entries, h.fits, fun he => by rw [h.equal he]⟩

theorem countFailure (h : r.Mirrors A c p r') : r.countFailure.Mirrors A c p r'.countFailure :=
  ⟨h.last, h.entries, h.fits, fun he => by rw [h.equal he]⟩

theorem countFailureAside (h : r.Mirrors A c p r') (he : ¬ A.IsEmpty) :
    r.countFailure.Mirrors A c p r' :=
  ⟨h.last, h.entries, h.fits, fun h => absurd h he⟩

theorem remove {id id' : ObserverId} (h : r.Mirrors A c p r') (hid : p id (some id')) :
    (r.remove id).Mirrors A c p (r'.remove id') where
  last := h.last
  entries := by
    refine h.entries.filter fun e e' he => ?_
    have := h.fits.iff_of_pair he.paired hid
    simp [this]
  fits := h.fits
  equal he := by
    rw [h.equal he, h.fits.equal he id id' hid]

theorem removeAside {id : ObserverId} (h : r.Mirrors A c p r') (hid : p id none)
    (he : ¬ A.IsEmpty) : (r.remove id).Mirrors A c p r' where
  last := h.last
  entries := by
    refine h.entries.filter_left fun e e' hpair => ?_
    simpa using h.fits.ne_of_aside hpair.paired hid
  fits := h.fits
  equal h := absurd h he

theorem has_eq {id id' : ObserverId} (h : r.Mirrors A c p r') (hid : p id (some id')) :
    r.has id = r'.has id' := by
  refine h.entries.any_eq (fun e e' he => ?_) fun e he => ?_
  · have := h.fits.iff_of_pair he.paired hid
    simp [this]
  · simpa using (h.fits.ne_of_aside hid he.alone).symm

section Enroll

variable [DecidableEq O] {o : O}

/-- An observer who is no bystander has a number in both or in neither. -/
theorem idOf? (h : r.Mirrors A c p r') (ho : A.who c o = false) :
    Option.Rel (fun id id' => p id (some id')) (r.idOf? o) (r'.idOf? o) := by
  have hfind : Option.Rel (A.Pairs c p) (r.entries.find? (·.2 = o)) (r'.entries.find? (·.2 = o)) :=
    h.entries.find? (fun e e' he => by simp [he.observer]) fun e he => by
      simp only [decide_eq_false_iff_not]
      rintro rfl
      simp [he.bystander] at ho
  unfold Registry.idOf?
  generalize r.entries.find? _ = x at hfind
  generalize r'.entries.find? _ = y at hfind
  cases hfind with
  | some he => exact .some he.paired
  | none => exact .none

/-- The number of a bystander is paired with none. -/
theorem idOf?_aside (h : r.Mirrors A c p r') (ho : A.who c o = true) {id : ObserverId}
    (hid : r.idOf? o = some id) : p id none := by
  obtain ⟨e, he, rfl⟩ := Option.map_eq_some_iff.mp hid
  have hmem := List.mem_of_find?_eq_some he
  obtain rfl : e.2 = o := by simpa using List.find?_some he
  rcases h.entries.left_of_mem hmem with ⟨e', hpair⟩ | halone
  · simp [hpair.ordinary] at ho
  · exact halone.alone

/-- An observer enrols in both. -/
theorem enroll (h : r.Mirrors A c p r') (ho : A.who c o = false) :
    ∃ q : Pairing, (∀ i x, p i x → q i x) ∧
      (r.enroll o).registry.Mirrors A c q (r'.enroll o).registry ∧
      q (r.enroll o).id (some (r'.enroll o).id) ∧ (r.enroll o).replay = (r'.enroll o).replay := by
  have hid := h.idOf? ho
  cases hr : r.idOf? o <;> cases hr' : r'.idOf? o <;> rw [hr, hr'] at hid
  · rw [enroll_of_none hr, enroll_of_none hr']
    have hle : ∀ i x, p i x → p.add r.nextId (some r'.nextId) i x := fun _ _ => p.le_add _ _
    refine ⟨_, hle, ⟨h.last, ?_, h.fits.add_pair fun he => by rw [h.equal he], fun he => ?_⟩,
      p.add_self _ _, h.last⟩
    · exact (Bystanders.entries_mono h.entries hle).append
        (.cons ⟨rfl, ho, p.add_self _ _⟩ .nil)
    · rw [h.equal he]
  · cases hid
  · cases hid
  · rw [enroll_of_some hr, enroll_of_some hr']
    cases hid with
    | some hid => exact ⟨p, fun _ _ hp => hp, h, hid, rfl⟩

/-- A bystander enrols. -/
theorem enrollAside (h : r.Mirrors A c p r') (ho : A.who c o = true) :
    ∃ q : Pairing, (∀ i x, p i x → q i x) ∧ (r.enroll o).registry.Mirrors A c q r' ∧
      q (r.enroll o).id none := by
  have hne := Bystanders.not_isEmpty_of_who ho
  cases hr : r.idOf? o with
  | none =>
    rw [enroll_of_none hr]
    have hle : ∀ i x, p i x → p.add r.nextId none i x := fun _ _ => p.le_add _ _
    refine ⟨_, hle, ⟨h.last, ?_, h.fits.add_aside hne, fun he => absurd he hne⟩, p.add_self _ _⟩
    have := (Bystanders.entries_mono h.entries hle).append
      (.aside (a := (r.nextId, o)) ⟨ho, p.add_self _ _⟩ .nil)
    rwa [List.append_nil] at this
  | some id =>
    rw [enroll_of_some hr]
    exact ⟨p, fun _ _ hp => hp, h, h.idOf?_aside ho hr⟩

end Enroll
end Mirrors
end Registry
end LiveTrip
