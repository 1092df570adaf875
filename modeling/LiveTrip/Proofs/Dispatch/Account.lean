import LiveTrip.Proofs.Dispatch.Steps

/-!
# Every fan-out tells its audience once, in order

* `toldIn`, `failedIn`: those that a log says were told, and those of them that failed, for the
  fan-out with a number, in the order it happened.
* `awaitingIn`, `atWorkIn`: those on a stack that the fan-out has still to tell, and the one that is
  at work on its value.
* `Nested`: the shape of a stack. An observer is at work right above the fan-out that told it, and
  fan-outs further up are younger.
* `Ledger`: the shape of a log. Fan-outs have numbers of their own, and begin before anybody is
  told.
* `Dispatch.Accounted`: those told and those still to be told are together the audience that a
  fan-out began with, and those who failed are among those told, at most once for each time.
* `Dispatch.Accounted.steps`: whatever a dispatch does, it stays accounted.
-/

namespace LiveTrip

section Logs

variable {C : Type} {V : C → Type} {O X E : Type}

/-- The one that an event says was told by the fan-out with a number. -/
def Event.told? (n : Nat) : Event C V O E → Option (ObserverId × O)
  | .delivered f id o => if f.serial = n then some (id, o) else none
  | _ => none

/-- The one that an event says failed over the value of the fan-out with a number. -/
def Event.failed? (n : Nat) : Event C V O E → Option (ObserverId × O)
  | .failed f id o => if f.serial = n then some (id, o) else none
  | _ => none

/-- Whether an event is a failure over a value of a category. -/
def Event.failsIn [DecidableEq C] (c : C) : Event C V O E → Bool
  | .failed f _ _ => f.category = c
  | _ => false

/-- The one that is at work on the value of the fan-out with a number. -/
def Frame.atWork (n : Nat) : Frame C V O X → List (ObserverId × O)
  | .acting f id o => if f.serial = n then [(id, o)] else []
  | _ => []

/-- Those told by the fan-out with a number, in order. A log has its last event first. -/
def toldIn (n : Nat) (log : List (Event C V O E)) : List (ObserverId × O) :=
  (log.filterMap (Event.told? n)).reverse

/-- Those who failed over the value of the fan-out with a number, in order. -/
def failedIn (n : Nat) (log : List (Event C V O E)) : List (ObserverId × O) :=
  (log.filterMap (Event.failed? n)).reverse

/-- Those that the fan-out with a number has still to tell. -/
def awaitingIn (n : Nat) (stack : List (Frame C V O X)) : List (ObserverId × O) :=
  stack.flatMap (Frame.awaiting n)

/-- Those at work on the value of the fan-out with a number. -/
def atWorkIn (n : Nat) (stack : List (Frame C V O X)) : List (ObserverId × O) :=
  stack.flatMap (Frame.atWork n)

theorem toldIn_cons (n : Nat) (e : Event C V O E) (log : List (Event C V O E)) :
    toldIn n (e :: log) = toldIn n log ++ (e.told? n).toList := by
  unfold toldIn
  cases h : e.told? n <;> simp [h]

theorem failedIn_cons (n : Nat) (e : Event C V O E) (log : List (Event C V O E)) :
    failedIn n (e :: log) = failedIn n log ++ (e.failed? n).toList := by
  unfold failedIn
  cases h : e.failed? n <;> simp [h]

theorem toldIn_append (n : Nat) (events log : List (Event C V O E)) :
    toldIn n (events ++ log) = toldIn n log ++ toldIn n events := by
  simp [toldIn]

theorem awaitingIn_cons (n : Nat) (x : Frame C V O X) (stack : List (Frame C V O X)) :
    awaitingIn n (x :: stack) = x.awaiting n ++ awaitingIn n stack := rfl

theorem atWorkIn_cons (n : Nat) (x : Frame C V O X) (stack : List (Frame C V O X)) :
    atWorkIn n (x :: stack) = x.atWork n ++ atWorkIn n stack := rfl

theorem Frame.awaiting_of_isPlain {x : Frame C V O X} (h : x.isPlain = true) (n : Nat) :
    x.awaiting n = [] := by
  cases x <;> first | rfl | cases h

theorem Frame.atWork_of_isPlain {x : Frame C V O X} (h : x.isPlain = true) (n : Nat) :
    x.atWork n = [] := by
  cases x <;> first | rfl | cases h

/-- Somebody is told by a fan-out exactly if the log has the delivery. -/
theorem mem_toldIn {n : Nat} {log : List (Event C V O E)} {p : ObserverId × O} :
    p ∈ toldIn n log ↔ ∃ f, .delivered f p.1 p.2 ∈ log ∧ f.serial = n := by
  simp only [toldIn, List.mem_reverse, List.mem_filterMap]
  constructor
  · rintro ⟨e, he, ht⟩
    cases e with
    | delivered f id o =>
      simp only [Event.told?, Option.ite_none_right_eq_some, Option.some.injEq] at ht
      obtain ⟨hn, rfl⟩ := ht
      exact ⟨f, he, hn⟩
    | _ => cases ht
  · rintro ⟨f, hf, hn⟩
    exact ⟨_, hf, by simp [Event.told?, hn]⟩

/-! ## The shape of a stack -/

/-- An observer is at work right above the fan-out that told it, and the numbers of fan-outs fall
from the top down and are below `n`. -/
inductive Nested : Nat → List (Frame C V O X) → Prop
  | nil (n : Nat) : Nested n []
  | plain {n : Nat} {x : Frame C V O X} {s : List (Frame C V O X)} :
      x.isPlain = true → Nested n s → Nested n (x :: s)
  | fanout {n : Nat} {f : Fanout C V} {rest : List (ObserverId × O)}
      {s : List (Frame C V O X)} :
      f.serial < n → Nested f.serial s → Nested n (.fanout f rest :: s)
  | acting {n : Nat} {f : Fanout C V} {id : ObserverId} {o : O} {rest : List (ObserverId × O)}
      {s : List (Frame C V O X)} :
      Nested n (.fanout f rest :: s) → Nested n (.acting f id o :: .fanout f rest :: s)

theorem Nested.mono {n m : Nat} {s : List (Frame C V O X)} (h : Nested n s) (hnm : n ≤ m) :
    Nested m s := by
  induction h with
  | nil => exact .nil m
  | plain hx _ ih => exact .plain hx (ih hnm)
  | fanout hf hs => exact .fanout (by omega) hs
  | acting _ ih => exact .acting (ih hnm)

theorem Nested.tail {n : Nat} {x : Frame C V O X} {s : List (Frame C V O X)}
    (h : Nested n (x :: s)) : Nested n s := by
  cases h with
  | plain _ hs => exact hs
  | fanout hf hs => exact hs.mono (Nat.le_of_lt hf)
  | acting hs => exact hs

theorem Nested.serial_lt {n : Nat} {s : List (Frame C V O X)} (h : Nested n s) {f : Fanout C V}
    {rest : List (ObserverId × O)} (hf : .fanout f rest ∈ s) : f.serial < n := by
  induction h with
  | nil => cases hf
  | plain hx _ ih =>
    rcases List.mem_cons.mp hf with rfl | hf
    · cases hx
    · exact ih hf
  | fanout hn _ ih =>
    rcases List.mem_cons.mp hf with h | hf
    · cases h; exact hn
    · exact Nat.lt_trans (ih hf) hn
  | acting _ ih =>
    rcases List.mem_cons.mp hf with h | hf
    · cases h
    · exact ih hf

/-- Below an observer at work is the fan-out that told it. -/
theorem Nested.fanout_of_acting {n : Nat} {s : List (Frame C V O X)} (h : Nested n s)
    {f : Fanout C V} {id : ObserverId} {o : O} (ha : .acting f id o ∈ s) :
    ∃ rest, .fanout f rest ∈ s := by
  induction h with
  | nil => cases ha
  | plain hx _ ih =>
    rcases List.mem_cons.mp ha with rfl | ha
    · cases hx
    · obtain ⟨rest, hr⟩ := ih ha; exact ⟨rest, List.mem_cons_of_mem _ hr⟩
  | fanout _ _ ih =>
    rcases List.mem_cons.mp ha with h | ha
    · cases h
    · obtain ⟨rest, hr⟩ := ih ha; exact ⟨rest, List.mem_cons_of_mem _ hr⟩
  | acting _ ih =>
    rcases List.mem_cons.mp ha with h | ha
    · cases h; exact ⟨_, List.mem_cons_of_mem _ List.mem_cons_self⟩
    · obtain ⟨rest, hr⟩ := ih ha; exact ⟨rest, List.mem_cons_of_mem _ hr⟩

theorem Nested.awaitingIn_eq_nil {n m : Nat} {s : List (Frame C V O X)} (h : Nested n s)
    (hm : n ≤ m) : awaitingIn m s = [] := by
  rw [awaitingIn, List.flatMap_eq_nil_iff]
  intro x hx
  cases x with
  | fanout f rest =>
    have := h.serial_lt hx
    simp [Frame.awaiting, show f.serial ≠ m by omega]
  | _ => rfl

theorem Nested.atWorkIn_eq_nil {n m : Nat} {s : List (Frame C V O X)} (h : Nested n s)
    (hm : n ≤ m) : atWorkIn m s = [] := by
  rw [atWorkIn, List.flatMap_eq_nil_iff]
  intro x hx
  cases x with
  | acting f id o =>
    obtain ⟨rest, hr⟩ := h.fanout_of_acting hx
    have := h.serial_lt hr
    simp [Frame.atWork, show f.serial ≠ m by omega]
  | _ => rfl

/-- A stack has a fan-out once, so what the fan-out has still to tell is what stands there. -/
theorem Nested.awaitingIn_eq {n : Nat} {s : List (Frame C V O X)} (h : Nested n s)
    {f : Fanout C V} {rest : List (ObserverId × O)} (hf : .fanout f rest ∈ s) :
    awaitingIn f.serial s = rest := by
  induction h with
  | nil => cases hf
  | plain hx _ ih =>
    rcases List.mem_cons.mp hf with rfl | hf
    · cases hx
    · rw [awaitingIn_cons, Frame.awaiting_of_isPlain hx, ih hf, List.nil_append]
  | @fanout n g rest' s _ hs ih =>
    rw [awaitingIn_cons]
    rcases List.mem_cons.mp hf with h | hf
    · cases h
      rw [hs.awaitingIn_eq_nil (Nat.le_refl _)]
      simp [Frame.awaiting]
    · have := hs.serial_lt hf
      rw [ih hf]
      simp [Frame.awaiting, show g.serial ≠ f.serial by omega]
  | acting _ ih =>
    rcases List.mem_cons.mp hf with h | hf
    · cases h
    · exact ih hf

/-! ## The shape of a log -/

/-- The fan-out that an event belongs to. -/
def Event.fanout? : Event C V O E → Option (Fanout C V)
  | .began f _ | .delivered f _ _ | .failed f _ _ => some f
  | .owner _ => none

/-- Fan-outs have numbers of their own below `n`, and what belongs to one comes after its
beginning. -/
structure Ledger (n : Nat) (log : List (Event C V O E)) : Prop where
  below : ∀ f audience, .began f audience ∈ log → f.serial < n
  distinct : ∀ f audience f' audience', .began f audience ∈ log → .began f' audience' ∈ log →
    f.serial = f'.serial → f = f' ∧ audience = audience'
  known : ∀ e ∈ log, ∀ f, e.fanout? = some f → ∃ audience, .began f audience ∈ log

theorem Ledger.nil (n : Nat) : Ledger n ([] : List (Event C V O E)) :=
  ⟨nofun, nofun, nofun⟩

/-- A fan-out with the next number begins. -/
theorem Ledger.begin {log : List (Event C V O E)} {f : Fanout C V} (h : Ledger f.serial log)
    (audience : List (ObserverId × O)) : Ledger (f.serial + 1) (.began f audience :: log) where
  below g a hg := by
    rcases List.mem_cons.mp hg with hg | hg
    · cases hg; exact Nat.lt_succ_self _
    · exact Nat.lt_succ_of_lt (h.below g a hg)
  distinct g a g' a' hg hg' hn := by
    rcases List.mem_cons.mp hg with hg | hg <;> rcases List.mem_cons.mp hg' with hg' | hg'
    · cases hg; cases hg'; exact ⟨rfl, rfl⟩
    · cases hg; have := h.below g' a' hg'; omega
    · cases hg'; have := h.below g a hg; omega
    · exact h.distinct g a g' a' hg hg' hn
  known e he g hg := by
    rcases List.mem_cons.mp he with rfl | he
    · cases hg; exact ⟨audience, List.mem_cons_self⟩
    · obtain ⟨a, ha⟩ := h.known e he g hg; exact ⟨a, List.mem_cons_of_mem _ ha⟩

/-- Something happens that begins no fan-out. -/
theorem Ledger.cons {n : Nat} {log : List (Event C V O E)} {e : Event C V O E}
    (h : Ledger n log) (hb : ∀ f audience, e ≠ .began f audience)
    (hk : ∀ f, e.fanout? = some f → ∃ audience, .began f audience ∈ log) :
    Ledger n (e :: log) := by
  have hm : ∀ f a, .began f a ∈ e :: log → .began f a ∈ log := fun f a hf =>
    (List.mem_cons.mp hf).resolve_left fun h => hb f a h.symm
  refine ⟨fun f a hf => h.below f a (hm f a hf),
    fun f a f' a' hf hf' => h.distinct f a f' a' (hm f a hf) (hm f' a' hf'), fun e' he f hf => ?_⟩
  have hx : ∃ a, .began f a ∈ log := by
    rcases List.mem_cons.mp he with rfl | he
    · exact hk f hf
    · exact h.known e' he f hf
  obtain ⟨a, ha⟩ := hx
  exact ⟨a, List.mem_cons_of_mem _ ha⟩

/-- Nobody has been told for a number that has not been given out. -/
theorem Ledger.toldIn_eq_nil {n m : Nat} {log : List (Event C V O E)} (h : Ledger n log)
    (hm : n ≤ m) : toldIn m log = [] := by
  rw [List.eq_nil_iff_forall_not_mem]
  intro p hp
  obtain ⟨f, hf, rfl⟩ := mem_toldIn.mp hp
  obtain ⟨audience, hb⟩ := h.known _ hf f rfl
  have := h.below f audience hb
  omega

end Logs

/-! ## Accounts -/

namespace Dispatch

variable {T C : Type} {V : C → Type} {O X E : Type} {d d' : Dispatch T C V O X E}

/-- Every fan-out is accounted for. -/
structure Accounted (d : Dispatch T C V O X E) : Prop where
  nested : Nested d.serial d.stack
  ledger : Ledger d.serial d.log
  stacked : ∀ f rest, .fanout f rest ∈ d.stack → ∃ audience, .began f audience ∈ d.log
  complete : ∀ f audience, .began f audience ∈ d.log →
    toldIn f.serial d.log ++ awaitingIn f.serial d.stack = audience
  /-- Those who failed or are at work were told before, each once for each time. -/
  failing : ∀ n, (failedIn n d.log ++ atWorkIn n d.stack).Sublist (toldIn n d.log)

/-- Nothing has happened yet. -/
theorem Accounted.nil {d : Dispatch T C V O X E} (hs : d.stack = []) (hl : d.log = []) :
    d.Accounted where
  nested := by rw [hs]; exact .nil _
  ledger := by rw [hl]; exact .nil _
  stacked f rest hf := by rw [hs] at hf; cases hf
  complete f a hf := by rw [hl] at hf; cases hf
  failing n := by rw [hs, hl]; exact List.Sublist.refl _

/-- Something plain is put on top. -/
theorem Accounted.push (h : d.Accounted) {x : Frame C V O X} (plain : x.isPlain = true) :
    (d.push x).Accounted where
  nested := .plain plain h.nested
  ledger := h.ledger
  stacked f rest hf := by
    rcases List.mem_cons.mp hf with rfl | hf
    · cases plain
    · exact h.stacked f rest hf
  complete f a hf := by
    show toldIn f.serial d.log ++ awaitingIn f.serial (x :: d.stack) = a
    rw [awaitingIn_cons, Frame.awaiting_of_isPlain plain]
    exact h.complete f a hf
  failing n := by
    show (failedIn n d.log ++ atWorkIn n (x :: d.stack)).Sublist (toldIn n d.log)
    rw [atWorkIn_cons, Frame.atWork_of_isPlain plain]
    exact h.failing n

/-- What is uppermost is over, and nobody was waiting for it. -/
theorem Accounted.pop (h : d.Accounted) {x : Frame C V O X} {below : List (Frame C V O X)}
    (top : d.stack = x :: below) (spent : ∀ n, x.awaiting n = []) :
    ({ d with stack := below } : Dispatch T C V O X E).Accounted where
  nested := by have := h.nested; rw [top] at this; exact this.tail
  ledger := h.ledger
  stacked f rest hf := h.stacked f rest (by rw [top]; exact List.mem_cons_of_mem _ hf)
  complete f a hf := by
    have := h.complete f a hf
    rwa [top, awaitingIn_cons, spent, List.nil_append] at this
  failing n := by
    have := h.failing n
    rw [top, atWorkIn_cons] at this
    exact ((List.sublist_append_right _ _).append_left _).trans this

/-- Something of the owner happens. -/
theorem Accounted.note (h : d.Accounted) (e : E) : (d.note e).Accounted where
  nested := h.nested
  ledger := h.ledger.cons nofun nofun
  stacked f rest hf := by
    obtain ⟨a, ha⟩ := h.stacked f rest hf
    exact ⟨a, List.mem_cons_of_mem _ ha⟩
  complete f a hf := by
    show toldIn f.serial (_ :: d.log) ++ awaitingIn f.serial d.stack = a
    rw [toldIn_cons]
    simpa [Event.told?] using h.complete f a ((List.mem_cons.mp hf).resolve_left nofun)
  failing n := by
    show (failedIn n (_ :: d.log) ++ atWorkIn n d.stack).Sublist (toldIn n (_ :: d.log))
    rw [toldIn_cons, failedIn_cons]
    simpa [Event.told?, Event.failed?] using h.failing n

/-- A fan-out begins, for whatever reason. -/
theorem Accounted.begin (h : d.Accounted) (cause : Cause) (c : C) (v : V c)
    (audience : List (ObserverId × O)) : (d.begin cause c v audience).Accounted where
  nested := .fanout (Nat.lt_succ_self _) h.nested
  ledger := Ledger.begin (f := ⟨d.serial, cause, c, v⟩) h.ledger audience
  stacked f rest hf := by
    rcases List.mem_cons.mp hf with hf | hf
    · cases hf; exact ⟨audience, List.mem_cons_self⟩
    · obtain ⟨a, ha⟩ := h.stacked f rest hf; exact ⟨a, List.mem_cons_of_mem _ ha⟩
  complete f a hf := by
    show toldIn f.serial (_ :: d.log) ++ awaitingIn f.serial (_ :: d.stack) = a
    rw [toldIn_cons, awaitingIn_cons]
    rcases List.mem_cons.mp hf with hf | hf
    · cases hf
      rw [h.ledger.toldIn_eq_nil (Nat.le_refl _), h.nested.awaitingIn_eq_nil (Nat.le_refl _)]
      simp [Event.told?, Frame.awaiting]
    · have := h.ledger.below f a hf
      simpa [Event.told?, Frame.awaiting, show d.serial ≠ f.serial by omega]
        using h.complete f a hf
  failing n := by
    show (failedIn n (_ :: d.log) ++ atWorkIn n (_ :: d.stack)).Sublist (toldIn n (_ :: d.log))
    rw [toldIn_cons, failedIn_cons, atWorkIn_cons]
    simpa [Event.told?, Event.failed?, Frame.atWork] using h.failing n

/-- The next observer is told. -/
theorem Accounted.deliver (h : d.Accounted) {f : Fanout C V} {id : ObserverId} {o : O}
    {rest : List (ObserverId × O)} {below : List (Frame C V O X)}
    (top : d.stack = .fanout f ((id, o) :: rest) :: below) :
    ({ d with stack := .acting f id o :: .fanout f rest :: below }.emit
      (.delivered f id o)).Accounted := by
  have hn := h.nested
  rw [top] at hn
  obtain ⟨hlt, hbelow⟩ : f.serial < d.serial ∧ Nested f.serial below := by
    cases hn with
    | plain hx => cases hx
    | fanout hf hs => exact ⟨hf, hs⟩
  have hf : ∃ a, .began f a ∈ d.log := h.stacked f _ (by rw [top]; exact List.mem_cons_self)
  refine
    { nested := .acting (.fanout hlt hbelow)
      ledger := h.ledger.cons nofun fun g hg => by cases hg; exact hf
      stacked := fun g r hg => ?_
      complete := fun g a hg => ?_
      failing := fun n => ?_ }
  · have hm : ∃ a, .began g a ∈ d.log := by
      rcases List.mem_cons.mp ((List.mem_cons.mp hg).resolve_left nofun) with hg | hg
      · cases hg; exact hf
      · exact h.stacked g r (by rw [top]; exact List.mem_cons_of_mem _ hg)
    obtain ⟨a, ha⟩ := hm
    exact ⟨a, List.mem_cons_of_mem _ ha⟩
  · have := h.complete g a ((List.mem_cons.mp hg).resolve_left nofun)
    rw [top, awaitingIn_cons] at this
    show toldIn g.serial (_ :: d.log) ++ awaitingIn g.serial (_ :: _ :: below) = a
    rw [toldIn_cons, awaitingIn_cons, awaitingIn_cons]
    by_cases hs : f.serial = g.serial <;>
      simpa [Event.told?, Frame.awaiting, hs] using this
  · have := h.failing n
    rw [top, atWorkIn_cons] at this
    show (failedIn n (_ :: d.log) ++ atWorkIn n (_ :: _ :: below)).Sublist
      (toldIn n (_ :: d.log))
    rw [toldIn_cons, failedIn_cons, atWorkIn_cons, atWorkIn_cons]
    by_cases hs : f.serial = n
    · -- No other observer is at work on this value: the fan-out was uppermost.
      have hb : atWorkIn n below = [] := hbelow.atWorkIn_eq_nil (by omega)
      rw [hb] at this ⊢
      simp only [Event.told?, Event.failed?, Frame.atWork, hs, if_true, Option.toList,
        List.append_nil] at this ⊢
      exact this.append_right _
    · simpa [Event.told?, Event.failed?, Frame.atWork, hs] using this

/-- The observer at work fails. -/
theorem Accounted.fail [RegistryTable T C V O] (h : d.Accounted) {f : Fanout C V}
    {id : ObserverId} {o : O} {below : List (Frame C V O X)}
    (top : d.stack = .acting f id o :: below) : d.fail.Accounted := by
  rw [fail_eq top]
  have hp := h.pop top fun _ => rfl
  have hf : ∃ a, .began f a ∈ d.log := by
    obtain ⟨rest, hr⟩ := h.nested.fanout_of_acting (by rw [top]; exact List.mem_cons_self)
    exact h.stacked f rest hr
  refine
    { nested := hp.nested
      ledger := hp.ledger.cons nofun fun g hg => by cases hg; exact hf
      stacked := fun g r hg => ?_
      complete := fun g a hg => ?_
      failing := fun n => ?_ }
  · obtain ⟨a, ha⟩ := hp.stacked g r hg; exact ⟨a, List.mem_cons_of_mem _ ha⟩
  · show toldIn g.serial (_ :: d.log) ++ awaitingIn g.serial below = a
    rw [toldIn_cons]
    simpa [Event.told?] using hp.complete g a ((List.mem_cons.mp hg).resolve_left nofun)
  · have := h.failing n
    rw [top, atWorkIn_cons] at this
    show (failedIn n (_ :: d.log) ++ atWorkIn n below).Sublist (toldIn n (_ :: d.log))
    rw [toldIn_cons, failedIn_cons]
    by_cases hs : f.serial = n <;>
      simpa [Event.told?, Event.failed?, Frame.atWork, hs] using this

/-- Those told since were waiting for it before, unless the fan-out has begun since. They are told
in the order in which they waited. -/
theorem Accounted.delivered_since (h : d.Accounted) (h' : d'.Accounted)
    {events : List (Event C V O E)} (hlog : d'.log = events ++ d.log) {f : Fanout C V}
    {id : ObserverId} {o : O} (hd : .delivered f id o ∈ events) :
    (∃ audience, .began f audience ∈ events) ∨
      ∃ rest, .fanout f rest ∈ d.stack ∧ (id, o) ∈ rest ∧ toldIn f.serial events <+: rest := by
  obtain ⟨audience, hb⟩ := h'.ledger.known _ (by rw [hlog]; exact List.mem_append_left _ hd) f rfl
  have hnow := h'.complete f audience hb
  rw [hlog] at hb
  rcases List.mem_append.mp hb with hb | hb
  · exact .inl ⟨audience, hb⟩
  · have hbefore := h.complete f audience hb
    rw [hlog, toldIn_append, ← hbefore, List.append_assoc] at hnow
    have hsince := List.append_cancel_left hnow
    have hpre : toldIn f.serial events <+: awaitingIn f.serial d.stack := ⟨_, hsince⟩
    have hmem : (id, o) ∈ awaitingIn f.serial d.stack :=
      hpre.subset (mem_toldIn.mpr ⟨f, hd, rfl⟩)
    obtain ⟨x, hx, hw⟩ := List.mem_flatMap.mp hmem
    cases x with
    | fanout g rest =>
      simp only [Frame.awaiting, List.mem_ite_nil_right] at hw
      obtain ⟨hs, hw⟩ := hw
      obtain ⟨audience', hg⟩ := h.stacked g rest hx
      obtain ⟨rfl, -⟩ := h.ledger.distinct g audience' f audience hg hb hs
      rw [h.nested.awaitingIn_eq hx] at hpre
      exact .inr ⟨rest, hx, hw, hpre⟩
    | _ => cases hw

section Steps

variable [RegistryTable T C V O]

theorem Accounted.step (h : d.Accounted) (hs : Step d d') : d'.Accounted := by
  cases hs with
  | table | guards => exact ⟨h.nested, h.ledger, h.stacked, h.complete, h.failing⟩
  | push x plain => exact h.push plain
  | pop x below top spent => exact h.pop top spent
  | note e => exact h.note e
  | publish cause c v =>
    have hr : (d.setRegistry c ((d.registry c).record v)).Accounted :=
      ⟨h.nested, h.ledger, h.stacked, h.complete, h.failing⟩
    exact hr.begin cause c v _
  | replay c v audience => exact h.begin .replay c v audience
  | deliver f id o rest below top => exact h.deliver top
  | fail f id o below top => exact h.fail top

/-- **Whatever a dispatch does, every fan-out stays accounted for.** -/
theorem Accounted.steps (h : d.Accounted) (hs : Steps d d') : d'.Accounted := by
  induction hs with
  | refl => exact h
  | tail _ hs ih => exact ih.step hs

/-! ## The registries -/

/-- What holds of the registry that is set and of all others before holds of all after. -/
theorem forall_registry_setRegistry {P : (c : C) → Registry O (V c) → Prop} {c : C}
    {r : Registry O (V c)} (hr : P c r) (h : ∀ b, P b (d.registry b)) (b : C) :
    P b ((d.setRegistry c r).registry b) := by
  by_cases hb : b = c
  · subst hb; rw [registry_setRegistry]; exact hr
  · rw [registry_setRegistry_of_ne d r hb]; exact h b

/-- Whatever a dispatch does, its registries stay well formed. -/
theorem Steps.wellFormed (hs : Steps d d') (h : ∀ c, (d.registry c).WellFormed) (c : C) :
    (d'.registry c).WellFormed := by
  induction hs generalizing c with
  | refl => exact h c
  | tail _ hs ih =>
    cases hs with
    | table t hw => exact hw c (ih c)
    | guards | push | pop | note | replay | deliver => exact ih c
    | publish cause b v =>
      exact forall_registry_setRegistry (P := fun _ r => r.WellFormed) ((ih b).record v) ih c
    | fail f id o below top =>
      rw [fail_eq top]
      exact forall_registry_setRegistry (P := fun _ r => r.WellFormed)
        (ih f.category).countFailure ih c

variable [DecidableEq C]

/-- A registry counts the failures that happen in a step, and nothing else. -/
theorem Step.failures (hs : Step d d') (c : C) :
    (d'.registry c).failures + d.log.countP (Event.failsIn c) =
      (d.registry c).failures + d'.log.countP (Event.failsIn c) := by
  cases hs with
  | table t hw hf => exact congrArg (· + _) (hf c)
  | guards | push | pop => rfl
  | note e => exact congrArg _ (List.countP_cons_of_neg (by simp [Event.failsIn])).symm
  | replay b v audience =>
    exact congrArg _ (List.countP_cons_of_neg (by simp [Event.failsIn])).symm
  | deliver f id o rest below top =>
    exact congrArg _ (List.countP_cons_of_neg (by simp [Event.failsIn])).symm
  | publish cause b v =>
    have hr : ((d.setRegistry b ((d.registry b).record v)).registry c).failures =
        (d.registry c).failures :=
      forall_registry_setRegistry (P := fun c r => r.failures = (d.registry c).failures)
        (r := (d.registry b).record v) rfl (fun _ => rfl) c
    show ((d.setRegistry b ((d.registry b).record v)).registry c).failures + _ =
      _ + List.countP _ (_ :: d.log)
    rw [hr, List.countP_cons_of_neg (by simp [Event.failsIn])]
  | fail f id o below top =>
    rw [fail_eq top]
    show ((d.setRegistry f.category (d.registry f.category).countFailure).registry c).failures + _ =
      _ + List.countP _ (_ :: d.log)
    by_cases hc : c = f.category
    · subst hc
      rw [registry_setRegistry, List.countP_cons_of_pos (by simp [Event.failsIn])]
      show (d.registry f.category).failures + 1 + _ = _
      omega
    · rw [registry_setRegistry_of_ne d _ hc,
        List.countP_cons_of_neg (by simpa [Event.failsIn] using Ne.symm hc)]

/-- Whatever a dispatch does, a registry counts the failures that happen, and nothing else. -/
theorem Steps.failures (hs : Steps d d') (c : C) :
    (d'.registry c).failures + d.log.countP (Event.failsIn c) =
      (d.registry c).failures + d'.log.countP (Event.failsIn c) := by
  induction hs with
  | refl => rfl
  | tail _ hs ih => have := hs.failures c; omega

end Steps

end Dispatch
end LiveTrip
