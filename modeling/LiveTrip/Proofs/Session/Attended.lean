import LiveTrip.Proofs.Run
import LiveTrip.Proofs.Session.Comparison
import LiveTrip.Proofs.Session.EngineCalls

/-!
# Attended runs

A run on which there may be bystanders: observers that call nothing. They may be registered and
unregistered at any time, they may fail, and none of that is counted among the moves of the run.

* `Trip.Aside`: a move of a bystander, or on behalf of one. `Trip.Ordinary`: any other.
* `Trip.Attended`: the trips that a sequence of moves leads to, with what was asked of the engine.
* `Trip.attended_nobody_iff`: without bystanders these are the runs of the session.
* `Trip.Attended.engine`: the engine is at their end what the calls have made of it.
* `Trip.attend?`: attended runs that are played.
-/

namespace LiveTrip.Trip

/-- A bystander is at work. -/
def bystanding (A : Bystanders Category Listener) (t : Trip) : Bool :=
  match t.dispatch.stack with
  | .acting f _ l :: _ => A.who f.category l
  | _ => false

/-- A bystander is done or fails, or somebody else makes a call on behalf of a bystander. -/
def Aside (A : Bystanders Category Listener) (t : Trip) : Move → Prop
  | .decide (.call c) => t.bystanding A = false ∧ c.Aside A
  | .decide _ => t.bystanding A = true
  | _ => False

/-- No bystander makes the move, and it is about none. -/
def Ordinary (A : Bystanders Category Listener) (t : Trip) : Move → Prop
  | .decide (.call c) => t.bystanding A = false ∧ c.Ordinary A
  | .decide _ => t.bystanding A = false
  | _ => True

/-- The trips that a sequence of moves leads to, with what was asked of the engine, and with what
happens by itself or has to do with bystanders in between. -/
inductive Attended (A : Bystanders Category Listener) :
    Trip → List Move → List EngineCall → Trip → Prop
  | refl (t : Trip) : Attended A t [] [] t
  | tick {a b c : Trip} {ms : List Move} {calls : List EngineCall} (step : a.tick? = some b)
      (rest : Attended A b ms calls c) : Attended A a ms (a.engineCalls none ++ calls) c
  | bystander {a b c : Trip} {m : Move} {ms : List Move} {calls : List EngineCall}
      (aside : a.Aside A m) (step : a.move? m = some b) (rest : Attended A b ms calls c) :
      Attended A a ms calls c
  | move {a b c : Trip} {m : Move} {ms : List Move} {calls : List EngineCall}
      (ordinary : a.Ordinary A m) (step : a.move? m = some b) (rest : Attended A b ms calls c) :
      Attended A a (m :: ms) (a.engineCalls (some m) ++ calls) c

theorem bystanding_nobody (t : Trip) : t.bystanding .nobody = false := by
  unfold bystanding
  split <;> rfl

theorem not_aside_nobody (t : Trip) (m : Move) : ¬ t.Aside .nobody m := by
  intro h
  cases m with
  | decide d =>
    cases d with
    | call c =>
      exact Call.not_aside_of_ordinary (Call.ordinary_of_isEmpty Bystanders.isEmpty_nobody c) h.2
    | finish | fail =>
      have := bystanding_nobody t
      simp_all [Aside]
  | _ => exact h

theorem ordinary_nobody (t : Trip) (m : Move) : t.Ordinary .nobody m := by
  cases m with
  | decide d =>
    cases d with
    | call c => exact ⟨bystanding_nobody t, Call.ordinary_of_isEmpty Bystanders.isEmpty_nobody c⟩
    | finish | fail => exact bystanding_nobody t
  | _ => trivial

/-- **Without bystanders, the attended runs are the runs of the session.** -/
theorem attended_nobody_iff {t u : Trip} {ms : List Move} :
    (∃ calls, Attended .nobody t ms calls u) ↔ Reaches t ms u := by
  constructor
  · rintro ⟨calls, h⟩
    induction h with
    | refl t => exact .refl t
    | tick step _ ih => exact .tick step ih
    | bystander aside => exact absurd aside (not_aside_nobody _ _)
    | move _ step _ ih => exact .move step ih
  · intro h
    induction h with
    | refl t => exact ⟨[], .refl t⟩
    | tick step _ ih =>
      obtain ⟨calls, h⟩ := ih
      exact ⟨_, .tick step h⟩
    | move step _ ih =>
      obtain ⟨calls, h⟩ := ih
      exact ⟨_, .move (ordinary_nobody _ _) step h⟩

/-- What is done on behalf of a bystander leaves the engine alone. -/
theorem engine_of_aside {A : Bystanders Category Listener} {t t' : Trip} {m : Move}
    (aside : t.Aside A m) (h : t.move? m = some t') : t'.engine = t.engine := by
  cases m with
  | decide d =>
    cases d with
    | call c =>
      have hcontrol (d : Engine.Control) : c ≠ .control d := by
        rintro rfl
        exact aside.2
      rw [engine_of_move? h (by simpa using hcontrol)]
      cases c with
      | setRoutes => exact aside.2.elim
      | _ => rfl
    | finish | fail => exact engine_of_move? h (by simp)
  | _ => exact aside.elim

/-- **At the end of a run, the engine is what the calls have made of it**, unless it was told from
outside what to do next. -/
theorem Attended.engine {A : Bystanders Category Listener} {t u : Trip} {ms : List Move}
    {calls : List EngineCall} (h : Attended A t ms calls u)
    (hm : ∀ d, .decide (.call (.control d)) ∉ ms) : u.engine = t.asked calls := by
  induction h with
  | refl => rfl
  | tick step _ ih =>
    rw [ih hm, asked_append, ← engine_of_tick? step]
    rfl
  | bystander aside step _ ih =>
    rw [ih hm, asked, asked, engine_of_aside aside step]
  | move _ step _ ih =>
    have hfirst := engine_of_move? step fun d hd => hm d (hd ▸ List.mem_cons_self)
    rw [ih fun d hd => hm d (List.mem_cons_of_mem _ hd), asked_append, ← hfirst]
    rfl

/-! ## Attended runs that are played -/

section Play

variable (A : Bystanders Category Listener) (t : Trip)

instance (m : Move) : Decidable (t.Aside A m) :=
  match m with
  | .decide (.call c) => inferInstanceAs (Decidable (t.bystanding A = false ∧ c.Aside A))
  | .decide .finish | .decide .fail => inferInstanceAs (Decidable (t.bystanding A = true))
  | .work | .replay | .elapse _ => inferInstanceAs (Decidable False)

instance (m : Move) : Decidable (t.Ordinary A m) :=
  match m with
  | .decide (.call c) => inferInstanceAs (Decidable (t.bystanding A = false ∧ c.Ordinary A))
  | .decide .finish | .decide .fail => inferInstanceAs (Decidable (t.bystanding A = false))
  | .work | .replay | .elapse _ => inferInstanceAs (Decidable True)

/-- Plays moves one after another, those that are marked on behalf of bystanders, with at most so
many silent steps before each and at the end. -/
def attend? (fuel : Nat) : List (Bool × Move) → Trip → Option Trip
  | [], t => some (settle tick? fuel t)
  | (aside, m) :: ms, t =>
    let a := settle tick? fuel t
    if bif aside then decide (a.Aside A m) else decide (a.Ordinary A m) then
      (a.move? m).bind (attend? fuel ms)
    else none

/-- The moves that are not marked. -/
def unmarked (ms : List (Bool × Move)) : List Move := (ms.filter (!·.1)).map (·.2)

variable {A t}

theorem attended_of_settle {fuel : Nat} {ms : List Move} {calls : List EngineCall} {u : Trip}
    (h : Attended A (settle tick? fuel t) ms calls u) : ∃ calls, Attended A t ms calls u := by
  induction fuel generalizing t calls with
  | zero => exact ⟨calls, h⟩
  | succ fuel ih =>
    unfold settle at h
    cases hs : t.tick? with
    | none =>
      rw [hs] at h
      exact ⟨calls, h⟩
    | some b =>
      rw [hs] at h
      obtain ⟨calls, h⟩ := ih h
      exact ⟨_, .tick hs h⟩

/-- What is played is an attended run. -/
theorem attended_of_attend? {fuel : Nat} {ms : List (Bool × Move)} {u : Trip}
    (h : attend? A fuel ms t = some u) : ∃ calls, Attended A t (unmarked ms) calls u := by
  induction ms generalizing t with
  | nil =>
    cases h
    exact attended_of_settle (.refl _)
  | cons p ms ih =>
    obtain ⟨aside, m⟩ := p
    simp only [attend?] at h
    split at h
    · rename_i hm
      obtain ⟨b, hb, h⟩ := Option.bind_eq_some_iff.mp h
      obtain ⟨calls, hrest⟩ := ih h
      cases aside with
      | true => exact attended_of_settle (.bystander (of_decide_eq_true hm) hb hrest)
      | false => exact attended_of_settle (.move (of_decide_eq_true hm) hb hrest)
    · cases h

end Play

end LiveTrip.Trip
