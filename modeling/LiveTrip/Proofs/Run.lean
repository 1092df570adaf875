/-!
# Runs

A system takes silent steps by itself and steps with a label that somebody decides on. `Run` is a
run of such a system, built at its end, so that what holds of it is proved by induction on it.

* `Run.trans`: runs are joined.
* `play`: the run that computed steps make, with silent steps wherever they can happen.
* `run_of_play`: what is played is a run.
-/

namespace LiveTrip

variable {S L : Type} {silent : S → S → Prop} {act : S → L → S → Prop}

/-- The states that steps with the given labels lead to, with silent steps in between. -/
inductive Run (silent : S → S → Prop) (act : S → L → S → Prop) (a : S) : List L → S → Prop
  | refl : Run silent act a [] a
  | silent {ls : List L} {b c : S} : Run silent act a ls b → silent b c → Run silent act a ls c
  | act {ls : List L} {b c : S} {l : L} :
      Run silent act a ls b → act b l c → Run silent act a (ls ++ [l]) c

namespace Run

theorem trans {a b c : S} {ls ms : List L} (h : Run silent act a ls b)
    (h' : Run silent act b ms c) : Run silent act a (ls ++ ms) c := by
  induction h' with
  | refl => rw [List.append_nil]; exact h
  | silent _ hs ih => exact ih.silent hs
  | act _ hs ih => rw [← List.append_assoc]; exact ih.act hs

end Run

/-! ## Playing a run -/

/-- Lets silent steps happen, at most so many. -/
def settle (tick? : S → Option S) : Nat → S → S
  | 0, a => a
  | fuel + 1, a =>
    match tick? a with
    | some b => settle tick? fuel b
    | none => a

/-- Plays the labels one after another, with at most so many silent steps before each and at the
end. -/
def play (tick? : S → Option S) (act? : S → L → Option S) (fuel : Nat) : List L → S → Option S
  | [], a => some (settle tick? fuel a)
  | l :: ls, a => (act? (settle tick? fuel a) l).bind (play tick? act? fuel ls)

/-- The runs of a system whose steps are computed. -/
abbrev ComputedRun (tick? : S → Option S) (act? : S → L → Option S) : S → List L → S → Prop :=
  Run (fun a b => tick? a = some b) fun a l b => act? a l = some b

theorem run_settle (tick? : S → Option S) (act? : S → L → Option S) (fuel : Nat) (a : S) :
    ComputedRun tick? act? a [] (settle tick? fuel a) := by
  induction fuel generalizing a with
  | zero => exact .refl
  | succ fuel ih =>
    unfold settle
    cases h : tick? a with
    | some b =>
      have hs : ComputedRun tick? act? a [] b := Run.silent .refl h
      exact hs.trans (ih b)
    | none => exact .refl

/-- What is played is a run. -/
theorem run_of_play {tick? : S → Option S} {act? : S → L → Option S} (fuel : Nat) {ls : List L}
    {a b : S} (h : play tick? act? fuel ls a = some b) : ComputedRun tick? act? a ls b := by
  induction ls generalizing a with
  | nil =>
    cases h
    exact run_settle tick? act? fuel a
  | cons l ls ih =>
    obtain ⟨c, hc, h⟩ := Option.bind_eq_some_iff.mp h
    exact ((run_settle tick? act? fuel a).act hc).trans (ih h)
end LiveTrip
