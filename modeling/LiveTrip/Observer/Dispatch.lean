import LiveTrip.Observer.Registry

/-!
# Dispatch of values to observers

Registries of several categories share one dispatch: values go out one at a time, and an observer
that is being told a value may register, unregister or publish in turn, which nests.

* `RegistryTable`: a type that keeps one registry for each category.
* `Frame`: what is going on at one level of nesting. The frames form a stack: a fan-out under way,
  an observer at work on a value, or something of the owner of the dispatch.
* `Event`: what happens, in the order it happens.
* `Dispatch`: the registries, the stack and the events so far.
* `Dispatch.publish`, `register`, `subscribe`, `unregister`, `release`, `forget`: the calls.
* `Dispatch.advance?`: a fan-out tells its value to the next observer of those that were registered
  when it began. `Dispatch.finish` and `Dispatch.fail` end an observer's work.
-/

namespace LiveTrip

/-- A type that keeps one registry for each category `c : C`, for values of type `V c`. -/
class RegistryTable (T : Type) (C : outParam Type) (V : outParam (C → Type))
    (O : outParam Type) where
  get : T → (c : C) → Registry O (V c)
  set : T → (c : C) → Registry O (V c) → T
  get_set_self : ∀ t c r, get (set t c r) c = r
  get_set_of_ne : ∀ t c r c', c' ≠ c → get (set t c r) c' = get t c'

/-- Why a value goes out. -/
inductive Cause
  /-- Some call published it. -/
  | call
  /-- The tick with this number published it. -/
  | tick (number : Nat)
  /-- A new observer is owed the last value. -/
  | replay
  deriving DecidableEq, Repr, Inhabited

/-- A value on its way to observers. -/
structure Fanout (C : Type) (V : C → Type) where
  /-- Fan-outs are numbered in the order they begin. -/
  serial : Nat
  cause : Cause
  category : C
  value : V category

/-- Name of a place where a guard is kept. -/
abbrev Slot := String

/-- A guard keeps an observer registered: releasing it unregisters the observer by its number. -/
structure Guard (C : Type) where
  category : C
  id : ObserverId
  deriving DecidableEq, Repr

/-- What is going on at one level of nesting. -/
inductive Frame (C : Type) (V : C → Type) (O X : Type)
  /-- A value goes out to those in the list. -/
  | fanout (f : Fanout C V) (rest : List (ObserverId × O))
  /-- An observer is at work on a value. -/
  | acting (f : Fanout C V) (id : ObserverId) (observer : O)
  /-- A guard is about to be put into a slot. -/
  | keep (slot : Slot) (guard : Guard C)
  /-- Something of the owner of the dispatch. -/
  | owner (x : X)

/-- What happens. -/
inductive Event (C : Type) (V : C → Type) (O E : Type)
  /-- A fan-out begins; these are the observers it will tell. -/
  | began (f : Fanout C V) (audience : List (ObserverId × O))
  /-- An observer is told a value. -/
  | delivered (f : Fanout C V) (id : ObserverId) (observer : O)
  /-- An observer failed over a value. -/
  | failed (f : Fanout C V) (id : ObserverId) (observer : O)
  /-- Something of the owner of the dispatch. -/
  | owner (e : E)

/-- What whoever has the word does next: the outside while nothing is going on, and an observer
while it is at work. -/
inductive Decision (K : Type)
  | call (c : K)
  /-- The observer is done. -/
  | finish
  /-- The observer fails. -/
  | fail
  deriving DecidableEq, Repr

/-- Registries, what is going on, and what has happened. -/
structure Dispatch (T C : Type) (V : C → Type) (O X E : Type) where
  table : T
  /-- What is going on, innermost first. -/
  stack : List (Frame C V O X) := []
  /-- What has happened, last first. -/
  log : List (Event C V O E) := []
  /-- Fan-outs begun so far. -/
  serial : Nat := 0
  /-- Guards in their slots. -/
  guards : List (Slot × Guard C) := []

namespace Dispatch

variable {T C : Type} {V : C → Type} {O X E : Type} [RegistryTable T C V O]

/-- Who has the word: `some none` is the outside, `some (some o)` an observer, and `none` nobody,
because something else has to happen first. -/
def speaker (d : Dispatch T C V O X E) : Option (Option O) :=
  match d.stack with
  | [] => some none
  | .acting _ _ o :: _ => some (some o)
  | _ => none

/-- The registry of a category. -/
def registry (d : Dispatch T C V O X E) (c : C) : Registry O (V c) := RegistryTable.get d.table c

/-- The dispatch with the registry of a category replaced. -/
def setRegistry (d : Dispatch T C V O X E) (c : C) (r : Registry O (V c)) : Dispatch T C V O X E :=
  { d with table := RegistryTable.set d.table c r }

/-- The last value of a category. -/
def last (d : Dispatch T C V O X E) (c : C) : Option (V c) := (d.registry c).last

def push (d : Dispatch T C V O X E) (f : Frame C V O X) : Dispatch T C V O X E :=
  { d with stack := f :: d.stack }

/-- Puts something of the owner on the stack. -/
def pushOwner (d : Dispatch T C V O X E) (x : X) : Dispatch T C V O X E := d.push (.owner x)

def emit (d : Dispatch T C V O X E) (e : Event C V O E) : Dispatch T C V O X E :=
  { d with log := e :: d.log }

/-- Notes an event of the owner. -/
def note (d : Dispatch T C V O X E) (e : E) : Dispatch T C V O X E := d.emit (.owner e)

/-- Hands over what has happened since this was last done, in order. -/
def takeLog (d : Dispatch T C V O X E) : Dispatch T C V O X E × List (Event C V O E) :=
  ({ d with log := [] }, d.log.reverse)

/-- A fan-out begins. -/
def begin (d : Dispatch T C V O X E) (cause : Cause) (c : C) (v : V c)
    (audience : List (ObserverId × O)) : Dispatch T C V O X E :=
  let f : Fanout C V := ⟨d.serial, cause, c, v⟩
  { (d.emit (.began f audience)).push (.fanout f audience) with serial := d.serial + 1 }

/-- A value becomes the last of its category and goes out to all who are registered now. -/
def publish (d : Dispatch T C V O X E) (cause : Cause) (c : C) (v : V c) : Dispatch T C V O X E :=
  let r := d.registry c
  (d.setRegistry c (r.record v)).begin cause c v r.entries

/-- Registers an observer; one that is new is told the last value. -/
def register [DecidableEq O] (d : Dispatch T C V O X E) (c : C) (o : O) :
    Dispatch T C V O X E × ObserverId :=
  let e := (d.registry c).enroll o
  let d := d.setRegistry c e.registry
  match e.replay with
  | some v => (d.begin .replay c v [(e.id, o)], e.id)
  | none => (d, e.id)

/-- Registers an observer, and once it has been told the last value puts a guard for it into a
slot. -/
def subscribe [DecidableEq O] (d : Dispatch T C V O X E) (c : C) (o : O) (slot : Slot) :
    Dispatch T C V O X E :=
  let e := (d.registry c).enroll o
  ((d.push (.keep slot ⟨c, e.id⟩)).register c o).1

/-- Unregisters by number, and whether there was anyone with it. -/
def unregister (d : Dispatch T C V O X E) (c : C) (id : ObserverId) : Dispatch T C V O X E × Bool :=
  let r := d.registry c
  (d.setRegistry c (r.remove id), r.has id)

/-- Unregisters an observer, and whether it was registered. -/
def unregisterObserver [DecidableEq O] (d : Dispatch T C V O X E) (c : C) (o : O) :
    Dispatch T C V O X E × Bool :=
  match (d.registry c).idOf? o with
  | some id => d.unregister c id
  | none => (d, false)

/-- Drops the last value of a category. -/
def forget (d : Dispatch T C V O X E) (c : C) : Dispatch T C V O X E :=
  d.setRegistry c (d.registry c).forget

/-- The guard in a slot. -/
def guard? (d : Dispatch T C V O X E) (slot : Slot) : Option (Guard C) :=
  (d.guards.find? (·.1 == slot)).map (·.2)

/-- Takes the guard out of a slot and leaves its observer registered. -/
def detach (d : Dispatch T C V O X E) (slot : Slot) : Dispatch T C V O X E :=
  { d with guards := d.guards.filter (·.1 != slot) }

/-- Takes the guard out of a slot and unregisters its observer. -/
def release (d : Dispatch T C V O X E) (slot : Slot) : Dispatch T C V O X E :=
  match d.guard? slot with
  | some g => ((d.detach slot).unregister g.category g.id).1
  | none => d

/-- Puts a guard into a slot, and releases the one that was there. -/
def keep (d : Dispatch T C V O X E) (slot : Slot) (g : Guard C) : Dispatch T C V O X E :=
  let d := d.release slot
  { d with guards := (slot, g) :: d.guards }

/-- One step of a fan-out or of keeping a guard, if either is what is going on. -/
def advance? (d : Dispatch T C V O X E) : Option (Dispatch T C V O X E) :=
  match d.stack with
  | .fanout _ [] :: below => some { d with stack := below }
  | .fanout f ((id, o) :: rest) :: below =>
    some ({ d with stack := .acting f id o :: .fanout f rest :: below }.emit (.delivered f id o))
  | .keep slot g :: below => some ({ d with stack := below }.keep slot g)
  | _ => none

/-- The observer at work is done. -/
def finish (d : Dispatch T C V O X E) : Dispatch T C V O X E :=
  match d.stack with
  | .acting _ _ _ :: below => { d with stack := below }
  | _ => d

/-- The observer at work fails, which is counted. -/
def fail (d : Dispatch T C V O X E) : Dispatch T C V O X E :=
  match d.stack with
  | .acting f id o :: below =>
    let d := { d with stack := below }
    (d.setRegistry f.category (d.registry f.category).countFailure).emit (.failed f id o)
  | _ => d

end Dispatch
end LiveTrip
