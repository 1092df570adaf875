/-!
# The registry of one category

* `Registry`: the observers of one category in the order they registered, each under a number of its
  own, and the last value published.
* `Registry.enroll`: an observer that is not there yet gets the next number and is owed the last
  value.
* `Registry.remove`, `Registry.idOf?`: by number, and the number of an observer.
* `Registry.record`, `Registry.forget`: the last value, set and dropped.
* `Registry.WellFormed`: numbers rise along the list and stay below the next one; no observer is
  there twice. Every operation keeps it.
-/

namespace LiveTrip

/-- Number under which an observer is registered. A number is given out once. -/
abbrev ObserverId := Nat

/-- The observers of one category, and its last value. -/
structure Registry (O V : Type) where
  entries : List (ObserverId × O) := []
  last : Option V := none
  /-- The number that the next new observer gets. -/
  nextId : ObserverId := 0
  /-- Deliveries that failed. -/
  failures : Nat := 0
  deriving Repr, Inhabited

namespace Registry

variable {O V : Type}

/-- How many observers there are. -/
def size (r : Registry O V) : Nat := r.entries.length

def isEmpty (r : Registry O V) : Bool := r.entries.isEmpty

/-- The number of an observer. -/
def idOf? [DecidableEq O] (r : Registry O V) (o : O) : Option ObserverId :=
  (r.entries.find? (·.2 = o)).map (·.1)

/-- What an enrolment comes to. -/
structure Enrolment (O V : Type) where
  registry : Registry O V
  id : ObserverId
  /-- The value that the observer is owed because it is new. -/
  replay : Option V

/-- Enrols an observer. One that is there already keeps its number and is owed nothing. -/
def enroll [DecidableEq O] (r : Registry O V) (o : O) : Enrolment O V :=
  match r.idOf? o with
  | some id => { registry := r, id, replay := none }
  | none =>
    { registry := { r with entries := r.entries ++ [(r.nextId, o)], nextId := r.nextId + 1 }
      id := r.nextId
      replay := r.last }

/-- Removes the observer with a number. -/
def remove (r : Registry O V) (id : ObserverId) : Registry O V :=
  { r with entries := r.entries.filter (·.1 ≠ id) }

/-- Whether an observer has the number. -/
def has (r : Registry O V) (id : ObserverId) : Bool := r.entries.any (·.1 = id)

/-- A value becomes the last one. -/
def record (r : Registry O V) (v : V) : Registry O V := { r with last := some v }

/-- There is no last value any more. -/
def forget (r : Registry O V) : Registry O V := { r with last := none }

/-- Counts a delivery that failed. -/
def countFailure (r : Registry O V) : Registry O V := { r with failures := r.failures + 1 }

/-- Numbers rise along the list and stay below the next one, and no observer is there twice. -/
structure WellFormed (r : Registry O V) : Prop where
  ids_rise : r.entries.Pairwise fun a b => a.1 < b.1
  ids_below : ∀ e ∈ r.entries, e.1 < r.nextId
  observers_differ : r.entries.Pairwise fun a b => a.2 ≠ b.2

end Registry
end LiveTrip
