import LiveTrip.Guidance
import LiveTrip.Observer.Dispatch
import LiveTrip.Phase

/-!
# What a session tells its observers

* `SessionState`: stopped or started.
* `Category`: the seven categories, and `Category.Value`, what each carries.
* `Listener`: those who can be registered: observers, and the signal that watches the speed.
* `Hub`: one registry per category.
-/

namespace LiveTrip

/-- Whether a session acquires positions. -/
inductive SessionState
  | stopped
  | started
  deriving DecidableEq, Repr, Inhabited

def SessionState.name : SessionState → String
  | .stopped => "stopped"
  | .started => "started"

/-- What observers can be told about. -/
inductive Category
  | rawLocation
  | location
  | routeProgress
  | sessionState
  | navigationPhase
  | offRoute
  | instructionCues
  deriving DecidableEq, Repr, Inhabited

namespace Category

def all : List Category :=
  [rawLocation, location, routeProgress, sessionState, navigationPhase, offRoute, instructionCues]

def name : Category → String
  | rawLocation => "raw_location"
  | location => "location"
  | routeProgress => "route_progress"
  | sessionState => "session_state"
  | navigationPhase => "navigation_phase"
  | offRoute => "off_route"
  | instructionCues => "instruction_cues"

def ofName? (s : String) : Option Category := all.find? (·.name == s)

/-- What a category carries. -/
abbrev Value : Category → Type
  | rawLocation => Fix
  | location => MatchedLocation
  | routeProgress => Progress
  | sessionState => SessionState
  | navigationPhase => Phase
  | offRoute => Bool
  | instructionCues => Cues

end Category

/-- Those who can be registered. -/
inductive Listener
  /-- The signal that estimates congestion from the speed. -/
  | speedSignal
  | named (name : String)
  deriving DecidableEq, Repr, Inhabited

/-- One registry per category. -/
structure Hub where
  rawLocation : Registry Listener Fix := {}
  location : Registry Listener MatchedLocation := {}
  routeProgress : Registry Listener Progress := {}
  sessionState : Registry Listener SessionState := {}
  navigationPhase : Registry Listener Phase := {}
  offRoute : Registry Listener Bool := {}
  instructionCues : Registry Listener Cues := {}
  deriving Inhabited

namespace Hub

def get (h : Hub) : (c : Category) → Registry Listener c.Value
  | .rawLocation => h.rawLocation
  | .location => h.location
  | .routeProgress => h.routeProgress
  | .sessionState => h.sessionState
  | .navigationPhase => h.navigationPhase
  | .offRoute => h.offRoute
  | .instructionCues => h.instructionCues

def set (h : Hub) : (c : Category) → Registry Listener c.Value → Hub
  | .rawLocation, r => { h with rawLocation := r }
  | .location, r => { h with location := r }
  | .routeProgress, r => { h with routeProgress := r }
  | .sessionState, r => { h with sessionState := r }
  | .navigationPhase, r => { h with navigationPhase := r }
  | .offRoute, r => { h with offRoute := r }
  | .instructionCues, r => { h with instructionCues := r }

theorem get_set_self (h : Hub) (c : Category) (r : Registry Listener c.Value) :
    (h.set c r).get c = r := by cases c <;> rfl

theorem get_set_of_ne (h : Hub) (c : Category) (r : Registry Listener c.Value) (c' : Category)
    (hc : c' ≠ c) : (h.set c r).get c' = h.get c' := by
  cases c <;> cases c' <;> first | rfl | exact absurd rfl hc

instance : RegistryTable Hub Category Category.Value Listener where
  get := get
  set := set
  get_set_self := get_set_self
  get_set_of_ne := get_set_of_ne

/-- Deliveries that failed, in all categories. -/
def failures (h : Hub) : Nat := Category.all.foldl (fun n c => n + (h.get c).failures) 0

/-- What a session has told nobody yet is already known: it is stopped, on a free drive. -/
def initial : Hub where
  sessionState := { last := some .stopped }
  navigationPhase := { last := some .freeDrive }

end Hub
end LiveTrip
