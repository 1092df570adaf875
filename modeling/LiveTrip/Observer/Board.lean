import LiveTrip.Observer.Dispatch

/-!
# One registry in use by itself

* `Board.Call`, `Board.Answer`: what can be asked of a registry, and what it answers.
* `Board`: a registry of one category with its dispatch.
* `Board.tick?`: what happens by itself. `Board.decide?`: what happens because the outside, or the
  observer at work, decides so.
* `Board.Reaches`: the boards that a sequence of decisions leads to.

An answer is fixed when its call is made, and given once everything the call has set off is over.
-/

namespace LiveTrip

instance (O V : Type) : RegistryTable (Registry O V) Unit (fun _ => V) O where
  get r _ := r
  set _ _ r := r
  get_set_self _ _ _ := rfl
  get_set_of_ne _ _ _ _ h := absurd rfl h

namespace Board

/-- What can be asked of a registry. -/
inductive Call (O V : Type)
  | publish (v : V)
  | register (o : O)
  | unregister (o : O)
  | unregisterId (id : ObserverId)
  | subscribe (o : O) (slot : Slot)
  /-- Takes a guard out of its slot and unregisters its observer. -/
  | release (slot : Slot)
  /-- Takes a guard out of its slot and leaves its observer registered. -/
  | detach (slot : Slot)
  | forget
  | last
  deriving DecidableEq, Repr

inductive Answer (V : Type)
  | done
  | id (id : ObserverId)
  | flag (b : Bool)
  /-- There is no guard in the slot. -/
  | noGuard
  | value (v : Option V)
  deriving DecidableEq, Repr

/-- An answer with the call it is for and who made it: an observer, or the outside. -/
structure Reply (O V : Type) where
  caller : Option O
  call : Call O V
  answer : Answer V
  deriving DecidableEq, Repr

end Board

/-- A registry of one category with its dispatch. -/
abbrev Board (O V : Type) :=
  Dispatch (Registry O V) Unit (fun _ => V) O (Board.Reply O V) (Board.Reply O V)

namespace Board

variable {O V : Type} [DecidableEq O]

def empty : Board O V := { table := {} }

/-- The registry itself. -/
def items (b : Board O V) : Registry O V := b.table

/-- What a call is answered. -/
def answer (b : Board O V) : Call O V → Answer V
  | .publish _ | .forget | .subscribe _ _ => .done
  | .register o => .id (b.items.enroll o).id
  | .unregister o => .flag (b.items.idOf? o).isSome
  | .unregisterId id => .flag (b.items.has id)
  | .release slot | .detach slot => if (b.guard? slot).isSome then .done else .noGuard
  | .last => .value b.items.last

/-- What a call sets off. -/
def perform (b : Board O V) : Call O V → Board O V
  | .publish v => b.publish .call () v
  | .register o => (b.register () o).1
  | .unregister o => (b.unregisterObserver () o).1
  | .unregisterId id => (b.unregister () id).1
  | .subscribe o slot => b.subscribe () o slot
  | .release slot => b.release slot
  | .detach slot => b.detach slot
  | .forget => b.forget ()
  | .last => b

/-- A call is made. -/
def call (b : Board O V) (caller : Option O) (c : Call O V) : Board O V :=
  perform (b.pushOwner { caller, call := c, answer := b.answer c }) c

/-- What happens by itself, if anything does. -/
def tick? (b : Board O V) : Option (Board O V) :=
  match b.stack with
  | .owner reply :: below => some (Dispatch.note { b with stack := below } reply)
  | _ => b.advance?

/-- What happens because whoever has the word decides so. -/
def decide? (b : Board O V) (d : Decision (Call O V)) : Option (Board O V) :=
  match b.speaker, d with
  | some caller, .call c => some (b.call caller c)
  | some (some _), .finish => some b.finish
  | some (some _), .fail => some b.fail
  | _, _ => none

/-- The boards that a sequence of decisions leads to, with what happens by itself in between. -/
inductive Reaches : Board O V → List (Decision (Call O V)) → Board O V → Prop
  | refl (b : Board O V) : Reaches b [] b
  | tick {a b c : Board O V} {ds : List (Decision (Call O V))} :
      a.tick? = some b → Reaches b ds c → Reaches a ds c
  | decide {a b c : Board O V} {d : Decision (Call O V)} {ds : List (Decision (Call O V))} :
      a.decide? d = some b → Reaches b ds c → Reaches a (d :: ds) c

end Board
end LiveTrip
