import LiveTrip.Session.Run

/-!
# Virtual time

* `Trip.nextTask?`: the task that takes the next turn: of those that are ready, the one that has
  waited longer.
* `Trip.nextAlarm?`: when the next task becomes ready, if time alone makes it so.
* `Trip.advance?`: the next thing that happens without an observer's decision. Tasks run, and time
  passes, only up to a given time.
* `Trip.drive`: all that happens up to that time, with observers that decide as `react` says.
-/

namespace LiveTrip.Trip

/-- The task that takes the next turn. -/
def nextTask? (t : Trip) : Option Trip :=
  if t.replayReady && !(t.workReady && t.worker.any (·.stamp < t.replayStamp)) then t.replay?
  else t.work?

/-- When the next task becomes ready by itself. -/
def nextAlarm? (t : Trip) : Option Nat :=
  let replay := t.replayRun?.map fun (_, r) => r.due
  match replay, t.worker.bind (·.alarm?) with
  | some a, some b => some (min a b)
  | a, none => a
  | none, b => b

/-- The next instant at which something happens, up to `limit`. -/
def nextInstant (t : Trip) (limit : Nat) : Nat :=
  match t.nextAlarm? with
  | some alarm => max t.now (min alarm limit)
  | none => limit

/-- The next thing that happens without an observer's decision. Without a limit, only what is going
on is brought to an end. -/
def advance? (t : Trip) (limit : Option Nat) : Option Trip :=
  match t.tick?, limit with
  | some next, _ => some next
  | none, none => none
  | none, some limit =>
    if t.idle then
      match t.nextTask? with
      | some next => some next
      | none => if t.now < limit then t.elapse? (t.nextInstant limit) else none
    else none

/-- All that happens up to `limit`, in at most so many steps. Where an observer has the word,
`react` decides. -/
def drive {σ : Type} (react : σ → Trip → σ × Decision Call) (limit : Option Nat) :
    Nat → σ → Trip → σ × Trip
  | 0, s, t => (s, t)
  | fuel + 1, s, t =>
    match t.advance? limit with
    | some next => drive react limit fuel s next
    | none =>
      match t.speaker with
      | some (some _) =>
        let (s, d) := react s t
        match t.decide? d with
        | some next => drive react limit fuel s next
        | none => (s, t)
      | _ => (s, t)

end LiveTrip.Trip
