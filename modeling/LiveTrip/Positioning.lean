import LiveTrip.Error
import LiveTrip.Location

/-!
# Positioning sources

A source sends fixes and errors down a line to whoever reads it.

* `Line`: the queue between the two, and which of its ends are held.
* `ManualSource`: sends what it is told to.
* `ReplaySource`: sends recorded fixes, one every so many milliseconds, from the moment it starts.
* `Source`: either of them.
-/

namespace LiveTrip

/-- What goes down a line. -/
abbrev Delivery := Except PositioningError Fix

/-- The line from a source to its reader. -/
structure Line where
  /-- What has been sent and not yet read. -/
  queue : List Delivery := []
  /-- The source holds its end. -/
  writing : Bool := true
  /-- The reader holds its end. -/
  reading : Bool := true

namespace Line

/-- Sends down the line, and whether there is a reader. -/
def send (l : Line) (d : Delivery) : Line × Bool :=
  if l.reading then ({ l with queue := l.queue ++ [d] }, true) else (l, false)

/-- Reads all there is. -/
def drain (l : Line) : Line × List Delivery := ({ l with queue := [] }, l.queue)

end Line

/-! ## A source that is told what to send -/

structure ManualSource where
  /-- It holds the end of a line. -/
  running : Bool := false
  lastKnown : Option Fix := none
  /-- Times it has started. -/
  starts : Nat := 0
  /-- Times it has been told to stop. -/
  stops : Nat := 0
  /-- Refuses to start the next time. -/
  failing : Bool := false
  deriving Repr, Inhabited

namespace ManualSource

def start (s : ManualSource) : ManualSource × Except PositioningError Unit :=
  if s.failing then ({ s with failing := false }, .error (.unavailable "start refused"))
  else ({ s with running := true, starts := s.starts + 1 }, .ok ())

def stop (s : ManualSource) : ManualSource := { s with running := false, stops := s.stops + 1 }

/-- Remembers a fix that is about to be sent. -/
def know (s : ManualSource) (fix : Option Fix) : ManualSource := { s with lastKnown := fix }

end ManualSource

/-! ## A source that replays a recording -/

/-- A replay under way. -/
structure ReplayRun where
  /-- Number of the next fix. -/
  next : Nat := 0
  /-- When it is due. -/
  due : Nat
  deriving DecidableEq, Repr, Inhabited

structure ReplaySource where
  fixes : List Fix
  /-- Milliseconds between two fixes. -/
  interval : Nat
  run : Option ReplayRun := none
  /-- A recording has been sent to its end. -/
  finished : Bool := false
  deriving Repr, Inhabited

namespace ReplaySource

/-- Starts from the first fix, which is due at once. A run under way is given up. -/
def start (s : ReplaySource) (now : Nat) : ReplaySource × Except PositioningError Unit :=
  if s.fixes.isEmpty then (s, .error (.unavailable "empty recording"))
  else ({ s with run := some { due := now } }, .ok ())

def stop (s : ReplaySource) : ReplaySource := { s with run := none }

/-- The fix that is due: its time counts from the first fix of the recording, in intervals. -/
def fix? (s : ReplaySource) (r : ReplayRun) : Option Fix := do
  let first ← s.fixes.head?
  let fix ← s.fixes[r.next]?
  pure { fix with timestamp := first.timestamp + r.next * s.interval }

/-- After a fix that somebody read: the next one is due an interval later, or the recording is over.
-/
def advance (s : ReplaySource) (r : ReplayRun) : ReplaySource :=
  if r.next + 1 < s.fixes.length then
    { s with run := some { next := r.next + 1, due := r.due + s.interval } }
  else { s with run := none, finished := true }

/-- Sends the fix that is due down a line. An interval of zero never comes to an end, so nothing is
sent at all; without a reader the run is given up. -/
def send (s : ReplaySource) (r : ReplayRun) (line : Line) : ReplaySource × Line :=
  if s.interval = 0 then (s.stop, { line with writing := false })
  else match s.fix? r with
    | none => (s.stop, { line with writing := false })
    | some fix =>
      match line.send (.ok fix) with
      | (line, true) =>
        let s := s.advance r
        (s, { line with writing := s.run.isSome })
      | (line, false) => (s.stop, line)

end ReplaySource

/-! ## Either of them -/

inductive Source
  | manual (s : ManualSource)
  | replay (s : ReplaySource)
  deriving Inhabited

namespace Source

def start (s : Source) (now : Nat) : Source × Except PositioningError Unit :=
  match s with
  | .manual m =>
    let (m, r) := m.start
    (.manual m, r)
  | .replay p =>
    let (p, r) := p.start now
    (.replay p, r)

def stop : Source → Source
  | .manual m => .manual m.stop
  | .replay p => .replay p.stop

/-- The newest fix the source has before it sends any: for a recording, its first. -/
def lastKnown : Source → Option Fix
  | .manual m => m.lastKnown
  | .replay p => p.fixes.head?

end Source
end LiveTrip
