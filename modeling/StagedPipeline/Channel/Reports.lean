import StagedPipeline.Channel.Fifo
import StagedPipeline.Fault
import StagedPipeline.Log.Entry

/-!
# Error channels

An error channel is a bounded buffered channel for errors. The null error never
enters it. Its reader polls: a poll is a receive that waits for at most one poll
interval, and, if that brought nothing, a question whether the channel is closed
and empty. These are two atomic sections, and anything may happen between them. As in
the channel underneath, a wait is its condition, and no notification is modelled; that
the time of a poll is over is something that can happen while the poll waits.
-/
namespace StagedPipeline

/-- A channel for errors. -/
structure Reports where
  queue : Fifo Error
  /-- In milliseconds. -/
  interval : Int
deriving DecidableEq, Repr

namespace Reports

def defaultCapacity : UInt64 := 4

/-- In milliseconds. -/
def defaultInterval : Int := 10

/-- An empty channel. Its capacity has to be one at least; an interval that is not
positive stands for the default. -/
def create (capacity : UInt64) (interval : Int) : Except Fault Reports :=
  if capacity == 0 then .error (.invalidArgument "ErrorChannel: capacity must be at least 1")
  else
    .ok { queue := { capacity }, interval := if 0 < interval then interval else defaultInterval }

/-- How putting an error ends. -/
inductive Putting where
  | accepted
  /-- The channel is closed, and the error is lost. -/
  | dropped
  /-- The null error cannot be put. -/
  | rejected (f : Fault)
deriving DecidableEq, Repr

def nullFault : Fault := .invalidArgument "ErrorChannel::put(): null error"

/-- The line about an error that is lost. -/
def droppedEntry (e : Error) : Log.Entry :=
  Log.warn .channel (bytes "error dropped, channel closed: " ++ e.format)

/-- Puts an error that is known not to be null. It waits while the channel is full. -/
def forward? (e : Error) (r : Reports) : Option (Putting × Reports) :=
  (r.queue.send? e).map fun (entered, queue) =>
    (if entered then .accepted else .dropped, { r with queue })

/-- Puts an error. It waits while the channel is full. -/
def put? (e : Error) (r : Reports) : Option (Putting × Reports) :=
  if e.isNull then some (.rejected nullFault, r) else r.forward? e

/-- What the putting of an error leaves to say. -/
def Putting.entries (e : Error) : Putting → List Log.Entry
  | .dropped => [droppedEntry e]
  | _ => []

/-- The first section of a poll: an error, or nothing because the channel is closed
and empty. It waits for one of the two. -/
def receive? (r : Reports) : Option (Option Error × Reports) :=
  r.queue.receive?.map fun (e, queue) => (e, { r with queue })

/-- Whether the first section of a poll can end because its time is over. -/
def canExpire (r : Reports) : Bool := r.queue.canExpire

/-- The second section of a poll. -/
def isDrained (r : Reports) : Bool := r.queue.isDrained

def close (r : Reports) : Reports := { r with queue := r.queue.close }

def isClosed (r : Reports) : Bool := r.queue.closed

def size (r : Reports) : Nat := r.queue.size

def capacity (r : Reports) : UInt64 := r.queue.capacity

end Reports
end StagedPipeline
