import StagedPipeline.Stage.Lifecycle
import StagedPipeline.Channel.Conduit
import StagedPipeline.Producer
import StagedPipeline.Handler

/-!
# What stages do

The events by which an observer follows the parties of a pipeline: what they
write to the log, which packs and errors pass through their hands, and when the
functions that they were given are called.
-/
namespace StagedPipeline

/-- What a stage hands out when it is asked for its output. -/
inductive Output where
  | conduit (c : Conduit)
  /-- A stage without input has no output. -/
  | absent
  /-- The output could not be made. -/
  | failed (f : Fault)
deriving DecidableEq, Repr

/-- The output of a stage that makes its output when it is asked for it. -/
def Output.ofMaking : Except Fault Conduit → Output
  | .ok c => .conduit c
  | .error f => .failed f

/-- What a finalizer can see of its stage when it runs. -/
structure Sighting where
  lifecycle : Lifecycle
  output : Output
deriving DecidableEq, Repr

/-- The sight of a stage in some state with an output. -/
def Conduit.sighting (c : Conduit) (lifecycle : Lifecycle) : Sighting := ⟨lifecycle, .conduit c⟩

/-- Something that a party does. -/
inductive Event where
  | said (e : Log.Entry)
  /-- The producer was called and has answered. -/
  | asked (answer : Production)
  /-- A pack was taken out of a data channel. -/
  | received (p : Option Pack)
  /-- The handler was called with a pack. -/
  | handled (p : Pack) (v : Handler.Verdict)
  /-- A write into a data channel has ended; `taken` if the pack has found its reader. -/
  | wrote (p : Option Pack) (taken : Bool)
  | put (e : Error) (how : Reports.Putting)
  /-- An error was taken out of an error channel. -/
  | polled (e : Error)
  | finalized (s : Sighting)
deriving DecidableEq, Repr

namespace Event

/-- The log entry of an event that is one. -/
def entry? : Event → Option Log.Entry
  | .said e => some e
  | _ => none

/-- The place of a data channel, with a pack or without, that was taken in an event. -/
def received? : Event → Option (Option Pack)
  | .received p => some p
  | _ => none

/-- What a finalizer has seen, in the event of its call. -/
def sighting? : Event → Option Sighting
  | .finalized s => some s
  | _ => none

/-- A putting of an error that can be put, and how it has ended. -/
@[simp] def delivery? : Event → Option (Error × Reports.Putting)
  | .put _ (.rejected _) => none
  | .put e how => some (e, how)
  | _ => none

/-- Whether the event is a call of a function that the stage was given. -/
def isCall : Event → Bool
  | .handled _ _ => true
  | .finalized _ => true
  | _ => false

/-- What a projection finds in a log. -/
def collect {β : Type} (f : Event → Option β) (log : List Event) : List β := log.filterMap f

/-- Log entries as events. -/
def saying (es : List Log.Entry) : List Event := es.map .said

/-- The events of a putting: the putting itself, and the line about an error that is lost. -/
def putting (e : Error) (how : Reports.Putting) : List Event :=
  .put e how :: saying (how.entries e)

end Event
end StagedPipeline
