import StagedPipeline.Stage.Event
import StagedPipeline.Thread

/-!
# Source stages

A source stage runs a producer as a task of its own and writes the packs into its
output conduit, until the producer has no more, fails or throws, or the reader
has closed the data channel. Whatever ends it, it then closes the error channel
and after it the data channel, so that a reader who sees the end of the data
finds all errors already there.

The task moves in atomic sections. `advance?` is the next section, or `none` if
the task waits in it, or has not been started, or is over.
-/
namespace StagedPipeline

namespace SourceStage

/-- Where the task stands. -/
inductive Phase where
  | idle
  | starting
  /-- About to call the producer. -/
  | asking
  /-- About to offer a pack; `more` is what the producer said with it. -/
  | offering (pack : Pack) (more : Bool)
  /-- Waiting for an offered pack to be taken. -/
  | awaiting (pack : Pack) (ticket : Nat) (more : Bool)
  /-- About to put the producer's error. -/
  | reporting (e : Error)
  | faulting (what : Bytes)
  /-- About to put the error that stands for a fault. -/
  | reportingFault (what : Bytes)
  | completing
  | closingErrors
  | closingData
  | finishing
  | finished
deriving DecidableEq, Repr

end SourceStage

/-- A source stage. -/
structure SourceStage (π : Type) where
  producer : Producer π
  state : π
  phase : SourceStage.Phase := .idle
  lifecycle : Lifecycle := .notStarted
  faulted : Bool := false
  /-- The number of packs that the reader has taken, as far as the task has noticed. -/
  delivered : Nat := 0

namespace SourceStage

variable {π : Type}

/-- The name of the task's thread. -/
def threadName : Bytes := bytes "sluice-produce"

def nullProducerFault : Fault := .invalidArgument "SafeProducerStage: null producer"

def zeroCapacityFault : Fault :=
  .invalidArgument "SafeProducerStage: error capacity must be at least 1"

def restartFault : Fault := .logicError "SafeProducerStage::start(): already started"

/-- A stage around a producer. It needs one, and room for an error. -/
def create (producer : Option (Producer π × π)) (capacity : UInt64) :
    Except Fault (SourceStage π) :=
  match producer with
  | none => .error nullProducerFault
  | some (producer, state) =>
    if capacity == 0 then .error zeroCapacityFault else .ok { producer, state }

/-- The error that stands for a fault. -/
def faultError (what : Bytes) : Error :=
  .of .producerFault (bytes "SafeProducerStage faulted: " ++ what)

def stoppedEntry : Log.Entry :=
  Log.debug .producer (bytes "data channel closed by reader, stopping")

def failedEntry (e : Error) : Log.Entry :=
  Log.debug .producer (bytes "producer failed: " ++ e.format)

def faultedEntry (what : Bytes) : Log.Entry :=
  Log.error .producer (bytes "producer stage faulted: " ++ what)

def closedEntry (delivered : Nat) : Log.Entry :=
  Log.debug .producer (bytes "producer stage closed after " ++ .ofNat delivered ++ bytes " pack(s)")

/-- Starts the task. -/
def launch (s : SourceStage π) : SourceStage π :=
  { s with phase := .starting, lifecycle := .running }

/-- Launches the task, which can be done once. -/
def start (s : SourceStage π) : Except Fault (SourceStage π) :=
  if s.lifecycle = .notStarted then .ok s.launch else .error restartFault

/-- Where the task goes on after a pack. -/
def afterPack (more : Bool) : Phase := if more then .asking else .completing

/-- The next section of the task. -/
def advance? (s : SourceStage π) (out : Conduit) : Option (SourceStage π × Conduit × List Event) :=
  match s.phase with
  | .idle => none
  | .starting =>
    some ({ s with phase := .asking }, out, Event.saying [Thread.startedEntry threadName])
  | .asking =>
    let c := s.producer s.state
    let s := { s with state := c.state }
    let events := .asked c.production :: Event.saying c.entries
    match c.production with
    | .failed e =>
      some ({ s with phase := .reporting e }, out, events ++ Event.saying [failedEntry e])
    | .threw f => some ({ s with phase := .faulting f.describe }, out, events)
    | .yielded none more => some ({ s with phase := afterPack more }, out, events)
    | .yielded (some p) more => some ({ s with phase := .offering p more }, out, events)
  | .offering p more =>
    (out.data.offer? (some p)).map fun (r, data) =>
      let out := { out with data }
      match r with
      | .refused =>
        ({ s with phase := .completing }, out, .wrote p false :: Event.saying [stoppedEntry])
      | .placed ticket => ({ s with phase := .awaiting p ticket more }, out, [])
  | .awaiting p ticket more =>
    (out.data.settle? ticket).map fun (taken, data) =>
      let out := { out with data }
      if taken then
        ({ s with phase := afterPack more, delivered := s.delivered + 1 }, out, [.wrote p true])
      else ({ s with phase := .completing }, out, .wrote p false :: Event.saying [stoppedEntry])
  | .reporting e =>
    (out.errors.put? e).map fun (how, errors) =>
      let phase := match how with
        | .rejected f => .faulting f.describe
        | _ => .completing
      ({ s with phase }, { out with errors }, Event.putting e how)
  | .faulting what =>
    some ({ s with phase := .reportingFault what, lifecycle := .faulted, faulted := true }, out,
      Event.saying [faultedEntry what])
  | .reportingFault what =>
    (out.errors.put? (faultError what)).map fun (how, errors) =>
      ({ s with phase := .closingErrors }, { out with errors }, Event.putting (faultError what) how)
  | .completing => some ({ s with phase := .closingErrors, lifecycle := .completed }, out, [])
  | .closingErrors => some ({ s with phase := .closingData }, out.closeErrors, [])
  | .closingData => some ({ s with phase := .finishing }, out.closeData, [])
  | .finishing =>
    some ({ s with phase := .finished, lifecycle := .closed }, out,
      Event.saying [closedEntry s.delivered, Thread.exitingEntry threadName])
  | .finished => none

end SourceStage
end StagedPipeline
