import StagedPipeline.Stage.Finalization
import StagedPipeline.Thread

/-!
# Transform stages

A transform stage takes packs from an input, gives each one to its handler and
writes on those in which the handler has left a body. The errors of the input are
passed on after the packs: the stage first puts its own error, if it has one, then
closes the data channel of the input, so that the writer there is set free, and
then relays until the error channel of the input is closed and empty.

The task moves in atomic sections. `advance?` is the next section, or `none` if
the task waits in it, or has not been started, or is over. A poll of the
errors of the input can also end because its time is over, which is `expire?`.
-/
namespace StagedPipeline

namespace TransformStage

/-- Where the task stands. -/
inductive Phase where
  | idle
  | starting
  /-- About to take a pack from the input. -/
  | reading
  /-- About to give a body and its context to the handler. -/
  | handling (body : ByteStream) (context : Context)
  /-- About to offer a pack to the reader. -/
  | offering (pack : Pack)
  /-- Waiting for an offered pack to be taken. -/
  | awaiting (pack : Pack) (ticket : Nat)
  /-- About to put the handler's error. -/
  | reporting (e : Error)
  /-- About to close the data channel of the input because of a fault. -/
  | abandoning (what : Bytes)
  | faulting (what : Bytes)
  /-- About to put the error that stands for a fault. -/
  | reportingFault (what : Bytes)
  /-- About to close the data channel of the input. -/
  | releasing
  /-- In the first section of a poll of the errors of the input. -/
  | polling
  /-- Before the second section of a poll that has brought nothing. -/
  | confirming
  /-- About to put an error of the input. -/
  | relaying (e : Error)
  | completing
  | closingErrors
  | closingData
  | finalizing
  | finishing
  | finished
deriving DecidableEq, Repr

end TransformStage

/-- A transform stage with a handler. -/
structure TransformStage (σ : Type) where
  handler : Handler σ
  memory : σ
  finalization : Finalization := {}
  phase : TransformStage.Phase := .idle
  lifecycle : Lifecycle := .notStarted
  faulted : Bool := false
  /-- The number of calls of the handler that have returned. -/
  handled : Nat := 0

namespace TransformStage

variable {σ : Type}

/-- The name of the task's thread. -/
def threadName : Bytes := bytes "sluice-xform"

def restartFault : Fault := .logicError "SafeTransformStage::start(): already started"

/-- How many more errors the output of a stage has room for than its input: one of
its own, and one for a fault. -/
def extraCapacity : UInt64 := 2

/-- A fresh output for an input. -/
def outputFor (inp : Conduit) : Except Fault Conduit :=
  Conduit.create (inp.errors.capacity + extraCapacity) inp.errors.interval

/-- The error that stands for a fault. -/
def faultError (what : Bytes) : Error :=
  .of .handlerFault (bytes "SafeTransformStage faulted: " ++ what)

def noInputEntry : Log.Entry :=
  Log.warn .handler (bytes "transform stage has no upstream, nothing to start")

def skippedEntry : Log.Entry := Log.trace .handler (bytes "skipping empty pack")

def failedEntry (e : Error) : Log.Entry := Log.debug .handler (bytes "handler failed: " ++ e.format)

def stoppedEntry : Log.Entry := Log.debug .handler (bytes "output closed by reader, stopping")

def faultedEntry (what : Bytes) : Log.Entry :=
  Log.error .handler (bytes "transform stage faulted: " ++ what)

def closedEntry (handled : Nat) : Log.Entry :=
  Log.debug .handler (bytes "transform stage closed after " ++ .ofNat handled ++ bytes " pack(s)")

/-- Starts the task. -/
def launch (s : TransformStage σ) : TransformStage σ :=
  { s with phase := .starting, lifecycle := .running }

/-- Launches the task, which can be done once. -/
def start (s : TransformStage σ) : Except Fault (TransformStage σ) :=
  if s.lifecycle = .notStarted then .ok s.launch else .error restartFault

/-- The state that a completed stage is in: a fault is not forgotten. -/
def completed (s : TransformStage σ) : Lifecycle := if s.faulted then s.lifecycle else .completed

/-- Gives the body of a pack to the handler. -/
def handle (s : TransformStage σ) (body : ByteStream) (context : Context) :
    TransformStage σ × List Event :=
  let c := s.handler s.memory context body
  let s := { s with memory := c.memory }
  let events := .handled ⟨some body, context⟩ c.verdict :: Event.saying c.entries
  match c.verdict with
  | .fault f => ({ s with phase := .abandoning f.describe }, events)
  | .failure e =>
    ({ s with phase := .reporting e, handled := s.handled + 1 },
      events ++ Event.saying [failedEntry e])
  | .success =>
    ({ s with
        phase := if c.body.isSome then .offering ⟨c.body, c.context⟩ else .reading
        handled := s.handled + 1 }, events)

/-- The next section of the task, between an input and an output. -/
def advance? (s : TransformStage σ) (inp out : Conduit) :
    Option (TransformStage σ × Conduit × Conduit × List Event) :=
  match s.phase with
  | .idle => none
  | .starting =>
    some ({ s with phase := .reading }, inp, out, Event.saying [Thread.startedEntry threadName])
  | .reading =>
    inp.data.take?.map fun (item, data) =>
      let inp := { inp with data }
      match item with
      | none => ({ s with phase := .releasing }, inp, out, [])
      | some (some ⟨some body, context⟩) =>
        ({ s with phase := .handling body context }, inp, out,
          [.received (some ⟨some body, context⟩)])
      | some p => (s, inp, out, .received p :: Event.saying [skippedEntry])
  | .handling body context =>
    let (s, events) := s.handle body context
    some (s, inp, out, events)
  | .offering pack =>
    (out.data.offer? (some pack)).map fun (r, data) =>
      let out := { out with data }
      match r with
      | .refused =>
        ({ s with phase := .releasing }, inp, out, .wrote pack false :: Event.saying [stoppedEntry])
      | .placed ticket => ({ s with phase := .awaiting pack ticket }, inp, out, [])
  | .awaiting pack ticket =>
    (out.data.settle? ticket).map fun (taken, data) =>
      let out := { out with data }
      if taken then ({ s with phase := .reading }, inp, out, [.wrote pack true])
      else
        ({ s with phase := .releasing }, inp, out, .wrote pack false :: Event.saying [stoppedEntry])
  | .reporting e =>
    (out.errors.put? e).map fun (how, errors) =>
      let phase := match how with
        | .rejected f => .abandoning f.describe
        | _ => .releasing
      ({ s with phase }, inp, { out with errors }, Event.putting e how)
  | .abandoning what => some ({ s with phase := .faulting what }, inp.closeData, out, [])
  | .faulting what =>
    some ({ s with phase := .reportingFault what, lifecycle := .faulted, faulted := true },
      inp, out, Event.saying [faultedEntry what])
  | .reportingFault what =>
    (out.errors.put? (faultError what)).map fun (how, errors) =>
      ({ s with phase := .releasing }, inp, { out with errors },
        Event.putting (faultError what) how)
  | .releasing => some ({ s with phase := .polling }, inp.closeData, out, [])
  | .polling =>
    inp.errors.receive?.map fun (e, errors) =>
      let inp := { inp with errors }
      match e with
      | some e => ({ s with phase := .relaying e }, inp, out, [.polled e])
      | none => ({ s with phase := .confirming }, inp, out, [])
  | .confirming =>
    some ({ s with phase := if inp.errors.isDrained then .completing else .polling }, inp, out, [])
  | .relaying e =>
    (out.errors.forward? e).map fun (how, errors) =>
      ({ s with phase := .polling }, inp, { out with errors }, Event.putting e how)
  | .completing =>
    some ({ s with phase := .closingErrors, lifecycle := s.completed }, inp, out, [])
  | .closingErrors => some ({ s with phase := .closingData }, inp, out.closeErrors, [])
  | .closingData => some ({ s with phase := .finalizing }, inp, out.closeData, [])
  | .finalizing =>
    let (finalization, events) := s.finalization.run (out.sighting s.lifecycle)
    some ({ s with phase := .finishing, finalization }, inp, out, events)
  | .finishing =>
    some ({ s with phase := .finished, lifecycle := .closed }, inp, out,
      Event.saying [closedEntry s.handled, Thread.exitingEntry threadName])
  | .finished => none

/-- The end of a poll whose time is over. -/
def expire? (s : TransformStage σ) (inp : Conduit) : Option (TransformStage σ) :=
  match s.phase with
  | .polling => if inp.errors.canExpire then some { s with phase := .confirming } else none
  | _ => none

end TransformStage
end StagedPipeline
