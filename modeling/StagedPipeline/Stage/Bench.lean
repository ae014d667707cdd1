import StagedPipeline.Pipeline

/-!
# Transform stages on the bench

A single transform stage between a feeder and a reader, which is played by the
application. Each move of the bench lets all parties go on until they wait.
-/
namespace StagedPipeline

/-- A transform stage on the bench. -/
structure Bench (σ : Type) where
  stage : Pipeline.Stage σ
  /-- The feeder, the stage and the reader; `none` if the stage was given no input. -/
  system : Option (System Feeder σ)
  /-- The finalizer of a stage without input. -/
  finalization : Finalization
  /-- What was said, and done, outside of the system. -/
  aside : List Event := []
  /-- Whether the task was joined. -/
  joined : Bool := false
  /-- Whether the feeder was launched and not waited for since. -/
  feeding : Bool := false
  destroyed : Bool := false
  /-- Whether the output was handed out before. -/
  handedOut : Bool := false

namespace Bench

variable {σ : Type}

/-- Puts a stage on the bench, behind a feeder's conduit if there is one. -/
def create (stage : Pipeline.Stage σ) (input : Option (Feeder × Conduit)) : Bench σ :=
  let finalization : Finalization := { finalizer := stage.finalizer }
  { stage, finalization
    system := input.map fun (feeder, inlet) =>
      { supplier := feeder, inlet
        row := [
          if stage.handler.isSome then .unconnected finalization else .passing finalization] } }

/-- Changes the system, if there is one. -/
def modify (b : Bench σ) (f : System Feeder σ → System Feeder σ) : Bench σ :=
  { b with system := b.system.map f }

/-- Gives the stage its output, if it has a handler and no output yet. -/
def build (b : Bench σ) : Except Fault (Bench σ) :=
  match b.system, b.stage.handler with
  | some s, some handler =>
    match s.row with
    | [.unconnected finalization] => do
      let out ← TransformStage.outputFor s.inlet
      let stage : TransformStage σ := { handler, memory := b.stage.memory, finalization }
      pure { b with system := some { s with row := [.working stage out] } }
    | _ => .ok b
  | _, _ => .ok b

/-- The transform stage once it has an output. -/
def stage? (b : Bench σ) : Option (TransformStage σ) :=
  match b.system with
  | some { row := [.working stage _], .. } => some stage
  | _ => none

def lifecycle (b : Bench σ) : Lifecycle := (b.stage?.map (·.lifecycle)).getD .notStarted

def faulted (b : Bench σ) : Bool := (b.stage?.map (·.faulted)).getD false

/-- The number of packs that the stage has counted as handled. -/
def handled (b : Bench σ) : Nat := (b.stage?.map (·.handled)).getD 0

/-- What the handler remembers. -/
def memory (b : Bench σ) : σ := (b.stage?.map (·.memory)).getD b.stage.memory

/-- Builds the output and launches the task of a stage that has a handler. -/
def start (b : Bench σ) : Except Fault (Bench σ) := do
  let b ← b.build
  match b.system with
  | none => pure { b with aside := b.aside ++ Event.saying [TransformStage.noInputEntry] }
  | some s =>
    match s.row with
    | [.working stage out] => do
      let stage ← stage.start
      pure { b with system := some { s with row := [.working stage out] }.rest }
    | _ => pure b

/-- Whether there is a task that was not joined. -/
def hasTask (b : Bench σ) : Bool := b.lifecycle != .notStarted && !b.joined

/-- Lets the application carry out errands. -/
def carryOut (b : Bench σ) (es : List Application.Errand) : Bench σ :=
  b.modify fun s => s.carryOut es

/-- The conduit that the stage hands out; the second part is whether it has done so
before. -/
def handOut (b : Bench σ) : Option (Conduit × Bool) × Bench σ :=
  match b.system with
  | none => (none, b)
  | some s => (some (s.terminal, b.handedOut), { b with handedOut := true })

/-- Starts the feeder. -/
def feed (b : Bench σ) : Bench σ :=
  { b.modify fun s => { s with supplier := s.supplier.launch }.rest with feeding := true }

/-- Waits for the feeder. -/
def joinFeeder (b : Bench σ) : Bench σ :=
  { b.carryOut [.join .supplier] with feeding := false }

/-- How the writes of the feeder have ended: `true` if the channel was found closed. -/
def feederResults (b : Bench σ) : List Bool := (b.system.map fun s => s.supplier.results).getD []

/-- Waits for the task of the stage. -/
def join (b : Bench σ) : Bench σ :=
  if b.hasTask then { b.carryOut [.join (.stage 0)] with joined := true } else b

/-- Destroys the stage. A task that was not joined is set free first. -/
def destroy (b : Bench σ) : Bench σ :=
  if b.destroyed then b
  else
    let b := { b with destroyed := true }
    match b.system with
    | none =>
      let (finalization, events) := b.finalization.run ⟨.notStarted, .absent⟩
      { b with finalization, aside := b.aside ++ events }
    | some _ =>
      if b.hasTask then
        { b.carryOut [.shut, .shutInput 0, .join (.stage 0), .release 0] with joined := true }
      else b.carryOut [.release 0]

/-- Clears the bench: a feeder that runs is set free and waited for, and the stage is
destroyed. -/
def clear (b : Bench σ) : Bench σ :=
  let b := if b.feeding then (b.carryOut [.shutInput 0]).joinFeeder else b
  b.destroy

/-- The party under whose name a party works: a feeder's is that of the application,
which launches it. -/
def nameOf : Party → Party
  | .supplier => .application
  | p => p

/-- What was done under the name of a party, in order. -/
def eventsUnder (b : Bench σ) (p : Party) : List Event :=
  (if p = .application then b.aside else [])
    ++ (b.system.map fun s =>
      (s.history.reverse.filter fun e => nameOf e.1 == p).map Prod.snd).getD []

/-- What the finalizer has seen in its calls: those by the task, and those by the
application. -/
def sightings (b : Bench σ) : List Sighting :=
  (b.eventsUnder (.stage 0) ++ b.eventsUnder .application).filterMap Event.sighting?

end Bench
end StagedPipeline
