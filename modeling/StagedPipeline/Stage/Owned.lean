import StagedPipeline.Pipeline

/-!
# A stage and its owner

Whoever owns a transform stage builds its output, starts it, waits for it and
destroys it. He may do so at any moment of the task, and leave out any of it; the
parties at both ends of the stage do what they like with the conduits meanwhile,
except that no channel is opened again. The stage may have no input, no handler and
no finalizer.
-/
namespace StagedPipeline

/-- A conduit after others have used it: what was closed is closed. -/
def Conduit.Keeps (c c' : Conduit) : Prop :=
  (c.data.closed = true → c'.data.closed = true) ∧
    (c.errors.isClosed = true → c'.errors.isClosed = true)

instance (c c' : Conduit) : Decidable (c.Keeps c') := inferInstanceAs (Decidable (_ ∧ _))

/-- The sections of the destruction of a stage. -/
inductive Demolition where
  | closingOutput
  | closingInput
  | joining
  | releasing
  | complete
deriving DecidableEq, Repr

/-- A stage with its owner, and what has been done at it. -/
structure OwnedStage (σ : Type) where
  plan : Pipeline.Stage σ
  /-- The conduit in front; `none` if the stage was given no input. -/
  input : Option Conduit
  station : Station σ
  /-- Whether the task was joined. -/
  joined : Bool := false
  /-- How far the destruction of the stage has come, if it has begun. -/
  demolition : Option Demolition := none
  /-- What the stage has done, in its task or in a call of its owner. -/
  log : List Event := []

namespace OwnedStage

variable {σ : Type}

inductive Act where
  | build
  | start
  | join
  /-- The owner begins to destroy the stage. -/
  | destroy
  /-- The next section of the destruction. -/
  | demolish
  /-- The task carries out its next section. -/
  | work
  /-- The task leaves a poll whose time is over. -/
  | expire
  /-- Somebody uses the conduit in front, which is `c` then. -/
  | front (c : Conduit)
  /-- Somebody uses the output. -/
  | back (c : Conduit)
deriving DecidableEq, Repr

def create (plan : Pipeline.Stage σ) (input : Option Conduit) : OwnedStage σ where
  plan
  input
  station :=
    if plan.handler.isSome then .unconnected { finalizer := plan.finalizer }
    else .passing { finalizer := plan.finalizer }

/-- Gives the stage its output, if it has an input, a handler and no output yet. -/
def build (t : OwnedStage σ) : Except Fault (OwnedStage σ) :=
  match t.input, t.plan.handler, t.station with
  | some inp, some handler, .unconnected finalization =>
    let stage : TransformStage σ := { handler, memory := t.plan.memory, finalization }
    (TransformStage.outputFor inp).map fun out => { t with station := .working stage out }
  | _, _, _ => .ok t

/-- Launches the task of a stage that has an output. -/
def launch (t : OwnedStage σ) : Except Fault (OwnedStage σ) :=
  match t.input, t.station with
  | none, _ => .ok { t with log := t.log ++ Event.saying [TransformStage.noInputEntry] }
  | some _, .working stage out =>
    stage.start.map fun stage => { t with station := .working stage out }
  | some _, _ => .ok t

def start (t : OwnedStage σ) : Except Fault (OwnedStage σ) := t.build.bind launch

/-- Whether there is a task that was not joined. -/
def hasTask (t : OwnedStage σ) : Bool := t.station.lifecycle != .notStarted && !t.joined

def sight (t : OwnedStage σ) : Sighting :=
  match t.input with
  | none => ⟨.notStarted, .absent⟩
  | some inp => t.station.sight inp

/-- The stage after the call of its finalizer, if it was still owed. -/
def release (t : OwnedStage σ) : OwnedStage σ :=
  { t with
    station := t.station.setFinalization (t.station.finalization.run t.sight).1
    log := t.log ++ (t.station.finalization.run t.sight).2 }

/-- The next section of a destruction that has come so far. -/
def demolish? (t : OwnedStage σ) : Demolition → Option (OwnedStage σ)
  | .closingOutput =>
    let station := match t.station with
      | .working s out => .working s out.closeData
      | st => st
    some { t with station, demolition := some .closingInput }
  | .closingInput =>
    some { t with input := t.input.map Conduit.closeData, demolition := some .joining }
  | .joining =>
    if t.station.isResting then some { t with joined := true, demolition := some .releasing }
    else none
  | .releasing => some { t.release with demolition := some .complete }
  | .complete => none

/-- What the owner does is done before he begins to destroy the stage. A call that throws changes
nothing. -/
def step? (t : OwnedStage σ) : Act → Option (OwnedStage σ)
  | .build => if t.demolition.isSome then none else some (t.build.toOption.getD t)
  | .start => if t.demolition.isSome then none else some (t.start.toOption.getD t)
  | .join =>
    if t.demolition.isSome then none
    else if t.hasTask then
      if t.station.isResting then some { t with joined := true } else none
    else some t
  | .destroy =>
    if t.demolition.isSome then none
    else some { t with demolition := some (if t.hasTask then .closingOutput else .releasing) }
  | .demolish => t.demolition.bind t.demolish?
  | .work =>
    match t.input, t.station with
    | some inp, .working s out =>
      (s.advance? inp out).map fun (s, inp, out, events) =>
        { t with input := some inp, station := .working s out, log := t.log ++ events }
    | _, _ => none
  | .expire =>
    match t.input, t.station with
    | some inp, .working s out =>
      (s.expire? inp).map fun s => { t with station := .working s out }
    | _, _ => none
  | .front c =>
    t.input.bind fun inp => if inp.Keeps c then some { t with input := some c } else none
  | .back c =>
    match t.station with
    | .working s out => if out.Keeps c then some { t with station := .working s c } else none
    | _ => none

/-- Carries out some acts, if each of them is possible. -/
def run? : List Act → OwnedStage σ → Option (OwnedStage σ)
  | [], t => some t
  | a :: acts, t => (t.step? a).bind (run? acts)

end OwnedStage
end StagedPipeline
