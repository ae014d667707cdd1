import StagedPipeline.Pipeline.Reading

/-!
# A source stage alone

A source stage with its reader, and nothing between them: the smallest system in
which a stage can run.
-/
namespace StagedPipeline

/-- A source stage and its reader. -/
structure Solo (π : Type) where
  system : System (SourceStage π) Unit
  destroyed : Bool := false

namespace Solo

variable {π : Type}

/-- A stage around a producer. -/
def create (producer : Option (Producer π × π)) (capacity : UInt64) (interval : Int) :
    Except Fault (Solo π) := do
  let supplier ← SourceStage.create producer capacity
  let inlet ← Conduit.create capacity interval
  pure { system := { supplier, inlet, row := [] } }

def stage (x : Solo π) : SourceStage π := x.system.supplier

/-- Launches the task, and lets it go on until it waits. -/
def start (x : Solo π) : Except Fault (Solo π) :=
  x.stage.start.map fun supplier => { x with system := { x.system with supplier }.rest }

/-- Destroys the stage. A task is set free first, and waited for. -/
def destroy (x : Solo π) : Solo π :=
  if x.destroyed then x
  else if x.stage.lifecycle = .notStarted then { x with destroyed := true }
  else { system := x.system.carryOut [.shut, .join .supplier], destroyed := true }

end Solo
end StagedPipeline
