import StagedPipeline.Stage.Era
import StagedPipeline.Stage.Neighbours

/-!
# The lifetime of a stage

A stage with a handler is set up between its neighbours and started, possibly more
than once and possibly after they have begun. What has been done at it is kept: how
the calls to start it have ended, and which errors its task has put for a fault.
-/
namespace StagedPipeline

/-- A stage with a handler between its neighbours, and what has been done at it. -/
structure Lifetime (σ : Type) where
  scene : Neighbours σ
  /-- How the calls to start the stage have ended: with a fault or without. -/
  starts : List (Option Fault) := []
  /-- The errors that the task has put to report a fault. -/
  faults : List (Error × Reports.Putting) := []
  /-- Whether the data channel behind was closed by anybody but the task. -/
  shut : Bool := false

namespace Lifetime

variable {σ : Type}

inductive Act where
  | start
  /-- The task goes on, or one of the neighbours does something. -/
  | next (a : Neighbours.Act)
deriving DecidableEq, Repr

/-- A stage that was given its output, and was not started yet. -/
def create (handler : Handler σ) (memory : σ) (finalizer : Option Finalizer) (capacity : UInt64)
    (interval : Int) : Except Fault (Lifetime σ) := do
  let inlet ← Conduit.create capacity interval
  let outlet ← TransformStage.outputFor inlet
  pure { scene := { stage := { handler, memory, finalization := { finalizer } }, inlet, outlet } }

def step? (t : Lifetime σ) : Act → Option (Lifetime σ)
  | .start =>
    match t.scene.stage.start with
    | .ok stage => some { t with scene := { t.scene with stage }, starts := t.starts ++ [none] }
    | .error f => some { t with starts := t.starts ++ [some f] }
  | .next a =>
    (t.scene.step? a).map fun scene =>
      { t with
        scene
        faults := t.faults ++ t.scene.stage.reported (scene.log.drop t.scene.log.length)
        shut := t.shut || decide (a = .shut) }

/-- Carries out some acts, if each of them is possible. -/
def run? : List Act → Lifetime σ → Option (Lifetime σ)
  | [], t => some t
  | a :: acts, t => (t.step? a).bind (run? acts)

end Lifetime
end StagedPipeline
