import StagedPipeline.Stage.Era

/-!
# A source and whoever reads from it

A source stage is started, possibly more than once, and works between its producer
and a conduit. Behind the conduit packs and errors are taken at any moment, and
anybody may close either of its channels at any moment, even while a write has not
ended or the producer is being asked.
-/
namespace StagedPipeline

/-- A source stage with its conduit, and what has been done at it. -/
structure Delivery (π : Type) where
  stage : SourceStage π
  outlet : Conduit
  /-- What the task has done. -/
  log : List Event := []
  /-- What has been taken behind. -/
  downstream : List Event := []
  /-- How the calls to start the stage have ended: with a fault or without. -/
  starts : List (Option Fault) := []
  /-- The errors that the task has put to report a fault. -/
  faults : List (Error × Reports.Putting) := []
  /-- Whether the data channel was closed by anybody but the task. -/
  shut : Bool := false
  /-- Whether the error channel was closed by anybody but the task. -/
  errorsShut : Bool := false

namespace Delivery

variable {π : Type}

inductive Act where
  | start
  /-- The task carries out its next section. -/
  | work
  /-- A pack is taken, or the end of the data is found. -/
  | take
  /-- An error is taken, or the end of the errors is found. -/
  | check
  | closeData
  | closeErrors
deriving DecidableEq, Repr

/-- A stage that was not started yet. -/
def create (producer : Option (Producer π × π)) (capacity : UInt64) (interval : Int) :
    Except Fault (Delivery π) := do
  let stage ← SourceStage.create producer capacity
  let outlet ← Conduit.create capacity interval
  pure { stage, outlet }

def step? (t : Delivery π) : Act → Option (Delivery π)
  | .start =>
    match t.stage.start with
    | .ok stage => some { t with stage, starts := t.starts ++ [none] }
    | .error f => some { t with starts := t.starts ++ [some f] }
  | .work =>
    (t.stage.advance? t.outlet).map fun (stage, outlet, events) =>
      { t with
        stage, outlet
        log := t.log ++ events
        faults := t.faults ++ t.stage.reported events }
  | .take =>
    t.outlet.data.take?.map fun (item, data) =>
      { t with
        outlet := { t.outlet with data }
        downstream := t.downstream ++ (item.map Event.received).toList }
  | .check =>
    t.outlet.errors.receive?.map fun (e, errors) =>
      { t with
        outlet := { t.outlet with errors }
        downstream := t.downstream ++ (e.map Event.polled).toList }
  | .closeData => some { t with outlet := t.outlet.closeData, shut := true }
  | .closeErrors => some { t with outlet := t.outlet.closeErrors, errorsShut := true }

/-- Carries out some acts, if each of them is possible. -/
def run? : List Act → Delivery π → Option (Delivery π)
  | [], t => some t
  | a :: acts, t => (t.step? a).bind (run? acts)

end Delivery
end StagedPipeline
