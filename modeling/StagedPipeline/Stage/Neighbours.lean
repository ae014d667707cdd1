import StagedPipeline.Stage.Transform

/-!
# A task between neighbours who do what they like

The party in front of a transform stage writes packs, puts errors and closes the two
channels of its conduit in any order and at any moment, even while a write of its own
has not ended. The party behind takes packs, checks for errors and may close the data
channel that it reads. Nothing is assumed of them beyond that: one writer has one
write under way at a time, and the error channel behind the stage is closed by nobody
but the stage.
-/
namespace StagedPipeline

/-- A task between two conduits, and what has been done at both of them. -/
structure Neighbours (σ : Type) where
  stage : TransformStage σ
  inlet : Conduit
  outlet : Conduit
  /-- The write in front that has not ended, with its ticket. -/
  pending : Option (Option Pack × Nat) := none
  /-- What the task has done. -/
  log : List Event := []
  /-- What the party in front has done. -/
  upstream : List Event := []
  /-- What the party behind has done. -/
  downstream : List Event := []

namespace Neighbours

variable {σ : Type}

/-- What can happen next. -/
inductive Act where
  /-- The task carries out its next section. -/
  | work
  /-- The task leaves a poll whose time is over. -/
  | expire
  /-- The party in front offers a place to be written. -/
  | offer (p : Option Pack)
  /-- Its write ends. -/
  | settle
  | put (e : Error)
  | closeErrors
  | closeData
  /-- The party behind takes a pack, or finds the end. -/
  | take
  /-- It takes an error, or finds that there are no more. -/
  | check
  /-- It closes the data channel. -/
  | shut
deriving DecidableEq, Repr

/-- A task that was just launched, behind a fresh conduit. What the party in front does before a
launch is as if it were done before the first section of the task. -/
def start (handler : Handler σ) (memory : σ) (finalizer : Option Finalizer) (capacity : UInt64)
    (interval : Int) : Except Fault (Neighbours σ) := do
  let inlet ← Conduit.create capacity interval
  let outlet ← TransformStage.outputFor inlet
  let stage : TransformStage σ := { handler, memory, finalization := { finalizer } }
  pure { stage := stage.launch, inlet, outlet }

def step? (t : Neighbours σ) : Act → Option (Neighbours σ)
  | .work =>
    (t.stage.advance? t.inlet t.outlet).map fun (stage, inlet, outlet, events) =>
      { t with stage, inlet, outlet, log := t.log ++ events }
  | .expire => (t.stage.expire? t.inlet).map fun stage => { t with stage }
  | .offer p =>
    if t.pending.isSome then none
    else
      (t.inlet.data.offer? p).map fun (r, data) =>
        let t := { t with inlet := { t.inlet with data } }
        match r with
        | .refused => { t with upstream := t.upstream ++ [.wrote p false] }
        | .placed ticket => { t with pending := some (p, ticket) }
  | .settle =>
    t.pending.bind fun (p, ticket) =>
      (t.inlet.data.settle? ticket).map fun (taken, data) =>
        { t with
          inlet := { t.inlet with data }
          pending := none
          upstream := t.upstream ++ [.wrote p taken] }
  | .put e =>
    (t.inlet.errors.put? e).map fun (how, errors) =>
      { t with inlet := { t.inlet with errors }, upstream := t.upstream ++ Event.putting e how }
  | .closeErrors => some { t with inlet := t.inlet.closeErrors }
  | .closeData => some { t with inlet := t.inlet.closeData }
  | .take =>
    t.outlet.data.take?.map fun (item, data) =>
      { t with
        outlet := { t.outlet with data }
        downstream := t.downstream ++ (item.map Event.received).toList }
  | .check =>
    t.outlet.errors.receive?.map fun (e, errors) =>
      { t with
        outlet := { t.outlet with errors }
        downstream := t.downstream ++ (e.map Event.polled).toList }
  | .shut => some { t with outlet := t.outlet.closeData }

/-- Carries out some acts, if each of them is possible. -/
def run? : List Act → Neighbours σ → Option (Neighbours σ)
  | [], t => some t
  | a :: acts, t => (t.step? a).bind (run? acts)

end Neighbours
end StagedPipeline
