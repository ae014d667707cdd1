import StagedPipeline.Pipeline.System

/-!
# Pipelines

A pipeline is planned as a producer and a row of stages, each with a handler and
a finalizer or without them, and is then started once. Starting it connects the
stages by conduits and launches the tasks. The error channel behind each handling
stage has room for two more errors than the one in front of it.
-/
namespace StagedPipeline

namespace Pipeline

/-- A stage as it is planned. -/
structure Stage (σ : Type) where
  handler : Option (Handler σ)
  memory : σ
  finalizer : Option Finalizer := none

end Pipeline

/-- A planned pipeline. -/
structure Pipeline (π σ : Type) where
  source : SourceStage π
  capacity : UInt64 := Reports.defaultCapacity
  interval : Int := Reports.defaultInterval
  stages : List (Pipeline.Stage σ) := []
  started : Bool := false

namespace Pipeline

variable {π σ : Type}

def lateStageFault : Fault := .logicError "Pipeline::then(): pipeline already started"

def restartFault : Fault := .logicError "Pipeline::start(): already started"

def startedEntry (stages : Nat) : Log.Entry :=
  Log.debug .pipeline (bytes "pipeline started with " ++ .ofNat stages ++ bytes " stage(s)")

/-- A pipeline without stages. It needs a producer and a capacity. -/
def create (producer : Option (Producer π × π)) (capacity : UInt64) (interval : Int) :
    Except Fault (Pipeline π σ) :=
  (SourceStage.create producer capacity).map fun source => { source, capacity, interval }

/-- Adds a stage at the end. -/
def append (p : Pipeline π σ) (s : Stage σ) : Except Fault (Pipeline π σ) :=
  if p.started then .error lateStageFault else .ok { p with stages := p.stages ++ [s] }

/-- The number of stages, the source included. -/
def size (p : Pipeline π σ) : Nat := 1 + p.stages.length

/-- Sets up a row of stages behind a conduit and launches them. If an error channel
cannot be made, the row ends with the stage that it was for. -/
def connect (c : Conduit) : List (Stage σ) → List (Station σ) × Option Fault
  | [] => ([], none)
  | s :: stages =>
    let finalization : Finalization := { finalizer := s.finalizer }
    match s.handler with
    | none =>
      let (row, fault) := connect c stages
      (.passing finalization :: row, fault)
    | some handler =>
      match TransformStage.outputFor c with
      | .error f => ([.unconnected finalization], some f)
      | .ok out =>
        let stage : TransformStage σ := { handler, memory := s.memory, finalization }
        let (row, fault) := connect out stages
        (.working stage.launch out :: row, fault)

/-- Starts the pipeline: the system of its parties, and the fault that has kept the
row from being completed, if there was one. -/
def start (p : Pipeline π σ) : Except Fault (System (SourceStage π) σ × Option Fault) := do
  if p.started then .error restartFault
  let inlet ← Conduit.create p.capacity p.interval
  let (row, fault) := connect inlet p.stages
  let system : System (SourceStage π) σ := { supplier := p.source.launch, inlet, row }
  match fault with
  | some f => pure (system, some f)
  | none => pure (system.record .application (Event.saying [startedEntry p.size]), none)

end Pipeline

namespace System

variable {π σ : Type}

/-- Waiting for every task, the source first. -/
def joining (s : System (SourceStage π) σ) : List Application.Errand :=
  .join .supplier :: (List.range s.row.length).map fun i => .join (.stage i)

/-- Destroying every station, in order. -/
def releasing (s : System (SourceStage π) σ) : List Application.Errand :=
  (List.range s.row.length).map .release

/-- Destroying the pipeline. A complete one is abandoned first: its terminal data
channel is closed, and what is left of its errors is drained. -/
def destroying (s : System (SourceStage π) σ) (complete : Bool) : List Application.Errand :=
  (if complete then [.shut, .poll .discard []] else []) ++ s.joining ++ s.releasing

/-- Whether any stage has reported a fault. -/
def faulted (s : System (SourceStage π) σ) : Bool := s.supplier.faulted || s.row.any Station.faulted

end System
end StagedPipeline
