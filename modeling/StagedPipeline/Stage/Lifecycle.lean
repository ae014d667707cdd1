import StagedPipeline.Bytes

/-!
# The life of a stage

A stage is started once, runs, completes or faults, and is closed when its
cleanup is over.
-/
namespace StagedPipeline

/-- Where a stage is in its life. -/
inductive Lifecycle where
  | notStarted
  | running
  | completed
  | faulted
  | closed
deriving DecidableEq, Repr

namespace Lifecycle

def name : Lifecycle → Bytes
  | .notStarted => bytes "NOT_STARTED"
  | .running => bytes "RUNNING"
  | .completed => bytes "COMPLETED"
  | .faulted => bytes "FAULTED"
  | .closed => bytes "CLOSED"

/-- The five states in order. -/
def all : List Lifecycle := [.notStarted, .running, .completed, .faulted, .closed]

/-- The label of the state with an 8-bit number; numbers beyond the five states are
`UNKNOWN`. -/
def nameOf (n : UInt8) : Bytes := (all[n.toNat]?.map name).getD (bytes "UNKNOWN")

end Lifecycle
end StagedPipeline
