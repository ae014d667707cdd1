import StagedPipeline.Stage.Source
import StagedPipeline.Stage.Transform

/-!
# Where a task stands in its life

The place of a task tells how far the life of its stage has come, up to what the
stage keeps in its state. A task that reports a fault puts one error for it, and
that error is told from all others by the place at which it is put.
-/
namespace StagedPipeline

/-- What the place of a task leaves open. -/
inductive Life.Era where
  | waiting
  | running
  | reporting
  /-- After everything in which a stage can fail: it has failed, or is still running. -/
  | stopping
  | leaving
  | closed
deriving DecidableEq, Repr

namespace SourceStage

variable {π : Type}

@[simp] def Phase.era : Phase → Life.Era
  | .idle => .waiting
  | .reportingFault _ => .reporting
  | .closingErrors | .closingData | .finishing => .leaving
  | .finished => .closed
  | _ => .running

/-- What a section puts to report a fault. -/
def reported (s : SourceStage π) (events : List Event) : List (Error × Reports.Putting) :=
  if s.phase.era = .reporting then Event.collect Event.delivery? events else []

end SourceStage

namespace TransformStage

variable {σ : Type}

@[simp] def Phase.era : Phase → Life.Era
  | .idle => .waiting
  | .reportingFault _ => .reporting
  | .releasing | .polling | .confirming | .relaying _ | .completing => .stopping
  | .closingErrors | .closingData | .finalizing | .finishing => .leaving
  | .finished => .closed
  | _ => .running

/-- What a section puts to report a fault. -/
def reported (s : TransformStage σ) (events : List Event) : List (Error × Reports.Putting) :=
  if s.phase.era = .reporting then Event.collect Event.delivery? events else []

end TransformStage
end StagedPipeline
