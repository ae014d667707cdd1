import StagedPipeline.Pipeline
import StagedPipeline.Log.Transcript

/-!
# Narration

What the parties of a system say goes to a log under their names. The tasks of all
transform stages share one thread name; a transcript tells them apart by their
position, once a task has called a function that its stage was given.
-/
namespace StagedPipeline

namespace Party

/-- The name of the thread of the application. -/
def mainName : Bytes := bytes "main"

/-- The name of the thread of a party. -/
def threadName : Party → Bytes
  | .application => mainName
  | .supplier => SourceStage.threadName
  | .stage _ => TransformStage.threadName

/-- The label of a party that has done some things. -/
def label (events : List Event) : Party → Bytes
  | .stage i =>
    if events.any Event.isCall then bytes "stage" ++ .ofNat i else TransformStage.threadName
  | p => p.threadName

end Party

namespace Log.Observed

/-- A party says what it has to say about the things that it has done. -/
def hear (o : Observed) (p : Party) (events : List Event) : Observed :=
  o.sayAll (p.label events) p.threadName (events.filterMap Event.entry?)

/-- All parties of a system say what they have to say, one after the other. -/
def hearAll {α σ : Type} (o : Observed) (s : System α σ) : Observed :=
  (.application :: .supplier :: (List.range s.row.length).map Party.stage).foldl
    (fun o p => o.hear p (s.eventsOf p)) o

end Log.Observed
end StagedPipeline
