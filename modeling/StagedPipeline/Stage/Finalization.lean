import StagedPipeline.Stage.Event

/-!
# Finalizers

A stage may be given a finalizer, a function that it owes one call. The stage's
task makes the call at the end of its cleanup; a stage without a task makes it
when it is destroyed. What a finalizer throws is written down and goes no further.
-/
namespace StagedPipeline

/-- A finalizer, described by how its call goes. -/
structure Finalizer where
  /-- Whether it asks its stage for the output before anything else. -/
  looks : Bool := false
  thrown : Option Fault := none
deriving DecidableEq, Repr

/-- How a call ends in sight of the stage. What the look at the output throws comes first. -/
def Finalizer.fault? (f : Finalizer) (sight : Sighting) : Option Fault :=
  match f.looks, sight.output with
  | true, .failed fault => some fault
  | _, _ => f.thrown

/-- A finalizer, if there is one, and whether its turn has come. -/
structure Finalization where
  finalizer : Option Finalizer := none
  done : Bool := false
deriving DecidableEq, Repr

namespace Finalization

/-- The line about what a finalizer has thrown. -/
def thrownEntry (f : Fault) : Log.Entry :=
  Log.error .handler <|
    match f.what? with
    | some w => bytes "finalizer threw: " ++ w
    | none => bytes "finalizer threw a non-standard exception"

/-- Makes the call that is owed, in sight of the stage. Only the first time does
anything. -/
def run (x : Finalization) (sight : Sighting) : Finalization × List Event :=
  if x.done then (x, [])
  else
    ({ x with done := true },
      match x.finalizer with
      | none => []
      | some f => .finalized sight :: Event.saying ((f.fault? sight).map thrownEntry).toList)

/-- The number of calls of the finalizer so far. -/
def calls (x : Finalization) : Nat := if x.done && x.finalizer.isSome then 1 else 0

end Finalization
end StagedPipeline
