import StagedPipeline.Pipeline
import StagedPipeline.Pack.Item

/-!
# Reading a pipeline

The ways in which an application can read a running pipeline: drain it, or take
some packs and then close or destroy it. In the end it destroys the pipeline in any
case. An account says what it has got on the way.
-/
namespace StagedPipeline

namespace System

variable {α σ : Type} [Supplier α]

/-- What a reader shows its packs to. -/
abbrev Watch := Nat → Option Pack → Option Fault

/-- Looks into no pack. -/
def Watch.blind : Watch := fun _ _ => none

/-- Reads every pack, and passes on what that throws. -/
def Watch.reading : Watch := fun _ p => Item.fault? p

/-- Reads the packs up to the one with a number, and throws at that. -/
def Watch.failingAt (k : Nat) : Watch := fun n p =>
  if n == k then some (.runtimeError "item callback") else Item.fault? p

/-- Lets the application carry out errands under a watch. It gets the packs that it
takes on the way; the last one is not among them if the watch has thrown at it. -/
def read (watch : Watch) (es : List Application.Errand) (s : System α σ) :
    System α σ × List (Option Pack) × Option Fault :=
  let application := { s.application with onItem := watch, thrown := none }
  let t := { s with application }.carryOut es
  let packs := t.received.drop s.application.taken
  (t, if t.application.thrown.isSome then packs.dropLast else packs, t.application.thrown)

/-- Drains the errors at the end, and nothing else. -/
def collectErrors (s : System α σ) : System α σ × List Error :=
  let t := s.carryOut [.poll .collect []]
  (t, t.application.drained)

end System

/-- Drains a conduit that is closed and empty and has nothing in front of it. One
without both of its channels cannot be drained. -/
def Application.drainClosed (hasData hasErrors : Bool) : Except Fault (System Feeder Unit) :=
  if hasData && hasErrors then do
    let c ← Conduit.create Reports.defaultCapacity Reports.defaultInterval
    let s : System Feeder Unit :=
      { supplier := { plan := [] }, inlet := c.closeData.closeErrors, row := [] }
    pure (s.carryOut [.drain 0])
  else .error Application.missingChannelFault

/-- A way to read a pipeline. -/
inductive Manner where
  /-- Drains it and reads every pack. -/
  | drain
  /-- Drains it, and throws at the pack with a number. -/
  | drainFailing (k : Nat)
  /-- Drains it and looks into no pack. -/
  | drainBlind
  /-- Takes a number of packs at most, closes the data channel and drains the errors. -/
  | takeAndClose (n : Nat)
  /-- Takes a number of packs at most, and nothing more. -/
  | takeAndDestroy (n : Nat)
deriving DecidableEq, Repr

/-- What an application has to tell about a pipeline that it has read and destroyed. -/
structure Account (π σ : Type) where
  packs : List (Option Pack)
  /-- The drained errors, if it has drained them. -/
  errors : Option (List Error) := none
  /-- What has cut the reading short. -/
  thrown : Option Fault := none
  /-- The system after the end of all tasks, if the application has waited for that. -/
  joined : Option (System (SourceStage π) σ) := none
  /-- The system after the destruction of the pipeline. -/
  destroyed : System (SourceStage π) σ

namespace Account

variable {π σ : Type}

/-- The account of a reading that was cut short, or that has ended without waiting. -/
def abandoned (packs : List (Option Pack)) (thrown : Option Fault)
    (s : System (SourceStage π) σ) : Account π σ :=
  { packs, thrown, destroyed := s.carryOut (s.destroying true) }

/-- The account of a reading that was carried through, with its errors. -/
def completed (packs : List (Option Pack)) (errors : List Error)
    (s : System (SourceStage π) σ) : Account π σ :=
  let joined := s.carryOut s.joining
  { packs, errors := some errors, joined := some joined
    destroyed := joined.carryOut (joined.destroying true) }

/-- Drains a pipeline under a watch. -/
def ofDrain (watch : System.Watch) (s : System (SourceStage π) σ) : Account π σ :=
  match s.read watch [.drain 0] with
  | (t, packs, none) => completed packs t.application.drained t
  | (t, packs, some f) => abandoned packs (some f) t

/-- Reads a running pipeline. -/
def of (m : Manner) (s : System (SourceStage π) σ) : Account π σ :=
  match m with
  | .drain => ofDrain .reading s
  | .drainFailing k => ofDrain (.failingAt k) s
  | .drainBlind => ofDrain .blind s
  | .takeAndClose n =>
    match s.read .reading [.take n] with
    | (t, packs, none) =>
      let (u, errors) := (t.carryOut [.shut]).collectErrors
      completed packs errors u
    | (t, packs, some f) => abandoned packs (some f) t
  | .takeAndDestroy n =>
    match s.read .reading [.take n] with
    | (t, packs, thrown) => abandoned packs thrown t

end Account

namespace System

variable {α σ : Type}

/-- How often the finalizer of a station has been called. -/
def finalizerCalls (s : System α σ) (i : Nat) : Nat :=
  (s.row[i]?.map fun x => x.finalization.calls).getD 0

/-- What the handler of a station remembers. -/
def memory? (s : System α σ) (i : Nat) : Option σ := s.row[i]?.bind Station.memory?

end System
end StagedPipeline
