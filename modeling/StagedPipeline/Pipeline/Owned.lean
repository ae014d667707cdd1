import StagedPipeline.Pipeline

/-!
# A pipeline and its owner

The owner of a pipeline adds stages to it, starts it and destroys it, and may leave
out any of it. A finalizer that he gives away with a stage waits in the plan. The
calls of finalizers are kept, each with the stage that it belongs to.
-/
namespace StagedPipeline

namespace System

variable {α σ : Type}

/-- What has happened since an earlier moment. -/
def since (s u : System α σ) : List Event :=
  (u.history.take (u.history.length - s.history.length)).reverse.map Prod.snd

/-- The station whose finalizer a step may call. -/
def owner? (s : System α σ) : Action → Option Nat
  | .advance (.stage i) => some i
  | .advance .application =>
    match s.application.agenda with
    | .release i :: _ => some i
    | _ => none
  | _ => none

/-- The calls of finalizers in a step, each with the station to which the finalizer belongs. -/
def callsIn (s : System α σ) (a : Action) (u : System α σ) : List (Nat × Sighting) :=
  (s.owner? a).toList.flatMap fun i => (Event.collect Event.sighting? (s.since u)).map (i, ·)

end System

/-- A pipeline with its owner. -/
structure OwnedPipeline (π σ : Type) where
  plan : Pipeline π σ
  /-- The parties, once the pipeline was started. -/
  system : Option (System (SourceStage π) σ) := none
  /-- Whether the pipeline was started to its end. -/
  complete : Bool := false
  /-- Whether the owner has begun to destroy the pipeline. -/
  destroying : Bool := false
  /-- The calls of finalizers, each with the position of the stage it belongs to. -/
  calls : List (Nat × Sighting) := []

namespace OwnedPipeline

variable {π σ : Type}

inductive Act (σ : Type) where
  | append (s : Pipeline.Stage σ)
  | start
  /-- The application decides what to do next. -/
  | decide (a : Application)
  /-- One of the parties makes a step. -/
  | step (a : System.Action)
  /-- The owner begins to destroy the pipeline. -/
  | destroy

/-- What the owner and the application decide is decided before the pipeline is being destroyed. A
call that throws changes nothing. -/
def step? (t : OwnedPipeline π σ) : Act σ → Option (OwnedPipeline π σ)
  | .append s =>
    if t.destroying then none else some { t with plan := (t.plan.append s).toOption.getD t.plan }
  | .start =>
    if t.destroying then none
    else
      match t.plan.start with
      | .error _ => some t
      | .ok (s, fault) =>
        some { t with
          plan := { t.plan with started := true }
          system := some s
          complete := fault.isNone }
  | .decide a =>
    if t.destroying then none
    else t.system.map fun s => { t with system := some { s with application := a } }
  | .step a =>
    t.system.bind fun s => (s.step? a).map fun u =>
      { t with system := some u, calls := t.calls ++ s.callsIn a u }
  | .destroy =>
    if t.destroying then none
    else
      some { t with
        destroying := true
        system := t.system.map fun s =>
          { s with application := { s.application with agenda := s.destroying t.complete } } }

/-- Carries out some acts, if each of them is possible. -/
def run? : List (Act σ) → OwnedPipeline π σ → Option (OwnedPipeline π σ)
  | [], t => some t
  | a :: acts, t => (t.step? a).bind (run? acts)

end OwnedPipeline
end StagedPipeline
