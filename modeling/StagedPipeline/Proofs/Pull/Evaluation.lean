import StagedPipeline.Pipeline

/-!
# Evaluation by pulling

A pipeline without tasks, channels or schedules: its reader pulls a pack out of the
last stage, which pulls packs out of the stage in front of it until its handler leaves
one, and so on down to the producer. A stage that has ended gives nothing more.

A reader who is done abandons the line. A stage that has not ended by then still makes
the pack that it would have written next, finds nobody to take it, and abandons the
stages in front of it in turn.

Fuel bounds the depth of the pulling. Running out of it is `none`, and never a shorter
result.
-/
namespace StagedPipeline.Pull

variable {π σ : Type}

/-- The error that is put for an error result. The null error cannot be put, and the
attempt is a fault. -/
def reported (fault : Bytes → Error) (e : Error) : Error :=
  if e.isNull then fault Reports.nullFault.describe else e

/-- A producer that is asked on demand. -/
structure Source (π : Type) where
  producer : Producer π
  state : π
  calls : Nat := 0
  /-- Whether it has said that there is no more, or has failed or thrown. -/
  ended : Bool := false
  /-- Its error, if it has failed or thrown. -/
  report : Option Error := none
  faulted : Bool := false

/-- Asks the producer once: the pack that it yields, if it yields one. -/
def Source.ask (w : Source π) : Source π × Option Pack :=
  let c := w.producer w.state
  let w := { w with state := c.state, calls := w.calls + 1 }
  match c.production with
  | .yielded p more => ({ w with ended := !more }, p)
  | .failed e =>
    ({ w with
        ended := true, report := some (reported SourceStage.faultError e)
        faulted := e.isNull }, none)
  | .threw f =>
    ({ w with
        ended := true, report := some (SourceStage.faultError f.describe), faulted := true }, none)

/-- A stage that works on demand. -/
structure Stage (σ : Type) where
  handler : Option (Handler σ)
  memory : σ
  /-- The packs handed to the handler, in order. -/
  handled : List Pack := []
  /-- Whether it gives nothing more. -/
  ended : Bool := false
  /-- Its own error, if its handler has failed or thrown. -/
  report : Option Error := none
  faulted : Bool := false

def Stage.ofPlan (s : Pipeline.Stage σ) : Stage σ := { handler := s.handler, memory := s.memory }

/-- Gives a pack to the handler, if it has a body: what the handler leaves, if it does. -/
def Stage.take (h : Handler σ) (x : Stage σ) (p : Pack) : Stage σ × Option Pack :=
  match p.body with
  | none => (x, none)
  | some body =>
    let c := h x.memory p.context body
    let x := { x with memory := c.memory, handled := x.handled ++ [p] }
    match c.verdict with
    | .success => (x, c.body.map fun b => ⟨some b, c.context⟩)
    | .failure e =>
      ({ x with
          ended := true, report := some (reported TransformStage.faultError e)
          faulted := e.isNull }, none)
    | .fault f =>
      ({ x with
          ended := true, report := some (TransformStage.faultError f.describe)
          faulted := true }, none)

/-- A producer and the stages behind it, the last one first. -/
structure Line (π σ : Type) where
  source : Source π
  stages : List (Stage σ)

/-- The line one stage longer. -/
def Line.behind (l : Line π σ) (x : Stage σ) : Line π σ := { l with stages := x :: l.stages }

/-- Pulls the next pack out of a line, or finds that there is none. -/
def pull : Nat → Line π σ → Option (Option Pack × Line π σ)
  | 0, _ => none
  | n + 1, ⟨w, []⟩ =>
    if w.ended then some (none, ⟨w, []⟩)
    else
      match w.ask with
      | (w, some p) => some (some p, ⟨w, []⟩)
      | (w, none) => pull n ⟨w, []⟩
  | n + 1, ⟨w, x :: front⟩ =>
    match x.handler with
    | none => (pull n ⟨w, front⟩).map fun (item, l) => (item, l.behind x)
    | some h =>
      if x.ended then some (none, ⟨w, x :: front⟩)
      else
        match pull n ⟨w, front⟩ with
        | none => none
        | some (none, l) => some (none, l.behind { x with ended := true })
        | some (some p, l) =>
          match x.take h p with
          | (x, some q) => some (some q, l.behind x)
          | (x, none) => pull n (l.behind x)

/-- How far a reader reads: to the end, or so many packs at most. -/
abbrev Limit := Option Nat

/-- Reads packs out of a line. -/
def read : Nat → Limit → Line π σ → Option (List Pack × Line π σ)
  | 0, _, _ => none
  | _ + 1, some 0, l => some ([], l)
  | n + 1, limit, l =>
    match pull n l with
    | none => none
    | some (none, l) => some ([], l)
    | some (some p, l) => (read n (limit.map (· - 1)) l).map fun (ps, l) => (p :: ps, l)

/-- What is left of a line whose reader is done. -/
def abandon : Nat → Line π σ → Option (Line π σ)
  | 0, _ => none
  | n + 1, ⟨w, []⟩ => (pull n ⟨w, []⟩).map Prod.snd
  | n + 1, ⟨w, x :: front⟩ =>
    match x.handler with
    | none => (abandon n ⟨w, front⟩).map fun l => l.behind x
    | some _ =>
      match pull n ⟨w, x :: front⟩ with
      | some (_, ⟨w, x :: front⟩) => (abandon n ⟨w, front⟩).map fun l => l.behind x
      | _ => none

/-- What a run of a pipeline comes to. -/
structure Upshot where
  /-- The packs that the reader has taken, in order. -/
  packs : List (Option Pack)
  /-- The errors that it has drained, in order. -/
  errors : List Error
  /-- The packs handed to the handler of each stage, in order. -/
  handed : List (List Pack)
  /-- How often the producer was asked. -/
  calls : Nat
  /-- Whether the source, and then each stage, has reported a fault. -/
  faulted : List Bool
deriving DecidableEq, Repr

/-- The errors of a line: those of a stage come before those of the stages in front of it. -/
def Line.reports (l : Line π σ) : List Error :=
  l.stages.filterMap (·.report) ++ l.source.report.toList

def Line.upshot (l : Line π σ) (packs : List Pack) : Upshot where
  packs := packs.map some
  errors := l.reports
  handed := l.stages.reverse.map (·.handled)
  calls := l.source.calls
  faulted := l.source.faulted :: l.stages.reverse.map (·.faulted)

end StagedPipeline.Pull

namespace StagedPipeline

/-- A planned pipeline as a line. -/
def Pipeline.line {π σ : Type} (p : Pipeline π σ) : Pull.Line π σ where
  source := { producer := p.source.producer, state := p.source.state }
  stages := (p.stages.map Pull.Stage.ofPlan).reverse

/-- The evaluation of a pipeline for a reader who reads so far and is then done. -/
def Pipeline.evaluate {π σ : Type} (p : Pipeline π σ) (fuel : Nat) (limit : Pull.Limit) :
    Option Pull.Upshot :=
  (Pull.read fuel limit p.line).bind fun (packs, l) =>
    (Pull.abandon fuel l).map fun l => l.upshot packs

end StagedPipeline
