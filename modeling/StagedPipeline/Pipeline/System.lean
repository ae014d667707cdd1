import StagedPipeline.Pipeline.Station
import StagedPipeline.Pipeline.Application
import StagedPipeline.Stage.Source
import StagedPipeline.Stage.Feeder

/-!
# The system of all parties

A running pipeline as one state: the supplier, the row of stations with the
conduits between them, and the application. In one step one party carries out one
atomic section, or leaves a poll whose time is over. An interleaving of the
parties is a sequence of such steps; a party that waits has no step.
-/
namespace StagedPipeline

/-- A party that can stand in front of a row of stations. -/
class Supplier (α : Type) where
  /-- Its next section, between it and the conduit behind it. -/
  advance? : α → Conduit → Option (α × Conduit × List Event)
  /-- Whether it is over, or was never started. -/
  isResting : α → Bool

instance {π : Type} : Supplier (SourceStage π) where
  advance? := SourceStage.advance?
  isResting s := s.phase == .idle || s.phase == .finished

instance : Supplier Feeder where
  advance? := Feeder.advance?
  isResting f := f.moves.isEmpty

/-- All parties, and all conduits between them. -/
structure System (α σ : Type) where
  supplier : α
  /-- The conduit behind the supplier. -/
  inlet : Conduit
  row : List (Station σ)
  application : Application := {}
  /-- What has happened so far, the latest first. -/
  history : List (Party × Event) := []

namespace System

/-- A step: a party carries out its next section, or leaves a poll whose time is over. -/
inductive Action where
  | advance (p : Party)
  | expire (p : Party)
deriving DecidableEq, Repr

variable {α σ : Type}

/-- The conduit that the application reads from. -/
def terminal (s : System α σ) : Conduit := Station.terminal s.inlet s.row

/-- Adds to what has happened. -/
def record (s : System α σ) (p : Party) (events : List Event) : System α σ :=
  { s with history := (events.map (p, ·)).reverse ++ s.history }

/-- What a party has done so far, in order. -/
def eventsOf (s : System α σ) (p : Party) : List Event :=
  (s.history.reverse.filter (·.1 == p)).map Prod.snd

/-- The packs that the application has taken, in order. -/
def received (s : System α σ) : List (Option Pack) :=
  (s.eventsOf .application).filterMap Event.received?

/-- Gives the application errands. -/
def plan (s : System α σ) (es : List Application.Errand) : System α σ :=
  { s with application := s.application.plan es }

variable [Supplier α]

/-- Whether the task of a party is not running. -/
def isResting (s : System α σ) : Party → Bool
  | .application => true
  | .supplier => Supplier.isResting s.supplier
  | .stage i => (s.row[i]?.map Station.isResting).getD true

/-- The next section of the application. -/
def advanceApplication? (s : System α σ) : Option (System α σ) :=
  match s.application.agenda with
  | .join p :: rest =>
    if s.isResting p then some { s with application := { s.application with agenda := rest } }
    else none
  | .shutInput i :: rest =>
    let (inlet, row) := Station.closeInput i s.inlet s.row
    some { s with inlet, row, application := { s.application with agenda := rest } }
  | .release i :: rest =>
    let (row, events) := Station.release i s.inlet s.row
    some (record { s with row, application := { s.application with agenda := rest } }
      .application events)
  | _ =>
    (Station.atTerminal?
        (fun c => (s.application.advance? c).map fun (a, c, events) => (c, a, events))
        s.inlet s.row).map fun (inlet, row, application, events) =>
      record { s with inlet, row, application } .application events

/-- The next section of a party. -/
def advance? (s : System α σ) : Party → Option (System α σ)
  | .application => s.advanceApplication?
  | .supplier =>
    (Supplier.advance? s.supplier s.inlet).map fun (supplier, inlet, events) =>
      record { s with supplier, inlet } .supplier events
  | .stage i =>
    (Station.advance? i s.inlet s.row).map fun (inlet, row, events) =>
      record { s with inlet, row } (.stage i) events

/-- The end of a poll of a party whose time is over. -/
def expire? (s : System α σ) : Party → Option (System α σ)
  | .application =>
    (s.application.expire? s.terminal).map fun application => { s with application }
  | .supplier => none
  | .stage i => (Station.expire? i s.inlet s.row).map fun row => { s with row }

/-- The state after a step, if the step is possible. -/
def step? (s : System α σ) : Action → Option (System α σ)
  | .advance p => s.advance? p
  | .expire p => s.expire? p

/-- Carries out actions one after the other, if each of them is possible. -/
def run? : List Action → System α σ → Option (System α σ)
  | [], s => some s
  | a :: acts, s => (s.step? a).bind (run? acts)

/-! ## One interleaving -/

/-- The parties, from the end of the pipeline to its front. -/
def parties (s : System α σ) : List Party :=
  .application :: ((List.range s.row.length).reverse.map .stage) ++ [.supplier]

/-- The section of the first party, from the end of the pipeline, that can move. -/
def next? (s : System α σ) : Option (System α σ) := s.parties.findSome? s.advance?

/-- Lets the parties move until all of them wait or are over, for a number of steps
at most. -/
def settle : Nat → System α σ → System α σ
  | 0, s => s
  | n + 1, s =>
    match s.next? with
    | some s => settle n s
    | none => s

/-- More steps than a pipeline takes that comes to rest. -/
def patience : Nat := 1000000000000

/-- Lets the parties move until none can, for so many steps that only a pipeline that
never rests is cut off. -/
def rest (s : System α σ) : System α σ := s.settle patience

/-- Lets the application carry out errands, and the others move with it. -/
def carryOut (s : System α σ) (es : List Application.Errand) : System α σ := (s.plan es).rest

end System
end StagedPipeline
