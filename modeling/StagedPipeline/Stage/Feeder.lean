import StagedPipeline.Stage.Event

/-!
# Feeders

A feeder is a supplier that follows a plan: it puts errors, writes packs and closes
the two channels of a conduit, in any order. It can go through its plan more than
once. It stands for whatever may be in front of a transform stage.
-/
namespace StagedPipeline

namespace Feeder

/-- A move of a feeder. -/
inductive Move where
  | put (e : Error)
  /-- Makes a pack, about which there may be something to say, and writes it. -/
  | write (p : Option Pack) (entries : List Log.Entry)
  | closeData
  | closeErrors
deriving DecidableEq, Repr

def Move.isWrite : Move → Bool
  | .write _ _ => true
  | _ => false

end Feeder

/-- A feeder: its plan, the moves before it, and the ticket of a write that waits for
its item to be taken. Before it is launched there are no moves before it. -/
structure Feeder where
  plan : List Feeder.Move
  moves : List Feeder.Move := []
  ticket : Option Nat := none
  /-- How the writes have ended: `true` if the channel was found closed. -/
  results : List Bool := []
deriving DecidableEq, Repr

namespace Feeder

/-- A feeder that puts errors, writes packs, puts more errors and closes both channels:
the error channel before the data channel, unless the data channel has been closed
right after the packs. -/
def ofPlan (errors : List Error) (packs : List (Option Pack × List Log.Entry)) (late : List Error)
    (dataFirst : Bool) : Feeder :=
  { plan := errors.map .put ++ packs.map (fun (p, entries) => .write p entries)
      ++ (if dataFirst then [.closeData] else []) ++ late.map .put ++ [.closeErrors, .closeData] }

/-- Starts the feeder on its plan, after what it is still at. -/
def launch (f : Feeder) : Feeder := { f with moves := f.moves ++ f.plan }

/-- What is left to do after a write. Once a write has found the channel closed, the
writes that follow it are left out. -/
def afterWrite (f : Feeder) (rest : List Move) (closed : Bool) : Feeder :=
  { f with
    moves := if closed then rest.dropWhile Move.isWrite else rest
    ticket := none
    results := f.results ++ [closed] }

/-- The next section of the feeder. The null error cannot be put, and is passed over. -/
def advance? (f : Feeder) (out : Conduit) : Option (Feeder × Conduit × List Event) :=
  match f.moves with
  | [] => none
  | .put e :: rest =>
    (out.errors.put? e).map fun (how, errors) =>
      ({ f with moves := rest }, { out with errors }, Event.putting e how)
  | .write p entries :: rest =>
    match f.ticket with
    | none =>
      (out.data.offer? p).map fun (r, data) =>
        let out := { out with data }
        match r with
        | .refused => (f.afterWrite rest true, out, Event.saying entries ++ [.wrote p false])
        | .placed ticket => ({ f with ticket := some ticket }, out, Event.saying entries)
    | some ticket =>
      (out.data.settle? ticket).map fun (taken, data) =>
        (f.afterWrite rest (!taken), { out with data }, [.wrote p taken])
  | .closeData :: rest => some ({ f with moves := rest }, out.closeData, [])
  | .closeErrors :: rest => some ({ f with moves := rest }, out.closeErrors, [])

end Feeder
end StagedPipeline
