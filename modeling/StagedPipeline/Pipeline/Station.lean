import StagedPipeline.Stage.Transform

/-!
# Stations

Behind the source of a pipeline stand its stations in a row. A station with a
handler works between the conduit that leads to it and an output of its own; one
without a handler lets the conduit pass, and so does one that has not been
connected yet. What the application reads from is the terminal conduit: the
output of the last working station.

The functions here walk along the row with the conduit in front of it.
-/
namespace StagedPipeline

/-- A station of a pipeline. -/
inductive Station (σ : Type) where
  | passing (finalization : Finalization)
  | unconnected (finalization : Finalization)
  | working (stage : TransformStage σ) (out : Conduit)

namespace Station

variable {σ β : Type}

/-- The conduit behind a station, for the one in front of it. -/
def outlet (c : Conduit) : Station σ → Conduit
  | .passing _ => c
  | .unconnected _ => c
  | .working _ out => out

/-- The conduit behind a row. -/
def terminal (c : Conduit) (row : List (Station σ)) : Conduit := row.foldl outlet c

/-- Changes the conduit behind a row, if the change is possible. -/
def atTerminal? (f : Conduit → Option (Conduit × β)) :
    Conduit → List (Station σ) → Option (Conduit × List (Station σ) × β)
  | c, [] => (f c).map fun (c, b) => (c, [], b)
  | c, .passing x :: row =>
    (atTerminal? f c row).map fun (c, row, b) => (c, .passing x :: row, b)
  | c, .unconnected x :: row =>
    (atTerminal? f c row).map fun (c, row, b) => (c, .unconnected x :: row, b)
  | c, .working s out :: row =>
    (atTerminal? f out row).map fun (out, row, b) => (c, .working s out :: row, b)

/-- The next section of the task at a position, if it can move. -/
def advance? : Nat → Conduit → List (Station σ) → Option (Conduit × List (Station σ) × List Event)
  | _, _, [] => none
  | 0, _, .passing _ :: _ => none
  | 0, _, .unconnected _ :: _ => none
  | 0, c, .working s out :: row =>
    (s.advance? c out).map fun (s, c, out, events) => (c, .working s out :: row, events)
  | i + 1, c, .passing x :: row =>
    (advance? i c row).map fun (c, row, events) => (c, .passing x :: row, events)
  | i + 1, c, .unconnected x :: row =>
    (advance? i c row).map fun (c, row, events) => (c, .unconnected x :: row, events)
  | i + 1, c, .working s out :: row =>
    (advance? i out row).map fun (out, row, events) => (c, .working s out :: row, events)

/-- The end of a poll, whose time is over, by the task at a position. -/
def expire? : Nat → Conduit → List (Station σ) → Option (List (Station σ))
  | _, _, [] => none
  | 0, _, .passing _ :: _ => none
  | 0, _, .unconnected _ :: _ => none
  | 0, c, .working s out :: row => (s.expire? c).map fun s => .working s out :: row
  | i + 1, c, .passing x :: row => (expire? i c row).map (.passing x :: ·)
  | i + 1, c, .unconnected x :: row => (expire? i c row).map (.unconnected x :: ·)
  | i + 1, _, .working s out :: row => (expire? i out row).map (.working s out :: ·)

/-- Makes the call of the finalizer that the station at a position still owes. -/
def release : Nat → Conduit → List (Station σ) → List (Station σ) × List Event
  | _, _, [] => ([], [])
  | 0, c, .passing x :: row =>
    let (x, events) := x.run (c.sighting .notStarted)
    (.passing x :: row, events)
  | 0, c, .unconnected x :: row =>
    let (x, events) := x.run ⟨.notStarted, .ofMaking (TransformStage.outputFor c)⟩
    (.unconnected x :: row, events)
  | 0, _, .working s out :: row =>
    let (finalization, events) := s.finalization.run (out.sighting s.lifecycle)
    (.working { s with finalization } out :: row, events)
  | i + 1, c, s :: row => let (row, events) := release i (s.outlet c) row; (s :: row, events)

/-- Closes the data channel that the station at a position reads. -/
def closeInput : Nat → Conduit → List (Station σ) → Conduit × List (Station σ)
  | 0, c, row => (c.closeData, row)
  | _, c, [] => (c, [])
  | i + 1, c, .passing x :: row =>
    let (c, row) := closeInput i c row
    (c, .passing x :: row)
  | i + 1, c, .unconnected x :: row =>
    let (c, row) := closeInput i c row
    (c, .unconnected x :: row)
  | i + 1, c, .working s out :: row =>
    let (out, row) := closeInput i out row
    (c, .working s out :: row)

/-- Whether no task is running at a station: it has none, or it is over, or it was
never started. -/
def isResting : Station σ → Bool
  | .passing _ => true
  | .unconnected _ => true
  | .working s _ => s.phase == .idle || s.phase == .finished

/-- Where a station is in its life. One that has no task is never started. -/
def lifecycle : Station σ → Lifecycle
  | .passing _ => .notStarted
  | .unconnected _ => .notStarted
  | .working s _ => s.lifecycle

/-- The finalizer of a station and its turn. -/
def finalization : Station σ → Finalization
  | .passing x => x
  | .unconnected x => x
  | .working s _ => s.finalization

def setFinalization (x : Finalization) : Station σ → Station σ
  | .passing _ => .passing x
  | .unconnected _ => .unconnected x
  | .working s out => .working { s with finalization := x } out

/-- What a finalizer sees of a station when its owner makes the call. -/
def sight (inp : Conduit) : Station σ → Sighting
  | .passing _ => inp.sighting .notStarted
  | .unconnected _ => ⟨.notStarted, .ofMaking (TransformStage.outputFor inp)⟩
  | .working s out => out.sighting s.lifecycle

/-- What the handler of a station remembers. -/
def memory? : Station σ → Option σ
  | .working s _ => some s.memory
  | _ => none

/-- Whether the stage has reported a fault. -/
def faulted : Station σ → Bool
  | .passing _ => false
  | .unconnected _ => false
  | .working s _ => s.faulted

end Station
end StagedPipeline
