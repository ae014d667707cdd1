import StagedPipeline.Sha256
import StagedPipeline.Fault

/-!
# Hashing piece by piece

An engine holds the chaining value of the whole blocks so far and the bytes of
the block that is still open, so that a message can arrive in any pieces. A
hasher is an engine with a life: it is open until its digest has been taken, and
it can be moved from, which leaves nothing to write to until it is reset.
-/
namespace StagedPipeline.Sha256

/-- The progress of a hash. -/
structure Engine where
  chain : Words := initial
  /-- The bytes of the open block, fewer than 64. -/
  rest : Bytes := []
  /-- The bytes absorbed so far. -/
  count : Nat := 0
deriving DecidableEq, Repr

namespace Engine

/-- Takes in one byte. -/
def absorbByte (s : Engine) (b : UInt8) : Engine :=
  let rest := s.rest ++ [b]
  if rest.length < 64 then { s with rest, count := s.count + 1 }
  else { chain := compress s.chain rest, rest := [], count := s.count + 1 }

/-- Takes in a piece of the message. -/
def absorb (s : Engine) (m : Bytes) : Engine := m.foldl absorbByte s

/-- The digest of all that was taken in. -/
def digest (s : Engine) : Bytes :=
  ((blocks (s.rest ++ padding s.count)).foldl compress s.chain).toBytes

theorem absorb_append (s : Engine) (m n : Bytes) : s.absorb (m ++ n) = (s.absorb m).absorb n := by
  simp [absorb]

end Engine

/-- A hasher. It has no engine after it was moved from. -/
structure Hasher where
  engine : Option Engine := some {}
  finalized : Bool := false
  /-- The bytes written to the current message. -/
  written : Nat := 0
deriving DecidableEq, Repr

namespace Hasher

/-- A hasher that can be written to, or the fault of trying. -/
def open? (h : Hasher) (fault : Fault) : Except Fault Engine :=
  match h.engine with
  | some e => if h.finalized then .error fault else .ok e
  | none => .error fault

def writeFault : Fault :=
  .runtimeError "Sha256Hasher::write(): context not initialised or already finalised"

def finalizeFault : Fault :=
  .runtimeError "Sha256Hasher::finalize(): context not initialised or already finalised"

/-- Appends to the message. -/
def write (h : Hasher) (m : Bytes) : Except Fault Hasher := do
  let e ← h.open? writeFault
  pure { h with engine := some (e.absorb m), written := h.written + m.length }

/-- Takes the digest, after which the hasher is no longer open. -/
def finalize (h : Hasher) : Except Fault (Bytes × Hasher) := do
  let e ← h.open? finalizeFault
  pure (e.digest, { h with finalized := true })

/-- Starts a new message, from any state. -/
def reset (_ : Hasher) : Hasher := {}

/-- What is left of a hasher that was moved from. -/
def movedFrom (h : Hasher) : Hasher := { h with engine := none, finalized := true }

/-- Moves the hasher at one index to another. A hasher moved onto itself stays. -/
def moveAssign (hs : List Hasher) (source target : Nat) : List Hasher :=
  if source == target then hs
  else
    match hs[source]? with
    | some h => (hs.set target h).set source h.movedFrom
    | none => hs

/-- Moves the hasher at one index into a new hasher, and that one to an index. Here
also a hasher that comes back to its own place has been moved. -/
def moveThrough (hs : List Hasher) (source target : Nat) : List Hasher :=
  match hs[source]? with
  | some h => (hs.set source h.movedFrom).set target h
  | none => hs

end Hasher
end StagedPipeline.Sha256
