import StagedPipeline.Context

/-!
# Trees of contexts

Contexts that are derived from one another share their ancestors, so that
cancelling one of them is seen by all of its descendants. The tree numbers its
contexts in order of creation; each one's parent is an earlier context, or there
is none. Number zero is the background. The chain of a context is what the
queries on contexts read.
-/
namespace StagedPipeline.Context

/-- A context of a tree: its own layer and its parent. -/
structure Node where
  parent : Option Nat := none
  layer : Layer := {}
deriving DecidableEq, Repr

/-- The contexts in order of creation. -/
structure Tree where
  nodes : Array Node := #[{}]
deriving DecidableEq, Repr

namespace Tree

/-- The number of the background. -/
def background : Nat := 0

/-- The layers from a context up to where its ancestors end. -/
def chain (t : Tree) (c : Nat) : Context :=
  match t.nodes[c]? with
  | none => []
  | some n =>
    n.layer :: match n.parent with
      | none => []
      | some p => if p < c then t.chain p else []
termination_by c

/-- Adds a context with a parent, or with none; its number is the second part. -/
def derive (t : Tree) (parent : Option Nat) (layer : Layer) : Tree × Nat :=
  let c := t.nodes.size
  ({ nodes := t.nodes.push ⟨parent, layer⟩ }, c)

def withCancel (t : Tree) (parent : Option Nat) : Tree × Nat := t.derive parent {}

def withDeadline (t : Tree) (parent : Option Nat) (deadline : Time) : Tree × Nat :=
  t.derive parent { deadline := some deadline }

/-- The deadline is the sum of two times, which has no bound here: on a clock of 64 bits a
timeout that is too long for it is an overflow, which is left out. -/
def withTimeout (t : Tree) (now : Time) (parent : Option Nat) (timeout : Time) : Tree × Nat :=
  t.withDeadline parent (now + timeout)

def withValue (t : Tree) (parent : Option Nat) (key value : Bytes) : Tree × Nat :=
  t.derive parent { entry := some (key, value) }

/-- Cancels a context. One without a parent, as the background is, cannot be cancelled. -/
def cancel (t : Tree) (c : Nat) : Tree :=
  match t.nodes[c]? with
  | some ⟨some p, layer⟩ =>
    { nodes := t.nodes.setIfInBounds c ⟨some p, { layer with cancelled := true }⟩ }
  | _ => t

/-- The error of a context; the null error while it is not done. -/
def error (t : Tree) (now : Time) (c : Nat) : Error := ((t.chain c).error? now).getD .null

def isDone (t : Tree) (now : Time) (c : Nat) : Bool := !(t.error now c).isNull

def deadline? (t : Tree) (c : Nat) : Option Time := (t.chain c).deadline?

def value? (t : Tree) (c : Nat) (key : Bytes) : Option Bytes := (t.chain c).value? key

end Tree
end StagedPipeline.Context
