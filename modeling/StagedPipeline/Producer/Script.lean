import StagedPipeline.Producer
import StagedPipeline.Pack.Draft

/-!
# Scripted producers

A producer that answers from a list of steps: the calls use the steps in order,
once or over and over. The stock producers and the scripted one are gathered in
one type.
-/
namespace StagedPipeline.Producer

/-- An answer that a script gives. -/
inductive Step where
  | yield (pack : Option Pack.Draft) (more : Bool)
  | fail (e : Error)
  | throw (f : Fault)
deriving DecidableEq, Repr

/-- A list of answers, and the number of calls so far. -/
structure Script where
  steps : List Step
  /-- Whether the first step follows the last one. -/
  cyclic : Bool := false
  calls : Nat := 0
deriving DecidableEq, Repr

/-- The step that the next call uses. -/
def Script.current? (s : Script) : Option Step :=
  if s.cyclic then s.steps[s.calls % s.steps.length]? else s.steps[s.calls]?

/-- Past its last step a script yields no pack and no more. -/
def Script.next (fs : FileSystem) : Producer Script := fun s =>
  let state := { s with calls := s.calls + 1 }
  match s.current? with
  | none => { production := .yielded none false, state }
  | some (.fail e) => { production := .failed e, state }
  | some (.throw f) => { production := .threw f, state }
  | some (.yield d more) =>
    let (pack, entries) := Pack.Draft.make? fs d
    { production := .yielded pack more, state, entries }

/-- One of the producers at hand. -/
inductive Stock where
  | listing (s : Listing)
  | files (s : Files)
  | script (s : Script)
deriving DecidableEq, Repr

namespace Stock

def next (fs : FileSystem) : Producer Stock
  | .listing s => let c := Listing.next s; ⟨c.production, .listing c.state, c.entries⟩
  | .files s => let c := Files.next fs s; ⟨c.production, .files c.state, c.entries⟩
  | .script s => let c := Script.next fs s; ⟨c.production, .script c.state, c.entries⟩

/-- The producer after files have changed. Only a list holds files that are open. -/
def refresh (fs : FileSystem) : Stock → Stock
  | .listing s => .listing (s.refresh fs)
  | s => s

/-- The number of calls so far; for files, of those that opened one. -/
def calls : Stock → Nat
  | .listing s => s.calls
  | .files s => s.opened
  | .script s => s.calls

end Stock
end StagedPipeline.Producer
