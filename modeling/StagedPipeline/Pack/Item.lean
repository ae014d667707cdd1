import StagedPipeline.Pack

/-!
# Items

What the reader of a pack keeps of it: its body, read to the end, and the values
that its context has for some keys. A fault that the reading of the body throws
goes on to the reader.
-/
namespace StagedPipeline

/-- The content of a pack. -/
structure Item where
  /-- The bytes of the body, or the error that the reading has ended with; `none` if
  there was no body. -/
  body : Option (Outcome Bytes)
  values : List (Option Bytes) := []
deriving Repr

namespace Item

/-- Reads a pack. -/
def ofPack (keys : List Bytes) (p : Pack) : Except Fault Item :=
  let (reading, p) := p.readBody
  let values := keys.map p.context.value?
  match reading with
  | none => .ok { body := none, values }
  | some (.bytes b) => .ok { body := some (.ok b), values }
  | some (.failed e) => .ok { body := some (.error e), values }
  | some (.threw f) => .error f

/-- Reads a pack, if there is one. -/
def ofPack? (keys : List Bytes) : Option Pack → Except Fault (Option Item)
  | none => .ok none
  | some p => (ofPack keys p).map some

/-- What reading a pack throws. -/
def fault? (p : Option Pack) : Option Fault :=
  match ofPack? [] p with
  | .ok _ => none
  | .error f => some f

/-- The items of the packs that can be read. -/
def ofPacks (keys : List Bytes) (ps : List (Option Pack)) : List (Option Item) :=
  ps.filterMap fun p => (ofPack? keys p).toOption

end Item
end StagedPipeline
