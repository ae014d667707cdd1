import StagedPipeline.Pack

/-!
# Drafts of packs

A draft describes a pack that is still to be made. Making it may open a file, and
so depends on the file system at that moment.
-/
namespace StagedPipeline

namespace ByteStream

/-- A description of a body. -/
inductive Draft where
  | content (b : Bytes)
  /-- A buffer that is closed from the start. -/
  | closed (b : Bytes)
  | file (path : Bytes)
  | script (events : List Event)
deriving DecidableEq, Repr

/-- Makes the body, and says what was opened for it. A file that cannot be opened
makes no body. -/
def Draft.make (fs : FileSystem) : Draft → Option ByteStream × List Log.Entry
  | .content b => (some (.ofBytes b), [])
  | .closed b => (some (ByteStream.ofBytes b).close, [])
  | .file path =>
    let (r, entries) := Reader.openFile fs path
    (r.toOption.map .file, entries)
  | .script events => (some (.script { events }), [])

end ByteStream

namespace Pack

/-- A description of a pack. -/
structure Draft where
  body : Option ByteStream.Draft
  context : Context := .background
deriving DecidableEq, Repr

def Draft.make (fs : FileSystem) (d : Draft) : Pack × List Log.Entry :=
  match d.body with
  | none => (⟨none, d.context⟩, [])
  | some b => let (body, entries) := b.make fs; (⟨body, d.context⟩, entries)

/-- Makes a pack, or none where none is described. -/
def Draft.make? (fs : FileSystem) : Option Draft → Option Pack × List Log.Entry
  | none => (none, [])
  | some d => let (p, entries) := d.make fs; (some p, entries)

end Pack
end StagedPipeline
