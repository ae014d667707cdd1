import StagedPipeline.ByteStream.Whole

/-!
# Packs

A pack is what flows through a pipeline: a body, which handlers may take out or
replace, and the context that it travels in.
-/
namespace StagedPipeline

/-- A body, if it is still there, and a context. -/
structure Pack where
  body : Option ByteStream
  context : Context := .background
deriving DecidableEq, Repr

namespace Pack

/-- A pack around some bytes. -/
def ofBytes (content : Bytes) (context : Context := .background) : Pack :=
  ⟨some (.ofBytes content), context⟩

/-- A pack whose body nobody has read from, after files have changed. -/
def refresh (fs : FileSystem) (p : Pack) : Pack := { p with body := p.body.map (·.refresh fs) }

/-- The portion in which bodies are read to their end. -/
def portion : Nat := 4096

/-- Reads the body to its end and leaves it exhausted; `none` if there is no body. -/
def readBody (p : Pack) : Option ByteStream.Reading × Pack :=
  match p.body with
  | none => (none, p)
  | some s =>
    let (r, s, c) := s.readAll portion p.context
    (some r, ⟨some s, c⟩)

end Pack
end StagedPipeline
