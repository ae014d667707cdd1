import StagedPipeline.Pack

/-!
# Producers

A producer is asked again and again for the next pack. With each answer it says
whether there is more to come, so that the end is known together with the last
pack and not after it. An answer may also hold no pack at all.
-/
namespace StagedPipeline

/-- The answer of a producer. -/
inductive Production where
  | yielded (pack : Option Pack) (more : Bool)
  | failed (e : Error)
  | threw (f : Fault)
deriving DecidableEq, Repr

namespace Producer

/-- One call of a producer: its answer, its state afterwards, and what it has to say. -/
structure Call (π : Type) where
  production : Production
  state : π
  entries : List Log.Entry := []

end Producer

/-- A producer with states of type `π`. -/
abbrev Producer (π : Type) := π → Producer.Call π

namespace Producer

/-- A producer that hands out a list of packs, some of which may be missing. -/
structure Listing where
  rest : List (Option Pack)
  calls : Nat := 0
deriving DecidableEq, Repr

/-- The next pack of the list. An empty list is answered by no pack and no more. -/
def Listing.next : Producer Listing := fun s =>
  match s.rest with
  | [] => { production := .yielded none false, state := { s with calls := s.calls + 1 } }
  | p :: rest =>
    { production := .yielded p (!rest.isEmpty), state := { rest, calls := s.calls + 1 } }

/-- The packs of the list that were not handed out yet, after files have changed. -/
def Listing.refresh (fs : FileSystem) (s : Listing) : Listing :=
  { s with rest := s.rest.map (Option.map (Pack.refresh fs)) }

/-- A producer that opens files, in order. -/
structure Files where
  rest : List Bytes
  /-- The context that the packs' contexts are derived from. -/
  parent : Context := .background
  /-- The number of files opened so far. -/
  opened : Nat := 0
deriving DecidableEq, Repr

/-- The key under which a pack's context carries the path. -/
def Files.pathKey : Bytes := bytes "path"

/-- Opens the next file. A file that cannot be opened stays the next one. -/
def Files.next (fs : FileSystem) : Producer Files := fun s =>
  match s.rest with
  | [] => { production := .yielded none false, state := s }
  | path :: rest =>
    match ByteStream.Reader.openFile fs path with
    | (.error e, entries) => { production := .failed e, state := s, entries }
    | (.ok r, entries) =>
      { production :=
          .yielded (some ⟨some (.file r), s.parent.withValue Files.pathKey path⟩) (!rest.isEmpty)
        state := { s with rest, opened := s.opened + 1 }
        entries := entries ++ [Log.debug .file (bytes "opened " ++ path)] }

end Producer
end StagedPipeline
