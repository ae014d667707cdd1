import StagedPipeline.Bytes

/-!
# A file system as a value

Files and directories, looked up by the paths that the program is given. A path
is walked piece by piece, from the top if it begins with a slash and else from
the working directory, and each piece, also an empty one between two slashes or
after the last, has to be taken from a directory. What a path leads to is there,
but it can be something that no one may open.
-/
namespace StagedPipeline

namespace FileSystem

/-- What a path can lead to. -/
inductive Node where
  | file (content : Bytes)
  | directory
  /-- What is there and is no directory, but cannot be opened: not to be read, and not to be
  written to. -/
  | locked
deriving DecidableEq, Repr

/-- Whether a node can be written to as a file. -/
def Node.isFile : Node → Bool
  | .file _ => true
  | .directory | .locked => false

/-- The names on the way from the top down to a node. -/
abbrev Place := List Bytes

/-- The longest name and the longest path, in bytes, that can be looked up. -/
def maxName : Nat := 255
def maxPath : Nat := 4095

/-- The byte between the pieces of a path. -/
def slash : UInt8 := 47

end FileSystem

/-- The nodes of a file system, and the working directory. -/
structure FileSystem where
  nodes : List (FileSystem.Place × FileSystem.Node) := []
  working : FileSystem.Place := []
deriving DecidableEq, Repr

namespace FileSystem

/-- The node at a place. The working directory is there, with all above it. -/
def node? (fs : FileSystem) (p : Place) : Option Node :=
  if p.isPrefixOf fs.working then some .directory else fs.nodes.lookup p

/-- Replaces or adds the node at a place. -/
def setNode (fs : FileSystem) (p : Place) (n : Node) : FileSystem :=
  if fs.nodes.any (·.1 == p) then
    { fs with nodes := fs.nodes.map fun e => if e.1 == p then (p, n) else e }
  else { fs with nodes := fs.nodes ++ [(p, n)] }

/-- One step of a walk. It fails where the walk does not stand at a directory. -/
def step? (fs : FileSystem) (p : Place) (name : Bytes) : Option Place :=
  if fs.node? p != some .directory then none
  else if name.isEmpty || name == bytes "." then some p
  else if name == bytes ".." then some p.dropLast
  else if name.length > maxName then none
  else some (p ++ [name])

/-- A walk along the pieces of a path. The place that it ends at need not have a node. -/
def walk? (fs : FileSystem) : Place → List Bytes → Option Place
  | p, [] => some p
  | p, name :: rest => (fs.step? p name).bind (fs.walk? · rest)

/-- Where the walk along a path begins, and its pieces. The path ends at a zero byte; the
empty path leads nowhere. -/
def route? (fs : FileSystem) (path : Bytes) : Option (Place × List Bytes) :=
  let path := path.untilZero
  if path.isEmpty || path.length > maxPath then none
  else some (if path.head? == some slash then [] else fs.working, path.pieces slash)

/-- The place that a path leads to. -/
def place? (fs : FileSystem) (path : Bytes) : Option Place :=
  (fs.route? path).bind fun (p, names) => fs.walk? p names

/-- The node that a path leads to. -/
def lookup? (fs : FileSystem) (path : Bytes) : Option Node := (fs.place? path).bind fs.node?

/-- The place at which a path names a file, or at which it could name a new one. -/
def filePlace? (fs : FileSystem) (path : Bytes) : Option Place :=
  (fs.place? path).bind fun p => if (fs.node? p).all Node.isFile then some p else none

/-- Opens a file to append to it: an absent one is created empty. -/
def openAppend? (fs : FileSystem) (path : Bytes) : Option (Place × FileSystem) :=
  (fs.filePlace? path).map fun p =>
    match fs.node? p with
    | some _ => (p, fs)
    | none => (p, fs.setNode p (.file []))

/-- Writes a file anew. -/
def writeFile? (fs : FileSystem) (path content : Bytes) : Option FileSystem :=
  (fs.filePlace? path).map fun p => fs.setNode p (.file content)

/-- Appends to the file at a place. -/
def append (fs : FileSystem) (p : Place) (more : Bytes) : FileSystem :=
  match fs.node? p with
  | some (.file old) => fs.setNode p (.file (old ++ more))
  | _ => fs

/-- The content of the file that a path leads to. -/
def content? (fs : FileSystem) (path : Bytes) : Option Bytes :=
  match fs.lookup? path with
  | some (.file c) => some c
  | _ => none

/-- What reading a path to its end gives. A directory can be opened, and is empty. -/
def read? (fs : FileSystem) (path : Bytes) : Option Bytes :=
  match fs.lookup? path with
  | some (.file c) => some c
  | some .directory => some []
  | some .locked | none => none

/-- A walk along the pieces of a path that makes a directory wherever nothing is. It goes
no further than to a place that is no directory. -/
def makeAlong (fs : FileSystem) : Place → List Bytes → FileSystem
  | _, [] => fs
  | p, name :: rest =>
    match fs.step? p name with
    | none => fs
    | some q => (if (fs.node? q).isSome then fs else fs.setNode q .directory).makeAlong q rest

/-- Makes the directory that a path leads to, and those on the way to it. -/
def makeDirectories (fs : FileSystem) (path : Bytes) : FileSystem :=
  match fs.route? path with
  | none => fs
  | some (p, names) => fs.makeAlong p names

/-- Puts a node at the end of a path, if that is possible. The directories that lead to a
directory are made with it, those that lead to anything else are not. -/
def install (fs : FileSystem) (path : Bytes) : Node → FileSystem
  | .directory => fs.makeDirectories path
  | n => ((fs.filePlace? path).map fun p => fs.setNode p n).getD fs

/-- Puts several nodes in place, one after the other. -/
def installAll (fs : FileSystem) (nodes : List (Bytes × Node)) : FileSystem :=
  nodes.foldl (fun fs (path, node) => fs.install path node) fs

/-- The beginnings of a path that end before a slash or at its end, shortest first. A
walk along the path stands at these. -/
def waypoints (path : Bytes) : List Bytes :=
  let ps := path.untilZero.pieces slash
  (List.range ps.length).map fun i => ((ps.take (i + 1)).intersperse [slash]).flatten

/-- Notes what was found at the end of a path. -/
def observe (fs : FileSystem) (path : Bytes) (n : Node) : FileSystem :=
  match fs.place? path with
  | some p => if (fs.node? p).isSome then fs else fs.setNode p n
  | none => fs

end FileSystem
end StagedPipeline
