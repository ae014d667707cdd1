import StagedPipeline.Log.Entry
import StagedPipeline.FileSystem

/-!
# The logger

A logger decides which entries are written and where: to the error output, to a
log file, or to both. Lines for the file gather in a buffer that is written out
when it is large, after a line of level `WARN` or above, on `flush`, and when
the log file is changed.
-/
namespace StagedPipeline.Log

/-- The surroundings that a logger writes to. -/
structure Host where
  files : FileSystem := {}
  /-- Everything written to the error output, piece by piece. -/
  errors : List Bytes := []
deriving DecidableEq, Repr

namespace Host

/-- Writes a piece to the error output. -/
def complain (h : Host) (piece : Bytes) : Host := { h with errors := h.errors ++ [piece] }

end Host

/-- The settings of a logger, its open log file and the lines that wait for it. -/
structure Logger where
  level : Level := .info
  categories : Category := .all
  toConsole : Bool := true
  toFile : Bool := false
  file : Option FileSystem.Place := none
  pending : Bytes := []
deriving DecidableEq, Repr

namespace Logger

/-- The number of waiting bytes from which on they are written out. -/
def threshold : Nat := 8192

/-- Whether the settings let an entry through to some sink. -/
def willLog (l : Logger) (level : Level) (category : Category) : Bool :=
  l.level.rank ≤ level.rank
    && (category.mask == 0 || l.categories.meets category)
    && (l.toConsole || l.toFile)

def setLevel (l : Logger) (level : Level) : Logger := { l with level }

def enable (l : Logger) (c : Category) : Logger := { l with categories := l.categories.union c }

def disable (l : Logger) (c : Category) : Logger :=
  { l with categories := l.categories.inter c.compl }

def setCategories (l : Logger) (c : Category) : Logger := { l with categories := c }

def setConsole (l : Logger) (on : Bool) : Logger := { l with toConsole := on }

def setFilePrinting (l : Logger) (on : Bool) : Logger := { l with toFile := on }

/-- Writes the waiting bytes to the open log file. -/
def writeOut (l : Logger) (h : Host) : Logger × Host :=
  match l.file with
  | some p => ({ l with pending := [] }, { h with files := h.files.append p l.pending })
  | none => (l, h)

/-- A path between double quotes, with a backslash before quotes and backslashes. -/
def quotedPath (path : Bytes) : Bytes :=
  bytes "\"" ++ path.flatMap (fun b => if b == 34 || b == 92 then [92, b] else [b]) ++ bytes "\""

/-- Changes the log file. What waits for the old one is written to it. An empty
path leaves the logger without a file. If the new file cannot be opened, file
printing is turned off and the error output says so. -/
def setFile (path : Bytes) (l : Logger) (h : Host) : Logger × Host :=
  let (l, h) := l.writeOut h
  let l := { l with file := none, pending := [] }
  if path.isEmpty then (l, h)
  else
    match h.files.openAppend? path with
    | some (p, files) => ({ l with file := some p }, { h with files })
    | none =>
      ({ l with toFile := false },
        h.complain
          (bytes "Logger: failed to open log file: " ++ quotedPath path ++ bytes "\n"))

/-- Empties the buffer, into the log file if one is open and file printing is on. -/
def flush (l : Logger) (h : Host) : Logger × Host :=
  if l.toFile then
    let (l, h) := l.writeOut h
    ({ l with pending := [] }, h)
  else ({ l with pending := [] }, h)

/-- Hands one line to the sinks that are on. -/
def writeLine (line : Bytes) (l : Logger) (h : Host) : Logger × Host :=
  let h := if l.toConsole then h.complain line else h
  if l.toFile && l.file.isSome then
    let l := { l with pending := l.pending ++ line }
    if threshold ≤ l.pending.length then l.writeOut h else (l, h)
  else (l, h)

/-- Writes an entry without asking whether it is wanted. From `WARN` on nothing
is left waiting. -/
def write (stamp thread : Bytes) (e : Entry) (l : Logger) (h : Host) : Logger × Host :=
  let (l, h) := l.writeLine (e.line stamp thread) h
  if Level.warn.rank ≤ e.level.rank then l.writeOut h else (l, h)

/-- Writes an entry if the settings let it through. -/
def log (stamp thread : Bytes) (e : Entry) (l : Logger) (h : Host) : Logger × Host :=
  if l.willLog e.level e.category then l.write stamp thread e h else (l, h)

/-- Writes the entries of one thread, in order. -/
def logAll (stamp thread : Bytes) (es : List Entry) (l : Logger) (h : Host) : Logger × Host :=
  es.foldl (fun (l, h) e => l.log stamp thread e h) (l, h)

end Logger
end StagedPipeline.Log
