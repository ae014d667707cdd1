import StagedPipeline.Context
import StagedPipeline.FileSystem
import StagedPipeline.Outcome
import StagedPipeline.Log.Entry

/-!
# Byte streams

A byte stream is read from front to end in portions of any size, and can be
closed. There are three kinds: a buffer in memory, an open file, and a script
that plays a list of events, which can stand for any other source of bytes. A
read may fail, and a script may also throw a fault or cancel the context that it
is read in.
-/
namespace StagedPipeline

namespace ByteStream

/-- A buffer in memory. -/
structure Buffer where
  /-- The number of bytes at the start. -/
  size : Nat
  /-- The bytes that were not delivered yet. -/
  rest : Bytes
  closed : Bool := false
deriving DecidableEq, Repr

/-- An open file. The end is noticed by a read that gets less than it asked for. What was opened
can be read: that the device fails in the middle of a file is left out. -/
structure Reader where
  path : Bytes
  rest : Bytes
  ended : Bool := false
  closed : Bool := false
deriving DecidableEq, Repr

/-- An event of a script. -/
inductive Event where
  /-- Delivers these bytes, in as many reads as it takes; an empty event delivers nothing once. -/
  | deliver (content : Bytes)
  | fail (e : Error)
  | throw (f : Fault)
  /-- Cancels the context, and the read goes on with the next event. -/
  | cancel
deriving DecidableEq, Repr

/-- A script, with the numbers of reads and closes that it has seen. -/
structure Script where
  events : List Event
  closed : Bool := false
  reads : Nat := 0
  closes : Nat := 0
deriving DecidableEq, Repr

/-- How a read ends. No bytes means that the stream has ended, if some were asked for. -/
inductive Reading where
  | bytes (content : Bytes)
  | failed (e : Error)
  | threw (f : Fault)
deriving DecidableEq, Repr

end ByteStream

/-- A stream of bytes. -/
inductive ByteStream where
  | buffer (b : ByteStream.Buffer)
  | file (r : ByteStream.Reader)
  | script (s : ByteStream.Script)
deriving DecidableEq, Repr

namespace ByteStream

/-- A stream of some bytes in memory. -/
def ofBytes (content : Bytes) : ByteStream := .buffer { size := content.length, rest := content }

namespace Buffer

def read (n : Nat) (b : Buffer) : Reading × Buffer :=
  if b.closed then
    (.failed (.of .streamClosed (bytes "BufferStream::read(): stream is closed")), b)
  else (.bytes (b.rest.take n), { b with rest := b.rest.drop n })

end Buffer

namespace Reader

/-- Opens a file for reading. It fails where nothing is, at a directory, and where what is there may
not be read. -/
def openFile (fs : FileSystem) (path : Bytes) : Outcome Reader × List Log.Entry :=
  match fs.lookup? path with
  | none =>
    (.error (.of .fileNotFound (bytes "no such file: " ++ path.quoted)), [])
  | some .directory =>
    (.error (.of .fileError (bytes "is a directory: " ++ path.quoted)), [])
  | some .locked =>
    (.error (.of .fileError (bytes "cannot open " ++ path.quoted)), [])
  | some (.file content) =>
    (.ok { path, rest := content },
      [Log.trace .file (bytes "opened " ++ path.quoted)])

/-- An open file that nothing was read from, after files have changed: the content is
fetched by reading, and so it is what the file holds by then. -/
def refresh (fs : FileSystem) (r : Reader) : Reader :=
  { r with rest := (fs.content? r.path).getD r.rest }

def read (n : Nat) (r : Reader) : Reading × Reader :=
  if r.closed then
    (.failed (.of .streamClosed (bytes "FileStream::read(): stream is closed")), r)
  else if n == 0 || r.ended then (.bytes [], r)
  else
    let got := r.rest.take n
    (.bytes got, { r with rest := r.rest.drop n, ended := got.length < n })

end Reader

namespace Script

/-- Plays the events up to the one that ends the read. -/
def play (n : Nat) : List Event → Context → Reading × List Event × Context
  | [], c => (.bytes [], [], c)
  | .cancel :: es, c => play n es c.cancel
  | .fail e :: es, c => (.failed e, es, c)
  | .throw f :: es, c => (.threw f, es, c)
  | .deliver content :: es, c =>
    if content.length ≤ n then (.bytes content, es, c)
    else (.bytes (content.take n), .deliver (content.drop n) :: es, c)

def read (n : Nat) (s : Script) (c : Context) : Reading × Script × Context :=
  let s := { s with reads := s.reads + 1 }
  if s.closed then
    (.failed (.of .streamClosed (bytes "script closed")), s, c)
  else
    let (r, events, c) := play n s.events c
    (r, { s with events }, c)

end Script

/-- A stream that nothing was read from, after files have changed. -/
def refresh (fs : FileSystem) : ByteStream → ByteStream
  | .file r => .file (r.refresh fs)
  | s => s

/-- Reads at most `n` bytes, in a context. -/
def read (n : Nat) (s : ByteStream) (c : Context) : Reading × ByteStream × Context :=
  match s with
  | .buffer b => let (r, b) := b.read n; (r, .buffer b, c)
  | .file f => let (r, f) := f.read n; (r, .file f, c)
  | .script p => let (r, p, c) := p.read n c; (r, .script p, c)

/-- No more is read from the stream. -/
def close : ByteStream → ByteStream
  | .buffer b => .buffer { b with closed := true }
  | .file f => .file { f with closed := true }
  | .script p => .script { p with closed := true, closes := p.closes + 1 }

def isClosed : ByteStream → Bool
  | .buffer b => b.closed
  | .file f => f.closed
  | .script p => p.closed

/-- How much is left in a list of events: the bytes, and the events. -/
def Event.weight : List Event → Nat
  | [] => 0
  | .deliver content :: es => content.length + 1 + weight es
  | _ :: es => 1 + weight es

/-- How much a stream can still do: the bytes that are left, and the events. -/
def remaining : ByteStream → Nat
  | .buffer b => b.rest.length
  | .file f => f.rest.length
  | .script p => Event.weight p.events

end ByteStream
end StagedPipeline
