import StagedPipeline.Fault
import StagedPipeline.Log.Entry

/-!
# Traced threads

A traced thread has a name, writes a line when it starts and one when it ends,
and survives a fault of its function, which it writes down. A handle owns one
thread or none; handles can be joined and moved, but a thread cannot join itself.
-/
namespace StagedPipeline

namespace Thread

/-- The number of bytes of a name that the system keeps. -/
def nameLimit : Nat := 15

/-- The name that the system keeps: the first bytes of the name, up to a zero byte. -/
def keptName (name : Bytes) : Bytes := Bytes.untilZero (name.take nameLimit)

def startedEntry (name : Bytes) : Log.Entry :=
  Log.debug .thread (bytes "thread " ++ name.quoted ++ bytes " started")

def exitingEntry (name : Bytes) : Log.Entry :=
  Log.debug .thread (bytes "thread " ++ name.quoted ++ bytes " exiting")

/-- The line about a fault that the function of a thread has let out. -/
def faultEntry (name : Bytes) (f : Fault) : Log.Entry :=
  Log.error .thread <|
    match f.what? with
    | some w => bytes "exception in thread " ++ name.quoted ++ bytes ": " ++ w
    | none => bytes "unknown exception in thread " ++ name.quoted

/-- All that a thread writes around the lines of its function. -/
def entries (name : Bytes) (inner : List Log.Entry) (thrown : Option Fault) : List Log.Entry :=
  startedEntry name :: inner ++ (thrown.map (faultEntry name)).toList ++ [exitingEntry name]

/-- The owner of a thread, or of none. -/
structure Handle where
  name : Bytes := []
  owns : Bool := false
deriving DecidableEq, Repr

namespace Handle

/-- Starts a thread. -/
def start (name : Bytes) : Handle := ⟨name, true⟩

def joinable (h : Handle) : Bool := h.owns

/-- Waits for the thread, unless the call comes from that thread itself. -/
def join (h : Handle) (fromItself : Bool) : Handle :=
  if fromItself then h else { h with owns := false }

/-- The handle that takes over, and the one that is left without a thread. -/
def move (h : Handle) : Handle × Handle := (h, {})

/-- Puts another handle's thread in place of the own one, which is joined before. -/
def assign (_ source : Handle) : Handle × Handle := source.move

end Handle
end Thread
end StagedPipeline
