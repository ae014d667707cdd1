import StagedPipeline.Error

/-!
# Contexts

A context travels with a pack and answers three questions: is the work still
wanted, until when, and which values go with it. It is a chain of layers, the
nearest first, above a background that is never done and carries nothing.
-/
namespace StagedPipeline

/-- A reading of the clock, or a span of time. Times are integers without a bound; that a clock
counts in 64 bits, which the sum of two times can leave, is left out. -/
abbrev Time := Int

namespace Context

/-- One layer of a context. -/
structure Layer where
  cancelled : Bool := false
  deadline : Option Time := none
  /-- A key and its value. -/
  entry : Option (Bytes × Bytes) := none
deriving DecidableEq, Repr

end Context

/-- The layers of a context, nearest first. The background has none. -/
abbrev Context := List Context.Layer

namespace Context

def background : Context := []

def withCancel (c : Context) : Context := {} :: c

def withDeadline (deadline : Time) (c : Context) : Context := { deadline := some deadline } :: c

/-- The deadline is the sum of two times, which has no bound here. -/
def withTimeout (now timeout : Time) (c : Context) : Context := c.withDeadline (now + timeout)

def withValue (key value : Bytes) (c : Context) : Context := { entry := some (key, value) } :: c

/-- Cancels the nearest layer. The background cannot be cancelled. -/
def cancel : Context → Context
  | [] => []
  | l :: ls => { l with cancelled := true } :: ls

def cancelledError : Error := .of .contextCancelled (bytes "context cancelled")

def deadlineError : Error := .of .contextDeadline (bytes "context deadline exceeded")

/-- Why the context is done: the nearest layer that is cancelled or past its
deadline decides, and cancellation comes first within a layer. -/
def error? (now : Time) : Context → Option Error
  | [] => none
  | l :: ls =>
    if l.cancelled then some cancelledError
    else if l.deadline.any (· ≤ now) then some deadlineError
    else error? now ls

def isDone (now : Time) (c : Context) : Bool := (c.error? now).isSome

/-- The earliest deadline of all layers. -/
def deadline? : Context → Option Time
  | [] => none
  | l :: ls =>
    match l.deadline, deadline? ls with
    | some a, some b => some (min a b)
    | some a, none => some a
    | none, b => b

/-- The value of the nearest layer that carries a key. -/
def value? (key : Bytes) : Context → Option Bytes
  | [] => none
  | l :: ls =>
    match l.entry with
    | some (k, v) => if k == key then some v else value? key ls
    | none => value? key ls

end Context
end StagedPipeline
