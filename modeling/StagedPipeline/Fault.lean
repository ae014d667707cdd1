import StagedPipeline.Error

/-!
# Faults

A fault ends a call without a result: where an `Error` is an answer, a fault is
the lack of one. It can carry anything. `Fault.describe` says what a task that
catches one writes about it, and `Fault.kind?` tells standard faults apart.
-/
namespace StagedPipeline

namespace Fault

/-- The kinds of standard fault. -/
inductive Kind where
  | invalidArgument
  | outOfRange
  | logicError
  | runtimeError
  | other
deriving DecidableEq, Repr

end Fault

/-- What ends a call abruptly. -/
inductive Fault where
  /-- A standard fault with its text, a terminated string. -/
  | standard (kind : Fault.Kind) (what : Bytes)
  /-- A bare byte string, kept to its full length. -/
  | text (s : Bytes)
  /-- A terminated string, or a null one. -/
  | terminated (s : Option Bytes)
  /-- A value of any other type. -/
  | foreign
deriving DecidableEq, Repr

namespace Fault

def invalidArgument (s : String) : Fault := .standard .invalidArgument (bytes s)

def logicError (s : String) : Fault := .standard .logicError (bytes s)

def runtimeError (s : String) : Fault := .standard .runtimeError (bytes s)

/-- The text of a standard fault, up to its first zero byte. -/
def what? : Fault → Option Bytes
  | .standard _ w => some w.untilZero
  | _ => none

/-- What a task writes about a fault that it caught. -/
def describe : Fault → Bytes
  | .standard _ w => w.untilZero
  | .text s => s
  | .terminated (some s) => s.untilZero
  | .terminated none => bytes "(null)"
  | .foreign => bytes "unknown exception"

/-- The kind of a standard fault; `none` for all others. -/
def kind? : Fault → Option Kind
  | .standard k _ => some k
  | _ => none

end Fault
end StagedPipeline
