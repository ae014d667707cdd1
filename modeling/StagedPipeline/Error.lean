import StagedPipeline.Bytes

/-!
# Errors as values

An error is a code, a message and possibly the place in a source text that it
speaks of. The error with code zero is the null error, which stands for "no
error". Two errors are equal if their codes are; `same` looks at the message too.
-/
namespace StagedPipeline

/-- A 16-bit code. Codes outside the table below are kept and named `UNKNOWN`. -/
structure ErrorCode where
  value : UInt16
deriving DecidableEq, Repr, Inhabited

namespace ErrorCode

def none : ErrorCode := ⟨0⟩
def streamError : ErrorCode := ⟨100⟩
def streamClosed : ErrorCode := ⟨101⟩
def streamReading : ErrorCode := ⟨102⟩
def producerError : ErrorCode := ⟨200⟩
def producerFault : ErrorCode := ⟨201⟩
def handlerError : ErrorCode := ⟨300⟩
def handlerFault : ErrorCode := ⟨301⟩
def contextCancelled : ErrorCode := ⟨400⟩
def contextDeadline : ErrorCode := ⟨401⟩
def configError : ErrorCode := ⟨500⟩
def configInvalid : ErrorCode := ⟨501⟩
def fileError : ErrorCode := ⟨600⟩
def fileNotFound : ErrorCode := ⟨601⟩
def cryptoError : ErrorCode := ⟨700⟩
def internalError : ErrorCode := ⟨900⟩
def notImplemented : ErrorCode := ⟨901⟩
def outOfMemory : ErrorCode := ⟨902⟩

/-- The label of a code. -/
def name (c : ErrorCode) : Bytes :=
  bytes <| match c.value with
    | 0 => "NONE"
    | 100 => "STREAM_ERROR"
    | 101 => "STREAM_CLOSED"
    | 102 => "STREAM_IO"
    | 200 => "PRODUCER_ERROR"
    | 201 => "PRODUCER_FAULT"
    | 300 => "HANDLER_ERROR"
    | 301 => "HANDLER_FAULT"
    | 400 => "CONTEXT_CANCELLED"
    | 401 => "CONTEXT_DEADLINE"
    | 500 => "CONFIG_ERROR"
    | 501 => "CONFIG_INVALID"
    | 600 => "IO_ERROR"
    | 601 => "IO_NOT_FOUND"
    | 700 => "CRYPTO_ERROR"
    | 900 => "INTERNAL_ERROR"
    | 901 => "NOT_IMPLEMENTED"
    | 902 => "OUT_OF_MEMORY"
    | _ => "UNKNOWN"

end ErrorCode

/-- A place in a source text. The file's name is a terminated string. -/
structure SourcePlace where
  file : Bytes
  line : UInt32
  column : UInt32
deriving DecidableEq, Repr

/-- The bracketed place; a place whose file has no name is none. -/
def SourcePlace.format (p : SourcePlace) : Bytes :=
  let file := p.file.untilZero
  if file.isEmpty then []
  else
    bytes " [" ++ file ++ bytes ":" ++ .ofNat p.line.toNat ++ bytes ":" ++ .ofNat p.column.toNat
      ++ bytes "]"

/-- An error value. -/
structure Error where
  code : ErrorCode
  message : Bytes := []
  place : Option SourcePlace := none
deriving DecidableEq, Repr

namespace Error

/-- The null error, which stands for success. -/
def null : Error := { code := .none }

/-- An error of the given code with a literal message. -/
def of (code : ErrorCode) (message : Bytes) : Error := { code, message }

def isNull (e : Error) : Bool := e.code == .none

/-- Equal codes. -/
def sameCode (a b : Error) : Bool := a.code == b.code

/-- Equal codes and messages; the place does not count. -/
def same (a b : Error) : Bool := a.code == b.code && a.message == b.message

/-- One line for a reader: `NAME(code): message [file:line:column]`, without the
parts that are empty; the null error is `no error`. -/
def format (e : Error) : Bytes :=
  if e.isNull then bytes "no error"
  else
    e.code.name ++ bytes "(" ++ .ofNat e.code.value.toNat ++ bytes ")"
      ++ (if e.message.isEmpty then [] else bytes ": " ++ e.message)
      ++ (e.place.map SourcePlace.format).getD []

end Error
end StagedPipeline
