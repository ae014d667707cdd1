import StagedPipeline.Log.Level
import StagedPipeline.Log.Category

/-!
# Log entries

An entry is what a part of the program has to say, before anyone has decided
whether it is written down. A line is an entry with a time stamp and the name of
the thread that it came from.
-/
namespace StagedPipeline.Log

/-- A message with its severity and subject. -/
structure Entry where
  level : Level
  category : Category
  message : Bytes
deriving DecidableEq, Repr

namespace Entry

/-- One line of a log. A thread without a name leaves no brackets behind. -/
def line (stamp thread : Bytes) (e : Entry) : Bytes :=
  bytes "[" ++ stamp ++ bytes "] [" ++ e.level.name ++ bytes "] [" ++ e.category.name ++ bytes "] "
    ++ (if thread.isEmpty then [] else bytes "[" ++ thread ++ bytes "] ")
    ++ e.message ++ bytes "\n"

end Entry

def trace (c : Category) (message : Bytes) : Entry := ⟨.trace, c, message⟩
def debug (c : Category) (message : Bytes) : Entry := ⟨.debug, c, message⟩
def info (c : Category) (message : Bytes) : Entry := ⟨.info, c, message⟩
def warn (c : Category) (message : Bytes) : Entry := ⟨.warn, c, message⟩
def error (c : Category) (message : Bytes) : Entry := ⟨.error, c, message⟩

end StagedPipeline.Log
