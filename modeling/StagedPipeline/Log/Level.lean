import StagedPipeline.Bytes

/-!
# Severity levels

Levels are ordered by rank. The seven named ones run from `TRACE` to `OFF`; a
rank outside them is kept and called `UNKNOWN`.
-/
namespace StagedPipeline.Log

/-- A severity. -/
structure Level where
  rank : Int
deriving DecidableEq, Repr, Inhabited

namespace Level

def trace : Level := ⟨0⟩
def debug : Level := ⟨1⟩
def info : Level := ⟨2⟩
def warn : Level := ⟨3⟩
def error : Level := ⟨4⟩
def fatal : Level := ⟨5⟩
def off : Level := ⟨6⟩

/-- The label of a level. -/
def name (l : Level) : Bytes :=
  bytes <| match l.rank with
    | 0 => "TRACE"
    | 1 => "DEBUG"
    | 2 => "INFO"
    | 3 => "WARN"
    | 4 => "ERROR"
    | 5 => "FATAL"
    | 6 => "OFF"
    | _ => "UNKNOWN"

/-- The words for levels; two of them have a second word. -/
def words : List (String × Level) :=
  [("trace", trace), ("debug", debug), ("info", info), ("warn", warn), ("warning", warn),
    ("error", error), ("err", error), ("fatal", fatal), ("off", off)]

/-- The level that a word names, in any ASCII case. -/
def parse? (s : Bytes) : Option Level :=
  (words.find? fun w => s.sameText (bytes w.1)).map Prod.snd

end Level
end StagedPipeline.Log
