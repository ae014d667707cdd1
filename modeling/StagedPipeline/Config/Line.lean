import StagedPipeline.Bytes

/-!
# Settings as they are written

A setting is written as a command line argument, `-key=value` or `--key=value`,
or as a line of a file, `key=value`. Keys and values are trimmed. A key that
stands alone is a flag and has the value `1`. This module reads one argument and
one line.
-/
namespace StagedPipeline.Config

/-- A key with one value. -/
abbrev Setting := Bytes × Bytes

/-- The value of a key that stands alone. -/
def flagValue : Bytes := bytes "1"

/-- The first byte of a comment line. -/
def commentMark : UInt8 := 35

/-- The byte between key and value. -/
def equalsSign : UInt8 := 61

/-- The byte that an option begins with. -/
@[match_pattern]
def dash : UInt8 := 45

/-- What a command line argument says. -/
inductive Argument where
  | nothing
  | positional (s : Bytes)
  | setting (s : Setting)
deriving DecidableEq, Repr

/-- Key and value of a text, each trimmed. -/
def splitSetting (s : Bytes) : Setting :=
  match s.cut equalsSign with
  | some (k, v) => (k.trim, v.trim)
  | none => (s.trim, flagValue)

/-- Takes one or two dashes off the front. -/
def stripDashes : Bytes → Bytes
  | dash :: dash :: s => s
  | dash :: s => s
  | s => s

/-- Reads one argument. A lone dash is a positional argument. -/
def Argument.parse (arg : Bytes) : Argument :=
  if arg.isEmpty then .nothing
  else if arg.head? != some dash || arg == [dash] then .positional arg
  else .setting (splitSetting (stripDashes arg))

/-- What a line of a configuration file says. -/
inductive Line where
  | nothing
  | setting (s : Setting)
  /-- A line that has a value but no key. -/
  | keyless
deriving DecidableEq, Repr

/-- Reads one line. Blank lines and comments say nothing. -/
def Line.parse (raw : Bytes) : Line :=
  let s := raw.trim
  if s.isEmpty || s.head? == some commentMark then .nothing
  else
    match s.cut equalsSign with
    | none => .setting (s, flagValue)
    | some (k, v) => if k.trim.isEmpty then .keyless else .setting (k.trim, v.trim)

/-- The settings of some lines, up to the first line without a key, and the number
of that line. The first of the lines has number `n`. Lines are counted in 32 bits; a
count that goes on beyond these is taken to wrap around. -/
def readLines (n : Int32) : List Bytes → List Setting × Option Int32
  | [] => ([], none)
  | l :: ls =>
    match Line.parse l with
    | .nothing => readLines (n + 1) ls
    | .setting s => let (rest, bad) := readLines (n + 1) ls; (s :: rest, bad)
    | .keyless => ([], some n)

end StagedPipeline.Config
