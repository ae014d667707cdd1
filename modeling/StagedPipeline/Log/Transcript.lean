import StagedPipeline.Log.Logger
import StagedPipeline.Log.Stamp

/-!
# Transcripts

A transcript is what a reader of a log keeps: lines without their time stamps,
each under a label, such as the thread that it came from. A place, `[file:line:column]`,
may stand at the end of a line; it is left out as well, if the name of the file has one
of the endings that the reader does not care for.
-/
namespace StagedPipeline.Log

/-- Lines under labels, in order. -/
abbrev Transcript := List (Bytes × Bytes)

namespace Transcript

/-- The text that has a given end, without that end. -/
def dropEnd? (tail text : Bytes) : Option Bytes :=
  if tail.isSuffixOf text then some (text.take (text.length - tail.length)) else none

/-- A text without the number at its end and the colon in front of that. -/
def dropNumber? (text : Bytes) : Option Bytes :=
  let digits := text.reverse.takeWhile Stamp.isDigit
  if digits.isEmpty then none else dropEnd? (bytes ":") (text.take (text.length - digits.length))

/-- What stands in front of the last blank with an opening bracket behind it. -/
def beforeBracket? : Bytes → Option Bytes
  | [] => none
  | b :: rest =>
    match beforeBracket? rest with
    | some front => some (b :: front)
    | none => if b == 32 && rest.head? == some 91 then some [] else none

/-- A line without the place at its end, and without the blank in front of it. The name
of the file has one of some endings, and is taken to begin behind the last opening bracket
that follows a blank. -/
def dropPlace? (endings : List Bytes) (line : Bytes) : Option Bytes := do
  let front ← dropEnd? (bytes "]") line >>= dropNumber? >>= dropNumber?
  if endings.any (·.isSuffixOf front) then beforeBracket? front else none

/-- A stamped line without its stamp, its line feed and its place. -/
def bare? (endings : List Bytes) (line : Bytes) : Option Bytes := do
  match ← Stamp.after? line with
  | 32 :: text =>
    let text := (dropEnd? [10] text).getD text
    pure ((dropPlace? endings text).getD text)
  | _ => none

/-- What follows the next closing bracket and the blank after it. -/
def afterBracket (text : Bytes) : Bytes := (text.dropWhile (· != 93)).drop 2

/-- The name of the thread in a line without its stamp: it stands in brackets behind
the level and the category. -/
def threadOf (text : Bytes) : Bytes :=
  match afterBracket (afterBracket text) with
  | 91 :: rest => rest.takeWhile (· != 93)
  | _ => []

/-- The stamped lines of a text, each under its thread, and all its other lines together, as
they stand in the text. A line feed in a message begins a line without a stamp. -/
def ofText (endings : List Bytes) (text : Bytes) : Transcript × Bytes :=
  (text.fullLines.filterMap fun l => (bare? endings l).map fun t => (threadOf t, t),
    (text.fullLines.filter fun l => (bare? endings l).isNone).flatten)

/-- Order of labels: by their bytes, and the shorter one first. -/
def before : Bytes → Bytes → Bool
  | [], _ => true
  | _ :: _, [] => false
  | a :: s, b :: t => if a == b then before s t else a < b

/-- The lines of each label, in order of the labels. -/
def groups (t : Transcript) : List (Bytes × List Bytes) :=
  ((t.map Prod.fst).eraseDups.mergeSort before).map fun label =>
    (label, (t.filter (·.1 == label)).map Prod.snd)

end Transcript

/-- A logger with its surroundings, and what it has written to the error output under
the labels of those who spoke. -/
structure Observed where
  logger : Logger := {}
  host : Host := {}
  /-- The endings of the files whose places are left out. -/
  endings : List Bytes := []
  transcript : Transcript := []

namespace Observed

/-- Calls the logger. The lines that it writes to the error output stand under a label. -/
def watch (label : Bytes) (call : Logger → Host → Logger × Host) (o : Observed) : Observed :=
  let (logger, host) := call o.logger { o.host with errors := [] }
  let lines := (Bytes.fullLines host.errors.flatten).filterMap (Transcript.bare? o.endings)
  { o with
    logger
    host := { host with errors := o.host.errors ++ host.errors }
    transcript := o.transcript ++ lines.map (label, ·) }

/-- Takes away what was written to the error output, and nothing of it is kept. -/
def takeErrors (o : Observed) : Bytes × Observed :=
  (o.host.errors.flatten, { o with host.errors := [], transcript := [] })

/-- A thread speaks under a label. -/
def say (label thread : Bytes) (o : Observed) (e : Entry) : Observed :=
  o.watch label (Logger.log Stamp.zero thread e)

/-- The files as they are once a thread has spoken. -/
def filesAfter (label thread : Bytes) (o : Observed) (e : Entry) : FileSystem :=
  (o.say label thread e).host.files

/-- A thread speaks several times. -/
def sayAll (label thread : Bytes) (o : Observed) (es : List Entry) : Observed :=
  es.foldl (say label thread) o

end Observed
end StagedPipeline.Log
