import StagedPipeline.Config
import StagedPipeline.Log.Logger

/-!
# Settings of a run

The settings that a pipeline program takes from its configuration, each checked
and with a default for the keys that are absent.
-/
namespace StagedPipeline

/-- What a run is set up with. -/
structure Settings where
  errorCapacity : UInt64 := 4
  /-- In milliseconds. -/
  pollInterval : Int := 10
  logLevel : Log.Level := .info
  logCategories : Option Log.Category := none
  logFile : Option Bytes := none
  console : Bool := true
deriving DecidableEq, Repr

namespace Settings

/-- The value of a key that takes integers from one upwards. -/
def positive (c : Config) (key : Bytes) (default : Int) : Outcome Int :=
  match c.get? key with
  | none => .ok default
  | some s =>
    match Config.integer? s with
    | none =>
      .error (.of .configInvalid (bytes "-" ++ key ++ bytes ": not an integer: " ++ s.quoted))
    | some v =>
      if v < 1 then
        .error (.of .configInvalid (bytes "-" ++ key ++ bytes " must be at least 1, got " ++ s))
      else .ok v

/-- The union of the categories that the pieces name; empty pieces are skipped. -/
def unionOf : List Bytes → Log.Category → Outcome Log.Category
  | [], acc => .ok acc
  | p :: ps, acc =>
    if p.isEmpty then unionOf ps acc
    else
      match Log.Category.parse? p with
      | some c => unionOf ps (acc.union c)
      | none =>
        .error (.of .configInvalid (bytes "-debug: unknown log category " ++ p.quoted))

/-- The categories of a list with commas. -/
def categories (list : Bytes) : Outcome Log.Category := unionOf (list.pieces 44) .none

/-- The level of a configuration. Asking for categories without naming a level
means that debug output is wanted. -/
def level (c : Config) : Outcome Log.Level :=
  match c.get? (bytes "loglevel") with
  | none => .ok (if (c.get? (bytes "debug")).isSome then .debug else .info)
  | some s =>
    match Log.Level.parse? s with
    | some l => .ok l
    | none => .error (.of .configInvalid (bytes "-loglevel: unknown level " ++ s.quoted))

/-- The settings of a configuration into which all files have been merged. The
first key that fails, in the order below, decides the error. -/
def ofMerged (c : Config) : Outcome Settings := do
  let capacity ← positive c (bytes "errcap") 4
  let interval ← positive c (bytes "pollms") 10
  let logLevel ← level c
  let logCategories ←
    match c.get? (bytes "debug") with
    | none => pure none
    | some s => some <$> categories s
  pure {
    errorCapacity := UInt64.ofNat capacity.toNat
    pollInterval := interval
    logLevel, logCategories
    logFile := (c.get? (bytes "logfile")).filter fun p => !p.isEmpty
    console := c.getSwitch (bytes "printtoconsole") true }

/-- The settings of a configuration. The file that `conf` names is merged into the
configuration first, also as far as it goes if it has a bad line; `later` is what the
files are once an entry about it is written. -/
def ofConfig (c : Config) (fs : FileSystem) (later : Log.Entry → FileSystem) :
    Config × Outcome Settings × List Log.Entry :=
  match c.get? (bytes "conf") with
  | none => (c, ofMerged c, [])
  | some path =>
    let (c, r, entries) := c.addFile fs later path
    (c, r.andThen fun _ => ofMerged c, entries)

/-- Applies the settings that speak of logging. -/
def applyLogging (s : Settings) (l : Log.Logger) (h : Log.Host) : Log.Logger × Log.Host :=
  let l := l.setLevel s.logLevel
  let l := match s.logCategories with
    | some c => l.setCategories c
    | none => l
  let l := l.setConsole s.console
  match s.logFile with
  | none => (l, h)
  | some path =>
    let (l, h) := l.setFile path h
    (l.setFilePrinting true, h)

end Settings
end StagedPipeline
