import StagedPipeline.Pipeline.Narration
import StagedPipeline.Settings

/-!
# The checksum program

The program prints the SHA-256 digest of each file that its command line or its
configuration file names, in order. The files flow through a pipeline of two
stages: a producer that opens them, and a handler that takes digests. What cannot
be opened ends the production; its error is printed and makes the status one.
-/
namespace StagedPipeline.Checksum

open Log (Logger Host)

/-- The help text. -/
def usage : Bytes :=
  bytes ("Usage: sluice-sum [options] -file=PATH [-file=PATH ...] [PATH ...]\n" ++
    "\n" ++
    "Options:\n" ++
    "  -errcap=N           Error Channel capacity (default: 4)\n" ++
    "  -pollms=N           Error Channel poll interval in ms (default: 10)\n" ++
    "  -loglevel=LEVEL     trace, debug, info, warn, error, fatal, off\n" ++
    "  -debug=CAT[,CAT]    Restrict logging to these categories\n" ++
    "  -logfile=PATH       Also log to PATH\n" ++
    "  -printtoconsole=0   Do not log to stderr\n" ++
    "  -conf=PATH          Read options from PATH\n")

/-- The options that ask for help. -/
def helpKeys : List Bytes := [bytes "help", bytes "?", bytes "h"]

/-- How a run has ended. -/
structure Report where
  status : Nat
  /-- What was written to the standard output. -/
  output : Bytes
  logger : Logger
  host : Host

/-- The digests taken so far, each with the path of its file. -/
abbrev Digests := List (Bytes × Bytes)

/-- One line of the standard output. -/
def digestLine (d : Bytes × Bytes) : Bytes :=
  Sha256.toHex d.1 ++ bytes "  " ++ d.2 ++ bytes "\n"

/-- The handler of the second stage. No deadline is ever set, so that the time does
not matter. -/
def handler : Handler Digests :=
  Handler.digest (fun _ => 0) fun ds context digest =>
    (ds ++ [(digest, (context.value? Producer.Files.pathKey).getD (bytes "-"))], none)

/-- The paths of a configuration: those of the key `file`, then the positional ones. -/
def paths (c : Config) : List Bytes := c.getList (bytes "file") ++ c.positional

/-- The pipeline for some paths. -/
def pipeline (fs : FileSystem) (paths : List Bytes) (s : Settings) :
    Except Fault (Pipeline Producer.Files Digests) := do
  let p ← Pipeline.create (some (Producer.Files.next fs, { rest := paths })) s.errorCapacity
    s.pollInterval
  p.append { handler := some handler, memory := [], finalizer := none }

/-- What the application does with the pipeline: it drains it and waits for its tasks. -/
def errands {σ : Type} (s : System (SourceStage Producer.Files) σ) : List Application.Errand :=
  .drain 0 :: s.joining

/-- The digests that the second stage has taken. -/
def digestsOf (s : System (SourceStage Producer.Files) Digests) : Digests :=
  match s.row with
  | [.working stage _] => stage.memory
  | _ => []

/-- Writes an entry of a thread. -/
def log (stamp thread : Bytes) (e : Log.Entry) : Logger × Host → Logger × Host
  | (l, h) => l.log stamp thread e h

/-- Writes what the parties of a system have said. -/
def logHistory (stamp : Bytes) (history : List (Party × Event)) (x : Logger × Host) :
    Logger × Host :=
  history.reverse.foldl (fun x (p, event) =>
    match event.entry? with
    | some e => log stamp p.threadName e x
    | none => x) x

/-- Prints an error of the pipeline. -/
def complain (stamp : Bytes) (x : Logger × Host) (e : Error) : Logger × Host :=
  let (l, h) := x
  l.log stamp Party.mainName (Log.debug .pipeline e.format)
    (h.complain (bytes "sluice-sum: " ++ e.message ++ bytes "\n"))

/-- The pipeline for some paths when it has just been started, with an application that is
to drain it and to wait for its tasks. -/
def launch (fs : FileSystem) (paths : List Bytes) (s : Settings) :
    Except Fault (System (SourceStage Producer.Files) Digests) := do
  let p ← pipeline fs paths s
  let (system, _) ← p.start
  pure (system.plan (errands system))

/-- At least the number of sections in which a pipeline comes to rest that was started for
so many paths. -/
def sections (paths : Nat) : Nat := 16 * paths + 100

/-- How the run ends when the application is done with the pipeline: what was said meanwhile
is written, then the errors, and the digests are the output. -/
def conclude (stamp : Bytes) (x : Logger × Host)
    (system : System (SourceStage Producer.Files) Digests) : Report :=
  let errors := system.application.drained
  let x := logHistory stamp system.history x
  let x := errors.foldl (complain stamp) x
  let x := x.1.flush x.2
  { status := if errors.isEmpty then 0 else 1
    output := (digestsOf system).flatMap digestLine
    logger := x.1, host := x.2 }

/-- Takes the digests, once the settings are known and the logger is set up. -/
def takeDigests (stamp : Bytes) (paths : List Bytes) (s : Settings) (x : Logger × Host) : Report :=
  match launch x.2.files paths s with
  | .error _ => { status := 1, output := [], logger := x.1, host := x.2 }
  | .ok system => conclude stamp x (system.settle (sections paths.length))

/-- The configuration and the settings that a command line and the file that it may name
come to, and what there is to say about that file. -/
def configured (stamp : Bytes) (argv : List Bytes) (logger : Logger) (host : Host) :
    Config × Outcome Settings × List Log.Entry :=
  Settings.ofConfig (Config.addArguments {} argv) host.files
    fun e => (logger.log stamp Party.mainName e host).2.files

/-- The program. `stamp` is the time that is written in front of log lines. -/
def run (stamp : Bytes) (argv : List Bytes) (logger : Logger) (host : Host) : Report :=
  if helpKeys.any (Config.addArguments {} argv).has then
    { status := 0, output := usage, logger, host }
  else
    let (config, settings, entries) := configured stamp argv logger host
    let (logger, host) := logger.logAll stamp Party.mainName entries host
    match settings with
    | .error e =>
      { status := 1, output := [], logger
        host := host.complain (bytes "Error: " ++ e.message ++ bytes "\n") }
    | .ok s =>
      let x := s.applyLogging logger host
      let ps := paths config
      if ps.isEmpty then { status := 1, output := usage, logger := x.1, host := x.2 }
      else takeDigests stamp ps s x

end StagedPipeline.Checksum
