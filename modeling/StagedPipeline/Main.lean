import StagedPipeline.Checksum
import StagedPipeline.Log.Calendar
import Std.Time.DateTime.Timestamp

/-!
# The command line of the checksum program

The program itself is a function of the command line, the time and the files that it
can look up. What stands here finds those files, runs it, and carries out what it has
decided: the output, the complaints, the new content of the log file and the status.
-/
open StagedPipeline

namespace StagedPipeline.Main

/-- The text of a path, if it can be written down as one. -/
def textOf (path : Bytes) : Option String := String.fromUTF8? ⟨path.untilZero.toArray⟩

/-- What there is at the end of a path. What is there and cannot be read counts as locked. -/
def find (path : Bytes) : IO (Option FileSystem.Node) := do
  match textOf path with
  | none => pure none
  | some text =>
    try
      let real ← IO.FS.realPath (if text.isEmpty then "/" else text)
      if ← real.isDir then pure (some .directory)
      else if ← real.pathExists then
        try pure (some (.file (← IO.FS.readBinFile real).toList))
        catch _ => pure (some .locked)
      else pure none
    catch _ => pure none

/-- Looks at everything on the way to the end of a path. -/
def look (fs : FileSystem) (path : Bytes) : IO FileSystem :=
  (FileSystem.waypoints path).foldlM (fun fs p => do
    match ← find p with
    | some n => pure (fs.observe p n)
    | none => pure fs) fs

/-- The place that the program works in. -/
def workingPlace : IO FileSystem.Place := do
  let path := bytes (toString (← IO.currentDir))
  pure ((path.pieces FileSystem.slash).filter fun p => !p.isEmpty)

/-- The files that the program can look up with a command line: the configuration file,
and then those that it names itself or that the command line names. -/
def files (argv : List Bytes) : IO FileSystem := do
  let config := Config.addArguments {} argv
  let fs ← (config.get? (bytes "conf")).toList.foldlM look { working := ← workingPlace }
  let (config, _, _) := Settings.ofConfig config fs fun _ => fs
  (Checksum.paths config ++ (config.get? (bytes "logfile")).toList).foldlM look fs

/-- The time, as log lines show it. -/
def stamp : IO Bytes := do
  let now ← Std.Time.Timestamp.now
  pure (Log.Stamp.ofMillis now.toMillisecondsSinceUnixEpoch.val.toNat)

/-- Writes the log file, if the run has changed it. -/
def saveLog (fs : FileSystem) (report : Checksum.Report) : IO Unit := do
  match report.logger.file with
  | some place =>
    match report.host.files.node? place with
    | some (.file content) =>
      if fs.node? place != some (.file content) then
        if let some path := textOf (place.flatMap fun name => FileSystem.slash :: name) then
          IO.FS.writeBinFile path ⟨content.toArray⟩
    | _ => pure ()
  | none => pure ()

end StagedPipeline.Main

open StagedPipeline.Main in
def main (args : List String) : IO UInt32 := do
  let argv := bytes "sluice-sum" :: args.map bytes
  let fs ← files argv
  let report := Checksum.run (← stamp) argv {} { files := fs }
  (← IO.getStdout).write ⟨report.output.toArray⟩
  (← IO.getStderr).write ⟨report.host.errors.flatten.toArray⟩
  saveLog fs report
  pure report.status.toUInt32
