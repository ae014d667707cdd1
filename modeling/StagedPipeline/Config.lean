import StagedPipeline.Config.Line
import StagedPipeline.Config.Value
import StagedPipeline.Log.Entry
import StagedPipeline.FileSystem
import StagedPipeline.Outcome

/-!
# Configuration

A configuration has two layers of settings: those of the command line, and those
of configuration files together with values set by the program. A key may have
several values in each. A query for one value takes the first value on the
command line, and only in its absence the first in the other layer; a query for
all values lists both layers.
-/
namespace StagedPipeline

/-- The two layers, each in the order in which the settings arrived, and the
positional arguments. -/
structure Config where
  commandLine : List Config.Setting := []
  files : List Config.Setting := []
  positional : List Bytes := []
deriving DecidableEq, Repr

namespace Config

/-- The values of a key in a layer, in order. -/
def valuesIn (layer : List Setting) (key : Bytes) : List Bytes :=
  (layer.filter (·.1 == key)).map Prod.snd

/-- Adds what one argument says. -/
def addArgument (c : Config) (arg : Bytes) : Config :=
  match Argument.parse arg with
  | .nothing => c
  | .positional s => { c with positional := c.positional ++ [s] }
  | .setting s => { c with commandLine := c.commandLine ++ [s] }

/-- Adds a command line. Its first element, the name of the program, is skipped,
and each argument ends at a zero byte. -/
def addArguments (c : Config) (argv : List Bytes) : Config :=
  (argv.drop 1).foldl (fun c a => c.addArgument a.untilZero) c

/-- The error about a line without a key. -/
def keylessAt (path : Bytes) (n : Int32) : Error :=
  .of .configInvalid
    (bytes "empty key on line " ++ .ofInt n.toInt ++ bytes " of " ++ path.quoted)

/-- Adds the text of a configuration file: all lines up to the first one without a
key, which is an error that names the line and the file. -/
def addText (c : Config) (path text : Bytes) : Config × Outcome Unit :=
  let (settings, bad) := readLines 1 text.lines
  let c := { c with files := c.files ++ settings }
  match bad with
  | none => (c, .ok ())
  | some n => (c, .error (keylessAt path n))

/-- The entry about a configuration file that was opened. -/
def loading (path : Bytes) : Log.Entry :=
  Log.info .config (bytes "loading configuration from " ++ path.quoted)

/-- The text of a configuration file, if it can be opened. It is read after the entry about
it was written, so that the log file itself is read as that entry left it: `later e` is what
the files are once `e` is written. A directory opens and has no lines. -/
def textOf? (fs : FileSystem) (later : Log.Entry → FileSystem) (path : Bytes) : Option Bytes :=
  (fs.read? path).map fun text => ((later (loading path)).read? path).getD text

/-- Adds a configuration file. It has to be there, and open to be read. -/
def addFile (c : Config) (fs : FileSystem) (later : Log.Entry → FileSystem) (path : Bytes) :
    Config × Outcome Unit × List Log.Entry :=
  match textOf? fs later path with
  | none =>
    (c, .error (.of .fileNotFound (bytes "unable to open config file " ++ path.quoted)), [])
  | some text =>
    let (c, r) := c.addText path text
    (c, r, [loading path])

/-- Gives a key a single value in the layer of files. -/
def set (c : Config) (key value : Bytes) : Config :=
  { c with files := c.files.filter (·.1 != key) ++ [(key, value)] }

/-- The values that decide a key: those on the command line if there are any. -/
def effective (c : Config) (key : Bytes) : List Bytes :=
  match valuesIn c.commandLine key with
  | [] => valuesIn c.files key
  | vs => vs

/-- The value of a key. -/
def get? (c : Config) (key : Bytes) : Option Bytes := (c.effective key).head?

def getD (c : Config) (key default : Bytes) : Bytes := (c.get? key).getD default

/-- The integer that a key has, with a complaint if its text denotes none. -/
def getInt (c : Config) (key : Bytes) (default : Int) : Int × List Log.Entry :=
  match c.get? key with
  | none => (default, [])
  | some s =>
    match integer? s with
    | some v => (v, [])
    | none =>
      (default, [Log.error .config
        (bytes "cannot parse " ++ s.quoted ++ bytes " as integer for key " ++ key.quoted)])

/-- The switch that a key has; a text that names no position counts as absent. -/
def getSwitch (c : Config) (key : Bytes) (default : Bool) : Bool :=
  ((c.get? key).bind switch?).getD default

/-- All values of a key, those of the command line first. -/
def getList (c : Config) (key : Bytes) : List Bytes :=
  valuesIn c.commandLine key ++ valuesIn c.files key

def has (c : Config) (key : Bytes) : Bool := !(c.effective key).isEmpty

end Config
end StagedPipeline
