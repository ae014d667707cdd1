import StagedPipeline.Proofs.FileSystem.Contents
import StagedPipeline.Settings

/-!
# The calls on a logger

A logger is used by calls, one after the other: its settings are changed, its file is changed, lines
are written and the buffer is flushed. Every call keeps it ready: a file that it has open is there,
and nothing waits while it has no file open.
-/
namespace StagedPipeline.Log

open FileSystem (Place)

/-- A logger at its place of work. -/
abbrev Desk := Logger × Host

/-- A call on a logger. -/
inductive Call where
  | write (stamp thread : Bytes) (e : Entry)
  | flush
  | setFile (path : Bytes)
  | setFilePrinting (on : Bool)
  | setConsole (on : Bool)
  | setLevel (level : Level)
  | setCategories (c : Category)
  | enable (c : Category)
  | disable (c : Category)
  /-- The settings of a run are applied. -/
  | configure (s : Settings)

namespace Call

/-- What a call makes of a desk. -/
def perform : Call → Desk → Desk
  | .write stamp thread e, (l, h) => l.write stamp thread e h
  | .flush, (l, h) => l.flush h
  | .setFile path, (l, h) => l.setFile path h
  | .setFilePrinting on, (l, h) => (l.setFilePrinting on, h)
  | .setConsole on, (l, h) => (l.setConsole on, h)
  | .setLevel level, (l, h) => (l.setLevel level, h)
  | .setCategories c, (l, h) => (l.setCategories c, h)
  | .enable c, (l, h) => (l.enable c, h)
  | .disable c, (l, h) => (l.disable c, h)
  | .configure s, (l, h) => s.applyLogging l h

/-- Whether a call changes one setting, or the file. -/
@[simp] def isSetting : Call → Bool
  | .write _ _ _ | .flush | .configure _ => false
  | _ => true

end Call

namespace Desk

/-- The desk of a logger that was not used yet. -/
def fresh (h : Host) : Desk := ({}, h)

/-- Carries out some calls, in order. -/
def performAll (calls : List Call) (x : Desk) : Desk := calls.foldl (fun x c => c.perform x) x

@[simp] theorem performAll_nil (x : Desk) : performAll [] x = x := rfl

@[simp] theorem performAll_cons (c : Call) (calls : List Call) (x : Desk) :
    performAll (c :: calls) x = performAll calls (c.perform x) := rfl

@[simp] theorem performAll_append (calls more : List Call) (x : Desk) :
    performAll (calls ++ more) x = performAll more (performAll calls x) := List.foldl_append

/-- The calls that apply the settings of a run. -/
def settingCalls (s : Settings) : List Call :=
  [.setLevel s.logLevel] ++ (s.logCategories.map Call.setCategories).toList ++
    [.setConsole s.console] ++
    match s.logFile with
    | none => []
    | some path => [.setFile path, .setFilePrinting true]

theorem perform_configure (s : Settings) (x : Desk) :
    (Call.configure s).perform x = performAll (settingCalls s) x := by
  obtain ⟨l, h⟩ := x
  obtain ⟨capacity, interval, level, categories, file, console⟩ := s
  cases categories <;> cases file <;> rfl

theorem isSetting_settingCalls (s : Settings) : ∀ c ∈ settingCalls s, c.isSetting = true := by
  obtain ⟨capacity, interval, level, categories, file, console⟩ := s
  cases categories <;> cases file <;> simp [settingCalls]

/-- What the file at a place holds. -/
def content (x : Desk) (p : Place) : Bytes := x.2.files.contentAt p

/-- What waits for the file at a place. -/
def waiting (x : Desk) (p : Place) : Bytes := if x.1.file = some p then x.1.pending else []

/-- A file that is open is there, and nothing waits while none is open. -/
structure Ready (x : Desk) : Prop where
  there : ∀ p, x.1.file = some p → x.2.files.HasFile p
  idle : x.1.file = none → x.1.pending = []

variable {x y : Desk}

theorem ready_fresh (h : Host) : (fresh h).Ready := ⟨fun _ none' => (nomatch none'), fun _ => rfl⟩

/-- Only the open file, the buffer and the files matter for this. -/
theorem Ready.same (ready : x.Ready) (file : y.1.file = x.1.file)
    (pending : y.1.pending = x.1.pending) (files : y.2.files = x.2.files) : y.Ready where
  there p at' := files ▸ ready.there p (file ▸ at')
  idle none' := pending.trans (ready.idle (file ▸ none'))

end Desk
end StagedPipeline.Log
