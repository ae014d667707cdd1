import StagedPipeline.Proofs.Log.FileSink
import Mathlib.Data.List.Induction
import Mathlib.Tactic.Tauto

/-!
# Which lines reach a sink

Before a line is made, a logger is asked whether it will be written. The answer looks at the
settings alone: at level and category, and at whether the console or file printing is on. It is
right as long as file printing is backed by an open file, or the console is on. The calls after
which file printing is on without a file are known, and so is which calls put an end to that.
-/
namespace StagedPipeline.Log

open FileSystem (Place)

variable {x y : Desk}

namespace Entry

theorem line_ne_nil (stamp thread : Bytes) (e : Entry) : e.line stamp thread ≠ [] := by
  have bracket : bytes "[" ≠ [] := by decide +kernel
  simp [line, bracket]

end Entry

namespace Logger

/-- File printing is on only while a file is open. -/
def Backed (l : Logger) : Prop := l.toFile = true → l.file.isSome = true

/-- Whether the level is high enough for an entry, and its category is among those that are on. -/
def Wanted (l : Logger) (e : Entry) : Prop :=
  l.level.rank ≤ e.level.rank ∧
    (e.category.mask = 0 ∨ l.categories.mask &&& e.category.mask ≠ 0)

theorem willLog_iff (l : Logger) (e : Entry) : l.willLog e.level e.category = true ↔
    l.Wanted e ∧ (l.toConsole = true ∨ l.toFile = true) := by
  simp [willLog, Wanted, Category.meets]

end Logger

namespace Call

/-- Whether file printing is on without a file after a call. -/
def Unbacks (x : Desk) : Call → Prop
  | .setFilePrinting on => on = true ∧ x.1.file = none
  | .setFile path => path = [] ∧ x.1.toFile = true
  | .configure s =>
    ∃ path, s.logFile = some path ∧ (path = [] ∨ x.2.files.openAppend? path = none)
  | _ => False

/-- Whether a call ends that file printing is on without a file, if it does not make it so. -/
def Mends : Call → Prop
  | .setFilePrinting on => on = false
  | .setFile path => path ≠ []
  | .configure s => s.logFile ≠ none
  | _ => False

end Call

namespace Desk

/-! ## What a write delivers -/

/-- A line that is written at this moment reaches the error output, or it comes into the open file
or waits for it. -/
def Delivers (stamp thread : Bytes) (e : Entry) (x : Desk) : Prop :=
  let y : Desk := x.1.write stamp thread e x.2
  y.2.errors = x.2.errors ++ [e.line stamp thread] ∨
    ∃ p, x.1.file = some p ∧
      y.content p ++ y.waiting p = x.content p ++ x.waiting p ++ e.line stamp thread

theorem errors_writeOut (x : Desk) : (x.1.writeOut x.2).2.errors = x.2.errors := by
  unfold Logger.writeOut
  split <;> rfl

theorem errors_write (x : Desk) (stamp thread : Bytes) (e : Entry) :
    (x.1.write stamp thread e x.2).2.errors =
      x.2.errors ++ (if x.1.toConsole = true then [e.line stamp thread] else []) := by
  have line : (x.1.writeLine (e.line stamp thread) x.2).2.errors =
      x.2.errors ++ (if x.1.toConsole = true then [e.line stamp thread] else []) := by
    have shown : (if x.1.toConsole then x.2.complain (e.line stamp thread) else x.2).errors =
        x.2.errors ++ (if x.1.toConsole = true then [e.line stamp thread] else []) := by
      split <;> simp [Host.complain]
    unfold Logger.writeLine
    dsimp only
    split
    · split
      · exact (errors_writeOut (_, _)).trans shown
      · exact shown
    · exact shown
  unfold Logger.write
  dsimp only
  split
  · exact (errors_writeOut _).trans line
  · exact line

/-- What is in a file or waits for it grows by what was accepted. -/
theorem held_of_grows {p : Place} {lines : List Bytes} (grows : Grows p x y lines) :
    y.content p ++ y.waiting p = x.content p ++ x.waiting p ++ lines.flatten := by
  cases grows with
  | wait content waiting => simp [content, waiting]
  | store content waiting => simp [content, waiting]

/-- A line is delivered if the console is on, or file printing with a file open. -/
theorem delivers_iff (ready : x.Ready) (stamp thread : Bytes) (e : Entry) :
    Delivers stamp thread e x ↔
      x.1.toConsole = true ∨ x.1.toFile = true ∧ x.1.file.isSome = true := by
  have line := Entry.line_ne_nil stamp thread e
  have held : ∀ p, _ := fun p => held_of_grows (grows_write ready p stamp thread e).1
  unfold Delivers
  dsimp only
  rw [errors_write]
  constructor
  · rintro (shown | ⟨p, at', grown⟩)
    · left
      by_contra off
      simp [off] at shown
    · right
      refine ⟨?_, by rw [at']; rfl⟩
      by_contra off
      have same := (held p).symm.trans grown
      simp [Call.accepted, off, line] at same
  · rintro (on | ⟨on, isOpen⟩)
    · left
      rw [if_pos on]
    · right
      obtain ⟨p, at'⟩ := Option.isSome_iff_exists.mp isOpen
      refine ⟨p, at', ?_⟩
      simpa [Call.accepted, on, at'] using held p

/-! ## Whether file printing is backed by a file -/

/-- Storing the buffer changes neither file printing nor the file, and not which files can be
opened. -/
theorem writeOut_keeps (x : Desk) :
    (x.1.writeOut x.2).1.toFile = x.1.toFile ∧ (x.1.writeOut x.2).1.file = x.1.file ∧
      ∀ path, (x.1.writeOut x.2).2.files.openAppend? path = none ↔
        x.2.files.openAppend? path = none := by
  unfold Logger.writeOut
  split
  · exact ⟨rfl, rfl, fun _ => FileSystem.openAppend_append _ _⟩
  · exact ⟨rfl, rfl, fun _ => Iff.rfl⟩

theorem write_keeps (x : Desk) (stamp thread : Bytes) (e : Entry) :
    (x.1.write stamp thread e x.2).1.toFile = x.1.toFile ∧
      (x.1.write stamp thread e x.2).1.file = x.1.file := by
  have line : (x.1.writeLine (e.line stamp thread) x.2).1.toFile = x.1.toFile ∧
      (x.1.writeLine (e.line stamp thread) x.2).1.file = x.1.file := by
    unfold Logger.writeLine
    dsimp only
    split
    · split
      · exact ⟨(writeOut_keeps (_, _)).1, (writeOut_keeps (_, _)).2.1⟩
      · exact ⟨rfl, rfl⟩
    · exact ⟨rfl, rfl⟩
  unfold Logger.write
  dsimp only
  split
  · obtain ⟨toFile, file, _⟩ := writeOut_keeps (x.1.writeLine (e.line stamp thread) x.2)
    exact ⟨toFile.trans line.1, file.trans line.2⟩
  · exact line

theorem flush_keeps (x : Desk) :
    (x.1.flush x.2).1.toFile = x.1.toFile ∧ (x.1.flush x.2).1.file = x.1.file := by
  obtain ⟨toFile, file, _⟩ := writeOut_keeps x
  unfold Logger.flush
  split
  · exact ⟨toFile, file⟩
  · exact ⟨rfl, rfl⟩

/-- A change of the file leaves one open if the new one can be opened. If it cannot, file printing
is turned off. -/
theorem setFile_cases (x : Desk) (path : Bytes) :
    ((x.1.setFile path x.2).1.file.isSome = true ↔
      path ≠ [] ∧ x.2.files.openAppend? path ≠ none) ∧
    ((x.1.setFile path x.2).1.toFile = true ↔
      x.1.toFile = true ∧ (path = [] ∨ x.2.files.openAppend? path ≠ none)) := by
  obtain ⟨toFile, _, same⟩ := writeOut_keeps x
  unfold Logger.setFile
  generalize x.1.writeOut x.2 = w at toFile same ⊢
  dsimp only
  simp only [ne_eq, ← same, ← toFile]
  split
  case isTrue empty =>
    have empty := List.isEmpty_iff.mp empty
    simp [empty]
  case isFalse full =>
    have full : path ≠ [] := fun empty => full (by rw [empty]; rfl)
    split <;> simp [*]

theorem backed_setFile (x : Desk) (path : Bytes) :
    (x.1.setFile path x.2).1.Backed ↔ ¬ (Call.setFile path).Unbacks x := by
  obtain ⟨isOpen, printing⟩ := setFile_cases x path
  rw [Logger.Backed, isOpen, printing, Call.Unbacks]
  tauto

/-- A log file in the settings of a run turns file printing on, also if it cannot be opened. -/
theorem backed_configure (s : Settings) (x : Desk) : ((Call.configure s).perform x).1.Backed ↔
    ¬ (Call.configure s).Unbacks x ∧ (x.1.Backed ∨ (Call.configure s).Mends) := by
  obtain ⟨capacity, interval, level, categories, file, console⟩ := s
  cases file with
  | none => cases categories <;> simp [Call.Unbacks, Call.Mends] <;> rfl
  | some path =>
    -- the settings in front of the log file change neither the file nor file printing
    have prepared : ∀ l : Logger, ((l.setFile path x.2).1.setFilePrinting true).Backed ↔
        path ≠ [] ∧ x.2.files.openAppend? path ≠ none := fun l => by
      rw [← (setFile_cases (l, x.2) path).1]
      simp [Logger.Backed, Logger.setFilePrinting]
    have opens : ((Call.configure
        ⟨capacity, interval, level, categories, some path, console⟩).perform x).1.Backed ↔
        path ≠ [] ∧ x.2.files.openAppend? path ≠ none := by
      cases categories <;> exact prepared _
    rw [opens]
    simp [Call.Unbacks, Call.Mends]

/-- A call that changes neither file printing nor the file. -/
theorem backed_same (toFile : y.1.toFile = x.1.toFile) (file : y.1.file = x.1.file) :
    y.1.Backed ↔ ¬ False ∧ (x.1.Backed ∨ False) := by
  rw [Logger.Backed, toFile, file, not_false_iff, true_and, or_false, Logger.Backed]

theorem backed_perform (c : Call) (x : Desk) :
    (c.perform x).1.Backed ↔ ¬ c.Unbacks x ∧ (x.1.Backed ∨ c.Mends) := by
  cases c with
  | write stamp thread e =>
    obtain ⟨toFile, file⟩ := write_keeps x stamp thread e
    exact backed_same toFile file
  | flush => exact backed_same (flush_keeps x).1 (flush_keeps x).2
  | setFile path =>
    refine (backed_setFile x path).trans ?_
    simp only [Call.Unbacks, Call.Mends, Logger.Backed]
    cases x.1.toFile <;> by_cases empty : path = [] <;> simp [empty]
  | configure s => exact backed_configure s x
  | setFilePrinting on =>
    show (on = true → x.1.file.isSome = true) ↔ _
    simp only [Call.Unbacks, Call.Mends, Logger.Backed]
    cases on <;> cases x.1.file <;> simp
  | setConsole _ | setLevel _ | setCategories _ | enable _ | disable _ => exact backed_same rfl rfl

/-- File printing is on without a file just when a call has made it so and none since has ended
that. -/
theorem not_backed_iff (calls : List Call) (h : Host) :
    ¬ (performAll calls (fresh h)).1.Backed ↔
      ∃ before c rest, calls = before ++ c :: rest ∧ c.Unbacks (performAll before (fresh h)) ∧
        ∀ d ∈ rest, ¬ d.Mends := by
  -- on the calls from the last one on, which has made it so or has left it as it was
  induction calls using List.reverseRecOn with
  | nil => simp [fresh, Logger.Backed]
  | append_singleton calls d ih =>
    rw [performAll_append, performAll_cons, performAll_nil, backed_perform]
    constructor
    · intro without
      by_cases now : d.Unbacks (performAll calls (fresh h))
      · exact ⟨calls, d, [], rfl, now, by simp⟩
      · obtain ⟨still, unmended⟩ := not_or.mp fun backed => without ⟨now, backed⟩
        obtain ⟨before, c, rest, rfl, unbacks, none'⟩ := ih.mp still
        refine ⟨before, c, rest ++ [d], by simp, unbacks, fun e mem => ?_⟩
        rcases List.mem_append.mp mem with mem | mem
        · exact none' e mem
        · exact List.mem_singleton.mp mem ▸ unmended
    · rintro ⟨before, c, rest, cut, unbacks, none'⟩ ⟨kept, backed⟩
      rcases List.eq_nil_or_concat rest with rfl | ⟨rest, e, rfl⟩
      · obtain ⟨rfl, rfl⟩ := List.append_inj' cut rfl |>.imp_right List.singleton_inj.mp
        exact kept unbacks
      · rw [List.concat_eq_append, ← List.cons_append, ← List.append_assoc] at cut
        obtain ⟨rfl, rfl⟩ := List.append_inj' cut rfl |>.imp_right List.singleton_inj.mp
        have still := ih.mpr ⟨before, c, rest, rfl, unbacks, fun e mem => none' e (by simp [mem])⟩
        exact backed.elim still (none' d (by simp))

theorem ready_performAll {x : Desk} (ready : x.Ready) (calls : List Call) :
    (performAll calls x).Ready := by
  induction calls generalizing x with
  | nil => exact ready
  | cons c calls ih => exact ih (settles_perform ready [] c).2

/-- After any calls, every line that would reach a sink is let through. The lines that are let
through are just those that would reach a sink, if the console is on or file printing is not on
without a file: a call has made it so, by turning file printing on while no file is open, by closing
the file while it is on, or by applying settings with a log file that cannot be opened, and no call
since has turned it off or named another file. -/
theorem willLog_exact_iff (calls : List Call) (h : Host) :
    let x := performAll calls (fresh h)
    (∀ stamp thread e, x.1.Wanted e ∧ Delivers stamp thread e x →
      x.1.willLog e.level e.category = true) ∧
    ((∀ stamp thread e, x.1.willLog e.level e.category = true ↔
        x.1.Wanted e ∧ Delivers stamp thread e x) ↔
      x.1.toConsole = true ∨
        ¬ ∃ before c rest, calls = before ++ c :: rest ∧ c.Unbacks (performAll before (fresh h)) ∧
          ∀ d ∈ rest, ¬ d.Mends) := by
  intro x
  have ready : x.Ready := ready_performAll (ready_fresh h) calls
  rw [← not_backed_iff, not_not]
  constructor
  · rintro stamp thread e ⟨wanted, delivered⟩
    refine (x.1.willLog_iff e).mpr ⟨wanted, ?_⟩
    exact ((delivers_iff ready stamp thread e).mp delivered).imp_right And.left
  · constructor
    · intro exact'
      by_contra neither
      obtain ⟨off, unbacked⟩ := not_or.mp neither
      obtain ⟨on, without⟩ := Classical.not_imp.mp unbacked
      -- an entry at the level itself and without a category passes, whatever the settings are
      let e : Entry := ⟨x.1.level, .none, []⟩
      have wanted : x.1.Wanted e := ⟨Int.le_refl _, .inl rfl⟩
      have through := (x.1.willLog_iff e).mpr ⟨wanted, .inr on⟩
      have delivered := ((exact' [] [] e).mp through).2
      rcases (delivers_iff ready [] [] e).mp delivered with shown | ⟨_, isOpen⟩
      · exact off shown
      · exact without isOpen
    · intro backed stamp thread e
      rw [x.1.willLog_iff, delivers_iff ready]
      refine and_congr_right fun _ => ⟨fun on => ?_, fun on => on.imp_right And.left⟩
      rcases on with on | on
      · exact .inl on
      · exact backed.imp_right fun backed => ⟨on, backed on⟩

/-- Settings with the console off and a log file in a directory that is not there. -/
def unopenable : Settings := { console := false, logFile := some (bytes "no/x.log") }

/-- Once they are applied, every line of a high enough level is let through, and reaches no sink. -/
theorem unopenable_let_through :
    let x := performAll [.configure unopenable] (fresh {})
    x.1.willLog .error .none = true ∧ ¬ Delivers Stamp.zero [] (error .none []) x := by
  have ready := ready_performAll (ready_fresh {}) [.configure unopenable]
  refine ⟨by decide +kernel, ?_⟩
  rw [delivers_iff ready]
  decide +kernel

end Desk
end StagedPipeline.Log
