import StagedPipeline.Settings
import StagedPipeline.Log.Logger

/-!
# What the logger writes to the error output

A logger adds to the error output and takes nothing back. All that it adds are the lines of
entries, and the notice that a log file could not be opened.
-/
namespace StagedPipeline

namespace Log

/-- A piece of the error output that a logger may write. -/
inductive Piece (stamp : Bytes) : Bytes → Prop where
  | line (thread : Bytes) (e : Entry) : Piece stamp (e.line stamp thread)
  | notice (path : Bytes) : Piece stamp
      (bytes "Logger: failed to open log file: " ++ Logger.quotedPath path ++ bytes "\n")

namespace Host

/-- Between two moments only a logger has written to the error output. -/
def Hears (stamp : Bytes) (h h' : Host) : Prop :=
  ∃ pieces, h'.errors = h.errors ++ pieces ∧ ∀ piece ∈ pieces, Piece stamp piece

variable {stamp : Bytes} {h h' h'' : Host}

theorem hears_same (same : h'.errors = h.errors) : Hears stamp h h' :=
  ⟨[], by rw [same, List.append_nil], by simp⟩

theorem Hears.trans (first : Hears stamp h h') (second : Hears stamp h' h'') :
    Hears stamp h h'' := by
  obtain ⟨pieces, added, all⟩ := first
  obtain ⟨more, added', all'⟩ := second
  refine ⟨pieces ++ more, by rw [added', added, List.append_assoc], fun piece mem => ?_⟩
  exact (List.mem_append.mp mem).elim (all piece) (all' piece)

theorem hears_complain {piece : Bytes} (ours : Piece stamp piece) (h : Host) :
    Hears stamp h (h.complain piece) :=
  ⟨[piece], rfl, by simpa using ours⟩

end Host

namespace Logger

variable {stamp : Bytes}

theorem hears_writeOut (l : Logger) (h : Host) : Host.Hears stamp h (l.writeOut h).2 := by
  unfold writeOut
  split <;> exact Host.hears_same rfl

theorem hears_flush (l : Logger) (h : Host) : Host.Hears stamp h (l.flush h).2 := by
  unfold flush
  split
  · exact hears_writeOut l h
  · exact Host.hears_same rfl

theorem hears_writeLine (thread : Bytes) (e : Entry) (l : Logger) (h : Host) :
    Host.Hears stamp h (l.writeLine (e.line stamp thread) h).2 := by
  have shown : Host.Hears stamp h
      (if l.toConsole then h.complain (e.line stamp thread) else h) := by
    split
    · exact Host.hears_complain (.line thread e) h
    · exact Host.hears_same rfl
  unfold writeLine
  dsimp only
  split
  · split
    · exact shown.trans (hears_writeOut _ _)
    · exact shown
  · exact shown

theorem hears_write (thread : Bytes) (e : Entry) (l : Logger) (h : Host) :
    Host.Hears stamp h (l.write stamp thread e h).2 := by
  have line : Host.Hears stamp h (l.writeLine (e.line stamp thread) h).2 :=
    hears_writeLine thread e l h
  unfold write
  dsimp only
  split
  · exact line.trans (hears_writeOut _ _)
  · exact line

theorem hears_log (thread : Bytes) (e : Entry) (l : Logger) (h : Host) :
    Host.Hears stamp h (l.log stamp thread e h).2 := by
  unfold log
  split
  · exact hears_write thread e l h
  · exact Host.hears_same rfl

theorem hears_logAll (thread : Bytes) (es : List Entry) (l : Logger) (h : Host) :
    Host.Hears stamp h (l.logAll stamp thread es h).2 := by
  induction es generalizing l h with
  | nil => exact Host.hears_same rfl
  | cons e es ih => exact (hears_log thread e l h).trans (ih _ _)

theorem hears_setFile (path : Bytes) (l : Logger) (h : Host) :
    Host.Hears stamp h (l.setFile path h).2 := by
  have written : Host.Hears stamp h (l.writeOut h).2 := hears_writeOut l h
  unfold setFile
  dsimp only
  split
  · exact written
  · split
    · exact written.trans (Host.hears_same rfl)
    · exact written.trans (Host.hears_complain (.notice path) _)

end Logger
end Log

theorem Settings.hears_applyLogging {stamp : Bytes} (s : Settings) (l : Log.Logger) (h : Log.Host) :
    Log.Host.Hears stamp h (s.applyLogging l h).2 := by
  unfold applyLogging
  cases s.logFile with
  | none => exact Log.Host.hears_same rfl
  | some path => exact Log.Logger.hears_setFile path _ h

end StagedPipeline
