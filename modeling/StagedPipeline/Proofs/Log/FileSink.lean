import StagedPipeline.Log.Stamp
import StagedPipeline.Proofs.Log.Calls

/-!
# What comes into a log file

A line is accepted for a file if it is written while the file is open and file printing is on. It
waits in the buffer until the buffer is stored in the file. Whatever the calls are, the accepted
lines come into the file in order, each of them once and whole, but for the lines that a flush has
found waiting while file printing was off: these are dropped.
-/
namespace StagedPipeline.Log

open FileSystem (Place)

variable {p : Place} {x y : Desk}

namespace Call

/-- The line that a call adds to what is to come into a file. -/
def accepted (p : Place) (x : Desk) : Call → List Bytes
  | .write stamp thread e =>
    if x.1.toFile = true ∧ x.1.file = some p then [e.line stamp thread] else []
  | _ => []

/-- The bytes that a call takes out of the buffer of a file and puts nowhere. -/
def dropped (p : Place) (x : Desk) : Call → Bytes
  | .flush => if x.1.toFile = true then [] else x.waiting p
  | _ => []

end Call

namespace Desk

variable {lines : List Bytes}

/-- The lines that some calls add to what is to come into a file. -/
def accepted (p : Place) : List Call → Desk → List Bytes
  | [], _ => []
  | c :: calls, x => c.accepted p x ++ accepted p calls (c.perform x)

/-- The bytes that some calls drop. -/
def dropped (p : Place) : List Call → Desk → Bytes
  | [], _ => []
  | c :: calls, x => c.dropped p x ++ dropped p calls (c.perform x)

/-! ## The buffer is stored -/

theorem waiting_of_other (other : x.1.file ≠ some p) : x.waiting p = [] := by
  rw [waiting, if_neg other]

theorem ready_writeOut (ready : x.Ready) : Ready (x.1.writeOut x.2) := by
  unfold Logger.writeOut
  split
  case h_1 q at' =>
    refine ⟨fun p open' => ?_, fun _ => rfl⟩
    exact FileSystem.hasFile_append (ready.there p open') q _
  case h_2 => exact ready

theorem content_writeOut (ready : x.Ready) (p : Place) :
    content (x.1.writeOut x.2) p = x.content p ++ x.waiting p := by
  unfold Logger.writeOut
  split
  case h_1 q at' =>
    have appended := FileSystem.contentAt_append (ready.there q at') x.1.pending p
    have same : q = p ↔ p = q := eq_comm
    simpa [content, waiting, at', same] using appended
  case h_2 none' => rw [waiting_of_other (by simp [none']), List.append_nil]

theorem waiting_writeOut (x : Desk) (p : Place) : waiting (x.1.writeOut x.2) p = [] := by
  unfold Logger.writeOut
  split
  case h_1 => simp [waiting]
  case h_2 none' => exact waiting_of_other (by simp [none'])

/-! ## What one call does to a file and to the lines that wait for it -/

/-- What becomes of a file between two moments at which `lines` were accepted for it and nothing was
dropped. -/
inductive Grows (p : Place) (x y : Desk) (lines : List Bytes) : Prop where
  /-- The lines wait behind those that have waited before. -/
  | wait (content : y.content p = x.content p)
      (waiting : y.waiting p = x.waiting p ++ lines.flatten)
  /-- All that waits is stored. -/
  | store (content : y.content p = x.content p ++ (x.waiting p ++ lines.flatten))
      (waiting : y.waiting p = [])

/-- The same where the lines that wait may be dropped. -/
inductive Settles (p : Place) (x y : Desk) : List Bytes → Bytes → Prop where
  | grow {lines : List Bytes} (grows : Grows p x y lines) : Settles p x y lines []
  | drop (content : y.content p = x.content p) (waiting : y.waiting p = []) :
      Settles p x y [] (x.waiting p)

/-- A call that does nothing to the open file, to the buffer and to the files. -/
theorem grows_same (file : y.1.file = x.1.file) (pending : y.1.pending = x.1.pending)
    (files : y.2.files = x.2.files) : Grows p x y [] :=
  .wait (by rw [content, files, content])
    (by rw [waiting, file, pending, List.flatten_nil, List.append_nil, waiting])

/-- Whatever has waited or was just accepted is stored. -/
theorem grows_writeOut (grows : Grows p x y lines) (ready : y.Ready) :
    Grows p x (y.1.writeOut y.2) lines := by
  have stored := content_writeOut ready p
  refine .store ?_ (waiting_writeOut y p)
  cases grows with
  | wait content waiting => rw [stored, content, waiting]
  | store content waiting => rw [stored, content, waiting, List.append_nil]

/-- The error output is no file. -/
theorem files_shown (x : Desk) (line : Bytes) :
    (if x.1.toConsole then x.2.complain line else x.2).files = x.2.files := by
  split <;> rfl

theorem grows_writeLine (ready : x.Ready) (p : Place) (line : Bytes) :
    Grows p x (x.1.writeLine line x.2)
        (if x.1.toFile = true ∧ x.1.file = some p then [line] else []) ∧
      Ready (x.1.writeLine line x.2) := by
  have files := files_shown x line
  unfold Logger.writeLine
  dsimp only
  generalize (if x.1.toConsole then x.2.complain line else x.2) = shown at files ⊢
  split
  case isTrue taken =>
    obtain ⟨printing, isOpen⟩ := Bool.and_eq_true_iff.mp taken
    obtain ⟨q, at'⟩ := Option.isSome_iff_exists.mp isOpen
    let y : Desk := ({ x.1 with pending := x.1.pending ++ line }, shown)
    have ready' : y.Ready :=
      ⟨fun q open' => files ▸ ready.there q open', fun none' => by rw [at'] at none'; cases none'⟩
    have grows : Grows p x y (if x.1.toFile = true ∧ x.1.file = some p then [line] else []) := by
      refine .wait (by rw [content, files, content]) ?_
      by_cases same : x.1.file = some p
      · simp [waiting, y, same, printing]
      · simp [waiting, y, same]
    split
    · exact ⟨grows_writeOut grows ready', ready_writeOut ready'⟩
    · exact ⟨grows, ready'⟩
  case isFalse left =>
    have nothing : ¬ (x.1.toFile = true ∧ x.1.file = some p) := fun ⟨printing, at'⟩ =>
      left (by rw [printing, at']; rfl)
    rw [if_neg nothing]
    exact ⟨grows_same rfl rfl files, ready.same rfl rfl files⟩

theorem grows_write (ready : x.Ready) (p : Place) (stamp thread : Bytes) (e : Entry) :
    Grows p x (x.1.write stamp thread e x.2) ((Call.write stamp thread e).accepted p x) ∧
      Ready (x.1.write stamp thread e x.2) := by
  obtain ⟨grows, ready'⟩ := grows_writeLine ready p (e.line stamp thread)
  unfold Logger.write
  dsimp only
  split
  · exact ⟨grows_writeOut grows ready', ready_writeOut ready'⟩
  · exact ⟨grows, ready'⟩

/-- Changing the file stores what waits for the old one, and nothing waits for the new one. -/
theorem grows_setFile (ready : x.Ready) (p : Place) (path : Bytes) :
    Grows p x (x.1.setFile path x.2) [] ∧ Ready (x.1.setFile path x.2) := by
  have stored := content_writeOut ready p
  have ready' := ready_writeOut ready
  have grows : ∀ y : Desk, y.content p = content (x.1.writeOut x.2) p → y.1.pending = [] →
      Grows p x y [] := fun y same empty => by
    refine .store ?_ ?_
    · rw [same, stored, List.flatten_nil, List.append_nil]
    · rw [waiting, empty, ite_self]
  unfold Logger.setFile
  generalize x.1.writeOut x.2 = w at stored ready' grows ⊢
  dsimp only
  split
  case isTrue => exact ⟨grows _ rfl rfl, fun _ none' => (nomatch none'), fun _ => rfl⟩
  case isFalse =>
    split
    case h_1 q files opened =>
      obtain ⟨there, same⟩ := FileSystem.opened_append opened
      refine ⟨grows _ (same p).1 rfl, fun q' at' => ?_, fun _ => rfl⟩
      exact Option.some.inj at' ▸ there
    case h_2 => exact ⟨grows _ rfl rfl, fun _ none' => (nomatch none'), fun _ => rfl⟩

theorem settles_flush (ready : x.Ready) (p : Place) :
    Settles p x (x.1.flush x.2) [] (Call.flush.dropped p x) ∧ Ready (x.1.flush x.2) := by
  unfold Logger.flush Call.dropped
  split
  case isTrue =>
    have stored := content_writeOut ready p
    have ready' := ready_writeOut ready
    generalize x.1.writeOut x.2 = w at stored ready' ⊢
    refine ⟨.grow (.store ?_ ?_), ready'.there, fun _ => rfl⟩
    · rw [List.flatten_nil, List.append_nil]
      exact stored
    · simp [waiting]
  case isFalse => exact ⟨.drop rfl (by simp [waiting]), ready.there, fun _ => rfl⟩

/-- A setting is no reason to drop anything. -/
theorem grows_setting (ready : x.Ready) (p : Place) {c : Call} (setting : c.isSetting = true) :
    Grows p x (c.perform x) [] ∧ Ready (c.perform x) := by
  cases c with
  | setFile path => exact grows_setFile ready p path
  | write _ _ _ | flush | configure _ => cases setting
  | setFilePrinting on | setConsole on | setLevel l | setCategories c | enable c | disable c =>
    exact ⟨grows_same rfl rfl rfl, ready.same rfl rfl rfl⟩

theorem grows_trans {z : Desk} (first : Grows p x y []) (second : Grows p y z []) :
    Grows p x z [] := by
  rcases first with ⟨content, waiting⟩ | ⟨content, waiting⟩ <;>
    rcases second with ⟨content', waiting'⟩ | ⟨content', waiting'⟩
  · exact .wait (by rw [content', content]) (by simp [waiting', waiting])
  · exact .store (by simp [content', content, waiting]) waiting'
  · exact .store (by rw [content', content]) (by simp [waiting', waiting])
  · exact .store (by simp [content', content, waiting]) waiting'

theorem grows_settings (ready : x.Ready) (p : Place) {calls : List Call}
    (settings : ∀ c ∈ calls, c.isSetting = true) :
    Grows p x (performAll calls x) [] ∧ Ready (performAll calls x) := by
  induction calls generalizing x with
  | nil => exact ⟨grows_same rfl rfl rfl, ready⟩
  | cons c calls ih =>
    obtain ⟨setting, settings⟩ := List.forall_mem_cons.mp settings
    obtain ⟨grows, ready'⟩ := grows_setting ready p setting
    exact (ih ready' settings).imp_left (grows_trans grows)

theorem settles_perform (ready : x.Ready) (p : Place) (c : Call) :
    Settles p x (c.perform x) (c.accepted p x) (c.dropped p x) ∧ Ready (c.perform x) := by
  cases c with
  | write stamp thread e => exact (grows_write ready p stamp thread e).imp_left .grow
  | flush => exact settles_flush ready p
  | configure s =>
    rw [perform_configure]
    exact (grows_settings ready p (isSetting_settingCalls s)).imp_left .grow
  | setFile _ | setFilePrinting _ | setConsole _ | setLevel _ | setCategories _ | enable _
  | disable _ => exact (grows_setting ready p rfl).imp_left .grow

/-! ## What a run of calls does -/

/-- The lines that were stored, of those whose fate is known. -/
def stored (fates : List (Bytes × Bool)) : List Bytes := (fates.filter Prod.snd).map Prod.fst

/-- The lines that were dropped. -/
def missing (fates : List (Bytes × Bool)) : List Bytes := (fates.filter fun f => !f.2).map Prod.fst

@[simp] theorem stored_append (fates more : List (Bytes × Bool)) :
    stored (fates ++ more) = stored fates ++ stored more := by simp [stored]

@[simp] theorem missing_append (fates more : List (Bytes × Bool)) :
    missing (fates ++ more) = missing fates ++ missing more := by simp [missing]

@[simp] theorem stored_same (lines : List Bytes) (b : Bool) :
    stored (lines.map (·, b)) = if b then lines else [] := by
  cases b <;> simp [stored, List.filter_map, Function.comp_def]

@[simp] theorem missing_same (lines : List Bytes) (b : Bool) :
    missing (lines.map (·, b)) = if b then [] else lines := by
  cases b <;> simp [missing, List.filter_map, Function.comp_def]

theorem length_fates (fates : List (Bytes × Bool)) :
    (fates.map Prod.fst).flatten.length =
      (stored fates).flatten.length + (missing fates).flatten.length := by
  induction fates with
  | nil => rfl
  | cons f fates ih =>
    obtain ⟨line, kept⟩ := f
    cases kept <;> simp [stored, missing] at ih ⊢ <;> omega

theorem flatten_stored {fates : List (Bytes × Bool)} (none' : (missing fates).flatten = []) :
    (stored fates).flatten = (fates.map Prod.fst).flatten := by
  induction fates with
  | nil => rfl
  | cons f fates ih =>
    obtain ⟨line, kept⟩ := f
    cases kept <;> simp_all [stored, missing]

/-- The lines that were accepted for a file so far: those that were stored or dropped, each with
its fate, and behind them those that wait. -/
structure Accounts (p : Place) (before : Bytes) (lines : List Bytes) (lost : Bytes) (x : Desk)
    (fates : List (Bytes × Bool)) (held : List Bytes) : Prop where
  lines : lines = fates.map Prod.fst ++ held
  content : x.content p = before ++ (stored fates).flatten
  lost : lost = (missing fates).flatten
  waiting : x.waiting p = held.flatten

theorem accounts_settles {before lost gone : Bytes} {more held : List Bytes}
    {fates : List (Bytes × Bool)} (h : Accounts p before lines lost x fates held)
    (settles : Settles p x y more gone) :
    ∃ fates held, Accounts p before (lines ++ more) (lost ++ gone) y fates held := by
  obtain ⟨all, content, missed, waiting⟩ := h
  rcases settles with ⟨⟨content', waiting'⟩ | ⟨content', waiting'⟩⟩ | ⟨content', waiting'⟩
  · refine ⟨fates, held ++ more, ?_, by rw [content', content], by simpa using missed, ?_⟩
    · rw [all, List.append_assoc]
    · rw [waiting', waiting, List.flatten_append]
  · refine ⟨fates ++ (held ++ more).map (·, true), [], ?_, ?_, ?_, waiting'⟩
    · simp [all, Function.comp_def]
    · rw [content', content, waiting, stored_append, stored_same]
      simp
    · rw [missing_append, missing_same]
      simpa using missed
  · refine ⟨fates ++ held.map (·, false), [], ?_, ?_, ?_, waiting'⟩
    · simp [all, Function.comp_def]
    · rw [content', content, stored_append, stored_same]
      simp
    · rw [missing_append, missing_same, missed, waiting]
      simp

theorem accounts_run {before lost : Bytes} {held : List Bytes} {fates : List (Bytes × Bool)}
    (h : Accounts p before lines lost x fates held) (ready : x.Ready) (calls : List Call) :
    ∃ fates held, Accounts p before (lines ++ accepted p calls x) (lost ++ dropped p calls x)
      (performAll calls x) fates held := by
  induction calls generalizing x lines lost fates held with
  | nil => exact ⟨fates, held, by simpa [accepted, dropped] using h⟩
  | cons c calls ih =>
    obtain ⟨settles, ready'⟩ := settles_perform ready p c
    obtain ⟨fates, held, h'⟩ := accounts_settles h settles
    have later := ih h' ready'
    rwa [List.append_assoc, List.append_assoc] at later

theorem accounts_fresh (p : Place) (h : Host) :
    Accounts p (h.files.contentAt p) [] [] (fresh h) [] [] :=
  ⟨rfl, (List.append_nil _).symm, rfl, rfl⟩

theorem dropped_flush_eq_nil_iff : Call.flush.dropped p x = [] ↔
    (x.1.file = some p → x.1.toFile = false → x.1.pending = []) := by
  cases on : x.1.toFile with
  | true => simp [Call.dropped, on]
  | false => simp [Call.dropped, on, waiting]

/-- Nothing is dropped just when each flush has found file printing on or nothing waiting. -/
theorem dropped_eq_nil_iff (calls : List Call) (x : Desk) : dropped p calls x = [] ↔
    ∀ before rest, calls = before ++ .flush :: rest →
      (performAll before x).1.file = some p → (performAll before x).1.toFile = false →
        (performAll before x).1.pending = [] := by
  induction calls generalizing x with
  | nil => simp [dropped]
  | cons c calls ih =>
    rw [dropped, List.append_eq_nil_iff, ih]
    constructor
    · rintro ⟨now, later⟩ before rest cut
      rcases List.cons_eq_append_iff.mp cut with ⟨rfl, same⟩ | ⟨before', rfl, cut'⟩
      · obtain ⟨rfl, -⟩ := List.cons.inj same
        exact dropped_flush_eq_nil_iff.mp now
      · exact later before' rest cut'
    · intro never
      refine ⟨?_, fun before rest cut => never (c :: before) rest (by rw [cut]; rfl)⟩
      cases c with
      | flush => exact dropped_flush_eq_nil_iff.mpr (never [] calls rfl)
      | _ => rfl

theorem waiting_flush (x : Desk) (p : Place) : waiting (x.1.flush x.2) p = [] := by
  have empty : (x.1.flush x.2).1.pending = [] := by
    unfold Logger.flush
    split <;> rfl
  rw [waiting, empty, ite_self]

theorem accepted_append (calls more : List Call) (x : Desk) :
    accepted p (calls ++ more) x = accepted p calls x ++ accepted p more (performAll calls x) := by
  induction calls generalizing x with
  | nil => rfl
  | cons c calls ih => simp [accepted, ih]

/-- What some calls and a last flush make of a file. Each line that was accepted for it is stored or
dropped; what is stored comes to the end of the file, in order, and what is dropped are the lines
that a flush has found waiting while file printing was off. So the file holds all of the lines just
when there was no such flush. -/
theorem lines_filed (p : Place) (calls : List Call) (h : Host) :
    let filed := (performAll (calls ++ [.flush]) (fresh h)).content p
    let lines := accepted p calls (fresh h)
    (∃ fates, fates.map Prod.fst = lines ∧
      filed = h.files.contentAt p ++ (stored fates).flatten ∧
      (missing fates).flatten = dropped p (calls ++ [.flush]) (fresh h)) ∧
    (filed = h.files.contentAt p ++ lines.flatten ↔
      ∀ before rest, calls ++ [.flush] = before ++ .flush :: rest →
        let l := (performAll before (fresh h)).1
        l.file = some p → l.toFile = false → l.pending = []) := by
  intro filed lines
  obtain ⟨fates, held, all, content, lost, waiting⟩ :=
    accounts_run (accounts_fresh p h) (ready_fresh h) (calls ++ [.flush])
  have empty : held.flatten = [] := by
    rw [← waiting, performAll_append]
    exact waiting_flush _ p
  have all : lines = fates.map Prod.fst ++ held := by
    rw [List.nil_append, accepted_append] at all
    simpa [accepted, Call.accepted] using all
  have flattened : lines.flatten = (fates.map Prod.fst).flatten := by
    rw [all, List.flatten_append, empty, List.append_nil]
  have content : filed = h.files.contentAt p ++ (stored fates).flatten := content
  have lost : dropped p (calls ++ [.flush]) (fresh h) = (missing fates).flatten := lost
  refine ⟨⟨fates ++ held.map (·, true), ?_, ?_, ?_⟩, ?_⟩
  · simp [all, Function.comp_def]
  · rw [stored_append, stored_same, if_pos rfl, List.flatten_append, empty, List.append_nil]
    exact content
  · rw [missing_append, missing_same]
    simpa using lost.symm
  · rw [← dropped_eq_nil_iff, lost]
    rw [content, List.append_cancel_left_eq, flattened]
    constructor
    · intro same
      have lengths := length_fates fates
      rw [← same] at lengths
      exact List.length_eq_zero_iff.mp (by omega)
    · exact flatten_stored

/-- A line that waits while file printing is turned off, and then a flush. -/
def switchedOff : List Call :=
  [.setFile (bytes "x.log"), .setFilePrinting true,
    .write Stamp.zero (bytes "main") (info .channel (bytes "a")), .setFilePrinting false]

/-- The line was accepted for the file, but the file does not hold it. -/
theorem waiting_line_lost :
    (performAll (switchedOff ++ [.flush]) (fresh {})).content [bytes "x.log"] ≠
      (fresh {}).content [bytes "x.log"] ++
        (accepted [bytes "x.log"] switchedOff (fresh {})).flatten := by
  decide +kernel

end Desk
end StagedPipeline.Log
