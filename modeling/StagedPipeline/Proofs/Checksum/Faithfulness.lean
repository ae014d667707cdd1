import StagedPipeline.Proofs.Checksum.Digests
import StagedPipeline.Proofs.Log.Console
import StagedPipeline.Proofs.Settings.Validity

/-!
# What the checksum program prints

Whatever the schedule of its threads, the program prints the digest of every file in front of
the first path that cannot be opened, and nothing else. The error of that path, if there is one,
is printed among what the logger writes to the error output, and decides the status.
-/
namespace StagedPipeline.Checksum

open Log (Host Logger Piece)
open Producer.Files (failure? failure?_congr opens content)

variable {stamp : Bytes} {fs fs' : FileSystem} {ps : List Bytes} {h host : Host}

/-- What the program prints about an error. -/
def complaint (e : Error) : Bytes := bytes "sluice-sum: " ++ e.message ++ bytes "\n"

/-- A report of a run for some paths: it tells the digests of the files in front of the first
path that cannot be opened, and complains about that path alone. Pieces of the error output
that stand around this were written by the logger. -/
structure Faithful (stamp : Bytes) (host : Host) (ps : List Bytes) (r : Report) : Prop where
  output : r.output =
    ((ps.takeWhile (opens host.files)).map (digestOf host.files)).flatMap digestLine
  errors : ∃ before after, r.host.errors = host.errors ++ before ++
      ((ps.findSome? (failure? host.files)).map complaint).toList ++ after ∧
    ∀ piece ∈ before ++ after, Piece stamp piece
  status : r.status = if ps.all (opens host.files) then 0 else 1

/-! ## The error output -/

theorem hears_logHistory (history : List (Party × Event)) (x : Logger × Host) :
    Host.Hears stamp x.2 (logHistory stamp history x).2 := by
  unfold logHistory
  generalize history.reverse = said
  induction said generalizing x with
  | nil => exact Host.hears_same rfl
  | cons first said ih =>
    obtain ⟨p, event⟩ := first
    rw [List.foldl_cons]
    refine Host.Hears.trans ?_ (ih _)
    dsimp only
    cases event.entry? with
    | none => exact Host.hears_same rfl
    | some e => exact Logger.hears_log p.threadName e x.1 x.2

/-- One error at most is complained about, and then told to the logger. -/
theorem errors_complain (stamp : Bytes) (e : Option Error) (x : Logger × Host) :
    ∃ after, (e.toList.foldl (complain stamp) x).2.errors =
        x.2.errors ++ (e.map complaint).toList ++ after ∧
      ∀ piece ∈ after, Piece stamp piece := by
  cases e with
  | none => exact ⟨[], by simp, by simp⟩
  | some e =>
    have logged : Host.Hears stamp (x.2.complain (complaint e)) (complain stamp x e).2 :=
      Logger.hears_log Party.mainName (Log.debug .pipeline e.format) x.1 _
    exact logged

/-- The end of a run adds the complaint about the one error at most, and what the logger
writes. -/
theorem errors_conclude (x : Logger × Host) (t : System (SourceStage Producer.Files) Digests)
    {e : Option Error} (one : t.application.drained = e.toList)
    (heard : Host.Hears stamp host x.2) :
    ∃ before after, (conclude stamp x t).host.errors =
        host.errors ++ before ++ (e.map complaint).toList ++ after ∧
      ∀ piece ∈ before ++ after, Piece stamp piece := by
  obtain ⟨before, told, ours⟩ := heard.trans (hears_logHistory t.history x)
  obtain ⟨between, complained, loggers⟩ := errors_complain stamp e (logHistory stamp t.history x)
  let y := e.toList.foldl (complain stamp) (logHistory stamp t.history x)
  have closed : Host.Hears stamp y.2 (y.1.flush y.2).2 := Logger.hears_flush y.1 y.2
  obtain ⟨last, flushed, theirs⟩ := closed
  refine ⟨before, between ++ last, ?_, ?_⟩
  · simp only [conclude, one]
    rw [flushed, complained, told, List.append_assoc]
  · simp only [List.forall_mem_append]
    exact ⟨ours, loggers, theirs⟩

theorem opens_all (fs : FileSystem) (ps : List Bytes) :
    ps.all (opens fs) = (ps.findSome? (failure? fs)).toList.isEmpty := by
  rw [Bool.eq_iff_iff]
  simp [opens]

/-- The files at the ends of the paths are all that matters. -/
theorem inputs_congr (same : ∀ path ∈ ps, fs.lookup? path = fs'.lookup? path) :
    ps.findSome? (failure? fs) = ps.findSome? (failure? fs') ∧
      (ps.takeWhile (opens fs)).map (digestOf fs) =
        (ps.takeWhile (opens fs')).map (digestOf fs') := by
  induction ps with
  | nil => simp only [List.findSome?_nil, List.takeWhile_nil, List.map_nil, and_self]
  | cons path ps ih =>
    obtain ⟨first, rest⟩ := List.forall_mem_cons.mp same
    obtain ⟨failures, digests⟩ := ih rest
    have failure : failure? fs path = failure? fs' path := failure?_congr first
    have opening : opens fs path = opens fs' path := by rw [opens, opens, failure]
    have whole : content fs path = content fs' path := by
      rw [content, content, FileSystem.content?, FileSystem.content?, first]
    have digest : digestOf fs path = digestOf fs' path := by rw [digestOf, digestOf, whole]
    refine ⟨by rw [List.findSome?_cons, List.findSome?_cons, failure, failures], ?_⟩
    rw [List.takeWhile_cons, List.takeWhile_cons, opening]
    cases opens fs' path with
    | true => simp only [↓reduceIte, List.map_cons, digest, digests]
    | false => simp only [Bool.false_eq_true, ↓reduceIte, List.map_nil]

theorem faithful_conclude {x : Logger × Host} {t : System (SourceStage Producer.Files) Digests}
    (heard : Host.Hears stamp host x.2)
    (same : ∀ path ∈ ps, x.2.files.lookup? path = host.files.lookup? path)
    (drained : t.application.drained = (ps.findSome? (failure? x.2.files)).toList)
    (taken : digestsOf t = (ps.takeWhile (opens x.2.files)).map (digestOf x.2.files)) :
    Faithful stamp host ps (conclude stamp x t) := by
  obtain ⟨failures, digests⟩ := inputs_congr same
  rw [failures] at drained
  rw [digests] at taken
  refine ⟨by rw [← taken]; rfl, errors_conclude x t drained heard, ?_⟩
  simp only [conclude, drained, opens_all]

/-! ## The run -/

variable {argv : List Bytes} {logger : Logger} {config : Config} {s : Settings}
  {entries : List Log.Entry}

/-- The logger and its host when the pipeline is started: what there is to say about the
configuration file has been written, and the settings of the logger are in force. -/
def prepared (stamp : Bytes) (entries : List Log.Entry) (s : Settings) (logger : Logger)
    (host : Host) : Logger × Host :=
  s.applyLogging (logger.logAll stamp Party.mainName entries host).1
    (logger.logAll stamp Party.mainName entries host).2

theorem hears_prepared : Host.Hears stamp host (prepared stamp entries s logger host).2 :=
  (Logger.hears_logAll Party.mainName entries logger host).trans (Settings.hears_applyLogging s _ _)

theorem run_eq (plain : helpKeys.any (Config.addArguments {} argv).has = false)
    (valid : configured stamp argv logger host = (config, .ok s, entries))
    (some' : paths config ≠ []) :
    run stamp argv logger host =
      takeDigests stamp (paths config) s (prepared stamp entries s logger host) := by
  have more : (paths config).isEmpty = false := by simpa using some'
  simp only [run, plain, valid, more, Bool.false_eq_true, ↓reduceIte, prepared]

/-- A working directory with one file in it. -/
def sampleHost : Host := { files := { nodes := [([bytes "a"], .file (bytes "abc"))] } }

end StagedPipeline.Checksum
