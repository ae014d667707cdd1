import StagedPipeline.Checksum
import StagedPipeline.Proofs.Handler.Digest
import StagedPipeline.Proofs.Pipeline.Drain
import StagedPipeline.Proofs.Pipeline.Rest
import StagedPipeline.Proofs.Producer.Files
import Mathlib.Data.List.Induction

/-!
# The digests of a drained pipeline

The pipeline of the checksum program is drained and waited for. However its tasks take turns,
in the end the second stage has taken the digests of the files in front of the first path that
cannot be opened, and the error of that path is the only one that was drained. The evaluation
by pulling tells this, without a schedule.
-/
namespace StagedPipeline.Checksum

open Producer (Files)
open Producer.Files (failure? opens content packOf)

variable {fs : FileSystem} {paths : List Bytes} {s : Settings}

/-- The digest of the file that a path leads to, with the path. -/
def digestOf (fs : FileSystem) (path : Bytes) : Bytes × Bytes :=
  (Sha256.hash (content fs path), path)

/-! ## The handler -/

/-- The handler succeeds with a file that was just opened, leaves no body and adds the digest. -/
theorem handler_file (fs : FileSystem) (ds : Digests) (path : Bytes) :
    let call := handler ds (packOf fs .background path).context
      (.file { path, rest := content fs path })
    call.verdict = .success ∧ call.body = none ∧ call.memory = ds ++ [digestOf fs path] := by
  have live : ∀ now, (packOf fs .background path).context.error? now = none := fun _ => rfl
  have named := Files.value?_packOf fs .background path
  obtain ⟨verdict, body, memory⟩ := Handler.digest_file (fun _ => 0)
    (fun (ds : Digests) context digest =>
      (ds ++ [(digest, (context.value? Files.pathKey).getD (bytes "-"))], none))
    ds path (content fs path) live rfl
  exact ⟨verdict, body, by rw [handler, memory, named]; rfl⟩

theorem usesUp_handler (fs : FileSystem) : Files.UsesUp handler fs .background := by
  intro ds path
  obtain ⟨verdict, body, _⟩ := handler_file fs ds path
  exact ⟨verdict, body⟩

theorem replay_files (fs : FileSystem) (paths : List Bytes) :
    (handler.replay [] (paths.map (packOf fs .background))).1 = paths.map (digestOf fs) := by
  induction paths using List.reverseRecOn with
  | nil => rfl
  | append_singleton paths path ih =>
    obtain ⟨_, _, memory⟩ := handler_file fs (paths.map (digestOf fs)) path
    rw [List.map_append, List.map_singleton, List.map_append, List.map_singleton, packOf,
      Handler.replay_snoc, ih]
    exact memory

/-! ## The pipeline -/

/-- The pipeline for some paths as it is planned. -/
def planned (fs : FileSystem) (paths : List Bytes) (s : Settings) : Pipeline Files Digests where
  source := { producer := Files.next fs, state := { rest := paths } }
  capacity := s.errorCapacity
  interval := s.pollInterval
  stages := [{ handler := some handler, memory := [] }]

/-- An error capacity as settings accept it, which leaves room for the extra errors of a stage. -/
def Roomy (s : Settings) : Prop :=
  0 < s.errorCapacity.toNat ∧ (s.errorCapacity.toNat : Int) ≤ Config.greatestInteger

theorem capacity_of_roomy (room : Roomy s) : s.errorCapacity ≠ 0 := by
  rintro zero
  have positive := room.1
  rw [zero] at positive
  exact Nat.lt_irrefl 0 positive

theorem create_planned (room : Roomy s) :
    Pipeline.create (some (Files.next fs, { rest := paths })) s.errorCapacity s.pollInterval =
      .ok ({ planned fs paths s with stages := [] } : Pipeline Files Digests) := by
  simp [Pipeline.create, SourceStage.create, capacity_of_roomy room, Except.map, planned]

theorem pipeline_eq (room : Roomy s) : pipeline fs paths s = .ok (planned fs paths s) := by
  rw [pipeline, create_planned room]
  rfl

theorem planned_planned (room : Roomy s) : (planned fs paths s).Planned :=
  .append (.create (create_planned room)) rfl

theorem fits_planned (room : Roomy s) : (planned fs paths s).Fits := by
  have most : (s.errorCapacity.toNat : Int) ≤ 9223372036854775807 := room.2
  show s.errorCapacity.toNat + 2 * 1 < 18446744073709551616
  omega

theorem evaluate_planned (fs : FileSystem) (s : Settings) (some' : paths ≠ []) :
    ∃ n u, (planned fs paths s).evaluate n none = some u ∧
      u.errors = (paths.findSome? (failure? fs)).toList ∧
      u.handed = [(paths.takeWhile (opens fs)).map (packOf fs .background)] := by
  have going : (planned fs paths s).line.source.ended =
      (planned fs paths s).line.source.state.rest.isEmpty := by
    cases paths with
    | nil => exact absurd rfl some'
    | cons path rest => rfl
  obtain ⟨w, x, pulls, atEnd, report, handler', ended, silent, handed⟩ :=
    Files.pulls_files (h := handler) (w := (planned fs paths s).line.source)
      (x := Pull.Stage.ofPlan { handler := some handler, memory := [] })
      rfl going rfl rfl rfl (usesUp_handler fs)
  -- the first pull finds the end, and the line that it leaves is at its end
  obtain ⟨n, reads⟩ := Pull.reads_to_end ⟨_, .nil, pulls⟩
    (fun d limited => nomatch (limited : none = some d))
  obtain ⟨m, leaves⟩ := Pull.abandons_working handler' (Pull.pulls_ended handler' ended)
    (Pull.abandons_source (Pull.pulls_source_ended atEnd))
  refine ⟨max n m, _, System.evaluate_eq_some.mpr
    ⟨[], _, _, Pull.read_stable reads (Nat.le_max_left n m),
      Pull.abandon_stable leaves (Nat.le_max_right n m), rfl⟩, ?_, ?_⟩
  · simp [Pull.Line.upshot, Pull.Line.reports, Pull.Line.behind, silent, report,
      Pull.Stage.ofPlan, Pipeline.line, planned]
  · simp [Pull.Line.upshot, Pull.Line.behind, handed, Pull.Stage.ofPlan, Pipeline.line, planned]

/-! ## The start -/

/-- The pipeline when it has just been started, with its two conduits. -/
def begun (fs : FileSystem) (paths : List Bytes) (s : Settings) (inlet out : Conduit) :
    System (SourceStage Files) Digests :=
  let stage : TransformStage Digests := { handler, memory := [] }
  System.record {
      supplier := (planned fs paths s).source.launch
      inlet
      row := [.working stage.launch out] }
    .application (Event.saying [Pipeline.startedEntry 2])

theorem load_create {capacity : UInt64} {interval : Int} {c : Conduit}
    (made : Conduit.create capacity interval = .ok c) (j : Nat) : c.load j = 0 := by
  unfold Conduit.create Reports.create at made
  split at made
  · cases made
  · cases made
    rfl

theorem start_planned (fs : FileSystem) (paths : List Bytes) (room : Roomy s) :
    ∃ inlet out, (∀ j, inlet.load j = 0) ∧ (∀ j, out.load j = 0) ∧
      (planned fs paths s).start = .ok (begun fs paths s inlet out, none) := by
  obtain ⟨inlet, made⟩ := Station.create_ok (capacity_of_roomy room) s.pollInterval
  have below : inlet.errors.capacity.toNat + 2 < UInt64.size := by
    rw [(Station.create_capacity made).2]
    exact (fits_planned room : (planned fs paths s).Fits)
  obtain ⟨out, made', _⟩ := Station.outputFor_room below
  refine ⟨inlet, out, load_create made, load_create made', ?_⟩
  simp [Pipeline.start, planned, made, made', Pipeline.connect, bind, Except.bind, pure,
    Except.pure, begun, Pipeline.size]

theorem launch_eq {s₀ : System (SourceStage Files) Digests} (room : Roomy s)
    (hs : (planned fs paths s).start = .ok (s₀, none)) :
    launch fs paths s = .ok s₀.draining := by
  simp only [launch, pipeline_eq room, hs, bind, Except.bind, pure, Except.pure]
  rfl

/-- The pipeline comes to rest in no more sections than the program waits for. -/
theorem effort_begun {inlet out : Conduit} (empty : ∀ j, inlet.load j = 0)
    (empty' : ∀ j, out.load j = 0) :
    (begun fs paths s inlet out).draining.effort (paths.length + 1) ≤ sections paths.length := by
  have none' : (begun fs paths s inlet out).draining.left = 0 := rfl
  have work : (begun fs paths s inlet out).draining.work (paths.length + 1) =
      SourceStage.budget (paths.length + 1) 1 + 1 + (inlet.load 1 + 16 + (out.load 0 + 5)) := rfl
  rw [System.effort, work, none', empty, empty', SourceStage.budget, sections]
  omega

/-! ## The end -/

variable {s₀ t : System (SourceStage Files) Digests} {acts : List System.Action}

theorem draining_planned (room : Roomy s) (hs : (planned fs paths s).start = .ok (s₀, none)) :
    System.Draining (planned fs paths s) s₀.joining s₀.draining :=
  System.draining_start (planned_planned room) (fits_planned room) hs

/-- The pipeline is never stuck, and comes to its end in finitely many steps that do not only let
a poll time out. -/
theorem ends_planned (room : Roomy s) (hs : (planned fs paths s).start = .ok (s₀, none)) :
    s₀.draining.Ends :=
  System.ends_draining (planned_planned room) (fits_planned room) hs
    (Files.stopsWithin fs { rest := paths })

theorem settled_planned (fs : FileSystem) (paths : List Bytes) (room : Roomy s) :
    ∃ s₀, (planned fs paths s).start = .ok (s₀, none) ∧
      (s₀.draining.settle (sections paths.length)).application.agenda = [] := by
  obtain ⟨inlet, out, empty, empty', hs⟩ := start_planned fs paths room
  have capacity : (planned fs paths s).capacity ≠ 0 := capacity_of_roomy room
  exact ⟨_, hs, System.done_settle capacity (System.joins_joining _) (draining_planned room hs)
    (System.within_draining hs (Files.stopsWithin fs { rest := paths }))
    (effort_begun empty empty')⟩

/-- When the application is done, the digests of the files in front of the first path that
cannot be opened have been taken, and its error was drained, whatever the schedule was. -/
theorem taken_of_done (room : Roomy s) (some' : paths ≠ [])
    (hs : (planned fs paths s).start = .ok (s₀, none)) (hr : s₀.draining.run? acts = some t)
    (done : t.application.agenda = []) :
    t.application.drained = (paths.findSome? (failure? fs)).toList ∧
      digestsOf t = (paths.takeWhile (opens fs)).map (digestOf fs) := by
  have length := (System.start_unique (planned_planned room) (fits_planned room) hs).2.2.2
  obtain ⟨reads, awaits⟩ := System.run_invariant
    (System.draining_step (System.joins_joining s₀)) (draining_planned room hs) hr
  have complete := System.reads_done reads done
  obtain ⟨r, sound, _⟩ := reads
  have rests : ∀ q, t.isResting q = true :=
    System.resting_of_awaits sound awaits (by simp [System.joining])
      (by simp [System.joining, length]) done
  -- what the run has come to is what the evaluation comes to
  obtain ⟨n, upshot⟩ := System.evaluate_of_reads complete ⟨done, rests⟩
  obtain ⟨m, u, evaluated, errors, handed⟩ := evaluate_planned fs s some'
  have same := System.evaluate_stable evaluated (Nat.le_max_right n m)
  rw [System.evaluate_stable upshot (Nat.le_max_left n m)] at same
  obtain rfl := Option.some.inj same
  refine ⟨errors, ?_⟩
  obtain ⟨stage, out, inside, memory⟩ := Station.memory_of_sound sound.row (i := 0) rfl rfl rfl
  have row : t.row = [.working stage out] := by
    obtain ⟨x, single⟩ := List.length_eq_one_iff.mp (Station.sound_length sound.row)
    rw [single] at inside ⊢
    rw [show x = .working stage out from Option.some.inj inside]
  have given : Event.collect Event.handed? (t.eventsOf (.stage 0)) =
      (paths.takeWhile (opens fs)).map (packOf fs .background) := by
    simpa [System.upshot, row] using handed
  rw [digestsOf, row]
  exact memory.trans (given ▸ replay_files fs _)

end StagedPipeline.Checksum
