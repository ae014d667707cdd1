import StagedPipeline.Proofs.ByteStream.Interchange
import StagedPipeline.Proofs.Producer.Exhaustion
import StagedPipeline.Proofs.Producer.Files
import Mathlib.Data.List.TakeWhile

/-!
# The inputs of the stock producers, each of them once

The last entry of a list and the end of the list are told by one answer, so that a producer is asked
as often as its list is long, and once if the list is empty. What comes out of a source around it is
the packs of the list, or the files of the paths in front of the first that cannot be opened.
-/
namespace StagedPipeline.Producer

namespace Listing

/-- A list is told entry by entry, and its end with the last one. -/
theorem exists_runs (packs : List (Option Pack)) (calls : Nat) : ∃ as,
    Listing.next.Runs true { rest := packs, calls } as
      { rest := [], calls := calls + max 1 packs.length } ∧
    as.length = max 1 packs.length ∧
    as.filterMap Production.pack? = packs.reduceOption ∧
    as.filterMap Production.report? = [] := by
  induction packs generalizing calls with
  | nil => exact ⟨[.yielded none false], runs_last rfl rfl rfl, rfl, rfl, rfl⟩
  | cons p rest ih =>
    have nonNull : [Production.yielded p true].filterMap Production.pack? = [p].reduceOption := by
      cases p <;> rfl
    cases rest with
    | nil => exact ⟨[.yielded p false], runs_last rfl rfl rfl, rfl, nonNull, rfl⟩
    | cons p' rest =>
      obtain ⟨as, run, length, packs, reports⟩ := ih (calls + 1)
      have total : calls + 1 + max 1 (p' :: rest).length =
          calls + max 1 (p :: p' :: rest).length := by
        simp only [List.length_cons]
        omega
      refine ⟨.yielded p true :: as, runs_more rfl rfl rfl (total ▸ run), ?_, ?_, ?_⟩
      · rw [List.length_cons, length, List.length_cons, List.length_cons, List.length_cons]
        omega
      · rw [← List.singleton_append, List.filterMap_append, nonNull, packs,
          ← List.reduceOption_append, List.singleton_append]
      · rw [List.filterMap_cons, Production.report?_yielded, reports]

end Listing

namespace Files

variable {fs : FileSystem} {path : Bytes}

/-- The paths are opened in front of the first that cannot be, and its error is told. -/
theorem exists_runs (fs : FileSystem) (parent : Context) (paths : List Bytes) (opened : Nat) :
    ∃ as, (next fs).Runs true { rest := paths, parent, opened } as
        { rest := paths.dropWhile (opens fs), parent
          opened := opened + (paths.takeWhile (opens fs)).length } ∧
      as.length = max 1 (min paths.length ((paths.takeWhile (opens fs)).length + 1)) ∧
      as.filterMap Production.pack? = (paths.takeWhile (opens fs)).map (packOf fs parent) ∧
      as.filterMap Production.report? = (paths.findSome? (failure? fs)).toList := by
  induction paths generalizing opened with
  | nil => exact ⟨[.yielded none false], runs_last rfl rfl rfl, rfl, rfl, rfl⟩
  | cons path rest ih =>
    cases outcome : failure? fs path with
    | some e =>
      have closed : opens fs path = false := by rw [opens, outcome]; rfl
      have told : Pull.reported SourceStage.faultError e = e := by
        rw [Pull.reported, failure_isNull outcome]
        rfl
      obtain ⟨answer, state⟩ :=
        next_fails (s := { rest := path :: rest, parent, opened }) rfl outcome
      have run := runs_last answer state rfl
      refine ⟨[.failed e], ?_, ?_, ?_, ?_⟩ <;> simp [closed, outcome, told, run]
    | none =>
      have good : opens fs path = true := by rw [opens, outcome]; rfl
      have later : (path :: rest).findSome? (failure? fs) = rest.findSome? (failure? fs) := by
        rw [List.findSome?_cons, outcome]
      obtain ⟨answer, state⟩ :=
        next_opens (s := { rest := path :: rest, parent, opened }) rfl outcome
      rw [later, List.takeWhile_cons_of_pos good, List.dropWhile_cons_of_pos good]
      cases rest with
      | nil => exact ⟨_, runs_last answer state rfl, rfl, rfl, rfl⟩
      | cons path' rest =>
        obtain ⟨as, run, length, packs, reports⟩ := ih (opened + 1)
        rw [Nat.add_right_comm] at run
        refine ⟨_, runs_more answer state rfl run, ?_, ?_, ?_⟩
        · simp only [List.length_cons] at length ⊢
          omega
        · rw [List.map_cons, ← packs]
          rfl
        · rw [List.filterMap_cons, Production.report?_yielded, reports]

/-- The pack of the file that a path leads to: it tells the path, and its body holds the content. -/
structure Carries (fs : FileSystem) (path : Bytes) (p : Pack) : Prop where
  named : p.context.value? pathKey = some path
  content : ∃ content body, fs.content? path = some content ∧ p.body = some body ∧
    ∀ chunk, (body.readAll chunk p.context).1 = .bytes content

theorem carries_packOf (parent : Context) (good : opens fs path = true) :
    Carries fs path (packOf fs parent path) := by
  refine ⟨value?_packOf fs parent path, content fs path, _, content?_of_opens good, rfl,
    fun chunk => ?_⟩
  have fresh : (ByteStream.file { path, rest := content fs path }).Offers (content fs path) :=
    ⟨rfl, rfl, by simp⟩
  obtain ⟨_, read, _⟩ := ByteStream.offers_readAll fresh chunk (packOf fs parent path).context
  rw [read]

theorem carries_front (fs : FileSystem) (parent : Context) (paths : List Bytes) :
    List.Forall₂ (Carries fs) (paths.takeWhile (opens fs))
      ((paths.takeWhile (opens fs)).map (packOf fs parent)) := by
  rw [List.forall₂_map_right_iff, List.forall₂_same]
  exact fun path front => carries_packOf parent (List.mem_takeWhile_imp front)

/-- In front of the first path that cannot be opened all others are, and its error is the one. -/
theorem first_failure {paths : List Bytes}
    (first : paths.find? (fun path => !opens fs path) = some path) :
    (paths.takeWhile (opens fs)).length < paths.length ∧
      ∃ e, failure? fs path = some e ∧ paths.findSome? (failure? fs) = some e := by
  obtain ⟨closed, front, behind, rfl, good⟩ := List.find?_eq_some_iff_append.mp first
  have good : ∀ path ∈ front, opens fs path = true := by simpa using good
  have closed : opens fs path = false := by simpa using closed
  have before : front.findSome? (failure? fs) = none :=
    List.findSome?_eq_none_iff.mpr fun path hp => failure?_of_opens (good path hp)
  obtain ⟨e, bad⟩ : ∃ e, failure? fs path = some e :=
    Option.isSome_iff_exists.mp (by simpa [opens] using closed)
  refine ⟨?_, e, bad, ?_⟩
  · rw [List.takeWhile_append_of_pos good, List.takeWhile_cons_of_neg (by simp [closed])]
    simp
  · rw [List.findSome?_append, before, List.findSome?_cons, bad]
    rfl

end Files
end StagedPipeline.Producer

namespace StagedPipeline.Delivery

open Producer (Listing Files)

/-- A source around a list or around the files of some paths, which is read to the end at any pace.
Of a list of packs, of which any may be missing, those that are not are taken, in order, and there
is no error. Of the paths, the files in front of the first path that cannot be opened are taken, in
order, and the one error is that path's, whether nothing is there, or a directory, or what no one
may open; there is none if all of them can be opened. A producer is asked once for every entry that
it tells, be it a pack, none or an error, and once if there is no entry. -/
theorem stock_enumerated {capacity : UInt64} (room : capacity ≠ 0) (interval : Int) :
    (∀ packs : List (Option Pack), ∃ s₀,
      create (some (Listing.next, { rest := packs })) capacity interval = .ok s₀ ∧
      s₀.ReadToEnd fun t => t.asked = max 1 packs.length ∧
        t.stage.state.calls = max 1 packs.length ∧
        t.Delivered packs.reduceOption ∧ t.Reported []) ∧
    (∀ (fs : FileSystem) (parent : Context) (paths : List Bytes), ∃ s₀,
      create (some (Files.next fs, { rest := paths, parent })) capacity interval = .ok s₀ ∧
      s₀.ReadToEnd fun t =>
        (∃ packs, t.Delivered packs ∧
          List.Forall₂ (Files.Carries fs) (paths.takeWhile (Files.opens fs)) packs ∧
          t.stage.state.opened = packs.length) ∧
        (∀ bad, paths.find? (fun path => !Files.opens fs path) = some bad →
          ∃ e, (ByteStream.Reader.openFile fs bad).1 = .error e ∧
            Files.Unopened fs bad e ∧ t.Reported [e] ∧
            t.asked = t.stage.state.opened + 1) ∧
        ((∀ path ∈ paths, Files.opens fs path = true) →
          t.Reported [] ∧ t.asked = max 1 paths.length)) := by
  refine ⟨fun packs => ?_, fun fs parent paths => ?_⟩
  · obtain ⟨as, run, length, nonNull, silent⟩ := Listing.exists_runs packs 0
    obtain ⟨s₀, made, reads⟩ := exists_readToEnd run room interval
    refine ⟨s₀, made, reads.imp fun t ⟨answers, state, delivered, reported⟩ => ?_⟩
    rw [nonNull] at delivered
    rw [silent] at reported
    refine ⟨by rw [asked, answers, length], ?_, delivered, reported⟩
    rw [state, Nat.zero_add]
  · obtain ⟨as, run, length, files, errors⟩ := Files.exists_runs fs parent paths 0
    obtain ⟨s₀, made, reads⟩ := exists_readToEnd run room interval
    refine ⟨s₀, made, reads.imp fun t ⟨answers, state, delivered, reported⟩ => ⟨?_, ?_, ?_⟩⟩
    · rw [files] at delivered
      refine ⟨_, delivered, Files.carries_front fs parent paths, ?_⟩
      rw [state, List.length_map, Nat.zero_add]
    · intro bad first
      obtain ⟨inside, e, failure, found⟩ := Files.first_failure first
      rw [errors, found] at reported
      refine ⟨e, Files.failure?_eq_some_iff.mp failure, Files.failure_unopened failure, reported, ?_⟩
      rw [asked, answers, length, state]
      simp only
      omega
    · intro all
      have whole : paths.takeWhile (Files.opens fs) = paths := List.takeWhile_eq_self_iff.mpr all
      have none' : paths.findSome? (Files.failure? fs) = none :=
        List.findSome?_eq_none_iff.mpr fun path hp => Files.failure?_of_opens (all path hp)
      rw [errors, none'] at reported
      refine ⟨reported, ?_⟩
      rw [asked, answers, length, whole, Nat.min_eq_left (Nat.le_succ _)]

/-- A working directory with a file in it, and with another one that no one may open. -/
def guarded : FileSystem :=
  { nodes := [([bytes "a"], .file (bytes "abc")), ([bytes "b"], .locked)] }

/-- A list that has no pack at its beginning and at its end, and two paths of which the second one
cannot be opened. -/
theorem stock_enumerated_sample :
    (∃ s₀ t : Delivery Listing,
      create (some (Listing.next, { rest := [none, some (.ofBytes []), none] })) 1 10 = .ok s₀ ∧
      s₀.run? [.start, .work, .work, .work, .work, .take, .work, .work, .work, .work, .work] =
        some t ∧
      t.AtEnd ∧ t.asked = 3 ∧ t.Delivered [.ofBytes []] ∧ t.Reported []) ∧
    (∃ (s₀ t : Delivery Files) (e : Error) (p : Pack),
      create (some (Files.next guarded, { rest := [bytes "a", bytes "b"] })) 1 10 = .ok s₀ ∧
      s₀.run? [.start, .work, .work, .work, .take, .work, .work, .work, .work, .work, .work] =
        some t ∧
      t.AtEnd ∧ t.Delivered [p] ∧ Files.Carries guarded (bytes "a") p ∧
      e = .of .fileError (bytes "cannot open 'b'") ∧ t.Reported [e] ∧
      t.stage.state.opened = 1 ∧ t.asked = 2) := by
  have room : (1 : UInt64) ≠ 0 := by decide
  obtain ⟨lists, files⟩ := stock_enumerated room 10
  refine ⟨?_, ?_⟩
  · obtain ⟨s₀, made, reads⟩ := lists [none, some (.ofBytes []), none]
    obtain ⟨t, hr, atEnd, asked, -, delivered, reported⟩ :=
      reads.exists_outcome made [.start, .work, .work, .work, .work, .take, .work, .work, .work,
        .work, .work] (by decide +kernel)
    exact ⟨s₀, t, made, hr, atEnd, asked, delivered, reported⟩
  · obtain ⟨s₀, made, reads⟩ := files guarded .background [bytes "a", bytes "b"]
    obtain ⟨t, hr, atEnd, ⟨packs, delivered, carry, opened⟩, fails, -⟩ :=
      reads.exists_outcome made [.start, .work, .work, .work, .take, .work, .work, .work, .work,
        .work, .work] (by decide +kernel)
    have front : [bytes "a", bytes "b"].takeWhile (Files.opens guarded) = [bytes "a"] := by
      decide +kernel
    rw [front] at carry
    obtain ⟨p, _, carries, alone, rfl⟩ := List.forall₂_cons_left_iff.mp carry
    obtain rfl := List.forall₂_nil_left_iff.mp alone
    have refused : (ByteStream.Reader.openFile guarded (bytes "b")).1 =
        .error (.of .fileError (bytes "cannot open 'b'")) := by decide +kernel
    obtain ⟨e, failed, -, reported, asked⟩ := fails (bytes "b") (by decide +kernel)
    obtain rfl := Except.error.inj (refused.symm.trans failed)
    exact ⟨s₀, t, _, p, made, hr, atEnd, delivered, carries, rfl, reported, opened,
      asked.trans (congrArg (· + 1) opened)⟩

end StagedPipeline.Delivery
