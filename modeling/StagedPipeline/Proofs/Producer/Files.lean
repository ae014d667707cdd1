import StagedPipeline.Proofs.Pull.Relations
import StagedPipeline.Proofs.Pipeline.Work

/-!
# A producer of files

The files of a list of paths are opened in order, up to the first path that does not lead to a
file. That one is asked for no second time, since its error ends the production. A handler that
uses up the body of every file is handed those in front of it, and nothing comes out behind it.
-/
namespace StagedPipeline.Producer.Files

variable {fs : FileSystem} {s : Files} {path : Bytes} {rest : List Bytes} {e : Error}

/-- Why a path cannot be opened, if it cannot: nothing is there, or a directory, or what is there
is locked. -/
def failure? (fs : FileSystem) (path : Bytes) : Option Error :=
  match (ByteStream.Reader.openFile fs path).1 with
  | .error e => some e
  | .ok _ => none

/-- Whether a path leads to a file. -/
def opens (fs : FileSystem) (path : Bytes) : Bool := (failure? fs path).isNone

/-- The content of the file that a path leads to. -/
def content (fs : FileSystem) (path : Bytes) : Bytes := (fs.content? path).getD []

/-- The pack of a file that was just opened. -/
def packOf (fs : FileSystem) (parent : Context) (path : Bytes) : Pack :=
  ⟨some (.file { path, rest := content fs path }), parent.withValue pathKey path⟩

/-- The codes of the errors that opening a file can answer with, and what is there then. -/
def Unopened (fs : FileSystem) (path : Bytes) (e : Error) : Prop :=
  (e.code = .fileNotFound ∧ fs.lookup? path = none) ∨
    (e.code = .fileError ∧
      (fs.lookup? path = some .directory ∨ fs.lookup? path = some .locked))

/-- Opening a file answers with the file, or else with the error of what is there instead. -/
theorem openFile_cases (fs : FileSystem) (path : Bytes) :
    (∃ text, fs.lookup? path = some (.file text) ∧
      (ByteStream.Reader.openFile fs path).1 = .ok { path, rest := text }) ∨
    ∃ e, (ByteStream.Reader.openFile fs path).1 = .error e ∧ Unopened fs path e := by
  unfold ByteStream.Reader.openFile
  split
  case h_1 absent => exact .inr ⟨_, rfl, .inl ⟨rfl, absent⟩⟩
  case h_2 found => exact .inr ⟨_, rfl, .inr ⟨rfl, .inl found⟩⟩
  case h_3 found => exact .inr ⟨_, rfl, .inr ⟨rfl, .inr found⟩⟩
  case h_4 text found => exact .inl ⟨text, found, rfl⟩

theorem failure?_eq_some_iff :
    failure? fs path = some e ↔ (ByteStream.Reader.openFile fs path).1 = .error e := by
  rw [failure?]
  cases (ByteStream.Reader.openFile fs path).1 <;> simp

/-- What can be opened is a file, and its content is what is read. -/
theorem lookup_opens (good : failure? fs path = none) :
    fs.lookup? path = some (.file (content fs path)) ∧
      (ByteStream.Reader.openFile fs path).1 = .ok { path, rest := content fs path } := by
  rcases openFile_cases fs path with ⟨text, found, opened⟩ | ⟨e, failed, -⟩
  · have same : content fs path = text := by
      rw [content, FileSystem.content?, found]
      rfl
    exact ⟨same ▸ found, same ▸ opened⟩
  · rw [failure?, failed] at good
    cases good

/-- Whether a path can be opened depends on what is at its end alone. -/
theorem failure?_congr {fs' : FileSystem} (same : fs.lookup? path = fs'.lookup? path) :
    failure? fs path = failure? fs' path := by
  simp only [failure?, ByteStream.Reader.openFile, same]

theorem failure?_of_opens (good : opens fs path = true) : failure? fs path = none :=
  Option.isNone_iff_eq_none.mp good

theorem failure_unopened (bad : failure? fs path = some e) : Unopened fs path e := by
  rw [failure?_eq_some_iff] at bad
  rcases openFile_cases fs path with ⟨text, -, opened⟩ | ⟨e', failed, unopened⟩
  · rw [bad] at opened
    cases opened
  · rw [bad, Except.error.injEq] at failed
    exact failed ▸ unopened

theorem failure_isNull (bad : failure? fs path = some e) : e.isNull = false := by
  rcases failure_unopened bad with ⟨code, -⟩ | ⟨code, -⟩ <;> rw [Error.isNull, code] <;> rfl

theorem content?_of_opens (good : opens fs path = true) :
    fs.content? path = some (content fs path) := by
  rw [FileSystem.content?, (lookup_opens (failure?_of_opens good)).1]

/-- The context of a file's pack tells its path, whatever the parent tells. -/
theorem value?_packOf (fs : FileSystem) (parent : Context) (path : Bytes) :
    (packOf fs parent path).context.value? pathKey = some path := by
  simp [packOf, Context.withValue, Context.value?]

/-! ## One call -/

theorem next_nil (hs : s.rest = []) :
    (next fs s).production = .yielded none false ∧ (next fs s).state = s := by
  rw [next, hs]
  exact ⟨rfl, rfl⟩

theorem next_opens (hs : s.rest = path :: rest) (good : failure? fs path = none) :
    (next fs s).production = .yielded (some (packOf fs s.parent path)) (!rest.isEmpty) ∧
      (next fs s).state = { s with rest, opened := s.opened + 1 } := by
  have opened := (lookup_opens good).2
  rcases both : ByteStream.Reader.openFile fs path with ⟨outcome, entries⟩
  rw [both] at opened
  subst opened
  simp [next, hs, both, packOf]

theorem next_fails (hs : s.rest = path :: rest) (bad : failure? fs path = some e) :
    (next fs s).production = .failed e ∧ (next fs s).state = s := by
  have failed := failure?_eq_some_iff.mp bad
  rcases both : ByteStream.Reader.openFile fs path with ⟨outcome, entries⟩
  rw [both] at failed
  subst failed
  simp [next, hs, both]

/-- There is a call for every path at most, and one if there is no path. -/
theorem stopsWithin (fs : FileSystem) (s : Files) :
    (next fs).StopsWithin (s.rest.length + 1) s := by
  induction length : s.rest generalizing s with
  | nil => simp [StopsWithin, next_nil length]
  | cons path rest ih =>
    cases outcome : failure? fs path with
    | some e => simp [StopsWithin, next_fails length outcome]
    | none =>
      obtain ⟨production, state⟩ := next_opens length outcome
      have later := ih (s := { s with rest, opened := s.opened + 1 }) rfl
      rw [List.length_cons, StopsWithin, production, state]
      cases rest with
      | nil => exact trivial
      | cons path' rest => exact later

/-! ## Files through a stage -/

open Pull

variable {σ : Type} {h : Handler σ}

/-- A handler that succeeds with every file and leaves no body. -/
def UsesUp (h : Handler σ) (fs : FileSystem) (parent : Context) : Prop :=
  ∀ memory path, (h memory (packOf fs parent path).context
      (.file { path, rest := content fs path })).verdict = .success ∧
    (h memory (packOf fs parent path).context (.file { path, rest := content fs path })).body = none

theorem take_usesUp {parent : Context} (uses : UsesUp h fs parent) (x : Stage σ) (path : Bytes) :
    ∃ m, x.take h (packOf fs parent path) =
      ({ x with memory := m, handled := x.handled ++ [packOf fs parent path] }, none) := by
  obtain ⟨succeeds, leaves⟩ := uses x.memory path
  refine ⟨(h x.memory (packOf fs parent path).context
    (.file { path, rest := content fs path })).memory, ?_⟩
  simp only [packOf] at succeeds leaves ⊢
  simp only [Stage.take, succeeds, leaves, Option.map_none]

/-- The end of what is pulled out of a stage that uses up the files: it was handed those in
front of the first path that cannot be opened, and the error of that path is the producer's. -/
theorem pulls_files {w : Source Files} {x : Stage σ} (producer : w.producer = next fs)
    (going : w.ended = w.state.rest.isEmpty) (fine : w.report = none)
    (hx : x.handler = some h) (goes : x.ended = false) (uses : UsesUp h fs w.state.parent) :
    ∃ w' x', Pulls (⟨w, [x]⟩ : Line Files σ) none ⟨w', [x']⟩ ∧ w'.ended = true ∧
      w'.report = w.state.rest.findSome? (failure? fs) ∧ x'.handler = some h ∧
      x'.ended = true ∧ x'.report = x.report ∧
      x'.handled = x.handled ++
        (w.state.rest.takeWhile (opens fs)).map (packOf fs w.state.parent) := by
  -- on the paths that are left, each of which is one call of the producer
  induction paths : w.state.rest generalizing w x with
  | nil =>
    rw [paths] at going
    exact ⟨w, { x with ended := true }, pulls_end hx goes (pulls_source_ended going), going, fine,
      hx, rfl, rfl, by simp⟩
  | cons path rest ih =>
    rw [paths] at going
    have going : w.ended = false := going
    cases outcome : failure? fs path with
    | some e =>
      obtain ⟨production, state⟩ := next_fails paths outcome
      have asked : w.ask = ({ w with
          calls := w.calls + 1, ended := true, report := some e, faulted := false }, none) := by
        have sound := failure_isNull outcome
        rw [Source.ask, producer, production, state]
        simp [reported, sound]
      have atEnd : Pulls (⟨w, []⟩ : Line Files σ) none ⟨w.ask.1, []⟩ :=
        pulls_source_again going (by rw [asked]) (pulls_source_ended (by rw [asked]))
      refine ⟨w.ask.1, { x with ended := true }, pulls_end hx goes atEnd, ?_⟩
      simp [asked, outcome, hx, opens]
    | none =>
      obtain ⟨production, state⟩ := next_opens paths outcome
      have asked : w.ask = ({ w with
          state := { w.state with rest, opened := w.state.opened + 1 }
          calls := w.calls + 1, ended := rest.isEmpty },
          some (packOf fs w.state.parent path)) := by
        rw [Source.ask, producer, production, state]
        simp
      have first : Pulls (⟨w, []⟩ : Line Files σ) (some (packOf fs w.state.parent path))
          ⟨w.ask.1, []⟩ := pulls_source_pack going (by rw [asked])
      obtain ⟨m, took⟩ := take_usesUp uses x path
      rw [asked] at first
      obtain ⟨w', x', pulls, atEnd, report, handler, ended, report', handed⟩ := ih
        (w := { w with
          state := { w.state with rest, opened := w.state.opened + 1 }
          calls := w.calls + 1, ended := rest.isEmpty })
        (x := { x with memory := m, handled := x.handled ++ [packOf fs w.state.parent path] })
        producer rfl fine hx goes uses rfl
      have again := pulls_again hx goes first (by rw [took]) (by rw [took]; exact pulls)
      refine ⟨w', x', again, atEnd, ?_, handler, ended, report', ?_⟩
      · rw [report, List.findSome?_cons, outcome]
      · rw [handed, List.takeWhile_cons, opens, outcome]
        simp

end StagedPipeline.Producer.Files
