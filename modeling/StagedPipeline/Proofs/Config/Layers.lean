import StagedPipeline.Proofs.Config.Grammar
import Mathlib.Data.List.Basic

/-!
# The layers of a configuration

A configuration is filled by calls, which add a command line, add a file or set a value, in any
order and number. The first kind writes to the layer of the command line and to the positional
arguments, the others to the layer of files, so what a layer holds is told by its own calls and
does not depend on when the other ones were made.
-/
namespace StagedPipeline.Config

/-- A call that fills a configuration. A file is opened in one file system and read in a later
one, as the entry about it may have been written in between. -/
inductive Call where
  | arguments (argv : List Bytes)
  | file (fs : FileSystem) (later : Log.Entry → FileSystem) (path : Bytes)
  | set (key value : Bytes)

/-- An argument that is no option: one that does not begin with a dash, or a dash alone. -/
def isPlain (arg : Bytes) : Bool := !arg.isEmpty && (arg.head? != some dash || arg == [dash])

namespace Call

def isCommandLine : Call → Bool
  | .arguments _ => true
  | _ => false

/-- The arguments of a command line behind the name of the program. -/
def words : Call → List Bytes
  | .arguments argv => (argv.drop 1).map Bytes.untilZero
  | _ => []

/-- The settings on a command line. -/
def typed (call : Call) : List Setting :=
  call.words.filterMap fun arg => (Argument.parse arg).setting?

/-- The settings that a file appends: those in front of its first line without a key. -/
def appended : Call → List Setting
  | .file fs later path =>
    match textOf? fs later path with
    | none => []
    | some text => (readLines 1 text.lines).1
  | _ => []

/-- What a call makes of a configuration. -/
def apply (c : Config) : Call → Config
  | .arguments argv => c.addArguments argv
  | .file fs later path => (c.addFile fs later path).1
  | .set key value => c.set key value

/-- What a call makes of the layer of files. -/
def refile (files : List Setting) : Call → List Setting
  | .arguments _ => files
  | .file fs later path => files ++ (Call.file fs later path).appended
  | .set key value => files.filter (·.1 != key) ++ [(key, value)]

end Call

/-- The configuration after some calls. -/
def after (calls : List Call) : Config := calls.foldl Call.apply {}

/-- The values of a key in the layer of files: what was appended since the key was set the last
time, behind the value that it was set to. -/
inductive Filed (key : Bytes) : List Call → List Bytes → Prop where
  | never {calls} (unset : ∀ v, .set key v ∉ calls) :
      Filed key calls (valuesIn (calls.flatMap Call.appended) key)
  | since (before) {v later} (last : ∀ w, .set key w ∉ later) :
      Filed key (before ++ .set key v :: later)
        (v :: valuesIn (later.flatMap Call.appended) key)

variable {key : Bytes} {c : Config} {calls others : List Call}

/-! ## One layer -/

theorem valuesIn_append (layer more : List Setting) (key : Bytes) :
    valuesIn (layer ++ more) key = valuesIn layer key ++ valuesIn more key := by
  simp [valuesIn]

theorem valuesIn_other (layer : List Setting) {k : Bytes} (h : k ≠ key) (v : Bytes) :
    valuesIn (layer.filter (·.1 != k) ++ [(k, v)]) key = valuesIn layer key := by
  have kept : ∀ s : Setting, (s.1 == key && s.1 != k) = (s.1 == key) := by
    intro s
    by_cases hs : s.1 = key
    · simp [hs, Ne.symm h]
    · simp [hs]
  simp [valuesIn, List.filter_filter, kept, h]

theorem valuesIn_own (layer : List Setting) (key v : Bytes) :
    valuesIn (layer.filter (·.1 != key) ++ [(key, v)]) key = [v] := by
  simp [valuesIn, List.filter_filter]

/-! ## What a query reads -/

theorem effective_head? (c : Config) (key : Bytes) :
    (c.effective key).head? = (c.getList key).head? := by
  unfold effective getList
  cases valuesIn c.commandLine key <;> rfl

theorem effective_eq_nil_iff (c : Config) (key : Bytes) :
    c.effective key = [] ↔ c.getList key = [] := by
  rw [← List.head?_eq_none_iff, effective_head?, List.head?_eq_none_iff]

/-! ## What a call writes -/

theorem parse_isPlain (arg : Bytes) :
    (isPlain arg = true ∧ Argument.parse arg = .positional arg) ∨
      (isPlain arg = false ∧ ∀ s, Argument.parse arg ≠ .positional s) := by
  unfold isPlain Argument.parse
  cases arg.isEmpty with
  | true => simp
  | false =>
    cases plain : (arg.head? != some dash || arg == [dash]) <;> simp

theorem addArgument_eq (c : Config) (arg : Bytes) : c.addArgument arg =
    { c with
      commandLine := c.commandLine ++ ((Argument.parse arg).setting?).toList
      positional := c.positional ++ [arg].filter isPlain } := by
  rcases parse_isPlain arg with ⟨plain, parsed⟩ | ⟨option, parsed⟩
  · simp [addArgument, parsed, Argument.setting?, plain]
  · unfold addArgument
    cases h : Argument.parse arg with
    | positional s => exact absurd h (parsed s)
    | nothing | setting s => simp [Argument.setting?, option]

theorem addArguments_eq (c : Config) (argv : List Bytes) : c.addArguments argv =
    { c with
      commandLine := c.commandLine ++ (Call.arguments argv).typed
      positional := c.positional ++ (Call.arguments argv).words.filter isPlain } := by
  have words : ∀ (args : List Bytes) (c : Config),
      args.foldl (fun c a => c.addArgument a.untilZero) c =
        { c with
          commandLine := c.commandLine ++
            (args.map Bytes.untilZero).filterMap fun arg => (Argument.parse arg).setting?
          positional := c.positional ++ (args.map Bytes.untilZero).filter isPlain } := by
    intro args
    induction args with
    | nil => simp
    | cons arg args ih =>
      intro c
      rw [List.foldl_cons, ih, addArgument_eq, List.map_cons, List.filterMap_cons, List.filter_cons]
      cases (Argument.parse arg.untilZero).setting? <;> cases h : isPlain arg.untilZero <;>
        simp [h]
  exact words _ c

theorem addFile_eq (c : Config) (fs : FileSystem) (later : Log.Entry → FileSystem)
    (path : Bytes) : (c.addFile fs later path).1 =
      { c with files := c.files ++ (Call.file fs later path).appended } := by
  simp only [addFile, Call.appended]
  cases textOf? fs later path with
  | none => simp
  | some text => exact addText_fst c path text

/-- A call writes to the layer that it is about. -/
theorem apply_eq (c : Config) (call : Call) : call.apply c =
    { commandLine := c.commandLine ++ call.typed
      files := call.refile c.files
      positional := c.positional ++ call.words.filter isPlain } := by
  cases call with
  | arguments argv => exact addArguments_eq c argv
  | file fs later path => simp [Call.apply, addFile_eq, Call.refile, Call.typed, Call.words]
  | set key value => simp [Call.apply, set, Call.refile, Call.typed, Call.words]

/-- The layers that some calls add to. -/
theorem foldl_apply (c : Config) (calls : List Call) : calls.foldl Call.apply c =
    { commandLine := c.commandLine ++ calls.flatMap Call.typed
      files := calls.foldl Call.refile c.files
      positional := c.positional ++ (calls.flatMap Call.words).filter isPlain } := by
  induction calls generalizing c with
  | nil => simp
  | cons call calls ih => simp [ih, apply_eq]

theorem after_eq (calls : List Call) : after calls =
    { commandLine := calls.flatMap Call.typed
      files := calls.foldl Call.refile []
      positional := (calls.flatMap Call.words).filter isPlain } := by
  rw [after, foldl_apply]
  rfl

/-! ## What the calls make of a key -/

theorem foldl_refile (files : List Setting) (unset : ∀ v, .set key v ∉ calls) :
    valuesIn (calls.foldl Call.refile files) key =
      valuesIn files key ++ valuesIn (calls.flatMap Call.appended) key := by
  induction calls generalizing files with
  | nil => simp [valuesIn]
  | cons call calls ih =>
    have unset' : ∀ v, .set key v ∉ calls := fun v hv => unset v (List.mem_cons_of_mem _ hv)
    rw [List.foldl_cons, ih _ unset', List.flatMap_cons, valuesIn_append]
    cases call with
    | arguments argv => simp [Call.refile, Call.appended, valuesIn]
    | file fs later path => rw [Call.refile, valuesIn_append, List.append_assoc]
    | set k v =>
      have other : k ≠ key := by
        rintro rfl
        exact unset v List.mem_cons_self
      rw [Call.refile, valuesIn_other files other v]
      simp [Call.appended, valuesIn]

theorem values_of_filed {vs : List Bytes} (h : Filed key calls vs) :
    valuesIn (after calls).files key = vs := by
  rw [after_eq]
  cases h with
  | never unset => exact foldl_refile [] unset
  | since before last =>
    rw [List.foldl_append, List.foldl_cons, foldl_refile _ last, Call.refile, valuesIn_own]
    rfl

theorem exists_filed (key : Bytes) (calls : List Call) : ∃ vs, Filed key calls vs := by
  induction calls with
  | nil => exact ⟨_, .never (by simp)⟩
  | cons call calls ih =>
    obtain ⟨vs, h⟩ := ih
    cases h with
    | since before last => exact ⟨_, .since (call :: before) last⟩
    | never unset =>
      by_cases own : ∃ v, call = .set key v
      · obtain ⟨v, rfl⟩ := own
        exact ⟨_, .since [] unset⟩
      · refine ⟨_, .never fun v hv => ?_⟩
        rcases List.mem_cons.mp hv with same | hv
        · exact own ⟨v, same.symm⟩
        · exact unset v hv

/-- What is typed is what the arguments say. -/
theorem flatMap_typed {said : List Argument}
    (meant : List.Forall₂ Argument.Means (calls.flatMap Call.words) said) :
    calls.flatMap Call.typed = said.filterMap Argument.setting? := by
  obtain rfl := Argument.forall₂_means_iff.mp meant
  rw [List.filterMap_map, List.filterMap_flatMap]
  rfl

/-! ## What does not depend on the order -/

theorem flatMap_commandLine {β : Type} {f : Call → List β}
    (silent : ∀ call : Call, call.isCommandLine = false → f call = []) (calls : List Call) :
    (calls.filter Call.isCommandLine).flatMap f = calls.flatMap f := by
  induction calls with
  | nil => rfl
  | cons call calls ih =>
    cases h : call.isCommandLine with
    | true => simp [h, ih]
    | false => simp [h, ih, silent call h]

theorem foldl_refile_files (files : List Setting) (calls : List Call) :
    (calls.filter (!·.isCommandLine)).foldl Call.refile files =
      calls.foldl Call.refile files := by
  rw [List.foldl_filter]
  congr 1
  funext files call
  cases call <;> rfl

/-- Command lines and files do not get in each other's way. -/
theorem after_congr (lines : calls.filter Call.isCommandLine = others.filter Call.isCommandLine)
    (files : calls.filter (!·.isCommandLine) = others.filter (!·.isCommandLine)) :
    after calls = after others := by
  have typed : ∀ call : Call, call.isCommandLine = false → call.typed = [] := by
    rintro (_ | _ | _) h <;> first | rfl | cases h
  have words : ∀ call : Call, call.isCommandLine = false → call.words = [] := by
    rintro (_ | _ | _) h <;> first | rfl | cases h
  rw [after_eq, after_eq, ← flatMap_commandLine typed calls, ← flatMap_commandLine words calls,
    ← foldl_refile_files [] calls, lines, files, flatMap_commandLine typed,
    flatMap_commandLine words, foldl_refile_files]

/-- What a configuration answers after any calls. Each argument says one thing, and all values of a
key are those that the arguments say, in their order, and then those that the key has in the layer
of files since it was set the last time; the value of the key is the first of them, and it is there
if there is one. The positional arguments are those that are no options. Calls with the same command
lines in the same order, and the same files and values set in the same order, make the same
configuration, however the two kinds are interleaved. -/
theorem layers_faithful (calls : List Call) :
    (∃ said, List.Forall₂ Argument.Means (calls.flatMap Call.words) said) ∧
    (∀ said, List.Forall₂ Argument.Means (calls.flatMap Call.words) said → ∀ key,
      ∃ vs, Filed key calls vs ∧
        (after calls).getList key = valuesIn (said.filterMap Argument.setting?) key ++ vs ∧
        (after calls).get? key = ((after calls).getList key).head? ∧
        ((after calls).has key = true ↔ (after calls).getList key ≠ [])) ∧
    (after calls).positional = (calls.flatMap Call.words).filter isPlain ∧
    ∀ others, calls.filter Call.isCommandLine = others.filter Call.isCommandLine →
      calls.filter (!·.isCommandLine) = others.filter (!·.isCommandLine) →
        after calls = after others := by
  refine ⟨⟨_, Argument.forall₂_means_iff.mpr rfl⟩, fun said meant key => ?_, ?_,
    fun others => after_congr⟩
  · obtain ⟨vs, h⟩ := exists_filed key calls
    refine ⟨vs, h, ?_, effective_head? _ _, ?_⟩
    · rw [getList, values_of_filed h, after_eq, flatMap_typed meant]
    · simp [has, effective_eq_nil_iff]
  · rw [after_eq]

/-- A key on two command lines, set, and in a file. -/
def sampleCalls : List Call :=
  let fs : FileSystem := { nodes := [([bytes "c"], .file (bytes "# c\n k = f\n"))] }
  [.set (bytes "k") (bytes "old"), .arguments [bytes "p", bytes "-k=a", bytes "x"],
    .set (bytes "k") (bytes "s"), .file fs (fun _ => fs) (bytes "c"),
    .arguments [bytes "p", bytes "--k", bytes "-"]]

/-- It makes no difference if both command lines come last. -/
theorem layers_faithful_interleaved :
    after sampleCalls = after (sampleCalls.filter (!·.isCommandLine) ++
      sampleCalls.filter Call.isCommandLine) ∧
    ∃ said vs, List.Forall₂ Argument.Means (sampleCalls.flatMap Call.words) said ∧
      said.filterMap Argument.setting? = [(bytes "k", bytes "a"), (bytes "k", bytes "1")] ∧
      Filed (bytes "k") sampleCalls vs ∧ [bytes "s", bytes "f"] = vs ∧
      (after sampleCalls).positional = [bytes "x", bytes "-"] := by
  obtain ⟨⟨said, meant⟩, values, positional, others⟩ := layers_faithful sampleCalls
  obtain ⟨vs, filed, all, _⟩ := values said meant (bytes "k")
  have got : (after sampleCalls).getList (bytes "k") =
      [bytes "a", bytes "1", bytes "s", bytes "f"] := by decide +kernel
  have typed : said.filterMap Argument.setting? =
      [(bytes "k", bytes "a"), (bytes "k", bytes "1")] := by
    rw [← flatMap_typed meant]
    decide +kernel
  refine ⟨others _ rfl rfl, said, vs, meant, typed, filed, ?_, positional.trans (by decide +kernel)⟩
  rw [got, typed] at all
  exact (List.append_right_inj [bytes "a", bytes "1"]).mp all

end StagedPipeline.Config
