import StagedPipeline.Proofs.Config.Layers
import StagedPipeline.Proofs.Settings.Validity

/-!
# Asking for settings again

Each time that settings are asked for, the file is merged into the configuration once more, behind
what it already holds. A key keeps the value that comes first, so that a second merge hides behind
the first one: it adds to the layer of files and changes no answer, not even the name of the file.
-/
namespace StagedPipeline.Settings

open Config (valuesIn)

/-- What a call for settings adds to the layer of files. -/
def added (c : Config) (fs : FileSystem) (later : Log.Entry → FileSystem) : List Config.Setting :=
  match c.get? (bytes "conf") with
  | none => []
  | some path => (Config.Call.file fs later path).appended

/-- The configuration once settings have been asked for so many times. -/
def asked (c : Config) (fs : FileSystem) (later : Log.Entry → FileSystem) (n : Nat) : Config :=
  (fun c => (ofConfig c fs later).1)^[n] c

variable {c d : Config} {fs : FileSystem} {later : Log.Entry → FileSystem}

/-! ## One more merge -/

/-- Settings behind those of a layer only count for keys that have no value yet. -/
theorem get?_append (c : Config) (more : List Config.Setting) (key : Bytes) :
    Config.get? { c with files := c.files ++ more } key =
      (c.get? key).or (valuesIn more key).head? := by
  simp only [Config.get?, Config.effective_head?, Config.getList, Config.valuesIn_append,
    List.head?_append, Option.or_assoc]

theorem merged_eq (c : Config) (fs : FileSystem) (later : Log.Entry → FileSystem) :
    merged c fs later = { c with files := c.files ++ added c fs later } := by
  unfold merged added
  cases c.get? (bytes "conf") with
  | none => simp
  | some path => exact Config.addFile_eq c fs later path

theorem ofConfig_fst (c : Config) (fs : FileSystem) (later : Log.Entry → FileSystem) :
    (ofConfig c fs later).1 = merged c fs later := by
  unfold ofConfig merged
  cases c.get? (bytes "conf") <;> rfl

theorem get?_merged (c : Config) (key : Bytes) : (merged c fs later).get? key =
    (c.get? key).or (valuesIn (added c fs later) key).head? := by
  rw [merged_eq, get?_append]

/-- Merging does not change which file is merged. -/
theorem get?_conf_merged (c : Config) :
    (merged c fs later).get? (bytes "conf") = c.get? (bytes "conf") := by
  rw [get?_merged, added]
  cases c.get? (bytes "conf") <;> rfl

theorem added_congr (same : c.get? (bytes "conf") = d.get? (bytes "conf")) :
    added c fs later = added d fs later := by
  rw [added, added, same]

/-! ## Answers -/

theorem ofMerged_congr (same : ∀ key, c.get? key = d.get? key) : ofMerged c = ofMerged d := by
  simp only [ofMerged, positive, level, Config.getSwitch, same]

theorem addFile_snd (c d : Config) (path : Bytes) :
    (c.addFile fs later path).2 = (d.addFile fs later path).2 := by
  cases reads : Config.textOf? fs later path with
  | none =>
    have absent := Config.textOf?_eq_none_iff.mp reads
    rw [Config.addFile_of_absent c later absent, Config.addFile_of_absent d later absent]
  | some text =>
    rw [Config.addFile_of_textOf c reads, Config.addFile_of_textOf d reads, Config.addText,
      Config.addText]
    rcases Config.readLines 1 text.lines with ⟨settings, bad⟩
    cases bad <;> rfl

/-- The answer depends on the name of the file and on the values once it is merged. -/
theorem ofConfig_congr (file : c.get? (bytes "conf") = d.get? (bytes "conf"))
    (same : ∀ key, (merged c fs later).get? key = (merged d fs later).get? key) :
    (ofConfig c fs later).2 = (ofConfig d fs later).2 := by
  unfold merged at same
  unfold ofConfig
  rw [file] at same ⊢
  cases got : d.get? (bytes "conf") with
  | none =>
    rw [got] at same
    simp only [ofMerged_congr same]
  | some path =>
    rw [got] at same
    simp only [ofMerged_congr same, addFile_snd c d path]

/-! ## Many calls -/

theorem asked_succ (c : Config) (fs : FileSystem) (later : Log.Entry → FileSystem) (n : Nat) :
    asked c fs later (n + 1) = merged (asked c fs later n) fs later := by
  rw [asked, Function.iterate_succ_apply', ofConfig_fst, asked]

theorem get?_conf_asked (n : Nat) :
    (asked c fs later n).get? (bytes "conf") = c.get? (bytes "conf") := by
  induction n with
  | zero => rfl
  | succ n ih => rw [asked_succ, get?_conf_merged, ih]

/-- Each call adds the same. -/
theorem added_asked (n : Nat) : added (asked c fs later n) fs later = added c fs later :=
  added_congr (get?_conf_asked n)

/-- From the first merge on, no key changes its value. -/
theorem get?_asked (n : Nat) (key : Bytes) :
    (asked c fs later (n + 1)).get? key = (merged c fs later).get? key := by
  induction n with
  | zero => rw [asked_succ]; rfl
  | succ n ih =>
    rw [asked_succ, get?_merged, ih, added_asked, get?_merged, Option.or_assoc, Option.or_self]

theorem files_asked (n : Nat) : (asked c fs later n).files =
    c.files ++ (List.replicate n (added c fs later)).flatten := by
  induction n with
  | zero => simp [asked]
  | succ n ih =>
    rw [asked_succ, merged_eq, added_asked, ih, List.replicate_succ', List.flatten_concat,
      List.append_assoc]

/-- As long as the files stay what they are, settings may be asked for any number of times: the
answer is that of the first time, an error too, although each time the file is merged into the
configuration once more. -/
theorem ofConfig_repeats (c : Config) (fs : FileSystem) (later : Log.Entry → FileSystem) (n : Nat) :
    (ofConfig (asked c fs later n) fs later).2 = (ofConfig c fs later).2 ∧
      (asked c fs later n).files = c.files ++ (List.replicate n (added c fs later)).flatten := by
  refine ⟨ofConfig_congr (get?_conf_asked n) fun key => ?_, files_asked n⟩
  rw [← asked_succ, get?_asked]

end StagedPipeline.Settings
