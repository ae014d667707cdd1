import StagedPipeline.Proofs.Config.Grammar
import StagedPipeline.Proofs.Config.Layers

/-!
# Files and command lines agree

The lines of a file that say something can be given as arguments instead, each behind two dashes.
They are the same settings in the same order, in the other layer, so that every query has the same
answer.
-/
namespace StagedPipeline.Config

open Bytes (Lined)

/-- A line behind two dashes. -/
def asArgument (line : Bytes) : Bytes := dash :: dash :: line

/-- The arguments that say what some lines say. -/
def asArguments (ls : List Bytes) : List Bytes :=
  (ls.filter fun line => !Line.silent line).map asArgument

variable {line path text : Bytes} {fs : FileSystem} {later : Log.Entry → FileSystem}
  {ls : List Bytes}

/-! ## Lines as arguments -/

theorem parse_asArgument (line : Bytes) :
    Argument.parse (asArgument line) = .setting (splitSetting line) :=
  (Argument.Dashed.two line).parse_eq

theorem isPlain_asArgument (line : Bytes) : isPlain (asArgument line) = false := by
  rcases parse_isPlain (asArgument line) with ⟨-, positional⟩ | ⟨option, -⟩
  · rw [parse_asArgument] at positional
    cases positional
  · exact option

theorem untilZero_asArgument (zeroFree : 0 ∉ line) :
    (asArgument line).untilZero = asArgument line := by
  rw [Bytes.untilZero, List.takeWhile_eq_self_iff]
  intro b hb
  rcases List.mem_cons.mp hb with rfl | hb
  · decide
  rcases List.mem_cons.mp hb with rfl | hb
  · decide
  · exact bne_iff_ne.mpr fun zero => zeroFree (zero ▸ hb)

theorem mem_of_lined (h : Lined text ls) (hl : line ∈ ls) {b : UInt8} (hb : b ∈ line) :
    b ∈ text := by
  induction h with
  | done => cases hl
  | rest => rwa [List.mem_singleton.mp hl] at hb
  | line whole later ih =>
    rcases List.mem_cons.mp hl with rfl | hl
    · exact List.mem_append_left _ hb
    · exact List.mem_append_right _ (List.mem_cons_of_mem _ (ih hl))

/-- The settings of lines that have their keys are read from the lines that are not silent. -/
theorem settings_eq (keyed : .keyless ∉ ls.map Line.parse) :
    (ls.map Line.parse).filterMap Line.setting? =
      (ls.filter fun line => !Line.silent line).map splitSetting := by
  induction ls with
  | nil => rfl
  | cons line ls ih =>
    rw [List.map_cons, List.mem_cons, not_or] at keyed
    rw [List.map_cons, List.filterMap_cons, ih keyed.2, List.filter_cons]
    rw [Line.parse_eq] at keyed ⊢
    cases quiet : Line.silent line with
    | true => rfl
    | false =>
      cases empty : (splitSetting line).1.isEmpty with
      | true => simp [quiet, empty] at keyed
      | false => rfl

theorem words_asArguments (program : Bytes) (zeroFree : ∀ line ∈ ls, 0 ∉ line) :
    (Call.arguments (program :: asArguments ls)).words = asArguments ls := by
  rw [Call.words, List.drop_one, List.tail_cons]
  refine (List.map_congr_left fun arg hArg => ?_).trans (List.map_id _)
  obtain ⟨line, kept, rfl⟩ := List.mem_map.mp hArg
  exact untilZero_asArgument (zeroFree line (List.mem_of_mem_filter kept))

theorem typed_asArguments (program : Bytes) (zeroFree : ∀ line ∈ ls, 0 ∉ line) :
    (Call.arguments (program :: asArguments ls)).typed =
      (ls.filter fun line => !Line.silent line).map splitSetting := by
  rw [Call.typed, words_asArguments program zeroFree, asArguments, List.filterMap_map,
    ← List.filterMap_eq_map]
  refine List.filterMap_congr fun line _ => ?_
  rw [Function.comp_apply, parse_asArgument]
  rfl

/-- A command line made of lines has no positional arguments. -/
theorem addArguments_asArguments (program : Bytes) (zeroFree : ∀ line ∈ ls, 0 ∉ line) :
    ({} : Config).addArguments (program :: asArguments ls) =
      { commandLine := (ls.filter fun line => !Line.silent line).map splitSetting } := by
  have plain : (asArguments ls).filter isPlain = [] := by
    rw [List.filter_eq_nil_iff]
    intro arg hArg
    obtain ⟨line, -, rfl⟩ := List.mem_map.mp hArg
    simp [isPlain_asArgument]
  rw [addArguments_eq, typed_asArguments program zeroFree, words_asArguments program zeroFree,
    plain]
  rfl

/-! ## One layer or the other -/

theorem effective_files (layer : List Setting) (key : Bytes) :
    effective { files := layer } key = valuesIn layer key := rfl

theorem effective_commandLine (layer : List Setting) (key : Bytes) :
    effective { commandLine := layer } key = valuesIn layer key := by
  unfold effective
  cases valuesIn layer key <;> rfl

theorem get?_congr {c d : Config} {key : Bytes} (h : c.effective key = d.effective key) :
    c.get? key = d.get? key := by
  rw [get?, get?, h]

/-- A text file without zero bytes, in which every line that says something has a key, makes the
same configuration from nothing as the arguments that its lines make: each key has the same values
in the same order, in the layer of files or on the command line, and all queries agree. -/
theorem file_agrees_with_arguments (reads : textOf? fs later path = some text)
    (lined : Lined text ls) (zeroFree : 0 ∉ text)
    (keyed : ∀ line ∈ ls, ¬Line.Means line .keyless) (program : Bytes) :
    let (filed, outcome, _) := ({} : Config).addFile fs later path
    let typed := ({} : Config).addArguments (program :: asArguments ls)
    outcome = .ok () ∧ typed.positional = [] ∧
    ∀ key, valuesIn filed.files key = valuesIn typed.commandLine key ∧
      filed.get? key = typed.get? key ∧ filed.getList key = typed.getList key ∧
      filed.has key = typed.has key ∧
      (∀ default, filed.getInt key default = typed.getInt key default) ∧
      ∀ default, filed.getSwitch key default = typed.getSwitch key default := by
  have keyed' : .keyless ∉ text.lines.map Line.parse := by
    rw [keyless_mem_iff lined]
    rintro ⟨line, hl, meant⟩
    exact keyed line hl meant
  obtain rfl := lined.lines_eq
  have zeroFree' : ∀ line ∈ text.lines, 0 ∉ line := fun line hl hb =>
    zeroFree (mem_of_lined lined hl hb)
  rw [addFile_of_textOf _ reads, addText_keyed _ _ keyed', settings_eq keyed',
    addArguments_asArguments program zeroFree']
  refine ⟨rfl, rfl, fun key => ?_⟩
  generalize (text.lines.filter fun line => !Line.silent line).map splitSetting = layer
  have same : effective { files := layer } key = effective { commandLine := layer } key :=
    (effective_files layer key).trans (effective_commandLine layer key).symm
  have got : get? { files := layer } key = get? { commandLine := layer } key := get?_congr same
  refine ⟨rfl, got, ?_, ?_, fun default => ?_, fun default => ?_⟩
  · exact (List.append_nil (valuesIn layer key)).symm
  · simp only [List.nil_append, has, same]
  · simp only [List.nil_append, getInt, got]
  · simp only [List.nil_append, getSwitch, got]

/-- Dashes in front of a key, a comment, a carriage return, several equals signs, a flag with a
blank in it and an empty value. -/
def dashedText : Bytes := bytes "--a = 1 \n# x\n -b=c=d\r\n\nflag word\n--a=\n"

def dashedFiles : FileSystem := { nodes := [([bytes "c"], .file dashedText)] }

/-- The key of the first line keeps its dashes, and has both of its values. -/
theorem file_agrees_with_arguments_dashed :
    textOf? dashedFiles (fun _ => dashedFiles) (bytes "c") = some dashedText ∧
    Lined dashedText dashedText.lines ∧ 0 ∉ dashedText ∧
    (∀ line ∈ dashedText.lines, ¬Line.Means line .keyless) ∧
    asArguments dashedText.lines = [bytes "----a = 1 ", bytes "-- -b=c=d\r", bytes "--flag word",
      bytes "----a="] ∧
    (({} : Config).addArguments ([] :: asArguments dashedText.lines)).getList (bytes "--a") =
      [bytes "1", []] := by
  have reads : textOf? dashedFiles (fun _ => dashedFiles) (bytes "c") = some dashedText := by
    decide +kernel
  have zeroFree : 0 ∉ dashedText := by decide +kernel
  have lined := Bytes.lined_lines dashedText
  have parsed : .keyless ∉ dashedText.lines.map Line.parse := by decide +kernel
  have keyed : ∀ line ∈ dashedText.lines, ¬Line.Means line .keyless := fun line hl meant =>
    parsed ((keyless_mem_iff lined).mpr ⟨line, hl, meant⟩)
  obtain ⟨-, -, agrees⟩ := file_agrees_with_arguments reads lined zeroFree keyed []
  obtain ⟨-, -, all, -⟩ := agrees (bytes "--a")
  exact ⟨reads, lined, zeroFree, keyed, by decide +kernel, all.symm.trans (by decide +kernel)⟩

end StagedPipeline.Config
