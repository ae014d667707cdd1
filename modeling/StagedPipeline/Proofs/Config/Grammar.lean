import StagedPipeline.Config
import StagedPipeline.Proofs.Bytes.Shapes
import Mathlib.Data.List.Forall2

/-!
# The grammar of settings

What an argument and a line of a file say is told from their bytes. An argument is a word, or an
option with a key that stands alone or has a value; a line is blank, a comment, a key that stands
alone, a key with a value, or a value without a key. Reading finds out which, so that adding a file
appends what its lines say, in order, up to the first one that has no key.
-/
namespace StagedPipeline.Config

open Bytes (Blank Trimmed Lined)

/-- A text that can be the key of a line. -/
structure IsKey (key : Bytes) : Prop where
  filled : key ≠ []
  trimmed : Trimmed key
  unsplit : equalsSign ∉ key
  uncommented : key.head? ≠ some commentMark

/-- What a line says. A value may hold anything, further equals signs and comment marks too. -/
inductive Line.Means : Bytes → Line → Prop
  | blank {raw} (empty : Blank raw) : Means raw .nothing
  | comment {left} (front : Blank left) (rest) : Means (left ++ commentMark :: rest) .nothing
  | flag {left key right} (front : Blank left) (back : Blank right) (isKey : IsKey key) :
      Means (left ++ key ++ right) (.setting (key, flagValue))
  | pair {left key mid mid' value right} (front : Blank left) (before : Blank mid)
      (behind : Blank mid') (back : Blank right) (isKey : IsKey key) (trimmed : Trimmed value) :
      Means (left ++ key ++ mid ++ equalsSign :: (mid' ++ value ++ right)) (.setting (key, value))
  | keyless {left} (front : Blank left) (rest) : Means (left ++ equalsSign :: rest) .keyless

/-- An option, and what is left of it without the dashes that it begins with. These are one or two:
a third one belongs to the key. A dash alone is no option. -/
inductive Argument.Dashed : Bytes → Bytes → Prop
  | one {b} (single : b ≠ dash) (rest) : Dashed (dash :: b :: rest) (b :: rest)
  | two (rest) : Dashed (dash :: dash :: rest) rest

/-- What an argument says. Here a key may be empty, and begin with the mark of a comment. -/
inductive Argument.Means : Bytes → Argument → Prop
  | empty : Means [] .nothing
  | lone : Means [dash] (.positional [dash])
  | word {b} (plain : b ≠ dash) (rest) : Means (b :: rest) (.positional (b :: rest))
  | flag {arg left key right} (dashed : Dashed arg (left ++ key ++ right)) (front : Blank left)
      (back : Blank right) (trimmed : Trimmed key) (unsplit : equalsSign ∉ key) :
      Means arg (.setting (key, flagValue))
  | pair {arg left key mid mid' value right}
      (dashed : Dashed arg (left ++ key ++ mid ++ equalsSign :: (mid' ++ value ++ right)))
      (front : Blank left) (before : Blank mid) (behind : Blank mid') (back : Blank right)
      (trimmed : Trimmed key) (unsplit : equalsSign ∉ key) (whole : Trimmed value) :
      Means arg (.setting (key, value))

/-- The setting that an argument adds, if it adds one. -/
def Argument.setting? : Argument → Option Setting
  | .setting s => some s
  | _ => none

/-- The setting that a line adds, if it adds one. -/
def Line.setting? : Line → Option Setting
  | .setting s => some s
  | _ => none

/-- A line that is blank or a comment once it is trimmed. -/
def Line.silent (raw : Bytes) : Bool := raw.trim.isEmpty || raw.trim.head? == some commentMark

variable {raw left right mid mid' key value path text : Bytes} {b : UInt8} {said : Line}
  {c : Config} {fs : FileSystem} {later : Log.Entry → FileSystem} {ls : List Bytes}

/-! ## Splitting a setting -/

theorem equalsSign_notMem_blank (h : Blank raw) : equalsSign ∉ raw :=
  fun hs => absurd (h _ hs) (by decide)

theorem equalsSign_mem_frame (front : Blank left) (back : Blank right) :
    equalsSign ∈ left ++ raw ++ right ↔ equalsSign ∈ raw := by
  simp [equalsSign_notMem_blank front, equalsSign_notMem_blank back]

theorem splitSetting_flag (unsplit : equalsSign ∉ raw) :
    splitSetting raw = (raw.trim, flagValue) := by
  rw [splitSetting, Bytes.cut_eq_none unsplit]

theorem splitSetting_pair (unsplit : equalsSign ∉ left) (right : Bytes) :
    splitSetting (left ++ equalsSign :: right) = (left.trim, right.trim) := by
  rw [splitSetting, Bytes.cut_append unsplit]

/-- A key alone, between blanks. -/
theorem splitSetting_key (front : Blank left) (back : Blank right) (trimmed : Trimmed key)
    (unsplit : equalsSign ∉ key) : splitSetting (left ++ key ++ right) = (key, flagValue) := by
  rw [← equalsSign_mem_frame front back] at unsplit
  rw [splitSetting_flag unsplit, Bytes.trim_frame front back, trimmed.trim_eq]

/-- A key and a value, each between blanks. -/
theorem splitSetting_sides (front : Blank left) (before : Blank mid) (behind : Blank mid')
    (back : Blank right) (trimmed : Trimmed key) (unsplit : equalsSign ∉ key)
    (whole : Trimmed value) :
    splitSetting (left ++ key ++ mid ++ equalsSign :: (mid' ++ value ++ right)) = (key, value) := by
  rw [← equalsSign_mem_frame front before] at unsplit
  rw [splitSetting_pair unsplit, Bytes.trim_frame front before, Bytes.trim_frame behind back,
    trimmed.trim_eq, whole.trim_eq]

/-- Blanks at the ends of a setting do not matter. -/
theorem splitSetting_trim (raw : Bytes) : splitSetting raw.trim = splitSetting raw := by
  obtain ⟨l, r, hl, hr, framed⟩ := Bytes.exists_frame raw
  rcases Bytes.cut_cases equalsSign raw.trim with ⟨unsplit, -⟩ | ⟨k, v, unsplit, split, -⟩
  · have unsplit' : equalsSign ∉ raw := by
      rwa [framed, equalsSign_mem_frame hl hr]
    rw [splitSetting_flag unsplit, splitSetting_flag unsplit', (Bytes.trimmed_trim raw).trim_eq]
  · have whole : raw = (l ++ k) ++ equalsSign :: (v ++ r) := by
      rw [framed, split]
      simp
    have unsplit' : equalsSign ∉ l ++ k := by
      simpa [equalsSign_notMem_blank hl] using unsplit
    have key : Bytes.trim (l ++ k) = k.trim := by
      simpa using Bytes.trim_frame (s := k) hl Bytes.blank_nil
    have value : Bytes.trim (v ++ r) = Bytes.trim v := by
      simpa using Bytes.trim_frame (s := v) Bytes.blank_nil hr
    rw [split, splitSetting_pair unsplit, whole, splitSetting_pair unsplit', key, value]

/-! ## One argument -/

theorem Argument.Dashed.strip_eq (h : Argument.Dashed raw left) : stripDashes raw = left := by
  cases h with
  | one single rest =>
    unfold stripDashes
    split
    case h_1 same => exact absurd (List.cons.inj (List.cons.inj same).2).1 single
    case h_2 same => exact (List.cons.inj same).2.symm
    case h_3 none => exact absurd rfl (none _)
  | two rest => rfl

theorem Argument.Dashed.parse_eq (h : Argument.Dashed raw left) :
    Argument.parse raw = .setting (splitSetting left) := by
  rw [← h.strip_eq]
  cases h <;> simp [Argument.parse]

/-- An argument is empty, a dash alone, a word, or an option. -/
theorem Argument.dashed_cases (raw : Bytes) :
    raw = [] ∨ raw = [dash] ∨ (∃ b rest, b ≠ dash ∧ raw = b :: rest) ∨
      ∃ body, Argument.Dashed raw body := by
  rcases raw with _ | ⟨b, rest⟩
  · exact .inl rfl
  by_cases first : b = dash
  swap
  · exact .inr (.inr (.inl ⟨b, rest, first, rfl⟩))
  subst first
  rcases rest with _ | ⟨b, rest⟩
  · exact .inr (.inl rfl)
  by_cases second : b = dash
  · exact .inr (.inr (.inr ⟨rest, second ▸ .two rest⟩))
  · exact .inr (.inr (.inr ⟨_, .one second rest⟩))

theorem Argument.parse_of_means {said : Argument} (h : Argument.Means raw said) :
    Argument.parse raw = said := by
  cases h with
  | empty => rfl
  | lone => rfl
  | word plain rest => simp [Argument.parse, plain]
  | flag dashed front back trimmed unsplit =>
    rw [dashed.parse_eq, splitSetting_key front back trimmed unsplit]
  | pair dashed front before behind back trimmed unsplit whole =>
    rw [dashed.parse_eq, splitSetting_sides front before behind back trimmed unsplit whole]

theorem Argument.means_parse (raw : Bytes) : Argument.Means raw (Argument.parse raw) := by
  rcases Argument.dashed_cases raw with rfl | rfl | ⟨b, rest, plain, rfl⟩ | ⟨body, dashed⟩
  · exact .empty
  · exact .lone
  · have parsed := Argument.parse_of_means (.word plain rest)
    exact parsed ▸ .word plain rest
  rw [dashed.parse_eq]
  rcases Bytes.cut_cases equalsSign body with ⟨unsplit, -⟩ | ⟨k, v, unsplit, rfl, -⟩
  · obtain ⟨l, r, hl, hr, framed⟩ := Bytes.exists_frame body
    rw [splitSetting_flag unsplit]
    rw [framed, equalsSign_mem_frame hl hr] at unsplit
    exact .flag (framed ▸ dashed) hl hr (Bytes.trimmed_trim body) unsplit
  · obtain ⟨l, r, hl, hr, key⟩ := Bytes.exists_frame k
    obtain ⟨l', r', hl', hr', value⟩ := Bytes.exists_frame v
    rw [splitSetting_pair unsplit]
    rw [key, equalsSign_mem_frame hl hr] at unsplit
    rw [key, value] at dashed
    exact .pair dashed hl hr hl' hr' (Bytes.trimmed_trim k) unsplit (Bytes.trimmed_trim v)

theorem Argument.means_iff {said : Argument} :
    Argument.Means raw said ↔ Argument.parse raw = said :=
  ⟨Argument.parse_of_means, fun parsed => parsed ▸ Argument.means_parse raw⟩

/-! ## One line -/

/-- A line that is neither blank nor a comment is a setting, unless its key is empty. -/
theorem Line.parse_eq (raw : Bytes) : Line.parse raw =
    if Line.silent raw then .nothing
    else if (splitSetting raw).1.isEmpty then .keyless else .setting (splitSetting raw) := by
  unfold Line.parse
  cases quiet : Line.silent raw with
  | true => exact if_pos quiet
  | false =>
    have filled : raw.trim.isEmpty = false := (Bool.or_eq_false_iff.mp quiet).1
    rw [Line.silent] at quiet
    simp only [quiet, Bool.false_eq_true, if_false]
    rw [← splitSetting_trim raw, splitSetting]
    cases raw.trim.cut equalsSign with
    | none => simp [(Bytes.trimmed_trim raw).trim_eq, filled]
    | some sides => rfl

theorem head?_trim (front : Blank left) (visible : Bytes.isBlank b = false) (rest : Bytes) :
    (left ++ b :: rest).trim.head? = some b := by
  rw [Bytes.trim_append_cons visible, List.dropWhile_eq_nil_iff.mpr front]
  rfl

/-- The first byte that is not blank decides whether a line is a comment. -/
theorem Line.silent_eq (front : Blank left) (visible : Bytes.isBlank b = false) (rest : Bytes) :
    Line.silent (left ++ b :: rest) = (b == commentMark) := by
  have first := head?_trim front visible rest
  have filled : (left ++ b :: rest).trim.isEmpty = false := by
    rw [List.isEmpty_eq_false_iff, ne_eq, ← List.head?_eq_none_iff, first]
    exact Option.some_ne_none b
  rw [Line.silent, filled, first]
  rfl

theorem IsKey.not_silent (isKey : IsKey key) (front : Blank left) (rest : Bytes) :
    Line.silent (left ++ key ++ rest) = false := by
  obtain ⟨b, more, rfl⟩ := List.exists_cons_of_ne_nil isKey.filled
  have uncommented : some b ≠ some commentMark := isKey.uncommented
  rw [List.append_assoc, List.cons_append, Line.silent_eq front (isKey.trimmed.starts b rfl)]
  simpa using uncommented

theorem Line.parse_of_means (h : Line.Means raw said) : Line.parse raw = said := by
  rw [Line.parse_eq]
  cases h with
  | blank empty => simp [Line.silent, Bytes.trim_eq_nil_iff.mpr empty]
  | comment front rest => simp [Line.silent_eq front (b := commentMark) (by decide)]
  | @flag left key right front back isKey =>
    rw [isKey.not_silent front right, splitSetting_key front back isKey.trimmed isKey.unsplit]
    simp [isKey.filled]
  | @pair left key mid mid' value right front before behind back isKey trimmed =>
    have heard : Line.silent (left ++ key ++ mid ++ equalsSign :: (mid' ++ value ++ right)) =
        false := by
      rw [List.append_assoc _ mid]
      exact isKey.not_silent front _
    rw [heard, splitSetting_sides front before behind back isKey.trimmed isKey.unsplit trimmed]
    simp [isKey.filled]
  | @keyless left front rest =>
    rw [Line.silent_eq front (by decide), splitSetting_pair (equalsSign_notMem_blank front),
      Bytes.trim_eq_nil_iff.mpr front]
    rfl

/-- The key that stands in front of the first equals sign, or alone, if it is not empty. -/
theorem isKey_trim (heard : Line.silent (raw ++ right) = false) (filled : raw.trim ≠ [])
    (unsplit : equalsSign ∉ raw) : IsKey raw.trim := by
  obtain ⟨l, r, hl, hr, framed⟩ := Bytes.exists_frame raw
  refine ⟨filled, Bytes.trimmed_trim raw, ?_, ?_⟩
  · rwa [framed, equalsSign_mem_frame hl hr] at unsplit
  · obtain ⟨b, more, core⟩ := List.exists_cons_of_ne_nil filled
    have visible : Bytes.isBlank b = false := (Bytes.trimmed_trim raw).starts b (by rw [core]; rfl)
    rw [framed, core, List.append_assoc, List.append_assoc, List.cons_append,
      Line.silent_eq hl visible] at heard
    rw [core, List.head?_cons]
    simpa using heard

theorem Line.means_parse (raw : Bytes) : Line.Means raw (Line.parse raw) := by
  rw [Line.parse_eq]
  cases quiet : Line.silent raw with
  | true =>
    obtain ⟨l, r, hl, hr, framed⟩ := Bytes.exists_frame raw
    rcases Bool.or_eq_true_iff.mp quiet with empty | mark
    · exact .blank (Bytes.trim_eq_nil_iff.mp (List.isEmpty_iff.mp empty))
    · obtain ⟨rest, core⟩ := List.head?_eq_some_iff.mp (eq_of_beq mark)
      rw [framed, core, List.append_assoc, List.cons_append]
      exact .comment hl _
  | false =>
    rcases Bytes.cut_cases equalsSign raw with ⟨unsplit, -⟩ | ⟨k, v, unsplit, rfl, -⟩
    · have filled : raw.trim ≠ [] := by
        intro empty
        simp [Line.silent, empty] at quiet
      obtain ⟨l, r, hl, hr, framed⟩ := Bytes.exists_frame raw
      have heard : Line.silent (raw ++ []) = false := by simpa using quiet
      have meant := Line.Means.flag hl hr (isKey_trim heard filled unsplit)
      rw [← framed] at meant
      simpa [splitSetting_flag unsplit, filled] using meant
    · rw [splitSetting_pair unsplit]
      by_cases filled : k.trim = []
      · simpa [filled] using Line.Means.keyless (Bytes.trim_eq_nil_iff.mp filled) v
      · obtain ⟨l, r, hl, hr, key⟩ := Bytes.exists_frame k
        obtain ⟨l', r', hl', hr', value⟩ := Bytes.exists_frame v
        have meant := Line.Means.pair hl hr hl' hr' (isKey_trim quiet filled unsplit)
          (Bytes.trimmed_trim v)
        rw [← key, ← value] at meant
        simpa [filled] using meant

theorem Line.means_iff : Line.Means raw said ↔ Line.parse raw = said :=
  ⟨Line.parse_of_means, fun parsed => parsed ▸ Line.means_parse raw⟩

/-! ## All arguments, and all lines of a file -/

/-- What is read one by one means what each of it means. -/
theorem forall₂_iff_map_eq {α : Type} {means : Bytes → α → Prop} {parse : Bytes → α} {all : List α}
    (reads : ∀ {raw said}, means raw said ↔ parse raw = said) :
    List.Forall₂ means ls all ↔ ls.map parse = all := by
  rw [← List.forall₂_eq_eq_eq, List.forall₂_map_left_iff]
  exact ⟨fun h => h.imp fun _ _ => reads.mp, fun h => h.imp fun _ _ => reads.mpr⟩

theorem Argument.forall₂_means_iff {said : List Argument} :
    List.Forall₂ Argument.Means ls said ↔ ls.map Argument.parse = said :=
  forall₂_iff_map_eq Argument.means_iff

theorem Line.forall₂_means_iff {all : List Line} :
    List.Forall₂ Line.Means ls all ↔ ls.map Line.parse = all :=
  forall₂_iff_map_eq Line.means_iff

/-- Lines that are not without a key are read one by one. -/
theorem readLines_append {good : List Bytes} (keyed : .keyless ∉ good.map Line.parse) (n : Nat)
    (rest : List Bytes) : readLines (.ofNat n) (good ++ rest) =
      ((good.map Line.parse).filterMap Line.setting? ++
          (readLines (.ofNat (n + good.length)) rest).1,
        (readLines (.ofNat (n + good.length)) rest).2) := by
  induction good generalizing n with
  | nil => rfl
  | cons line good ih =>
    rw [List.map_cons, List.mem_cons, not_or] at keyed
    have next : Int32.ofNat n + 1 = .ofNat (n + 1) := (Int32.ofNat_add n 1).symm
    have shift : n + 1 + good.length = n + (line :: good).length := by
      rw [List.length_cons]
      omega
    rw [List.cons_append, readLines, next, ih keyed.2, shift]
    cases parsed : Line.parse line with
    | nothing | setting s => rw [List.map_cons, List.filterMap_cons, parsed]; rfl
    | keyless => exact absurd parsed.symm keyed.1

theorem readLines_keyed (keyed : .keyless ∉ ls.map Line.parse) (n : Nat) :
    readLines (.ofNat n) ls = ((ls.map Line.parse).filterMap Line.setting?, none) := by
  simpa [readLines] using readLines_append keyed n []

theorem readLines_keyless {good bad : List Line}
    (split : ls.map Line.parse = good ++ .keyless :: bad) (keyed : .keyless ∉ good) (n : Nat) :
    readLines (.ofNat n) ls = (good.filterMap Line.setting?, some (.ofNat (n + good.length))) := by
  obtain ⟨front, back, rfl, rfl, behind⟩ := List.map_eq_append_iff.mp split
  obtain ⟨line, rest, rfl, parsed, rfl⟩ := List.map_eq_cons_iff.mp behind
  simp [readLines_append keyed n, readLines, parsed]

theorem keyless_mem_iff (lined : Lined text ls) :
    .keyless ∈ text.lines.map Line.parse ↔ ∃ line ∈ ls, Line.Means line .keyless := by
  rw [lined.lines_eq, List.mem_map]
  simp only [Line.means_iff]

theorem addText_keyed (c : Config) (path : Bytes) (keyed : .keyless ∉ text.lines.map Line.parse) :
    c.addText path text =
      ({ c with files := c.files ++ (text.lines.map Line.parse).filterMap Line.setting? },
        .ok ()) := by
  rw [addText, show (1 : Int32) = .ofNat 1 from rfl, readLines_keyed keyed]

theorem addText_keyless (c : Config) (path : Bytes) {good bad : List Line}
    (split : text.lines.map Line.parse = good ++ .keyless :: bad) (keyed : .keyless ∉ good) :
    c.addText path text = ({ c with files := c.files ++ good.filterMap Line.setting? },
      .error (keylessAt path (.ofNat (good.length + 1)))) := by
  rw [addText, show (1 : Int32) = .ofNat 1 from rfl, readLines_keyless split keyed, Nat.add_comm 1]

/-- A text is added to the layer of files. -/
theorem addText_fst (c : Config) (path text : Bytes) :
    (c.addText path text).1 = { c with files := c.files ++ (readLines 1 text.lines).1 } := by
  rcases read : readLines 1 text.lines with ⟨settings, bad⟩
  cases bad <;> simp [addText, read]

theorem addText_ok_iff (c : Config) (path text : Bytes) :
    (c.addText path text).2 = .ok () ↔ .keyless ∉ text.lines.map Line.parse := by
  by_cases keyed : .keyless ∉ text.lines.map Line.parse
  · simp [addText_keyed c path keyed, keyed]
  · obtain ⟨good, bad, split, first⟩ := List.eq_append_cons_of_mem (not_not.mp keyed)
    simp [addText_keyless c path split first, not_not.mp keyed]

theorem textOf?_eq_none_iff : textOf? fs later path = none ↔ fs.read? path = none :=
  Option.map_eq_none_iff

theorem addFile_of_absent (c : Config) (later : Log.Entry → FileSystem)
    (absent : fs.read? path = none) : c.addFile fs later path =
      (c, .error (.of .fileNotFound (bytes "unable to open config file " ++ path.quoted)), []) := by
  simp only [addFile, textOf?_eq_none_iff.mpr absent]

theorem addFile_of_textOf (c : Config) (reads : textOf? fs later path = some text) :
    c.addFile fs later path =
      ((c.addText path text).1, (c.addText path text).2, [loading path]) := by
  simp only [addFile, reads]

/-- A comment, a blank line, a value with blanks and an equals sign, a flag, and a line without a
key in front of another setting. -/
def sampleText : Bytes := bytes " # k=0\n\r\n k = a = b \r\nflag\n\n\t= x\nlate=1"

def sampleFiles : FileSystem := { nodes := [([bytes "c"], .file sampleText)] }

end StagedPipeline.Config
