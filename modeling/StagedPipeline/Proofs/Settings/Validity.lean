import StagedPipeline.Proofs.Config.Grammar
import StagedPipeline.Proofs.Config.Numerals
import StagedPipeline.Proofs.Settings.Vocabulary

/-!
# Which configurations make settings

Four keys are checked: those of the error capacity, the poll interval, the level and the
categories. A configuration makes settings if the file that it names can be opened and merged and
no checked key has a value of another form, and then each setting is what the value of its key
means, or its default. The switch for the console is not checked: a text that names no position
counts as an absent one.
-/
namespace StagedPipeline.Settings

open Bytes (Lined)

/-- A number from one upwards. -/
def Counts (text : Bytes) (v : Int) : Prop :=
  Config.Numeral text v ∧ 1 ≤ v ∧ v ≤ Config.greatestInteger

/-- What a key is set to: something that its text means, or the default if it is absent. -/
inductive Taken {α : Type} (c : Config) (key : Bytes) (means : Bytes → α → Prop) (default : α) :
    α → Prop
  | absent (unset : c.get? key = none) : Taken c key means default default
  | given {text a} (found : c.get? key = some text) (meant : means text a) :
      Taken c key means default a

/-- The keys whose values have a form. -/
inductive Key where
  | capacity
  | interval
  | level
  | categories
  | console
deriving DecidableEq, Repr

def Key.name : Key → Bytes
  | .capacity => bytes "errcap"
  | .interval => bytes "pollms"
  | .level => bytes "loglevel"
  | .categories => bytes "debug"
  | .console => bytes "printtoconsole"

/-- The texts that have the form of a key's values. -/
def Key.Admits : Key → Bytes → Prop
  | .capacity, text | .interval, text => ∃ v, Counts text v
  | .level, text => ∃ l, Names Log.Level.words text l
  | .categories, text => ∃ union, Lists text union
  | .console, text => ∃ b, Names switchWords text b

/-- The keys whose values are checked. -/
def checked : List Key := [.capacity, .interval, .level, .categories]

/-- A key has a value, and not of its form. -/
def Invalid (c : Config) (key : Key) : Prop :=
  ∃ text, c.get? key.name = some text ∧ ¬key.Admits text

/-- Settings that say what a configuration says. Debug output is the default if categories are
asked for. -/
structure Reflects (c : Config) (s : Settings) : Prop where
  capacity : Taken c (bytes "errcap") Counts 4 (s.errorCapacity.toNat : Int)
  interval : Taken c (bytes "pollms") Counts 10 s.pollInterval
  level : Taken c (bytes "loglevel") (Names Log.Level.words)
    (if (c.get? (bytes "debug")).isSome then .debug else .info) s.logLevel
  categories : Taken c (bytes "debug") (fun text chosen => ∃ union, Lists text union ∧
    chosen = some union) none s.logCategories
  file : Taken c (bytes "logfile") (fun text file =>
    file = if text.isEmpty then none else some text) none s.logFile
  console : Taken c (bytes "printtoconsole") (fun text b => Names switchWords text b ∨
    (∀ b, ¬Names switchWords text b) ∧ b = true) true s.console

/-- The configuration names a file that cannot be opened. -/
def Unopened (c : Config) (fs : FileSystem) : Prop :=
  ∃ path, c.get? (bytes "conf") = some path ∧ fs.read? path = none

/-- The configuration names a file that has a line without a key. -/
def Unmergeable (c : Config) (fs : FileSystem) (later : Log.Entry → FileSystem) : Prop :=
  ∃ path text ls, c.get? (bytes "conf") = some path ∧
    Config.textOf? fs later path = some text ∧ Lined text ls ∧
    ∃ line ∈ ls, Config.Line.Means line .keyless

/-- The configuration with the file that it names merged into it. -/
def merged (c : Config) (fs : FileSystem) (later : Log.Entry → FileSystem) : Config :=
  match c.get? (bytes "conf") with
  | none => c
  | some path => (c.addFile fs later path).1

/-- There is a reason to refuse settings, if these keys are checked: a file that cannot be opened
or merged, or an invalid value of one of the keys. -/
def Refusable (keys : List Key) (c : Config) (fs : FileSystem) (later : Log.Entry → FileSystem) :
    Prop :=
  Unopened c fs ∨ Unmergeable c fs later ∨ ∃ key ∈ keys, Invalid (merged c fs later) key

/-- Settings are refused for these reasons and for nothing else. -/
def RefusesExactly (keys : List Key) (c : Config) (fs : FileSystem)
    (later : Log.Entry → FileSystem) : Prop :=
  (ofConfig c fs later).2.1.isOk = false ↔ Refusable keys c fs later

variable {α β : Type} {c : Config} {key text : Bytes} {means : Bytes → α → Prop} {default a : α}
  {s : Settings} {v : Int} {e : Error} {fs : FileSystem} {later : Log.Entry → FileSystem}

/-! ## One key -/

theorem exists_taken_iff :
    (∃ a, Taken c key means default a) ↔ ∀ text, c.get? key = some text → ∃ a, means text a := by
  constructor
  · rintro ⟨a, taken⟩ text found
    cases taken with
    | absent unset => rw [unset] at found; cases found
    | given found' meant =>
      obtain rfl := Option.some.inj (found.symm.trans found')
      exact ⟨a, meant⟩
  · intro all
    cases got : c.get? key with
    | none => exact ⟨default, .absent got⟩
    | some text =>
      obtain ⟨a, meant⟩ := all text got
      exact ⟨a, .given got meant⟩

theorem taken_of_none (unset : c.get? key = none) :
    Taken c key means default a ↔ a = default := by
  constructor
  · rintro (_ | ⟨found, _⟩)
    · rfl
    · rw [unset] at found; cases found
  · rintro rfl
    exact .absent unset

theorem taken_of_some (found : c.get? key = some text) :
    Taken c key means default a ↔ means text a := by
  constructor
  · rintro (unset | ⟨found', meant⟩)
    · rw [unset] at found; cases found
    · obtain rfl := Option.some.inj (found.symm.trans found')
      exact meant
  · exact .given found

theorem Taken.counts_bounds {n : Int} (h : Taken c key Counts n v) (least : 1 ≤ n)
    (most : n ≤ Config.greatestInteger) : 1 ≤ v ∧ v ≤ Config.greatestInteger := by
  cases h with
  | absent => exact ⟨least, most⟩
  | given _ meant => exact meant.2

theorem counts_iff : Counts text v ↔ Config.integer? text = some v ∧ 1 ≤ v := by
  rw [Counts, Config.integer?_eq_some_iff]
  constructor
  · rintro ⟨numeral, least, most⟩
    exact ⟨⟨numeral, Int.le_trans (by decide) least, most⟩, least⟩
  · rintro ⟨⟨numeral, -, most⟩, least⟩
    exact ⟨numeral, least, most⟩

theorem positive_eq_ok_iff {n : Int} : positive c key n = .ok v ↔ Taken c key Counts n v := by
  cases got : c.get? key with
  | none => simp [positive, got, taken_of_none got, eq_comm]
  | some text =>
    rw [taken_of_some got, counts_iff]
    simp only [positive, got]
    cases Config.integer? text with
    | none => simp
    | some w =>
      by_cases small : w < 1
      · simp only [small, if_true, Option.some_inj]
        constructor
        · intro h
          cases h
        · rintro ⟨rfl, least⟩
          omega
      · simp only [small, if_false, Option.some_inj, Except.ok.injEq]
        exact ⟨fun h => ⟨h, by omega⟩, fun h => h.1⟩

theorem positive_error {n : Int} (h : positive c key n = .error e) : e.code = .configInvalid := by
  unfold positive at h
  repeat' split at h
  all_goals cases h
  all_goals rfl

theorem level_eq_ok_iff {l : Log.Level} : level c = .ok l ↔
    Taken c (bytes "loglevel") (Names Log.Level.words)
      (if (c.get? (bytes "debug")).isSome then .debug else .info) l := by
  cases got : c.get? (bytes "loglevel") with
  | none =>
    rw [taken_of_none got, level, got, Except.ok.injEq]
    exact eq_comm
  | some text =>
    rw [taken_of_some got, ← level?_eq_some_iff]
    simp only [level, got]
    cases Log.Level.parse? text <;> simp

theorem level_error (h : level c = .error e) : e.code = .configInvalid := by
  unfold level at h
  repeat' split at h
  all_goals cases h
  all_goals rfl

/-- The categories of a configuration, if it asks for some. -/
def chosen (c : Config) : Outcome (Option Log.Category) :=
  match c.get? (bytes "debug") with
  | none => pure none
  | some text => some <$> categories text

theorem chosen_eq_ok_iff {o : Option Log.Category} : chosen c = .ok o ↔
    Taken c (bytes "debug") (fun text chosen => ∃ union, Lists text union ∧
      chosen = some union) none o := by
  cases got : c.get? (bytes "debug") with
  | none => simp [chosen, got, taken_of_none got, eq_comm, pure, Except.pure]
  | some text =>
    rw [taken_of_some got]
    simp only [chosen, got, ← categories_eq_ok_iff]
    cases categories text <;> simp [Functor.map, Except.map, eq_comm]

theorem chosen_error (h : chosen c = .error e) : e.code = .configInvalid := by
  unfold chosen at h
  split at h
  · cases h
  · rename_i text _
    cases listed : categories text with
    | ok union => rw [listed] at h; cases h
    | error e' =>
      rw [listed] at h
      cases h
      exact unionOf_error listed

/-! ## All keys -/

theorem bind_eq_ok_iff {x : Outcome α} {f : α → Outcome β} {b : β} :
    (x >>= f) = .ok b ↔ ∃ a, x = .ok a ∧ f a = .ok b := by
  cases x <;> simp [bind, Except.bind]

theorem bind_eq_error_iff {x : Outcome α} {f : α → Outcome β} :
    (x >>= f) = .error e ↔ x = .error e ∨ ∃ a, x = .ok a ∧ f a = .error e := by
  cases x <;> simp [bind, Except.bind]

/-- The settings that are put together when all keys have been checked. -/
def assembled (c : Config) (capacity interval : Int) (level : Log.Level)
    (categories : Option Log.Category) : Settings where
  errorCapacity := UInt64.ofNat capacity.toNat
  pollInterval := interval
  logLevel := level
  logCategories := categories
  logFile := (c.get? (bytes "logfile")).filter fun p => !p.isEmpty
  console := c.getSwitch (bytes "printtoconsole") true

theorem ofMerged_eq (c : Config) : ofMerged c = (do
    let capacity ← positive c (bytes "errcap") 4
    let interval ← positive c (bytes "pollms") 10
    let level ← level c
    let categories ← chosen c
    pure (assembled c capacity interval level categories)) := by
  simp only [ofMerged, chosen]
  cases c.get? (bytes "debug") <;> rfl

theorem ofMerged_eq_ok_iff : ofMerged c = .ok s ↔
    ∃ capacity interval l o, positive c (bytes "errcap") 4 = .ok capacity ∧
      positive c (bytes "pollms") 10 = .ok interval ∧ level c = .ok l ∧ chosen c = .ok o ∧
      s = assembled c capacity interval l o := by
  rw [ofMerged_eq]
  simp only [bind_eq_ok_iff, pure, Except.pure, Except.ok.injEq]
  constructor
  · rintro ⟨capacity, hc, interval, hi, l, hl, o, ho, rfl⟩
    exact ⟨capacity, interval, l, o, hc, hi, hl, ho, rfl⟩
  · rintro ⟨capacity, interval, l, o, hc, hi, hl, ho, rfl⟩
    exact ⟨capacity, hc, interval, hi, l, hl, o, ho, rfl⟩

theorem ofMerged_error (h : ofMerged c = .error e) : e.code = .configInvalid := by
  rw [ofMerged_eq] at h
  simp only [bind_eq_error_iff] at h
  rcases h with h | ⟨_, -, h | ⟨_, -, h | ⟨_, -, h | ⟨_, -, h⟩⟩⟩⟩
  · exact positive_error h
  · exact positive_error h
  · exact level_error h
  · exact chosen_error h
  · cases h

theorem taken_file (c : Config) : Taken c (bytes "logfile") (fun text file =>
    file = if text.isEmpty then none else some text) none
    ((c.get? (bytes "logfile")).filter fun p => !p.isEmpty) := by
  cases got : c.get? (bytes "logfile") with
  | none => exact .absent got
  | some text =>
    rw [taken_of_some got]
    cases empty : text.isEmpty <;> simp [Option.filter, empty]

theorem taken_console (c : Config) : Taken c (bytes "printtoconsole") (fun text b =>
    Names switchWords text b ∨ (∀ b, ¬Names switchWords text b) ∧ b = true) true
    (c.getSwitch (bytes "printtoconsole") true) := by
  cases got : c.get? (bytes "printtoconsole") with
  | none =>
    rw [taken_of_none got, Config.getSwitch, got]
    rfl
  | some text =>
    rw [taken_of_some got, Config.getSwitch, got, Option.bind_some]
    cases read : Config.switch? text with
    | some b => exact .inl (switch?_eq_some_iff.mp read)
    | none =>
      refine .inr ⟨fun b named => ?_, rfl⟩
      rw [switch?_eq_some_iff.mpr named] at read
      cases read

theorem reflects_of_ofMerged (h : ofMerged c = .ok s) : Reflects c s := by
  obtain ⟨capacity, interval, l, o, hc, hi, hl, ho, rfl⟩ := ofMerged_eq_ok_iff.mp h
  have taken := positive_eq_ok_iff.mp hc
  obtain ⟨least, most⟩ := taken.counts_bounds (by decide) (by decide)
  have word : capacity.toNat < UInt64.size := by
    simp only [Config.greatestInteger] at most
    exact Nat.lt_of_le_of_lt (Int.toNat_le_toNat most) (by decide)
  have same : ((assembled c capacity interval l o).errorCapacity.toNat : Int) = capacity := by
    rw [assembled, UInt64.toNat_ofNat_of_lt' word]
    omega
  exact ⟨same.symm ▸ taken, positive_eq_ok_iff.mp hi, level_eq_ok_iff.mp hl,
    chosen_eq_ok_iff.mp ho, taken_file c, taken_console c⟩

theorem not_invalid_iff {k : Key} :
    ¬Invalid c k ↔ ∀ text, c.get? k.name = some text → k.Admits text := by
  simp [Invalid]

theorem exists_ofMerged_iff : (∃ s, ofMerged c = .ok s) ↔ ∀ k ∈ checked, ¬Invalid c k := by
  have parts : (∃ s, ofMerged c = .ok s) ↔
      (∃ v, positive c (bytes "errcap") 4 = .ok v) ∧ (∃ v, positive c (bytes "pollms") 10 = .ok v) ∧
        (∃ l, level c = .ok l) ∧ ∃ o, chosen c = .ok o := by
    simp only [ofMerged_eq_ok_iff]
    constructor
    · rintro ⟨_, capacity, interval, l, o, hc, hi, hl, ho, -⟩
      exact ⟨⟨capacity, hc⟩, ⟨interval, hi⟩, ⟨l, hl⟩, o, ho⟩
    · rintro ⟨⟨capacity, hc⟩, ⟨interval, hi⟩, ⟨l, hl⟩, o, ho⟩
      exact ⟨_, capacity, interval, l, o, hc, hi, hl, ho, rfl⟩
  rw [parts]
  simp only [positive_eq_ok_iff, level_eq_ok_iff, chosen_eq_ok_iff, exists_taken_iff]
  simp [checked, not_invalid_iff, Key.name, Key.Admits]

theorem ofMerged_isOk_eq_false_iff :
    (ofMerged c).isOk = false ↔ ∃ k ∈ checked, Invalid c k := by
  have failed : (ofMerged c).isOk = false ↔ ¬∃ s, ofMerged c = .ok s := by
    cases ofMerged c <;> simp [Outcome.isOk]
  rw [failed, exists_ofMerged_iff]
  push Not
  rfl

/-! ## The file -/

theorem ofConfig_of_unset (unset : c.get? (bytes "conf") = none) :
    ofConfig c fs later = (c, ofMerged c, []) := by
  simp only [ofConfig, unset]

theorem ofConfig_of_file {path : Bytes} (file : c.get? (bytes "conf") = some path) :
    (ofConfig c fs later).2.1 =
      (c.addFile fs later path).2.1.andThen fun _ => ofMerged (merged c fs later) := by
  simp only [ofConfig, merged, file]

theorem ofConfig_of_unopened (h : Unopened c fs) :
    ∃ e, (ofConfig c fs later).2.1 = .error e ∧ e.code = .fileNotFound := by
  obtain ⟨path, file, absent⟩ := h
  rw [ofConfig_of_file file, Config.addFile_of_absent c later absent]
  exact ⟨_, rfl, rfl⟩

theorem ofConfig_of_unmergeable (h : Unmergeable c fs later) :
    ∃ e, (ofConfig c fs later).2.1 = .error e ∧ e.code = .configInvalid := by
  obtain ⟨path, text, ls, file, reads, lined, keyless⟩ := h
  obtain ⟨good, bad, split, first⟩ :=
    List.eq_append_cons_of_mem ((Config.keyless_mem_iff lined).mpr keyless)
  rw [ofConfig_of_file file, Config.addFile_of_textOf c reads,
    Config.addText_keyless c path split first]
  exact ⟨_, rfl, rfl⟩

/-- If the file can be merged, the merged configuration decides. -/
theorem ofConfig_of_merged (opened : ¬Unopened c fs) (mergeable : ¬Unmergeable c fs later) :
    (ofConfig c fs later).2.1 = ofMerged (merged c fs later) := by
  cases file : c.get? (bytes "conf") with
  | none => simp only [ofConfig_of_unset file, merged, file]
  | some path =>
    cases reads : Config.textOf? fs later path with
    | none => exact absurd ⟨path, file, Config.textOf?_eq_none_iff.mp reads⟩ opened
    | some text =>
      have lined := Bytes.lined_lines text
      have keyed : .keyless ∉ text.lines.map Config.Line.parse := by
        rw [Config.keyless_mem_iff lined]
        exact fun keyless => mergeable ⟨path, text, _, file, reads, lined, keyless⟩
      rw [ofConfig_of_file file, Config.addFile_of_textOf c reads,
        (Config.addText_ok_iff c path text).mpr keyed]
      rfl

/-- The file decides if it cannot be merged, and else the merged configuration does. -/
theorem ofConfig_cases (c : Config) (fs : FileSystem) (later : Log.Entry → FileSystem) :
    (Unopened c fs ∧ ∃ e, (ofConfig c fs later).2.1 = .error e ∧ e.code = .fileNotFound) ∨
    (¬Unopened c fs ∧ Unmergeable c fs later ∧
      ∃ e, (ofConfig c fs later).2.1 = .error e ∧ e.code = .configInvalid) ∨
    (¬Unopened c fs ∧ ¬Unmergeable c fs later ∧
      (ofConfig c fs later).2.1 = ofMerged (merged c fs later)) := by
  by_cases opened : Unopened c fs
  · exact .inl ⟨opened, ofConfig_of_unopened opened⟩
  by_cases mergeable : Unmergeable c fs later
  · exact .inr (.inl ⟨opened, mergeable, ofConfig_of_unmergeable mergeable⟩)
  · exact .inr (.inr ⟨opened, mergeable, ofConfig_of_merged opened mergeable⟩)

theorem code_of_ofConfig (failed : (ofConfig c fs later).2.1 = .error e) :
    Unopened c fs ∧ e.code = .fileNotFound ∨ ¬Unopened c fs ∧ e.code = .configInvalid := by
  rcases ofConfig_cases c fs later with
    ⟨opened, e', failed', code⟩ | ⟨opened, -, e', failed', code⟩ | ⟨opened, -, decided⟩
  · rw [failed, Except.error.injEq] at failed'
    exact .inl ⟨opened, failed' ▸ code⟩
  · rw [failed, Except.error.injEq] at failed'
    exact .inr ⟨opened, failed' ▸ code⟩
  · exact .inr ⟨opened, ofMerged_error (decided ▸ failed)⟩

theorem reflects_of_ofConfig (made : (ofConfig c fs later).2.1 = .ok s) :
    Reflects (merged c fs later) s := by
  rcases ofConfig_cases c fs later with ⟨-, e, failed, -⟩ | ⟨-, -, e, failed, -⟩ | ⟨-, -, decided⟩
  · rw [made] at failed
    cases failed
  · rw [made] at failed
    cases failed
  · exact reflects_of_ofMerged (decided ▸ made)

/-- The error capacity of settings that were accepted. -/
theorem capacity_of_ofConfig {c' : Config} {entries : List Log.Entry}
    (h : ofConfig c fs later = (c', .ok s, entries)) :
    0 < s.errorCapacity.toNat ∧ (s.errorCapacity.toNat : Int) ≤ Config.greatestInteger := by
  have reflects : Reflects (merged c fs later) s := reflects_of_ofConfig (by rw [h])
  obtain ⟨least, most⟩ := reflects.capacity.counts_bounds (by decide) (by decide)
  exact ⟨by omega, most⟩

theorem refusable_append_singleton {keys : List Key} {k : Key} :
    Refusable (keys ++ [k]) c fs later ↔
      Refusable keys c fs later ∨ Invalid (merged c fs later) k := by
  simp only [Refusable, List.mem_append, List.mem_singleton, or_and_right, exists_or,
    exists_eq_left, or_assoc]

theorem refusesExactly_checked (c : Config) (fs : FileSystem) (later : Log.Entry → FileSystem) :
    RefusesExactly checked c fs later := by
  unfold RefusesExactly Refusable
  rcases ofConfig_cases c fs later with
    ⟨opened, e, failed, -⟩ | ⟨-, mergeable, e, failed, -⟩ | ⟨opened, mergeable, decided⟩
  · simp [failed, Outcome.isOk, opened]
  · simp [failed, Outcome.isOk, mergeable]
  · rw [decided, ofMerged_isOk_eq_false_iff]
    simp only [opened, mergeable, false_or]

/-- A further key counts as checked if its value is only invalid when there is another reason to
refuse settings. -/
theorem refusesExactly_append_singleton {k : Key} :
    RefusesExactly (checked ++ [k]) c fs later ↔
      (Invalid (merged c fs later) k → Refusable checked c fs later) := by
  have exactly := refusesExactly_checked c fs later
  unfold RefusesExactly at exactly ⊢
  rw [exactly, refusable_append_singleton, iff_self_or]

/-- When a configuration is refused, with what error, and what the settings are if it is not.
It is refused for a file that cannot be opened, which is an error of its own, for a file that
cannot be merged and for a value of a checked key that has not its form; it is not refused for
anything else. So an invalid switch for the console is refused only if there is one of these
reasons too. Numbers are from one upwards, and each setting is what its key says or its
default. -/
theorem ofConfig_refuses_exactly (c : Config) (fs : FileSystem) (later : Log.Entry → FileSystem) :
    RefusesExactly checked c fs later ∧
      (RefusesExactly (checked ++ [.console]) c fs later ↔
        (Invalid (merged c fs later) .console → Refusable checked c fs later)) ∧
      (∀ e, (ofConfig c fs later).2.1 = .error e →
        Unopened c fs ∧ e.code = .fileNotFound ∨ ¬Unopened c fs ∧ e.code = .configInvalid) ∧
      ∀ s, (ofConfig c fs later).2.1 = .ok s →
        1 ≤ s.errorCapacity.toNat ∧ 1 ≤ s.pollInterval ∧ Reflects (merged c fs later) s := by
  refine ⟨refusesExactly_checked c fs later, refusesExactly_append_singleton,
    fun e => code_of_ofConfig, fun s made => ?_⟩
  have reflects := reflects_of_ofConfig made
  obtain ⟨least, -⟩ := reflects.capacity.counts_bounds (by decide) (by decide)
  obtain ⟨least', -⟩ := reflects.interval.counts_bounds (by decide) (by decide)
  exact ⟨by omega, least', reflects⟩

/-- A switch for the console that is neither on nor off is not refused. -/
theorem console_not_checked : ¬∀ (c : Config) (fs : FileSystem) (later : Log.Entry → FileSystem),
    RefusesExactly (checked ++ [.console]) c fs later := by
  intro refuses
  have accepted : (ofConfig (({} : Config).addArguments [bytes "p", bytes "-printtoconsole=maybe"])
      {} fun _ => {}).2.1.isOk = true := by
    decide +kernel
  have unnamed : ∀ b, ¬Names switchWords (bytes "maybe") b := by
    intro b named
    have read := switch?_eq_some_iff.mpr named
    rw [show Config.switch? (bytes "maybe") = none by decide +kernel] at read
    cases read
  have invalid : Invalid (merged
      (({} : Config).addArguments [bytes "p", bytes "-printtoconsole=maybe"]) {} fun _ => {})
      .console :=
    ⟨bytes "maybe", by decide +kernel, fun ⟨b, named⟩ => unnamed b named⟩
  have refused := (refuses _ {} fun _ => {}).mpr (.inr (.inr ⟨.console, by simp, invalid⟩))
  rw [accepted] at refused
  cases refused

end StagedPipeline.Settings
