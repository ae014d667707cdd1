import StagedPipeline.Settings
import Mathlib.Data.List.Forall2

/-!
# Words for settings

Levels, categories and switches are given by words, in any ASCII case. No word stands for two
values, so that looking a text up finds the value that it names. A list of categories names the
union of what its pieces name.
-/
namespace StagedPipeline.Settings

/-- A text that is a word for a value. -/
def Names {α : Type} (words : List (String × α)) (text : Bytes) (a : α) : Prop :=
  ∃ word, (word, a) ∈ words ∧ text.sameText (bytes word) = true

/-- The words for the positions of a switch. -/
def switchWords : List (String × Bool) :=
  Config.onWords.map (·, true) ++ Config.offWords.map (·, false)

/-- A text whose pieces between commas name categories that add up to a set. Empty pieces do not
count. -/
def Lists (text : Bytes) (union : Log.Category) : Prop :=
  ∃ named, List.Forall₂ (Names Log.Category.words)
    ((text.pieces 44).filter fun p => !p.isEmpty) named ∧
    union = named.foldr .union .none

variable {α : Type} {words : List (String × α)} {text : Bytes} {a : α} {ps : List Bytes}
  {acc r : Log.Category} {e : Error}

/-! ## Looking a word up -/

theorem sameText_of_sameText {s t : Bytes} (hs : text.sameText s = true)
    (ht : text.sameText t = true) : s.sameText t = true := by
  have hs' : text.lower = s.lower := eq_of_beq hs
  have ht' : text.lower = t.lower := eq_of_beq ht
  exact beq_iff_eq.mpr (hs'.symm.trans ht')

theorem find?_word_eq_some_iff
    (distinct : ∀ w ∈ words, ∀ w' ∈ words, (bytes w.1).sameText (bytes w'.1) = true → w.2 = w'.2) :
    (words.find? fun w => text.sameText (bytes w.1)).map Prod.snd = some a ↔
      Names words text a := by
  rw [Option.map_eq_some_iff]
  constructor
  · rintro ⟨⟨word, a⟩, found, rfl⟩
    have same := List.find?_some found
    exact ⟨word, List.mem_of_find?_eq_some found, same⟩
  · rintro ⟨word, listed, same⟩
    have some' : (words.find? fun w => text.sameText (bytes w.1)).isSome = true :=
      List.find?_isSome.mpr ⟨(word, a), listed, same⟩
    obtain ⟨w, found⟩ := Option.isSome_iff_exists.mp some'
    have same' := List.find?_some found
    exact ⟨w, found, distinct w (List.mem_of_find?_eq_some found) _ listed
      (sameText_of_sameText same' same)⟩

theorem level?_eq_some_iff {l : Log.Level} :
    Log.Level.parse? text = some l ↔ Names Log.Level.words text l :=
  find?_word_eq_some_iff (by decide +kernel)

theorem category?_eq_some_iff {c : Log.Category} :
    Log.Category.parse? text = some c ↔ Names Log.Category.words text c :=
  find?_word_eq_some_iff (by decide +kernel)

theorem switch?_eq (text : Bytes) : Config.switch? text =
    (switchWords.find? fun w => text.sameText (bytes w.1)).map Prod.snd := by
  have first : ∀ (ws : List String) (b : Bool),
      (((ws.map (·, b)).find? fun w => text.sameText (bytes w.1)).map Prod.snd) =
        if ws.any fun w => text.sameText (bytes w) then some b else none := by
    intro ws b
    induction ws with
    | nil => rfl
    | cons w ws ih =>
      rw [List.map_cons, List.find?_cons, List.any_cons]
      cases text.sameText (bytes w) with
      | true => rfl
      | false => exact ih
  rw [switchWords, List.find?_append, Option.map_or, first, first, Config.switch?]
  cases Config.onWords.any fun w => text.sameText (bytes w) <;> rfl

theorem switch?_eq_some_iff {b : Bool} :
    Config.switch? text = some b ↔ Names switchWords text b := by
  rw [switch?_eq]
  exact find?_word_eq_some_iff (by decide +kernel)

/-! ## Lists of categories -/

theorem union_none (c : Log.Category) : c.union .none = c := by
  simp [Log.Category.union, Log.Category.none]

theorem none_union (c : Log.Category) : Log.Category.none.union c = c := by
  simp [Log.Category.union, Log.Category.none]

theorem union_assoc (a b c : Log.Category) : (a.union b).union c = a.union (b.union c) := by
  simp [Log.Category.union, UInt32.or_assoc]

/-- Categories are added up if all pieces name some. -/
theorem unionOf_eq_ok_iff : unionOf ps acc = .ok r ↔
    ∃ named, List.Forall₂ (Names Log.Category.words) (ps.filter fun p => !p.isEmpty) named ∧
      r = acc.union (named.foldr .union .none) := by
  induction ps generalizing acc with
  | nil => simp [unionOf, union_none, eq_comm]
  | cons p ps ih =>
    rw [unionOf, List.filter_cons]
    cases p.isEmpty with
    | true => exact ih
    | false =>
      simp only [Bool.not_false, if_true, Bool.false_eq_true, if_false,
        List.forall₂_cons_left_iff]
      cases parsed : Log.Category.parse? p with
      | some c =>
        have only : ∀ c', Names Log.Category.words p c' → c' = c := fun c' h =>
          Option.some.inj ((category?_eq_some_iff.mpr h).symm.trans parsed)
        rw [ih]
        constructor
        · rintro ⟨named, rest, rfl⟩
          exact ⟨c :: named, ⟨c, named, category?_eq_some_iff.mp parsed, rest, rfl⟩,
            union_assoc _ _ _⟩
        · rintro ⟨_, ⟨c', named, first, rest, rfl⟩, rfl⟩
          obtain rfl := only c' first
          exact ⟨named, rest, (union_assoc _ _ _).symm⟩
      | none =>
        constructor
        · intro h
          cases h
        · rintro ⟨_, ⟨c, _, first, _⟩, _⟩
          rw [category?_eq_some_iff.mpr first] at parsed
          cases parsed

theorem categories_eq_ok_iff : categories text = .ok r ↔ Lists text r := by
  rw [categories, unionOf_eq_ok_iff]
  simp only [none_union, Lists]

theorem unionOf_error (h : unionOf ps acc = .error e) : e.code = .configInvalid := by
  induction ps generalizing acc with
  | nil => cases h
  | cons p ps ih =>
    rw [unionOf] at h
    split at h
    · exact ih h
    · split at h
      · exact ih h
      · cases h
        rfl

end StagedPipeline.Settings
