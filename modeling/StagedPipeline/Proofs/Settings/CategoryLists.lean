import StagedPipeline.Proofs.Bytes.Shapes
import StagedPipeline.Proofs.Settings.Vocabulary

/-!
# Lists of categories

A list of categories is read piece by piece between commas. It is the union of what its pieces name,
so that a subject is in it if it is in one of them, in whatever order and number they come, or the
first piece that names nothing is told.
-/
namespace StagedPipeline

namespace Log.Category

/-- The bit of a subject is set. -/
def Has (c : Category) (i : Nat) : Prop := c.mask.toNat.testBit i = true

@[simp] theorem has_union (a b : Category) (i : Nat) : (a.union b).Has i ↔ a.Has i ∨ b.Has i := by
  simp [Has, union]

@[simp] theorem not_has_none (i : Nat) : ¬none.Has i := by
  simp [Has, none]

theorem eq_of_has {a b : Category} (same : ∀ i, a.Has i ↔ b.Has i) : a = b := by
  have masks : a.mask.toNat = b.mask.toNat :=
    Nat.eq_of_testBit_eq fun i => Bool.eq_iff_iff.mpr (same i)
  obtain ⟨a⟩ := a
  obtain ⟨b⟩ := b
  exact congrArg mk (UInt32.toNat_inj.mp masks)

end Log.Category

namespace Settings

/-- A piece of a list that can be read: an empty one counts for nothing. -/
def Readable (p : Bytes) : Prop := p = [] ∨ ∃ c, Names Log.Category.words p c

/-- The error for a piece that names no category. -/
def unknownCategory (p : Bytes) : Error :=
  .of .configInvalid (bytes "-debug: unknown log category " ++ p.quoted)

variable {p bad text : Bytes} {ps before : List Bytes} {acc r c : Log.Category}

/-! ## One piece -/

theorem not_names_nil (c : Log.Category) : ¬Names Log.Category.words [] c := by
  intro names
  have read := category?_eq_some_iff.mpr names
  rw [show Log.Category.parse? [] = none by decide +kernel] at read
  cases read

theorem names_unique {c' : Log.Category} (h : Names Log.Category.words p c)
    (h' : Names Log.Category.words p c') : c' = c :=
  Option.some.inj ((category?_eq_some_iff.mpr h').symm.trans (category?_eq_some_iff.mpr h))

theorem unionOf_named (h : Names Log.Category.words p c) (ps : List Bytes) (acc : Log.Category) :
    unionOf (p :: ps) acc = unionOf ps (acc.union c) := by
  have filled : p.isEmpty = false := by
    rw [List.isEmpty_eq_false_iff]
    rintro rfl
    exact not_names_nil c h
  simp [unionOf, filled, category?_eq_some_iff.mpr h]

theorem unionOf_unknown (h : ¬Readable p) (ps : List Bytes) (acc : Log.Category) :
    unionOf (p :: ps) acc = .error (unknownCategory p) := by
  obtain ⟨filled, unnamed⟩ := not_or.mp h
  have read : Log.Category.parse? p = none :=
    Option.eq_none_iff_forall_ne_some.mpr fun c read => unnamed ⟨c, category?_eq_some_iff.mp read⟩
  simp [unionOf, filled, read, unknownCategory]

/-- A piece adds some category, whatever stands before and behind it, or it is the end. -/
theorem unionOf_cons (p : Bytes) :
    (∃ c, ∀ ps acc, unionOf (p :: ps) acc = unionOf ps (acc.union c)) ∨
      ∃ e, ∀ ps acc, unionOf (p :: ps) acc = .error e := by
  by_cases readable : Readable p
  · rcases readable with rfl | ⟨c, names⟩
    · refine .inl ⟨.none, fun ps acc => ?_⟩
      rw [union_none]
      rfl
    · exact .inl ⟨c, unionOf_named names⟩
  · exact .inr ⟨_, unionOf_unknown readable⟩

/-! ## A list of pieces -/

/-- What was read before is only added to the result. -/
theorem unionOf_acc (ps : List Bytes) (acc : Log.Category) :
    unionOf ps acc = acc.union <$> unionOf ps .none := by
  induction ps generalizing acc with
  | nil => exact congrArg Except.ok (union_none acc).symm
  | cons p ps ih =>
    rcases unionOf_cons p with ⟨c, adds⟩ | ⟨e, fails⟩
    · rw [adds, adds, none_union, ih (acc.union c), ih c]
      cases unionOf ps .none with
      | error e => rfl
      | ok r => exact congrArg Except.ok (union_assoc acc c r)
    · rw [fails, fails]
      rfl

theorem unionOf_append (ps qs : List Bytes) (acc : Log.Category) :
    unionOf (ps ++ qs) acc = unionOf ps acc >>= unionOf qs := by
  induction ps generalizing acc with
  | nil => rfl
  | cons p ps ih =>
    rcases unionOf_cons p with ⟨c, adds⟩ | ⟨e, fails⟩
    · rw [List.cons_append, adds, adds, ih]
    · rw [List.cons_append, fails, fails]
      rfl

/-- A list of readable pieces has the subjects of all that they name. -/
theorem unionOf_readable (readable : ∀ p ∈ ps, Readable p) (acc : Log.Category) :
    ∃ r, unionOf ps acc = .ok r ∧ ∀ i, r.Has i ↔
      acc.Has i ∨ ∃ p ∈ ps, ∃ c, Names Log.Category.words p c ∧ c.Has i := by
  induction ps generalizing acc with
  | nil => exact ⟨acc, rfl, by simp⟩
  | cons p ps ih =>
    obtain ⟨first, rest⟩ := List.forall_mem_cons.mp readable
    rcases first with rfl | ⟨c, names⟩
    · obtain ⟨r, read, has⟩ := ih rest acc
      refine ⟨r, read, fun i => ?_⟩
      simp [has, not_names_nil]
    · obtain ⟨r, read, has⟩ := ih rest (acc.union c)
      refine ⟨r, by rw [unionOf_named names, read], fun i => ?_⟩
      have only : (∃ c', Names Log.Category.words p c' ∧ c'.Has i) ↔ c.Has i :=
        ⟨fun ⟨c', names', set⟩ => names_unique names names' ▸ set, fun set => ⟨c, names, set⟩⟩
      rw [has, Log.Category.has_union, List.exists_mem_cons_iff, only, or_assoc]

/-- The first piece that cannot be read is told. -/
theorem unionOf_unreadable (readable : ∀ p ∈ before, Readable p) (unknown : ¬Readable bad)
    (later : List Bytes) (acc : Log.Category) :
    unionOf (before ++ bad :: later) acc = .error (unknownCategory bad) := by
  obtain ⟨r, read, -⟩ := unionOf_readable readable acc
  rw [unionOf_append, read]
  exact unionOf_unknown unknown later r

theorem readable_or_first_unreadable (ps : List Bytes) : (∀ p ∈ ps, Readable p) ∨
    ∃ before bad later, ps = before ++ bad :: later ∧ (∀ p ∈ before, Readable p) ∧
      ¬Readable bad := by
  induction ps with
  | nil => exact .inl (by simp)
  | cons p ps ih =>
    by_cases first : Readable p
    · rcases ih with all | ⟨before, bad, later, rfl, readable, unknown⟩
      · exact .inl (List.forall_mem_cons.mpr ⟨first, all⟩)
      · exact .inr ⟨p :: before, bad, later, rfl, List.forall_mem_cons.mpr ⟨first, readable⟩,
          unknown⟩
    · exact .inr ⟨[], p, ps, rfl, by simp, first⟩

theorem readable_of_unionOf (read : unionOf ps acc = .ok r) : ∀ p ∈ ps, Readable p := by
  rcases readable_or_first_unreadable ps with all | ⟨before, bad, later, rfl, readable, unknown⟩
  · exact all
  · rw [unionOf_unreadable readable unknown] at read
    cases read

/-! ## Lists with commas -/

/-- A list behind another one adds what it has, if both can be read; the first error decides. -/
theorem categories_join (text more : Bytes) :
    categories (text ++ 44 :: more) = (do
      let a ← categories text
      let b ← categories more
      pure (a.union b)) := by
  rw [categories, categories, categories, Bytes.pieces_join, unionOf_append]
  cases unionOf (text.pieces 44) .none with
  | error e => rfl
  | ok a =>
    change unionOf (more.pieces 44) a = _
    rw [unionOf_acc]
    rfl

/-- The result depends on which pieces there are, not on their order and number. -/
theorem categories_congr {text' : Bytes}
    (same : ∀ p, p ≠ [] → (p ∈ text'.pieces 44 ↔ p ∈ text.pieces 44))
    (read : categories text = .ok r) : categories text' = .ok r := by
  have readable := readable_of_unionOf read
  have readable' : ∀ p ∈ text'.pieces 44, Readable p := by
    intro p hp
    by_cases empty : p = []
    · exact .inl empty
    · exact readable p ((same p empty).mp hp)
  obtain ⟨r₁, read₁, has⟩ := unionOf_readable readable .none
  obtain ⟨r', read', has'⟩ := unionOf_readable readable' .none
  obtain rfl : r₁ = r := Except.ok.inj (read₁.symm.trans read)
  rw [categories, read']
  refine congrArg Except.ok (Log.Category.eq_of_has fun i => ?_)
  have filled : ∀ {p c}, Names Log.Category.words p c → p ≠ [] := by
    rintro _ c names rfl
    exact not_names_nil c names
  rw [has, has']
  refine or_congr .rfl (exists_congr fun p => and_congr_left fun named => ?_)
  obtain ⟨c, names, -⟩ := named
  exact same p (filled names)

/-- Every text is split at its commas in one way. If all pieces can be read, the text is a list of
categories, and a subject is in it if it is in a category that some piece names, so that order,
repetition and empty pieces do not matter. If not, the first piece that cannot be read is told. A
list behind a comma adds what it has to the list before the comma. -/
theorem categories_by_pieces (text : Bytes) :
    ∃ ps, (∀ qs, Bytes.Split 44 text qs ↔ qs = ps) ∧
      ((∀ p ∈ ps, Readable p) → ∃ r, categories text = .ok r ∧
        ∀ i, r.Has i ↔ ∃ p ∈ ps, ∃ c, Names Log.Category.words p c ∧ c.Has i) ∧
      (¬(∀ p ∈ ps, Readable p) → ∃ before bad later, ps = before ++ bad :: later ∧
        (∀ p ∈ before, Readable p) ∧ ¬Readable bad ∧
        categories text = .error (unknownCategory bad)) ∧
      (∀ text' qs r, Bytes.Split 44 text' qs → (∀ p, p ≠ [] → (p ∈ qs ↔ p ∈ ps)) →
        categories text = .ok r → categories text' = .ok r) ∧
      ∀ more, categories (text ++ 44 :: more) = (do
        let a ← categories text
        let b ← categories more
        pure (a.union b)) := by
  refine ⟨text.pieces 44, fun qs => Bytes.split_iff.trans eq_comm, fun readable => ?_, ?_, ?_,
    categories_join text⟩
  · obtain ⟨r, read, has⟩ := unionOf_readable readable .none
    exact ⟨r, read, fun i => by rw [has, or_iff_right (Log.Category.not_has_none i)]⟩
  · intro unreadable
    obtain ⟨before, bad, later, split, readable, unknown⟩ :=
      (readable_or_first_unreadable (text.pieces 44)).resolve_left unreadable
    refine ⟨before, bad, later, split, readable, unknown, ?_⟩
    rw [categories, split]
    exact unionOf_unreadable readable unknown later .none
  · rintro text' qs r split same read
    rw [← split.pieces_eq] at same
    exact categories_congr same read

/-- Empty pieces are skipped, blanks are not. -/
example : categories (bytes ",io,,Config,IO,") = .ok ⟨48⟩ ∧
    categories (bytes "io, config,none ") = .error (unknownCategory (bytes " config")) := by
  decide +kernel

end Settings
end StagedPipeline
