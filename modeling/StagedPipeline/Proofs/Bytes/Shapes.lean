import StagedPipeline.Bytes
import Mathlib.Data.List.DropRight

/-!
# Shapes of a text

A text is looked at in four ways: without the blanks at its ends, on both sides of the first
separator, line by line, and piece by piece between separators. For each of them the shapes that a
text can have are told from its bytes alone, and reading the text is shown to find just that shape.
-/
namespace StagedPipeline.Bytes

/-- Nothing but blanks. -/
def Blank (s : Bytes) : Prop := ∀ b ∈ s, isBlank b = true

/-- No blank at either end. -/
structure Trimmed (s : Bytes) : Prop where
  starts : ∀ b, s.head? = some b → isBlank b = false
  ends : ∀ b, s.getLast? = some b → isBlank b = false

/-- The lines of a text, each without the line feed that ends it. The rest behind the last line
feed is a line if it is not empty. -/
inductive Lined : Bytes → List Bytes → Prop
  | done : Lined [] []
  | rest {line} (filled : line ≠ []) (whole : 10 ∉ line) : Lined line [line]
  | line {line text ls} (whole : 10 ∉ line) (later : Lined text ls) :
      Lined (line ++ 10 :: text) (line :: ls)

/-- The pieces of a text between separators. Behind the last separator there is a piece too, which
may be empty. -/
inductive Split (sep : UInt8) : Bytes → List Bytes → Prop
  | last {piece} (whole : sep ∉ piece) : Split sep piece [piece]
  | piece {piece text ps} (whole : sep ∉ piece) (later : Split sep text ps) :
      Split sep (piece ++ sep :: text) (piece :: ps)

variable {s t l r : Bytes} {b sep : UInt8} {ls ps qs : List Bytes}

/-! ## Blanks at the ends -/

theorem blank_nil : Blank [] := fun _ h => nomatch h

theorem Blank.append (hl : Blank l) (hr : Blank r) : Blank (l ++ r) := by
  intro b hb
  rcases List.mem_append.mp hb with hb | hb
  · exact hl b hb
  · exact hr b hb

theorem trim_eq (s : Bytes) : s.trim = (s.dropWhile isBlank).rdropWhile isBlank := rfl

/-- Blanks in front of a text and behind it are taken off. -/
theorem trim_frame (hl : Blank l) (hr : Blank r) : (l ++ s ++ r).trim = s.trim := by
  have front : (l ++ (s ++ r)).dropWhile isBlank = (s ++ r).dropWhile isBlank :=
    List.dropWhile_append_of_pos hl
  have back : ∀ t : Bytes, (t ++ r).rdropWhile isBlank = t.rdropWhile isBlank := by
    intro t
    rw [List.rdropWhile, List.rdropWhile, List.reverse_append,
      List.dropWhile_append_of_pos fun b hb => hr b (List.mem_reverse.mp hb)]
  rw [trim_eq, trim_eq, List.append_assoc, front, List.dropWhile_append]
  cases empty : (s.dropWhile isBlank).isEmpty with
  | false => simp [back]
  | true =>
    have gone : r.dropWhile isBlank = [] := List.dropWhile_eq_nil_iff.mpr hr
    simp [List.isEmpty_iff.mp empty, gone]

theorem Trimmed.trim_eq (h : Trimmed s) : s.trim = s := by
  have front : s.dropWhile isBlank = s := by
    cases s with
    | nil => rfl
    | cons b s => simp [h.starts b rfl]
  rw [Bytes.trim_eq, front, List.rdropWhile_eq_self_iff]
  intro hs
  simp [h.ends _ (List.getLast?_eq_some_getLast hs)]

theorem trimmed_trim (s : Bytes) : Trimmed s.trim := by
  constructor
  · intro b hb
    obtain ⟨rest, whole⟩ := List.rdropWhile_prefix isBlank (s.dropWhile isBlank)
    have front : (s.dropWhile isBlank).head? = some b := by
      rw [← whole, ← trim_eq, List.head?_append, hb]
      rfl
    have first := List.head?_dropWhile_not isBlank s
    rwa [front] at first
  · intro b hb
    have last := List.head?_dropWhile_not isBlank (s.dropWhile isBlank).reverse
    rw [trim, List.getLast?_reverse] at hb
    rwa [hb] at last

/-- A text is what is left of it when it is trimmed, between two rows of blanks. -/
theorem exists_frame (s : Bytes) : ∃ l r, Blank l ∧ Blank r ∧ s = l ++ s.trim ++ r := by
  refine ⟨s.takeWhile isBlank, (s.dropWhile isBlank).rtakeWhile isBlank, ?_, ?_, ?_⟩
  · exact fun b hb => List.mem_takeWhile_imp hb
  · exact fun b hb => List.mem_rtakeWhile_imp hb
  · rw [trim_eq, List.append_assoc, List.rdropWhile_append_rtakeWhile,
      List.takeWhile_append_dropWhile]

theorem trim_eq_nil_iff : s.trim = [] ↔ Blank s := by
  constructor
  · intro h
    obtain ⟨l, r, hl, hr, framed⟩ := exists_frame s
    rw [framed, h, List.append_nil]
    exact hl.append hr
  · intro h
    have framed := trim_frame (s := []) h blank_nil
    rw [List.append_nil, List.append_nil] at framed
    exact framed

/-- Trimming stops at a byte that is not blank, so that the two sides of it are trimmed each at
its outer end. -/
theorem trim_append_cons (hb : isBlank b = false) :
    (l ++ b :: r).trim = l.dropWhile isBlank ++ b :: r.rdropWhile isBlank := by
  have front : (l ++ b :: r).dropWhile isBlank = l.dropWhile isBlank ++ b :: r := by
    rw [List.dropWhile_append]
    split
    · rename_i empty
      simp [List.isEmpty_iff.mp empty, hb]
    · rfl
  have back : (b :: r).rdropWhile isBlank = b :: r.rdropWhile isBlank := by
    rw [List.rdropWhile, List.rdropWhile, List.reverse_cons, List.dropWhile_append]
    split
    · rename_i empty
      simp [List.isEmpty_iff.mp empty, hb]
    · simp
  have outer : ∀ t : Bytes, (t ++ b :: r).rdropWhile isBlank = t ++ (b :: r).rdropWhile isBlank := by
    intro t
    have kept : ((b :: r).reverse.dropWhile isBlank).isEmpty = false := by
      rw [← List.isEmpty_reverse, ← List.rdropWhile, back]
      rfl
    rw [List.rdropWhile, List.rdropWhile, List.reverse_append, List.dropWhile_append, kept]
    simp
  rw [trim_eq, front, outer, back]

/-! ## The two sides of a separator -/

theorem ne_of_notMem_cons (h : sep ∉ b :: s) : (b == sep) = false ∧ sep ∉ s := by
  rw [List.mem_cons, not_or] at h
  exact ⟨by simpa using Ne.symm h.1, h.2⟩

theorem cut_eq_none (h : sep ∉ s) : s.cut sep = none := by
  induction s with
  | nil => rfl
  | cons c s ih =>
    obtain ⟨differs, rest⟩ := ne_of_notMem_cons h
    rw [cut, differs, ih rest]
    rfl

theorem cut_append (h : sep ∉ l) (r : Bytes) : (l ++ sep :: r).cut sep = some (l, r) := by
  induction l with
  | nil => simp [cut]
  | cons c l ih =>
    obtain ⟨differs, rest⟩ := ne_of_notMem_cons h
    rw [List.cons_append, cut, differs, ih rest]
    rfl

/-- A text has no separator, or it is cut at the first one. -/
theorem cut_cases (sep : UInt8) (s : Bytes) :
    (sep ∉ s ∧ s.cut sep = none) ∨
      ∃ l r, sep ∉ l ∧ s = l ++ sep :: r ∧ s.cut sep = some (l, r) := by
  by_cases h : sep ∈ s
  · obtain ⟨l, r, rfl, first⟩ := List.eq_append_cons_of_mem h
    exact .inr ⟨l, r, first, rfl, cut_append first r⟩
  · exact .inl ⟨h, cut_eq_none h⟩

/-! ## Lines -/

theorem pieces_of_notMem (h : sep ∉ s) : s.pieces sep = [s] := by
  induction s with
  | nil => rfl
  | cons c s ih =>
    obtain ⟨differs, rest⟩ := ne_of_notMem_cons h
    simp [pieces, differs, ih rest]

theorem pieces_append (h : sep ∉ l) (r : Bytes) :
    (l ++ sep :: r).pieces sep = l :: r.pieces sep := by
  induction l with
  | nil => simp [pieces]
  | cons c l ih =>
    obtain ⟨differs, rest⟩ := ne_of_notMem_cons h
    rw [List.cons_append, pieces, differs, ih rest]
    rfl

theorem lines_append (h : 10 ∉ l) (r : Bytes) : (l ++ 10 :: r).lines = l :: r.lines := by
  have some' : r.pieces 10 ≠ [] := pieces_ne_nil 10 r
  rw [lines, lines, pieces_append h, List.getLast?_cons_of_ne_nil some',
    List.dropLast_cons_of_ne_nil some']
  split <;> rfl

theorem Lined.lines_eq (h : Lined s ls) : s.lines = ls := by
  induction h with
  | done => rfl
  | rest filled whole => simp [lines, pieces_of_notMem whole, filled]
  | line whole _ ih => rw [lines_append whole, ih]

theorem exists_lined (s : Bytes) : ∃ ls, Lined s ls := by
  induction s with
  | nil => exact ⟨[], .done⟩
  | cons b s ih =>
    obtain ⟨ls, h⟩ := ih
    by_cases feed : b = 10
    · subst feed
      exact ⟨[] :: ls, .line (List.not_mem_nil) h⟩
    · have longer : ∀ {line : Bytes}, 10 ∉ line → 10 ∉ b :: line := fun whole hb =>
        (List.mem_cons.mp hb).elim (Ne.symm feed) whole
      cases h with
      | done => exact ⟨[[b]], .rest (by simp) (longer (List.not_mem_nil))⟩
      | rest _ whole => exact ⟨[b :: s], .rest (by simp) (longer whole)⟩
      | line whole later => exact ⟨_, .line (longer whole) later⟩

theorem lined_lines (s : Bytes) : Lined s s.lines := by
  obtain ⟨ls, h⟩ := exists_lined s
  rwa [h.lines_eq]

/-! ## Pieces -/

theorem Split.pieces_eq (h : Split sep s ps) : s.pieces sep = ps := by
  induction h with
  | last whole => exact pieces_of_notMem whole
  | piece whole _ ih => rw [pieces_append whole, ih]

theorem exists_split (sep : UInt8) (s : Bytes) : ∃ ps, Split sep s ps := by
  induction s with
  | nil => exact ⟨[[]], .last List.not_mem_nil⟩
  | cons b s ih =>
    obtain ⟨ps, h⟩ := ih
    by_cases separates : b = sep
    · subst separates
      exact ⟨[] :: ps, .piece List.not_mem_nil h⟩
    · have longer : ∀ {piece : Bytes}, sep ∉ piece → sep ∉ b :: piece := fun whole hb =>
        (List.mem_cons.mp hb).elim (Ne.symm separates) whole
      cases h with
      | last whole => exact ⟨[b :: s], .last (longer whole)⟩
      | piece whole later => exact ⟨_, .piece (longer whole) later⟩

theorem split_iff : Split sep s ps ↔ s.pieces sep = ps := by
  refine ⟨Split.pieces_eq, ?_⟩
  rintro rfl
  obtain ⟨ps, h⟩ := exists_split sep s
  rwa [h.pieces_eq]

/-- A separator between two texts separates the pieces of the one from those of the other. -/
theorem Split.append (hs : Split sep s ps) (ht : Split sep t qs) :
    Split sep (s ++ sep :: t) (ps ++ qs) := by
  induction hs with
  | last whole => exact .piece whole ht
  | piece whole _ ih =>
    rw [List.append_assoc, List.cons_append]
    exact .piece whole ih

theorem pieces_join (sep : UInt8) (s t : Bytes) :
    (s ++ sep :: t).pieces sep = s.pieces sep ++ t.pieces sep :=
  ((split_iff.mpr rfl).append (split_iff.mpr rfl)).pieces_eq

end StagedPipeline.Bytes
