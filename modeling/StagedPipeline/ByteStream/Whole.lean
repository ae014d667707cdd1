import StagedPipeline.ByteStream

/-!
# Reading a stream to its end

Portion by portion, until a read delivers nothing. That this ends is a fact about
what a stream can still do: each read that delivers something leaves less.
-/
namespace StagedPipeline.ByteStream

variable {s s' : ByteStream} {c c' : Context} {n : Nat} {got : Bytes}

/-- Events that were played to deliver something leave less to play. -/
theorem Script.weight_play_lt (hn : 0 < n) (hgot : got ≠ []) {es es' : List Event}
    (h : Script.play n es c = (.bytes got, es', c')) :
    Event.weight es' < Event.weight es := by
  induction es generalizing c with
  | nil =>
    simp only [Script.play, Prod.mk.injEq, Reading.bytes.injEq] at h
    exact absurd h.1.symm hgot
  | cons e es ih =>
    cases e with
    | cancel =>
      have := ih h
      simp only [Event.weight]
      omega
    | fail e => simp [Script.play] at h
    | throw f => simp [Script.play] at h
    | deliver content =>
      rw [Script.play] at h
      split at h
      · simp only [Prod.mk.injEq] at h
        obtain ⟨-, rfl, -⟩ := h
        simp only [Event.weight]
        omega
      · simp only [Prod.mk.injEq] at h
        obtain ⟨-, rfl, -⟩ := h
        simp only [Event.weight, List.length_drop]
        omega

/-- A read that delivers something leaves less to do. -/
theorem remaining_read_lt (hn : 0 < n) (hgot : got ≠ [])
    (h : s.read n c = (.bytes got, s', c')) : s'.remaining < s.remaining := by
  cases s with
  | buffer b =>
    simp only [read, Buffer.read] at h
    split at h
    · simp at h
    · simp only [Prod.mk.injEq, Reading.bytes.injEq] at h
      obtain ⟨rfl, rfl, -⟩ := h
      have : 0 < b.rest.length := by
        rcases hb : b.rest with _ | ⟨x, xs⟩
        · simp [hb] at hgot
        · simp
      simp only [remaining, List.length_drop]
      omega
  | file r =>
    simp only [read, Reader.read] at h
    split at h
    · simp at h
    · split at h
      · simp only [Prod.mk.injEq, Reading.bytes.injEq] at h
        exact absurd h.1.symm hgot
      · simp only [Prod.mk.injEq, Reading.bytes.injEq] at h
        obtain ⟨rfl, rfl, -⟩ := h
        have : 0 < r.rest.length := by
          rcases hb : r.rest with _ | ⟨x, xs⟩
          · simp [hb] at hgot
          · simp
        simp only [remaining, List.length_drop]
        omega
  | script p =>
    simp only [read, Script.read] at h
    split at h
    · simp at h
    · simp only [Prod.mk.injEq] at h
      obtain ⟨h1, rfl, rfl⟩ := h
      simp only [remaining]
      exact Script.weight_play_lt hn hgot (Prod.ext h1 rfl)

/-- Reads a stream to its end, in portions of `chunk` bytes, or of one byte if that
is zero. What was read before a failure is given up. Portions can be of any length
here: that a buffer cannot be longer than memory allows, and that asking for a longer
one is an error of lengths, is left out. -/
def readAll (chunk : Nat) (s : ByteStream) (c : Context) : Reading × ByteStream × Context :=
  match _h : s.read (max chunk 1) c with
  | (.bytes [], s', c') => (.bytes [], s', c')
  | (.bytes (b :: got), s', c') =>
    match s'.readAll chunk c' with
    | (.bytes more, s', c') => (.bytes (b :: got ++ more), s', c')
    | r => r
  | r => r
termination_by s.remaining
decreasing_by exact remaining_read_lt (by omega) (by simp) _h

end StagedPipeline.ByteStream
