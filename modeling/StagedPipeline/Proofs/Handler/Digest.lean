import StagedPipeline.Proofs.Sha256.Engine
import StagedPipeline.Handler

/-!
# Digests of files

The digest handler takes a file in portions. A file that was just opened gives all of its
content, so that the digest is the hash of it.
-/
namespace StagedPipeline.Handler

open ByteStream (Reader)

variable {σ : Type} {clock : Nat → Time} {i : Nat} {e : Sha256.Engine} {s s' : ByteStream}
  {c c' : Context}

/-! ## The loop of reads -/

theorem absorb_end (live : c.error? (clock i) = none)
    (read : s.read portion c = (.bytes [], s', c')) :
    absorb clock i e s c = (.finished e, s', c') := by
  rw [absorb, live]
  dsimp only
  split <;> rename_i h <;> rw [read] at h <;> cases h
  rfl

theorem absorb_more {got : Bytes} (live : c.error? (clock i) = none)
    (read : s.read portion c = (.bytes got, s', c')) (some' : got ≠ []) :
    absorb clock i e s c = absorb clock (i + 1) (e.absorb got) s' c' := by
  rw [absorb, live]
  dsimp only
  split <;> rename_i h <;> rw [read] at h <;> cases h
  · exact absurd rfl some'
  · rfl

/-- A read of an open file takes the next portion off what is left. -/
theorem read_file {r : Reader} (open' : r.closed = false) (going : r.ended = false) (c : Context) :
    (ByteStream.file r).read portion c =
      (.bytes (r.rest.take portion),
        .file { r with
          rest := r.rest.drop portion
          ended := decide ((r.rest.take portion).length < portion) }, c) := by
  simp [ByteStream.read, Reader.read, open', going, portion]

theorem read_file_end {r : Reader} (open' : r.closed = false) (atEnd : r.ended = true)
    (c : Context) : (ByteStream.file r).read portion c = (.bytes [], .file r, c) := by
  simp [ByteStream.read, Reader.read, open', atEnd]

/-- All that is left of an open file is taken in. A file that has noticed its end has nothing
left, which every read keeps true. -/
theorem absorb_file (clock : Nat → Time) {r : Reader} (open' : r.closed = false)
    (atEnd : r.ended = true → r.rest = []) (live : ∀ now, c.error? now = none) :
    ∃ r', absorb clock i e (.file r) c = (.finished (e.absorb r.rest), .file r', c) := by
  -- on what is left of the file, since every read that is not the last one takes some of it
  induction length : r.rest.length using Nat.strongRecOn generalizing i e r with
  | _ n ih =>
    cases going : r.ended with
    | true =>
      rw [atEnd going]
      exact ⟨r, absorb_end (live _) (read_file_end open' going c)⟩
    | false =>
      have read := read_file open' going c
      cases empty : r.rest with
      | nil =>
        rw [empty] at read
        exact ⟨_, absorb_end (live _) read⟩
      | cons b rest =>
        have some' : r.rest.take portion ≠ [] := by simp [empty, portion]
        have shorter : (r.rest.drop portion).length < n := by
          have positive : 0 < portion := by decide
          have nonempty : 0 < r.rest.length := empty ▸ Nat.succ_pos _
          rw [List.length_drop]
          omega
        have atEnd' : decide ((r.rest.take portion).length < portion) = true →
            r.rest.drop portion = [] := by
          intro short
          have short := of_decide_eq_true short
          rw [List.length_take] at short
          exact List.drop_eq_nil_iff.mpr (by omega)
        obtain ⟨r', absorbed⟩ := ih _ shorter (i := i + 1) (e := e.absorb (r.rest.take portion))
          (r := { r with
            rest := r.rest.drop portion
            ended := decide ((r.rest.take portion).length < portion) }) open' atEnd' rfl
        refine ⟨r', ?_⟩
        rw [absorb_more (live _) read some', absorbed, ← Sha256.Engine.absorb_append,
          List.take_append_drop, empty]

/-! ## The handler -/

/-- The handler succeeds on a file that was just opened: it hands over the hash of the content
and leaves no body. -/
theorem digest_file (clock : Nat → Time)
    (onDigest : σ → Context → Bytes → σ × Option Fault) (memory : σ) (path content : Bytes)
    (live : ∀ now, c.error? now = none)
    (quiet : (onDigest memory c (Sha256.hash content)).2 = none) :
    let call := digest clock onDigest memory c (.file { path, rest := content })
    call.verdict = .success ∧ call.body = none ∧
      call.memory = (onDigest memory c (Sha256.hash content)).1 := by
  obtain ⟨r', absorbed⟩ := absorb_file clock (i := 0) (e := {})
    (r := { path, rest := content }) rfl (fun ended => nomatch ended) live
  simp [digest, absorbed, Sha256.Engine.digest_absorb, quiet]

end StagedPipeline.Handler
