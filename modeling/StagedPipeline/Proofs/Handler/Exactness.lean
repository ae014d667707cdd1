import StagedPipeline.Proofs.ByteStream.Runs
import StagedPipeline.Proofs.Handler.Digest

/-!
# What the handlers make of a body

The digest handler and the collecting handler follow the run of reads of their body. What they hand
on is taken from the whole of the bytes, and only if the run has come to the end of the stream; any
other end is how the call ends, and nothing is handed on.
-/
namespace StagedPipeline

open ByteStream (Runs Course unchecked)

variable {σ : Type} {clock : Nat → Time} {i : Nat} {e : Sha256.Engine} {s s' : ByteStream}
  {c c' : Context} {course : Course}

namespace Handler

/-- The question that stands before each read of a body for its digest. -/
def stillWanted (clock : Nat → Time) (i : Nat) (c : Context) : Option Error := c.error? (clock i)

/-- What the reading of a body for its digest comes to. -/
def absorbed (e : Sha256.Engine) (course : Course) : Absorbed :=
  match course.ending with
  | .ended => .finished (e.absorb course.portions.flatten)
  | .refused e | .failed e => .failed e
  | .threw f => .threw f

theorem absorb_refused {why : Error} (done : c.error? (clock i) = some why) :
    absorb clock i e s c = (.failed why, s, c) := by
  rw [absorb, done]

theorem absorb_failed {why : Error} (live : c.error? (clock i) = none)
    (read : s.read portion c = (.failed why, s', c')) :
    absorb clock i e s c = (.failed why, s', c') := by
  rw [absorb, live]
  dsimp only
  split <;> rename_i h <;> rw [read] at h <;> cases h
  rfl

theorem absorb_threw {f : Fault} (live : c.error? (clock i) = none)
    (read : s.read portion c = (.threw f, s', c')) :
    absorb clock i e s c = (.threw f, s', c') := by
  rw [absorb, live]
  dsimp only
  split <;> rename_i h <;> rw [read] at h <;> cases h
  rfl

theorem absorb_of_runs (run : Runs (stillWanted clock) portion i s c course) :
    absorb clock i e s c = (absorbed e course, course.stream, course.context) := by
  induction run generalizing e with
  | refused done => exact absorb_refused done
  | ended live read => exact absorb_end live read
  | failed live read => exact absorb_failed live read
  | threw live read => exact absorb_threw live read
  | @more i s s' c c' got course live read some' _ ih =>
    rw [absorb_more live read some', ih]
    obtain ⟨portions, ending, stream, context⟩ := course
    cases ending <;> simp [absorbed, Sha256.Engine.absorb_append]

/-- The stream that was taken out of the pack was closed. -/
def Call.HasClosed (call : Call σ) : Prop := ∃ r, call.released = some r ∧ r.isClosed = true

/-- What a call of the digest handler has come to, by how the run of reads has ended. Only the end
of the stream makes the handler tell a digest, once, and that of all bytes; what the one who is told
throws ends the call. -/
def TellsDigest (onDigest : σ → Context → Bytes → σ × Option Fault) (memory : σ) (course : Course)
    (call : Call σ) : Prop :=
  match course.ending with
  | .ended =>
    let told := onDigest memory course.context (Sha256.hash course.portions.flatten)
    call.memory = told.1 ∧ call.HasClosed ∧ call.verdict = told.2.elim .success .fault
  | .refused e | .failed e => call.memory = memory ∧ call.HasClosed ∧ call.verdict = .failure e
  | .threw f => call.memory = memory ∧ call.verdict = .fault f

/-- Whatever the body is, it has one run of checks and reads, which leaves the context as it was or
cancelled, and the digest handler does what that run asks for. In no case is a body left. -/
theorem digest_exact (clock : Nat → Time) (onDigest : σ → Context → Bytes → σ × Option Fault)
    (memory : σ) (c : Context) (s : ByteStream) :
    ∃ course, (∀ course', Runs (stillWanted clock) portion 0 s c course' ↔ course' = course) ∧
      c.Becomes course.context ∧
      (∀ got ∈ course.portions, got ≠ [] ∧ got.length ≤ portion) ∧
      (digest clock onDigest memory c s).context = course.context ∧
      (digest clock onDigest memory c s).body = none ∧
      TellsDigest onDigest memory course (digest clock onDigest memory c s) := by
  obtain ⟨course, run⟩ :=
    ByteStream.exists_runs (stillWanted clock) (n := portion) (by decide) 0 s c
  have reading := absorb_of_runs (e := {}) run
  refine ⟨course, fun course' => ⟨ByteStream.runs_unique run, fun same => same ▸ run⟩,
    ByteStream.becomes_runs run, ByteStream.runs_portions run, ?_⟩
  obtain ⟨portions, ending, stream, context⟩ := course
  cases ending with
  | ended =>
    have digested := Sha256.Engine.digest_absorb portions.flatten
    simp only [absorbed] at reading
    simp only [digest, reading, TellsDigest, digested]
    cases (onDigest memory context (Sha256.hash portions.flatten)).2 <;> simp [Call.HasClosed]
  | refused why | failed why =>
    simp only [absorbed] at reading
    simp [digest, reading, TellsDigest, Call.HasClosed]
  | threw f =>
    simp only [absorbed] at reading
    simp [digest, reading, TellsDigest]

/-- A body that delivers its three bytes in two reads. -/
def splitBody : ByteStream := .script { events := [.deliver (bytes "a"), .deliver (bytes "bc")] }

/-- The digest of these bytes is told once, in the context of the pack. -/
theorem digest_exact_abc :
    let call := digest (fun _ => 0) (fun told c d => (told ++ [(c, Sha256.toHex d)], none)) []
      .background splitBody
    call.memory = [(.background,
      bytes "ba7816bf8f01cfea414140de5dae2223b00361a396177a9cb410ff61f20015ad")] ∧
    call.verdict = .success ∧ call.HasClosed ∧ call.body = none := by
  intro call
  obtain ⟨course, exactly, -, -, -, gone, told⟩ := digest_exact (fun _ => 0)
    (fun (told : List (Context × Bytes)) c d => (told ++ [(c, Sha256.toHex d)], none)) []
    .background splitBody
  have first : splitBody.read portion .background =
      (.bytes (bytes "a"), .script { events := [.deliver (bytes "bc")], reads := 1 },
        .background) := by decide +kernel
  have second : (ByteStream.script { events := [.deliver (bytes "bc")], reads := 1 }).read portion
      .background = (.bytes (bytes "bc"), .script { events := [], reads := 2 }, .background) := by
    decide +kernel
  have last : (ByteStream.script { events := [], reads := 2 }).read portion .background =
      (.bytes [], .script { events := [], reads := 3 }, .background) := rfl
  have run : Runs (stillWanted fun _ => 0) portion 0 splitBody .background
      ⟨[bytes "a", bytes "bc"], .ended, .script { events := [], reads := 3 }, .background⟩ :=
    .more rfl first (by decide +kernel) (.more rfl second (by decide +kernel) (.ended rfl last))
  obtain rfl := (exactly _).mp run
  obtain ⟨memory, closed, verdict⟩ := told
  refine ⟨memory.trans ?_, verdict, closed, gone⟩
  exact congrArg (fun hex => [(Context.background, hex)]) Sha256.hash_abc

end Handler

namespace Pack

/-- The run of reads, with nothing asked in between, that the body of a pack has. -/
def Reads (p : Pack) (course : Course) : Prop :=
  ∃ s, p.body = some s ∧ Runs unchecked Handler.portion 0 s p.context course

/-- The body can be read to its end and has some content. -/
def Gives (p : Pack) (content : Bytes) : Prop :=
  ∃ course, p.Reads course ∧ course.ending = .ended ∧ course.portions.flatten = content

/-- A read of the body fails or throws, after others that have delivered bytes or at once. -/
def Breaks (p : Pack) : Prop := ∃ course, p.Reads course ∧ course.ending ≠ .ended

end Pack

namespace Handler

/-- The collecting handler adds all of a body or nothing of it. -/
theorem collect_cases (append : σ → Bytes → σ) (memory : σ) (c : Context) (s : ByteStream) :
    (∃ content, Pack.Gives ⟨some s, c⟩ content ∧ (collect append memory c s).verdict = .success ∧
      (collect append memory c s).memory = append memory content) ∨
    (Pack.Breaks ⟨some s, c⟩ ∧ (collect append memory c s).verdict ≠ .success ∧
      (collect append memory c s).memory = memory) := by
  obtain ⟨course, run⟩ := ByteStream.exists_runs unchecked (n := portion) (by decide) 0 s c
  have reading : s.readAll portion c = (course.whole, course.stream, course.context) :=
    ByteStream.readAll_of_runs run
  have reads : Pack.Reads ⟨some s, c⟩ course := ⟨s, rfl, run⟩
  obtain ⟨portions, ending, stream, context⟩ := course
  cases ending with
  | ended =>
    refine .inl ⟨portions.flatten, ⟨_, reads, rfl, rfl⟩, ?_⟩
    simp [collect, reading, Course.whole]
  | refused why | failed why | threw f =>
    refine .inr ⟨⟨_, reads, by simp⟩, ?_⟩
    simp [collect, reading, Course.whole]

theorem body_collect (append : σ → Bytes → σ) (memory : σ) (c : Context) (s : ByteStream) :
    (collect append memory c s).body = none := by
  rw [collect]
  split <;> rfl

end Handler
end StagedPipeline
