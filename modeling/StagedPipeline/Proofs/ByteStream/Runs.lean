import StagedPipeline.ByteStream.Whole
import Mathlib.Data.List.Basic

/-!
# Runs of reads

A stream is read in portions, each time after a check that may end the reading. The run of checks
and reads is told here by itself, without what is made of the bytes: every stream has exactly one,
as each read that delivers something leaves less to do. Reading a stream to its end is what its run
without checks comes to. A script can stand for any source of bytes, since whatever portions come
before an end, there is a script with that run.
-/
namespace StagedPipeline

namespace Context

/-- Whether a context is another one as it was, or cancelled. -/
def Becomes (c c' : Context) : Prop := c' = c ∨ c' = c.cancel

theorem cancel_cancel (c : Context) : c.cancel.cancel = c.cancel := by
  cases c <;> rfl

theorem Becomes.trans {c c' c'' : Context} (first : c.Becomes c') (second : c'.Becomes c'') :
    c.Becomes c'' := by
  rcases first with rfl | rfl <;> rcases second with rfl | rfl
  · exact .inl rfl
  · exact .inr rfl
  · exact .inr rfl
  · exact .inr (cancel_cancel c)

end Context

namespace ByteStream

/-! ## One read -/

variable {n i : Nat} {s s' : ByteStream} {c c' : Context} {r : Reading}

theorem Script.becomes_play {es es' : List Event} (played : Script.play n es c = (r, es', c')) :
    c.Becomes c' := by
  induction es generalizing c with
  | nil => exact .inl (congrArg (·.2.2) played).symm
  | cons e es ih =>
    cases e with
    | cancel => exact Context.Becomes.trans (.inr rfl) (ih played)
    | fail e | throw f => exact .inl (congrArg (·.2.2) played).symm
    | deliver content =>
      rw [Script.play] at played
      split at played <;> exact .inl (congrArg (·.2.2) played).symm

/-- A read may cancel the context that it is made in, and does nothing else to it. -/
theorem becomes_read (read : s.read n c = (r, s', c')) : c.Becomes c' := by
  cases s with
  | buffer b | file f => exact .inl (congrArg (·.2.2) read).symm
  | script p =>
    simp only [ByteStream.read, Script.read] at read
    split at read
    · exact .inl (congrArg (·.2.2) read).symm
    · have context : (Script.play n p.events c).2.2 = c' := congrArg (·.2.2) read
      exact context ▸ Script.becomes_play rfl

theorem Script.length_play {got : Bytes} {es es' : List Event}
    (played : Script.play n es c = (.bytes got, es', c')) : got.length ≤ n := by
  induction es generalizing c with
  | nil =>
    cases played
    exact Nat.zero_le n
  | cons e es ih =>
    cases e with
    | cancel => exact ih played
    | fail e | throw f => cases played
    | deliver content =>
      rw [Script.play] at played
      split at played <;> cases played
      · assumption
      · exact List.length_take_le n content

/-- A read delivers no more than was asked for. -/
theorem length_read {got : Bytes} (read : s.read n c = (.bytes got, s', c')) : got.length ≤ n := by
  cases s with
  | buffer b =>
    simp only [ByteStream.read, Buffer.read] at read
    split at read <;> cases read
    exact List.length_take_le n b.rest
  | file f =>
    simp only [ByteStream.read, Reader.read] at read
    split at read
    · cases read
    · split at read <;> cases read
      · exact Nat.zero_le n
      · exact List.length_take_le n f.rest
  | script p =>
    simp only [ByteStream.read, Script.read] at read
    split at read
    · cases read
    · have delivered : (Script.play n p.events c).1 = .bytes got := congrArg (·.1) read
      exact Script.length_play (Prod.ext delivered rfl)

@[simp] theorem isClosed_close (s : ByteStream) : s.close.isClosed = true := by
  cases s <;> rfl

/-! ## A run of checks and reads -/

/-- How a run of reads ends. -/
inductive Ending where
  /-- A read has delivered nothing. -/
  | ended
  /-- A check has said why nothing more is read. -/
  | refused (e : Error)
  | failed (e : Error)
  | threw (f : Fault)
deriving DecidableEq, Repr

/-- A run of reads. -/
structure Course where
  /-- What the reads have delivered, in order. -/
  portions : List Bytes
  ending : Ending
  /-- The stream and the context as the run has left them. -/
  stream : ByteStream
  context : Context

/-- The run of a stream that is read in portions of `n` bytes at most, where `check i` is asked
before the read with number `i`. -/
inductive Runs (check : Nat → Context → Option Error) (n : Nat) :
    Nat → ByteStream → Context → Course → Prop where
  | refused {i : Nat} {s : ByteStream} {c : Context} {e : Error} (done : check i c = some e) :
      Runs check n i s c ⟨[], .refused e, s, c⟩
  | ended {i : Nat} {s s' : ByteStream} {c c' : Context} (live : check i c = none)
      (read : s.read n c = (.bytes [], s', c')) :
      Runs check n i s c ⟨[], .ended, s', c'⟩
  | failed {i : Nat} {s s' : ByteStream} {c c' : Context} {e : Error} (live : check i c = none)
      (read : s.read n c = (.failed e, s', c')) :
      Runs check n i s c ⟨[], .failed e, s', c'⟩
  | threw {i : Nat} {s s' : ByteStream} {c c' : Context} {f : Fault} (live : check i c = none)
      (read : s.read n c = (.threw f, s', c')) :
      Runs check n i s c ⟨[], .threw f, s', c'⟩
  | more {i : Nat} {s s' : ByteStream} {c c' : Context} {got : Bytes} {course : Course}
      (live : check i c = none)
      (read : s.read n c = (.bytes got, s', c')) (some' : got ≠ [])
      (rest : Runs check n (i + 1) s' c' course) :
      Runs check n i s c { course with portions := got :: course.portions }

/-- No check. -/
def unchecked : Nat → Context → Option Error := fun _ _ => none

variable {check : Nat → Context → Option Error} {course course' : Course}

theorem exists_runs (check : Nat → Context → Option Error) (positive : 0 < n) (i : Nat)
    (s : ByteStream) (c : Context) : ∃ course, Runs check n i s c course := by
  -- on how much the stream can still do
  induction left : s.remaining using Nat.strongRecOn generalizing i s c with
  | _ k ih =>
    cases asked : check i c with
    | some e => exact ⟨_, .refused asked⟩
    | none =>
      obtain ⟨⟨r, s', c'⟩, read⟩ : ∃ x, s.read n c = x := ⟨_, rfl⟩
      cases r with
      | failed e => exact ⟨_, .failed asked read⟩
      | threw f => exact ⟨_, .threw asked read⟩
      | bytes got =>
        by_cases none' : got = []
        · subst none'
          exact ⟨_, .ended asked read⟩
        · have less : s'.remaining < k := left ▸ remaining_read_lt positive none' read
          obtain ⟨course, rest⟩ := ih _ less (i + 1) s' c' rfl
          exact ⟨_, .more asked read none' rest⟩

theorem runs_unique (run : Runs check n i s c course) (run' : Runs check n i s c course') :
    course' = course := by
  induction run generalizing course' with
  | refused done => cases run' <;> simp_all
  | ended live read => cases run' <;> simp_all
  | failed live read => cases run' <;> simp_all
  | threw live read => cases run' <;> simp_all
  | more live read some' rest ih =>
    cases run' with
    | more live' read' _ rest' =>
      obtain ⟨⟨rfl⟩, rfl, rfl⟩ := Prod.mk.inj (read.symm.trans read') |>.imp_right Prod.mk.inj
      rw [ih rest']
    | refused done => simp_all
    | ended _ read' | failed _ read' | threw _ read' => simp_all

theorem runs_portions (run : Runs check n i s c course) :
    ∀ got ∈ course.portions, got ≠ [] ∧ got.length ≤ n := by
  induction run with
  | refused | ended | failed | threw => simp
  | more _ read some' _ ih => exact List.forall_mem_cons.mpr ⟨⟨some', length_read read⟩, ih⟩

theorem becomes_runs (run : Runs check n i s c course) : c.Becomes course.context := by
  induction run with
  | refused => exact .inl rfl
  | ended _ read | failed _ read | threw _ read => exact becomes_read read
  | more _ read _ _ ih => exact (becomes_read read).trans ih

/-! ## Reading to the end -/

/-- What reading to the end comes to: all portions together, or nothing of them. -/
def Course.whole (course : Course) : Reading :=
  match course.ending with
  | .ended => .bytes course.portions.flatten
  | .refused e | .failed e => .failed e
  | .threw f => .threw f

theorem readAll_last {chunk : Nat} (read : s.read (max chunk 1) c = (r, s', c'))
    (last : ∀ got, r = .bytes got → got = []) : s.readAll chunk c = (r, s', c') := by
  rw [readAll]
  split
  case h_1 h =>
    rw [read] at h
    exact h.symm
  case h_2 h =>
    rw [read] at h
    cases h
    cases last _ rfl
  case h_3 => exact read

theorem readAll_more {chunk : Nat} {got : Bytes}
    (read : s.read (max chunk 1) c = (.bytes got, s', c')) (some' : got ≠ []) :
    s.readAll chunk c =
      match s'.readAll chunk c' with
      | (.bytes more, s, c) => (.bytes (got ++ more), s, c)
      | other => other := by
  rw [readAll]
  split
  case h_1 h =>
    rw [read] at h
    cases h
    exact absurd rfl some'
  case h_2 h =>
    rw [read] at h
    cases h
    rfl
  case h_3 other =>
    cases got with
    | nil => exact absurd rfl some'
    | cons b got => exact absurd read (other b got s' c')

theorem readAll_of_runs {chunk : Nat} (run : Runs unchecked (max chunk 1) i s c course) :
    s.readAll chunk c = (course.whole, course.stream, course.context) := by
  induction run with
  | refused done => cases done
  | ended _ read => exact readAll_last read (by rintro _ ⟨⟩; rfl)
  | failed _ read | threw _ read => exact readAll_last read (by rintro _ ⟨⟩)
  | @more i s s' c c' got course _ read some' _ ih =>
    rw [readAll_more read some', ih]
    obtain ⟨portions, ending, stream, context⟩ := course
    cases ending <;> rfl

/-! ## Scripts -/

/-- The event that ends a run. -/
def Ending.events : Ending → List Event
  | .ended | .refused _ => []
  | .failed e => [.fail e]
  | .threw f => [.throw f]

/-- The events that deliver some portions, each of them after a cancel or not, up to an end. -/
def scripted (steps : List (Bool × Bytes)) (ending : Ending) : List Event :=
  steps.flatMap (fun (cancels, content) =>
    (if cancels then [.cancel] else []) ++ [.deliver content]) ++ ending.events

theorem read_scripted {cancels : Bool} {content : Bytes} {steps : List (Bool × Bytes)}
    {ending : Ending} (fits : content.length ≤ n) (k : Nat) (c : Context) :
    (ByteStream.script { events := scripted ((cancels, content) :: steps) ending, reads := k }).read
        n c =
      (.bytes content, .script { events := scripted steps ending, reads := k + 1 },
        if cancels then c.cancel else c) := by
  cases cancels <;> simp [ByteStream.read, Script.read, Script.play, scripted, fits]

/-- Whatever portions of the right size come before an end, there is a script with that run. -/
theorem runs_scripted {steps : List (Bool × Bytes)} {ending : Ending}
    (sized : ∀ step ∈ steps, step.2 ≠ [] ∧ step.2.length ≤ n)
    (unrefused : ∀ e, ending ≠ .refused e) (i k : Nat) (c : Context) :
    ∃ course,
      Runs unchecked n i (.script { events := scripted steps ending, reads := k }) c course ∧
      course.portions = steps.map Prod.snd ∧ course.ending = ending ∧
      course.context = if steps.any Prod.fst then c.cancel else c := by
  induction steps generalizing i k c with
  | nil =>
    cases ending with
    | ended => exact ⟨_, .ended rfl rfl, rfl, rfl, rfl⟩
    | refused e => exact absurd rfl (unrefused e)
    | failed e => exact ⟨_, .failed rfl rfl, rfl, rfl, rfl⟩
    | threw f => exact ⟨_, .threw rfl rfl, rfl, rfl, rfl⟩
  | cons step steps ih =>
    obtain ⟨cancels, content⟩ := step
    obtain ⟨⟨some', fits⟩, sized⟩ := List.forall_mem_cons.mp sized
    obtain ⟨course, run, portions, ending', context⟩ :=
      ih sized (i + 1) (k + 1) (if cancels then c.cancel else c)
    refine ⟨_, .more rfl (read_scripted fits k c) some' run, ?_, ending', ?_⟩
    · simp [portions]
    · cases cancels with
      | false => exact context
      | true =>
        have cancelled : course.context = c.cancel := by
          simpa [Context.cancel_cancel] using context
        simpa using cancelled

end ByteStream
end StagedPipeline
