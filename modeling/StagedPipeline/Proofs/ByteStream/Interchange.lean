import StagedPipeline.Proofs.ByteStream.Runs

/-!
# A file in place of a buffer

A buffer knows how much of its bytes is left, a file notices its end by a read that gets less than
it asked for. A user who reads in portions of any size, reads to the end or closes the stream cannot
tell the two apart: what either of them answers is a matter of what it has not delivered yet.
-/
namespace StagedPipeline.ByteStream

/-- What is done with a stream. -/
inductive Use where
  | read (n : Nat)
  /-- Reads to the end, in portions of `chunk` bytes. -/
  | readAll (chunk : Nat)
  | close
deriving DecidableEq, Repr

/-- A reading without the words of its error. -/
def Reading.outline : Reading → Reading
  | .failed e => .failed { code := e.code }
  | r => r

namespace Use

/-- Uses a stream in a context. There is no answer to a close. -/
def apply : Use → ByteStream × Context → Option Reading × ByteStream × Context
  | .read n, (s, c) => (some (s.read n c).1, (s.read n c).2)
  | .readAll chunk, (s, c) => (some (s.readAll chunk c).1, (s.readAll chunk c).2)
  | .close, (s, c) => (none, s.close, c)

/-- What a use leaves to be delivered, of a stream that is open. A closed one has nothing. -/
def leaves : Use → Option Bytes → Option Bytes
  | .read n, left => left.map (·.drop n)
  | .readAll _, left => left.map fun _ => []
  | .close, _ => none

/-- The outline of the answer that is due while something is left to be delivered, or once the
stream was closed. -/
def due : Use → Option Bytes → Option Reading
  | .close, _ => none
  | .read n, some rest => some (.bytes (rest.take n))
  | .readAll _, some rest => some (.bytes rest)
  | .read _, none | .readAll _, none => some (.failed { code := .streamClosed })

/-- What an answer has to be while `rest` is left to be delivered. -/
def Gives (rest : Bytes) : Use → Option Reading → Prop
  | .read n, answer =>
    answer = some (.bytes (rest.take n)) ∧ (0 < n → answer = some (.bytes []) → rest = [])
  | .readAll _, answer => answer = some (.bytes rest)
  | .close, answer => answer = none

/-- What an answer has to be once the stream was closed. -/
def Refuses : Use → Option Reading → Prop
  | .read _, answer | .readAll _, answer =>
    ∃ e, answer = some (.failed e) ∧ e.code = .streamClosed
  | .close, answer => answer = none

end Use

/-- The answers to some uses, in order. -/
def answers : List Use → ByteStream × Context → List (Option Reading)
  | [], _ => []
  | u :: us, x => (u.apply x).1 :: answers us (u.apply x).2

/-- A stream and its context after some uses. -/
def after (us : List Use) (x : ByteStream × Context) : ByteStream × Context :=
  us.foldl (fun x u => (u.apply x).2) x

/-- What some uses leave to be delivered. -/
def leftAfter (us : List Use) (left : Option Bytes) : Option Bytes :=
  us.foldl (fun left u => u.leaves left) left

/-- The bytes that some answers have delivered. -/
def delivered (given : List (Option Reading)) : Bytes :=
  given.flatMap fun
    | some (.bytes got) => got
    | _ => []

/-- A buffer or file that is open and has these bytes left. A file that has noticed its end has
none. -/
def Offers (rest : Bytes) : ByteStream → Prop
  | .buffer b => b.closed = false ∧ b.rest = rest
  | .file r => r.closed = false ∧ r.rest = rest ∧ (r.ended = true → rest = [])
  | .script _ => False

/-- What is left to be delivered by a stream, `none` if it is closed. -/
def Stands (s : ByteStream) : Option Bytes → Prop
  | some rest => s.Offers rest
  | none => s.isClosed = true

variable {n i : Nat} {s s' : ByteStream} {c : Context} {rest content : Bytes}
  {left : Option Bytes} {u : Use} {us : List Use}

/-! ## An open stream -/

theorem Offers.stands (hs : s.Offers rest) : s.Stands (some rest) := hs

theorem offers_ofBytes (content : Bytes) : (ofBytes content).Offers content := ⟨rfl, rfl⟩

theorem Reader.read_idle {r : Reader} (open' : r.closed = false)
    (idle : n = 0 ∨ r.ended = true) : r.read n = (.bytes [], r) := by
  simp [Reader.read, open', idle]

theorem Reader.read_going {r : Reader} (open' : r.closed = false)
    (going : ¬(n = 0 ∨ r.ended = true)) : r.read n =
      (.bytes (r.rest.take n), { r with
        rest := r.rest.drop n, ended := decide ((r.rest.take n).length < n) }) := by
  simp [Reader.read, open', going]

/-- A read delivers as much as was asked for, or all that is left. -/
theorem offers_read (hs : s.Offers rest) (n : Nat) (c : Context) :
    ∃ s', s.read n c = (.bytes (rest.take n), s', c) ∧ s'.Offers (rest.drop n) := by
  cases s with
  | script p => exact hs.elim
  | buffer b =>
    obtain ⟨open', rfl⟩ := hs
    refine ⟨.buffer { b with rest := b.rest.drop n }, ?_, open', rfl⟩
    simp [read, Buffer.read, open']
  | file r =>
    obtain ⟨open', rfl, atEnd⟩ := hs
    by_cases idle : n = 0 ∨ r.ended = true
    · -- nothing was asked for, or nothing is left
      have none' : r.rest.take n = [] ∧ r.rest.drop n = r.rest := by
        rcases idle with rfl | ended
        · exact ⟨rfl, rfl⟩
        · simp [atEnd ended]
      refine ⟨.file r, ?_, open', none'.2.symm, fun ended => ?_⟩
      · rw [read, Reader.read_idle open' idle, none'.1]
      · rw [none'.2, atEnd ended]
    · rw [read, Reader.read_going open' idle]
      refine ⟨_, rfl, open', rfl, fun short => ?_⟩
      have short := of_decide_eq_true short
      rw [List.length_take] at short
      exact List.drop_eq_nil_iff.mpr (by omega)

/-- A run of reads delivers all that is left, in portions of any size. -/
theorem offers_runs {course : Course} (run : Runs unchecked n i s c course) (positive : 0 < n)
    (hs : s.Offers rest) :
    course.ending = .ended ∧ course.portions.flatten = rest ∧ course.stream.Offers [] ∧
      course.context = c := by
  -- each read takes the front of what is left, so that the run ends where nothing is
  induction run generalizing rest with
  | refused done => cases done
  | @ended i s s' c c' _ read =>
    obtain ⟨s₁, read', offers⟩ := offers_read hs n c
    obtain ⟨got, rfl, rfl⟩ := by simpa [read] using read'
    obtain rfl : rest = [] := got.resolve_left (by omega)
    exact ⟨rfl, rfl, by simpa using offers, rfl⟩
  | @failed i s s' c c' _ _ read | @threw i s s' c c' _ _ read =>
    obtain ⟨_, read', -⟩ := offers_read hs n c
    rw [read] at read'
    cases read'
  | @more i s s' c c' got course _ read _ _ ih =>
    obtain ⟨s₁, read', offers⟩ := offers_read hs n c
    rw [read] at read'
    obtain ⟨⟨rfl⟩, rfl, rfl⟩ := Prod.mk.inj read' |>.imp_right Prod.mk.inj
    obtain ⟨ending, portions, offers', context⟩ := ih offers
    refine ⟨ending, ?_, offers', context⟩
    rw [List.flatten_cons, portions, List.take_append_drop]

theorem offers_readAll (hs : s.Offers rest) (chunk : Nat) (c : Context) :
    ∃ s', s.readAll chunk c = (.bytes rest, s', c) ∧ s'.Offers [] := by
  have positive : 0 < max chunk 1 := by omega
  obtain ⟨course, run⟩ := exists_runs unchecked positive 0 s c
  obtain ⟨ending, portions, offers, context⟩ := offers_runs run positive hs
  refine ⟨course.stream, ?_, offers⟩
  rw [readAll_of_runs run, Course.whole, ending, portions, context]

/-! ## A closed stream -/

/-- No stream can be read once it was closed. -/
theorem closed_read (hs : s.isClosed = true) (n : Nat) (c : Context) :
    ∃ e s', s.read n c = (.failed e, s', c) ∧ e.code = .streamClosed ∧ s'.isClosed = true := by
  cases s <;> simp_all [isClosed, read, Buffer.read, Reader.read, Script.read, Error.of]

theorem closed_readAll (hs : s.isClosed = true) (chunk : Nat) (c : Context) :
    ∃ e s', s.readAll chunk c = (.failed e, s', c) ∧ e.code = .streamClosed ∧
      s'.isClosed = true := by
  obtain ⟨e, s', read, code, closed⟩ := closed_read hs (max chunk 1) c
  exact ⟨e, s', readAll_last read (by rintro _ ⟨⟩), code, closed⟩

/-! ## Any use -/

/-- A use answers what is due and leaves what it has to. -/
theorem stands_apply (hs : s.Stands left) (u : Use) (c : Context) :
    ∃ s', (u.apply (s, c)).2 = (s', c) ∧ s'.Stands (u.leaves left) ∧
      (u.apply (s, c)).1.map Reading.outline = u.due left := by
  cases u with
  | close => exact ⟨s.close, rfl, isClosed_close s, rfl⟩
  | read n =>
    cases left with
    | some rest =>
      obtain ⟨s', read, offers⟩ := offers_read hs n c
      exact ⟨s', by rw [Use.apply, read], offers, by rw [Use.apply, read]; rfl⟩
    | none =>
      obtain ⟨e, s', read, code, closed⟩ := closed_read hs n c
      exact ⟨s', by rw [Use.apply, read], closed, by rw [Use.apply, read, Use.due, ← code]; rfl⟩
  | readAll chunk =>
    cases left with
    | some rest =>
      obtain ⟨s', read, offers⟩ := offers_readAll hs chunk c
      exact ⟨s', by rw [Use.apply, read], offers, by rw [Use.apply, read]; rfl⟩
    | none =>
      obtain ⟨e, s', read, code, closed⟩ := closed_readAll hs chunk c
      exact ⟨s', by rw [Use.apply, read], closed, by rw [Use.apply, read, Use.due, ← code]; rfl⟩

/-- What is left of a stream after some uses. -/
theorem stands_after (hs : s.Stands left) (us : List Use) (c : Context) :
    ∃ s', after us (s, c) = (s', c) ∧ s'.Stands (leftAfter us left) := by
  induction us generalizing s left with
  | nil => exact ⟨s, rfl, hs⟩
  | cons u us ih =>
    obtain ⟨s', applied, stands, -⟩ := stands_apply hs u c
    rw [after, List.foldl_cons, applied]
    exact ih stands

/-- Two streams that have the same left answer alike. -/
theorem answers_outline (hs : s.Stands left) (hs' : s'.Stands left) (us : List Use)
    (c : Context) : (answers us (s, c)).map (Option.map Reading.outline) =
      (answers us (s', c)).map (Option.map Reading.outline) := by
  induction us generalizing s s' left with
  | nil => rfl
  | cons u us ih =>
    obtain ⟨t, applied, stands, answer⟩ := stands_apply hs u c
    obtain ⟨t', applied', stands', answer'⟩ := stands_apply hs' u c
    rw [answers, answers, List.map_cons, List.map_cons, answer, answer', applied, applied',
      ih stands stands']

/-- A use delivers the front of what is left and leaves the rest, unless it closes the stream. -/
theorem delivered_apply (hs : s.Offers rest) (open' : u ≠ .close) (c : Context) :
    ∃ more, u.leaves (some rest) = some more ∧ delivered [(u.apply (s, c)).1] ++ more = rest := by
  cases u with
  | close => exact absurd rfl open'
  | read n =>
    obtain ⟨s', read, -⟩ := offers_read hs n c
    refine ⟨rest.drop n, rfl, ?_⟩
    simp [Use.apply, read, delivered]
  | readAll chunk =>
    obtain ⟨s', read, -⟩ := offers_readAll hs chunk c
    refine ⟨[], rfl, ?_⟩
    simp [Use.apply, read, delivered]

/-- As long as a stream was not closed, what it has delivered and what is left are the content. -/
theorem delivered_answers (hs : s.Offers content) (open' : .close ∉ us) (c : Context) :
    ∃ rest, leftAfter us (some content) = some rest ∧
      delivered (answers us (s, c)) ++ rest = content := by
  induction us generalizing s content with
  | nil => exact ⟨content, rfl, rfl⟩
  | cons u us ih =>
    rw [List.mem_cons, not_or] at open'
    obtain ⟨more, leaves, first⟩ := delivered_apply hs (Ne.symm open'.1) c
    obtain ⟨s', applied, stands, -⟩ := stands_apply hs.stands u c
    rw [leaves] at stands
    obtain ⟨rest, left, later⟩ := ih stands open'.2
    refine ⟨rest, by rw [leftAfter, List.foldl_cons, leaves, ← leftAfter, left], ?_⟩
    rw [answers, applied, ← first, ← later, ← List.append_assoc]
    simp [delivered]

/-- Nothing is left once a stream was closed. -/
theorem leftAfter_of_close (closed : .close ∈ us) (left : Option Bytes) :
    leftAfter us left = none := by
  have gone : ∀ us : List Use, leftAfter us none = none := by
    intro us
    induction us with
    | nil => rfl
    | cons u us ih => cases u <;> exact ih
  obtain ⟨before, later, rfl⟩ := List.append_of_mem closed
  rw [leftAfter, List.foldl_append, List.foldl_cons]
  exact gone later

/-! ## Answers from their outlines -/

theorem outline_eq_bytes {answer : Option Reading} {got : Bytes}
    (same : answer.map Reading.outline = some (.bytes got)) : answer = some (.bytes got) := by
  obtain ⟨r, rfl, outline⟩ := Option.map_eq_some_iff.mp same
  cases r with
  | bytes => exact congrArg some outline
  | failed | threw => cases outline

theorem outline_eq_failed {answer : Option Reading} {code : ErrorCode}
    (same : answer.map Reading.outline = some (.failed { code })) :
    ∃ e, answer = some (.failed e) ∧ e.code = code := by
  obtain ⟨r, rfl, outline⟩ := Option.map_eq_some_iff.mp same
  cases r with
  | failed e =>
    cases outline
    exact ⟨e, rfl, rfl⟩
  | bytes | threw => cases outline

namespace Use

theorem gives_of_due {answer : Option Reading}
    (same : answer.map Reading.outline = u.due (some rest)) : u.Gives rest answer := by
  cases u with
  | close => exact Option.map_eq_none_iff.mp same
  | readAll chunk => exact outline_eq_bytes same
  | read n =>
    refine ⟨outline_eq_bytes same, fun positive nothing => ?_⟩
    rw [nothing] at same
    have taken : [] = rest.take n := Reading.bytes.inj (Option.some.inj same)
    exact (List.take_eq_nil_iff.mp taken.symm).resolve_left (by omega)

theorem refuses_of_due {answer : Option Reading}
    (same : answer.map Reading.outline = u.due none) : u.Refuses answer := by
  cases u with
  | close => exact Option.map_eq_none_iff.mp same
  | read | readAll => exact outline_eq_failed same

end Use

/-! ## Files and buffers -/

/-- The answer to a use after others, of a stream that had some content at first. -/
theorem answer_after (hs : s.Offers content) (before : List Use) (u : Use) (c : Context) :
    (.close ∈ before → u.Refuses (u.apply (after before (s, c))).1) ∧
      (.close ∉ before → ∃ rest, content = delivered (answers before (s, c)) ++ rest ∧
        u.Gives rest (u.apply (after before (s, c))).1) := by
  obtain ⟨s', later, stands⟩ := stands_after hs.stands before c
  obtain ⟨-, -, -, answer⟩ := stands_apply stands u c
  rw [later]
  constructor
  · intro closed
    rw [leftAfter_of_close closed] at answer
    exact Use.refuses_of_due answer
  · intro open'
    obtain ⟨rest, left, whole⟩ := delivered_answers hs open' c
    rw [left] at answer
    exact ⟨rest, whole.symm, Use.gives_of_due answer⟩

/-- A file answers like a buffer that holds its content, whatever is done with them. Until it is
closed, each of them has delivered a beginning of the content, a read of some bytes delivers
nothing only if all was delivered, and reading to the end delivers all the rest, in portions of
whatever size. Once it is closed, nothing can be read. -/
theorem file_answers_as_buffer {fs : FileSystem} {path content : Bytes}
    (there : fs.lookup? path = some (.file content)) (c : Context) :
    ∃ r, (Reader.openFile fs path).1 = .ok r ∧
      (∀ us, (answers us (.file r, c)).map (Option.map Reading.outline) =
        (answers us (ofBytes content, c)).map (Option.map Reading.outline)) ∧
      ∀ s ∈ [ByteStream.file r, ofBytes content], ∀ (before : List Use) (u : Use),
        (.close ∈ before → u.Refuses (u.apply (after before (s, c))).1) ∧
        (.close ∉ before → ∃ rest, content = delivered (answers before (s, c)) ++ rest ∧
          u.Gives rest (u.apply (after before (s, c))).1) := by
  have file : (ByteStream.file { path, rest := content }).Offers content :=
    ⟨rfl, rfl, fun ended => nomatch ended⟩
  have buffer := offers_ofBytes content
  refine ⟨{ path, rest := content }, by rw [Reader.openFile, there], ?_, ?_⟩
  · exact fun us => answers_outline file.stands buffer.stands us c
  · intro s hs before u
    rcases List.mem_pair.mp hs with rfl | rfl
    · exact answer_after file before u c
    · exact answer_after buffer before u c

/-- A file of four bytes. -/
def fourBytes : FileSystem := { nodes := [([bytes "f"], .file (bytes "even"))] }

/-- Two full portions are all of the file, whose end is only noticed by the next read. -/
theorem file_answers_as_buffer_even :
    fourBytes.lookup? (bytes "f") = some (.file (bytes "even")) ∧
    ∃ r, (Reader.openFile fourBytes (bytes "f")).1 = .ok r ∧
      (answers [.read 0, .read 2, .readAll 2, .read 1, .close, .readAll 0]
        (.file r, .background)).map (Option.map Reading.outline) =
      [some (.bytes []), some (.bytes (bytes "ev")), some (.bytes (bytes "en")), some (.bytes []),
        none, some (.failed { code := .streamClosed })] := by
  have there : fourBytes.lookup? (bytes "f") = some (.file (bytes "even")) := by decide +kernel
  obtain ⟨r, opened, same, -⟩ := file_answers_as_buffer there .background
  refine ⟨there, r, opened, ?_⟩
  rw [same]
  decide +kernel

end StagedPipeline.ByteStream
