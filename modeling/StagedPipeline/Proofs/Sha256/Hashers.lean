import StagedPipeline.Proofs.Sha256.Engine
import Mathlib.Data.List.Basic

/-!
# Hashers and their messages

A hasher stands for a message that is being written, for one whose digest was taken, or for nothing
after it was moved from. Several hashers are written to, asked for digests, reset and moved onto
each other in any order. What they answer is a matter of what they stand for: the pieces in which a
message has come do not matter, nor which object has received them.
-/
namespace StagedPipeline.Sha256

/-- What a hasher stands for. -/
inductive Standing where
  | writing (message : Bytes)
  | finished (message : Bytes)
  | movedFrom
deriving DecidableEq, Repr

/-- What is done with one hasher. -/
inductive Act where
  | write (piece : Bytes)
  | finalize
  | reset
deriving DecidableEq, Repr

/-- What is done with a row of hashers. A new one that is constructed by a move stands behind all
others. -/
inductive Use where
  | act (i : Nat) (a : Act)
  | moveAssign (source target : Nat)
  | moveConstruct (source : Nat)
deriving DecidableEq, Repr

/-- What comes back from a use. -/
inductive Reply where
  | nothing
  | digest (d : Bytes)
  | fault (f : Fault)
deriving DecidableEq, Repr

namespace Hasher

/-- Moves the hasher at one index into a new hasher. -/
def moveConstruct (hs : List Hasher) (source : Nat) : List Hasher :=
  match hs[source]? with
  | some h => hs.set source h.movedFrom ++ [h]
  | none => hs

/-- A hasher as an act leaves it. A fault leaves it as it was. -/
def apply (h : Hasher) : Act → Reply × Hasher
  | .write piece =>
    match h.write piece with
    | .ok h' => (.nothing, h')
    | .error f => (.fault f, h)
  | .finalize =>
    match h.finalize with
    | .ok (d, h') => (.digest d, h')
    | .error f => (.fault f, h)
  | .reset => (.nothing, h.reset)

/-- A row of hashers as a use leaves it. -/
def applyAt (hs : List Hasher) : Use → Reply × List Hasher
  | .act i a =>
    match hs[i]? with
    | some h => ((h.apply a).1, hs.set i (h.apply a).2)
    | none => (.nothing, hs)
  | .moveAssign source target => (.nothing, moveAssign hs source target)
  | .moveConstruct source => (.nothing, moveConstruct hs source)

/-- A row of hashers after some uses. -/
def after (us : List Use) (hs : List Hasher) : List Hasher :=
  us.foldl (fun hs u => (applyAt hs u).2) hs

/-- A hasher is moved through a new one if that one is constructed, moved on and given up. -/
theorem moveThrough_eq (hs : List Hasher) (source target : Nat) :
    moveThrough hs source target =
      (moveAssign (moveConstruct hs source) hs.length target).take hs.length := by
  cases found : hs[source]? with
  | none => simp [moveThrough, moveConstruct, moveAssign, found]
  | some h =>
    have last : (hs.set source h.movedFrom ++ [h])[hs.length]? = some h := by simp
    simp only [moveThrough, moveConstruct, moveAssign, found, last]
    by_cases same : hs.length = target
    · simp [← same, List.set_eq_of_length_le]
    · simp [same, List.take_set, List.set_eq_of_length_le]

end Hasher

namespace Standing

/-- The message that is being written, or whose digest was taken. -/
def message? : Standing → Option Bytes
  | .writing m | .finished m => some m
  | .movedFrom => none

/-- An act on a hasher that stands for something: what comes back, and what it stands for then. -/
def apply : Standing → Act → Reply × Standing
  | .writing m, .write piece => (.nothing, .writing (m ++ piece))
  | .writing m, .finalize => (.digest (hash m), .finished m)
  | _, .reset => (.nothing, .writing [])
  | l, .write _ => (.fault Hasher.writeFault, l)
  | l, .finalize => (.fault Hasher.finalizeFault, l)

/-- A use of hashers that stand for something. -/
def applyAt (ls : List Standing) : Use → Reply × List Standing
  | .act i a =>
    match ls[i]? with
    | some l => ((l.apply a).1, ls.set i (l.apply a).2)
    | none => (.nothing, ls)
  | .moveAssign source target =>
    match ls[source]? with
    | some l => (.nothing, if source = target then ls else (ls.set target l).set source .movedFrom)
    | none => (.nothing, ls)
  | .moveConstruct source =>
    match ls[source]? with
    | some l => (.nothing, ls.set source .movedFrom ++ [l])
    | none => (.nothing, ls)

def after (us : List Use) (ls : List Standing) : List Standing :=
  us.foldl (fun ls u => (applyAt ls u).2) ls

/-- The hashers that stand for this. -/
def Of : Standing → Hasher → Prop
  | .writing m, h => h = ⟨some (({} : Engine).absorb m), false, m.length⟩
  | .finished m, h => h = ⟨some (({} : Engine).absorb m), true, m.length⟩
  | .movedFrom, h => h.engine = none

end Standing

/-- Hashers that stand for these, each at its index. -/
structure Stand (ls : List Standing) (hs : List Hasher) : Prop where
  length : hs.length = ls.length
  each : ∀ {i : Nat} {l : Standing} {h : Hasher}, ls[i]? = some l → hs[i]? = some h → l.Of h

variable {l : Standing} {h : Hasher} {ls : List Standing} {hs : List Hasher}

/-! ## One hasher -/

theorem written_of (hl : l.Of h) {m : Bytes} (some' : l.message? = some m) :
    h.written = m.length := by
  cases l with
  | writing | finished =>
    obtain rfl := hl
    obtain rfl := Option.some.inj some'
    rfl
  | movedFrom => cases some'

theorem movedFrom_of (h : Hasher) : Standing.movedFrom.Of h.movedFrom := rfl

/-- An act on a hasher is one on what it stands for. -/
theorem apply_of (hl : l.Of h) (a : Act) :
    (h.apply a).1 = (l.apply a).1 ∧ (l.apply a).2.Of (h.apply a).2 := by
  cases l with
  | writing m =>
    obtain rfl := hl
    cases a with
    | write piece =>
      refine ⟨rfl, ?_⟩
      simp [Hasher.apply, Hasher.write, Hasher.open?, Standing.apply, Standing.Of, bind,
        Except.bind, pure, Except.pure, Engine.absorb_append]
    | finalize => exact ⟨congrArg Reply.digest (Engine.digest_absorb m), rfl⟩
    | reset => exact ⟨rfl, rfl⟩
  | finished m =>
    obtain rfl := hl
    cases a <;> exact ⟨rfl, rfl⟩
  | movedFrom =>
    obtain ⟨engine, finalized, written⟩ := h
    obtain rfl : engine = none := hl
    cases a <;> exact ⟨rfl, rfl⟩

/-- A fault changes nothing. -/
theorem apply_fault {a : Act} {f : Fault} (faulted : (h.apply a).1 = .fault f) :
    (h.apply a).2 = h := by
  cases a with
  | reset => cases faulted
  | write piece =>
    simp only [Hasher.apply] at faulted ⊢
    split at faulted
    · cases faulted
    · rfl
  | finalize =>
    simp only [Hasher.apply] at faulted ⊢
    split at faulted
    · cases faulted
    · rfl

/-! ## A row of hashers -/

theorem stand_replicate (n : Nat) :
    Stand (List.replicate n (.writing [])) (List.replicate n {}) where
  length := by rw [List.length_replicate, List.length_replicate]
  each hl hh := by
    rw [List.eq_of_mem_replicate (List.mem_of_getElem? hl),
      List.eq_of_mem_replicate (List.mem_of_getElem? hh)]
    rfl

/-- An index has a hasher and what it stands for, or neither. -/
theorem Stand.cases (row : Stand ls hs) (i : Nat) :
    ls[i]? = none ∧ hs[i]? = none ∨ ∃ l h, ls[i]? = some l ∧ hs[i]? = some h ∧ l.Of h := by
  by_cases there : i < ls.length
  · have there' : i < hs.length := row.length ▸ there
    have hl := List.getElem?_eq_getElem there
    have hh := List.getElem?_eq_getElem there'
    exact .inr ⟨_, _, hl, hh, row.each hl hh⟩
  · have beyond : ls.length ≤ i := Nat.not_lt.mp there
    exact .inl ⟨List.getElem?_eq_none beyond, List.getElem?_eq_none (row.length ▸ beyond)⟩

theorem Stand.set (row : Stand ls hs) (hl : l.Of h) (i : Nat) :
    Stand (ls.set i l) (hs.set i h) where
  length := by rw [List.length_set, List.length_set, row.length]
  each {j l' h'} hl' hh' := by
    rw [List.getElem?_set] at hl' hh'
    by_cases same : i = j
    · rw [if_pos same] at hl' hh'
      split at hl' <;> split at hh' <;> cases hl' <;> cases hh'
      exact hl
    · rw [if_neg same] at hl' hh'
      exact row.each hl' hh'

theorem Stand.concat (row : Stand ls hs) (hl : l.Of h) : Stand (ls ++ [l]) (hs ++ [h]) where
  length := by rw [List.length_append, List.length_append, row.length]; rfl
  each {j l' h'} hl' hh' := by
    rw [List.getElem?_append] at hl' hh'
    by_cases old : j < ls.length
    · rw [if_pos old] at hl'
      rw [if_pos (row.length ▸ old)] at hh'
      exact row.each hl' hh'
    · rw [if_neg old, List.getElem?_singleton] at hl'
      rw [if_neg (row.length ▸ old), List.getElem?_singleton] at hh'
      split at hl' <;> split at hh' <;> cases hl' <;> cases hh'
      exact hl

/-- A use of the hashers is one of what they stand for. -/
theorem applyAt_of (row : Stand ls hs) (u : Use) :
    (Hasher.applyAt hs u).1 = (Standing.applyAt ls u).1 ∧
      Stand (Standing.applyAt ls u).2 (Hasher.applyAt hs u).2 := by
  cases u with
  | act i a =>
    rcases row.cases i with ⟨hl, hh⟩ | ⟨l, h, hl, hh, of⟩
    · simp only [Hasher.applyAt, Standing.applyAt, hl, hh]
      exact ⟨trivial, row⟩
    · obtain ⟨reply, next⟩ := apply_of of a
      simp only [Hasher.applyAt, Standing.applyAt, hl, hh]
      exact ⟨reply, row.set next i⟩
  | moveAssign source target =>
    rcases row.cases source with ⟨hl, hh⟩ | ⟨l, h, hl, hh, of⟩
    · simp only [Hasher.applyAt, Standing.applyAt, Hasher.moveAssign, hl, hh, ite_self]
      exact ⟨trivial, row⟩
    · simp only [Hasher.applyAt, Standing.applyAt, Hasher.moveAssign, hl, hh, beq_iff_eq]
      refine ⟨trivial, ?_⟩
      by_cases same : source = target
      · rwa [if_pos same, if_pos same]
      · rw [if_neg same, if_neg same]
        exact (row.set of target).set (movedFrom_of h) source
  | moveConstruct source =>
    rcases row.cases source with ⟨hl, hh⟩ | ⟨l, h, hl, hh, of⟩
    · simp only [Hasher.applyAt, Standing.applyAt, Hasher.moveConstruct, hl, hh]
      exact ⟨trivial, row⟩
    · simp only [Hasher.applyAt, Standing.applyAt, Hasher.moveConstruct, hl, hh]
      exact ⟨trivial, (row.set (movedFrom_of h) source).concat of⟩

theorem stand_after (row : Stand ls hs) (us : List Use) :
    Stand (Standing.after us ls) (Hasher.after us hs) := by
  induction us generalizing ls hs with
  | nil => exact row
  | cons u us ih => exact ih (applyAt_of row u).2

theorem applyAt_fault {u : Use} {f : Fault} (faulted : (Hasher.applyAt hs u).1 = .fault f) :
    (Hasher.applyAt hs u).2 = hs := by
  cases u with
  | moveAssign | moveConstruct => cases faulted
  | act i a =>
    cases found : hs[i]? with
    | none =>
      rw [Hasher.applyAt, found] at faulted
      cases faulted
    | some h =>
      simp only [Hasher.applyAt, found] at faulted ⊢
      obtain ⟨there, at'⟩ := List.getElem?_eq_some_iff.mp found
      rw [apply_fault faulted, ← at']
      exact List.set_getElem_self there

/-- Several new hashers, after any uses of them, and one more use. What comes back is a matter of
what the hashers stand for: a digest is the hash of the whole message, however it was written, and a
fault comes of writing or finishing where no message is being written, and changes nothing. Every
hasher that stands for a message has counted its bytes. -/
theorem hashers_stand (n : Nat) (before : List Use) (u : Use) :
    let hs := Hasher.after before (List.replicate n {})
    let ls := Standing.after before (List.replicate n (.writing []))
    (Hasher.applyAt hs u).1 = (Standing.applyAt ls u).1 ∧
    (∀ f, (Hasher.applyAt hs u).1 = .fault f → (Hasher.applyAt hs u).2 = hs) ∧
    hs.length = ls.length ∧
    ∀ (i : Nat) (h : Hasher) (l : Standing), hs[i]? = some h → ls[i]? = some l →
      ∀ m, l.message? = some m → h.written = m.length := by
  intro hs ls
  have row : Stand ls hs := stand_after (stand_replicate n) before
  refine ⟨(applyAt_of row u).1, fun f faulted => applyAt_fault faulted, row.length, ?_⟩
  intro i h l hh hl m some'
  exact written_of (row.each hl hh) some'

/-- A message is written in two pieces, between which it is moved to the other of two hashers. The
first one is reset then, and moved into a new one. -/
def movedAbout : List Use :=
  [.act 0 (.write (bytes "abcdbcdecdefdefgefghfghighijhijkij")), .moveAssign 0 1,
    .act 1 (.write (bytes "kljklmklmnlmnomnopnopq")), .act 0 .reset, .moveConstruct 0]

/-- The second hasher has the digest of the whole message and the new one that of the empty one, and
an empty write to the one that was moved from is refused. -/
theorem hashers_stand_movedAbout :
    let hs := Hasher.after movedAbout (List.replicate 2 {})
    (∃ d, (Hasher.applyAt hs (.act 1 .finalize)).1 = .digest d ∧ toHex d =
      bytes "248d6a61d20638b8e5c026930c3e6039a33ce45964ff2167f6ecedd419db06c1") ∧
    (∃ d, (Hasher.applyAt hs (.act 2 .finalize)).1 = .digest d ∧ toHex d =
      bytes "e3b0c44298fc1c149afbf4c8996fb92427ae41e4649b934ca495991b7852b855") ∧
    (Hasher.applyAt hs (.act 0 (.write []))).1 = .fault Hasher.writeFault ∧
    (Hasher.applyAt hs (.act 0 (.write []))).2 = hs ∧
    ∀ h, hs[1]? = some h → h.written = 56 := by
  intro hs
  obtain ⟨whole, -, -, counts⟩ := hashers_stand 2 movedAbout (.act 1 .finalize)
  obtain ⟨empty, -⟩ := hashers_stand 2 movedAbout (.act 2 .finalize)
  obtain ⟨refused, unchanged, -⟩ := hashers_stand 2 movedAbout (.act 0 (.write []))
  have stands : Standing.after movedAbout (List.replicate 2 (.writing [])) =
      [.movedFrom,
        .writing (bytes "abcdbcdecdefdefgefghfghighijhijkijkljklmklmnlmnomnopnopq"),
        .writing []] := by
    decide +kernel
  rw [stands] at whole empty refused counts
  have message :
      (bytes "abcdbcdecdefdefgefghfghighijhijkijkljklmklmnlmnomnopnopq").length = 56 := by
    decide +kernel
  refine ⟨⟨_, whole, hash_twoBlocks⟩, ⟨_, empty, hash_empty⟩, refused, unchanged _ refused, ?_⟩
  exact fun h second => (counts 1 h _ second rfl _ rfl).trans message

end StagedPipeline.Sha256
