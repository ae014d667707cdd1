import StagedPipeline.Pack
import StagedPipeline.Sha256.Hasher

/-!
# Handlers

A handler is given the body and the context of a pack. It may leave the body,
read it, replace it or take it out, and it ends with success, an error or a
fault. What it remembers from one call to the next is its memory. Two handlers
are at hand: one takes the digest of each body, one collects all bodies.
-/
namespace StagedPipeline

namespace Handler

/-- How a call of a handler ends. -/
inductive Verdict where
  | success
  | failure (e : Error)
  | fault (f : Fault)
deriving DecidableEq, Repr

/-- One call of a handler. -/
structure Call (σ : Type) where
  verdict : Verdict
  memory : σ
  context : Context
  /-- The body that is left in the pack. -/
  body : Option ByteStream := none
  /-- The stream that was taken out of the pack, as the handler let go of it. -/
  released : Option ByteStream := none
  entries : List Log.Entry := []

end Handler

/-- A handler with a memory of type `σ`. -/
abbrev Handler (σ : Type) := σ → Context → ByteStream → Handler.Call σ

namespace Handler

variable {σ : Type}

/-- What stands for a handler that is missing: calling it is a fault. -/
def missing : Handler σ := fun memory context body =>
  { verdict := .fault (.standard .other (bytes "bad_function_call")), memory, context
    body := some body }

/-- The portion in which the handlers below read. -/
def portion : Nat := 65536

/-- How the reading of a body for its digest ends. -/
inductive Absorbed where
  | finished (e : Sha256.Engine)
  | failed (e : Error)
  | threw (f : Fault)
deriving DecidableEq, Repr

/-- Reads a body into a hash. Before each read the context is asked whether the
work is still wanted; `clock i` is the time of the question with number `i`. -/
def absorb (clock : Nat → Time) (i : Nat) (e : Sha256.Engine) (s : ByteStream) (c : Context) :
    Absorbed × ByteStream × Context :=
  match c.error? (clock i) with
  | some e => (.failed e, s, c)
  | none =>
    match _h : s.read portion c with
    | (.failed e, s', c') => (.failed e, s', c')
    | (.threw f, s', c') => (.threw f, s', c')
    | (.bytes [], s', c') => (.finished e, s', c')
    | (.bytes (b :: got), s', c') => absorb clock (i + 1) (e.absorb (b :: got)) s' c'
termination_by s.remaining
decreasing_by exact ByteStream.remaining_read_lt (by decide) (by simp) _h

/-- The line about a digest. -/
def digestEntry (e : Sha256.Engine) : Log.Entry :=
  Log.trace .crypto
    (bytes "sha256 " ++ Sha256.toHex e.digest ++ bytes " over " ++ .ofNat e.count
      ++ bytes " byte(s)")

/-- Takes the body and hands its digest to `onDigest`, which may throw. The body is
closed, unless reading it threw. -/
def digest (clock : Nat → Time) (onDigest : σ → Context → Bytes → σ × Option Fault) : Handler σ :=
  fun memory context body =>
    match absorb clock 0 {} body context with
    | (.failed e, s, context) =>
      { verdict := .failure e, memory, context, released := some s.close }
    | (.threw f, s, context) => { verdict := .fault f, memory, context, released := some s }
    | (.finished e, s, context) =>
      let (memory, thrown) := onDigest memory context e.digest
      { verdict := match thrown with
          | some f => .fault f
          | none => .success
        memory, context
        released := some s.close
        entries := [digestEntry e] }

/-- Takes the body and adds all of it to a sink, or nothing if it cannot be read to
its end. -/
def collect (append : σ → Bytes → σ) : Handler σ :=
  fun memory context body =>
    match body.readAll portion context with
    | (.bytes content, s, context) =>
      { verdict := .success, memory := append memory content, context, released := some s.close }
    | (.failed e, s, context) =>
      { verdict := .failure e, memory, context, released := some s.close }
    | (.threw f, s, context) => { verdict := .fault f, memory, context, released := some s }

end Handler
end StagedPipeline
