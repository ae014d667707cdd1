import StagedPipeline.Handler

/-!
# Scripted handlers

A handler that works through a list of steps, one for each call, and keeps a
record of its calls. The last step is used for all calls after it.
-/
namespace StagedPipeline.Handler

/-- What is noted about one call. -/
inductive Note where
  | nothing
  | text (content : Bytes)
  | failed (e : Error)
  /-- A digest and the values that were looked up in the context. -/
  | digest (digest : Bytes) (values : List (Option Bytes))
deriving DecidableEq, Repr

/-- The record of a handler's calls. -/
structure Record where
  calls : Nat := 0
  /-- What is noted, the latest first. -/
  noted : List Note := []
  /-- The contents that were collected, the latest first. -/
  collected : List Bytes := []
deriving DecidableEq, Repr

namespace Record

/-- One more call. -/
def called (r : Record) : Record := { r with calls := r.calls + 1 }

def note (r : Record) (n : Note) : Record := { r with noted := n :: r.noted }

/-- The notes, in order. -/
def notes (r : Record) : List Note := r.noted.reverse

def collect (r : Record) (content : Bytes) : Record :=
  { r with collected := content :: r.collected }

/-- All that was collected, in order. -/
def sink (r : Record) : Bytes := r.collected.reverse.flatten

end Record

/-- What one call does. -/
inductive Step where
  /-- Leaves the body as it is. -/
  | forward
  /-- Reads the body and leaves it exhausted. -/
  | read
  /-- Reads the body and takes it out. -/
  | consume
  /-- Takes the body out unread. -/
  | drop
  /-- Closes the body and leaves it. -/
  | close
  /-- Cancels the context. -/
  | cancel
  /-- Puts another body in place. -/
  | replace (content : Bytes)
  /-- Reads the body and puts a text that depends on it in place. -/
  | revise (f : Context → Bytes → Bytes)
  /-- Fails if the context is done. -/
  | check
  | fail (e : Error)
  | throw (f : Fault)

namespace Step

/-- Upper case in place of the text. -/
def upper : Step := .revise fun _ text => text.upper

/-- The text between two others. -/
def wrap (before after : Bytes) : Step := .revise fun _ text => before ++ text ++ after

/-- The text after the value that the context has for a key, or a dash. -/
def tag (key : Bytes) : Step :=
  .revise fun c text => (c.value? key).getD (bytes "-") ++ bytes ":" ++ text

/-- Reads the body to its end and goes on with the text. If it cannot be read, that
is how the call ends, and the body stays. -/
def reading (r : Record) (c : Context) (s : ByteStream)
    (go : Record → Context → ByteStream → Bytes → Call Record) : Call Record :=
  match s.readAll Pack.portion c with
  | (.bytes text, s, c) => go (r.note (.text text)) c s text
  | (.failed e, s, c) =>
    { verdict := .failure e, memory := r.note (.failed e), context := c, body := some s }
  | (.threw f, s, c) => { verdict := .fault f, memory := r, context := c, body := some s }

/-- Carries out a step. -/
def run (now : Time) (step : Step) : Handler Record := fun r c s =>
  let noted := r.note .nothing
  match step with
  | .forward => { verdict := .success, memory := noted, context := c, body := some s }
  | .read => reading r c s fun r c s _ =>
      { verdict := .success, memory := r, context := c, body := some s }
  | .consume => reading r c s fun r c s _ =>
      { verdict := .success, memory := r, context := c, released := some s }
  | .drop => { verdict := .success, memory := noted, context := c, released := some s }
  | .close => { verdict := .success, memory := noted, context := c, body := some s.close }
  | .cancel => { verdict := .success, memory := noted, context := c.cancel, body := some s }
  | .replace content =>
    { verdict := .success, memory := noted, context := c
      body := some (.ofBytes content), released := some s }
  | .revise f => reading r c s fun r c s text =>
      { verdict := .success, memory := r, context := c
        body := some (.ofBytes (f c text)), released := some s }
  | .check =>
    { verdict := match c.error? now with
        | some e => .failure e
        | none => .success
      memory := noted, context := c, body := some s }
  | .fail e => { verdict := .failure e, memory := noted, context := c, body := some s }
  | .throw f => { verdict := .fault f, memory := noted, context := c, body := some s }

end Step

/-- The reads and closes that a scripted body has seen when its call has ended, whether
it was taken out of the pack or not; none for other bodies. -/
def Call.bodyUse {σ : Type} (c : Call σ) : Nat × Nat :=
  match c.released <|> c.body with
  | some (.script p) => (p.reads, p.closes)
  | _ => (0, 0)

/-- Works through the steps. Without any step, each call forwards. -/
def script (now : Time) (steps : List Step) : Handler Record := fun r c s =>
  ((steps[r.calls]? <|> steps.getLast?).getD .forward).run now r.called c s

/-- Notes each digest with the values that the context has for some keys, and throws
afterwards if that is asked for. -/
def digestScript (now : Time) (keys : Option (List Bytes)) (thrown : Option Fault) :
    Handler Record := fun r c s =>
  digest (fun _ => now)
    (fun r c d =>
      match keys with
      | some keys => (r.note (.digest d (keys.map (c.value? ·))), thrown)
      | none => (r, none))
    r.called c s

/-- Collects in the record. -/
def collectScript : Handler Record := fun r c s => collect Record.collect r.called c s

end StagedPipeline.Handler
