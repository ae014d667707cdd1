import StagedPipeline.Stage.Event

/-!
# The application

The application stands at the end of a pipeline. It works through an agenda of
errands: it takes packs, closes the data channel, drains the errors, waits for
tasks to end and destroys stages. The errands at the terminal conduit move in
atomic sections, as the tasks do.
-/
namespace StagedPipeline

/-- Who can move in a pipeline. -/
inductive Party where
  | application
  | supplier
  /-- The task at a position of the row. -/
  | stage (i : Nat)
deriving DecidableEq, Repr

namespace Application

/-- What is done with the errors of a drain. -/
inductive Purpose where
  /-- They are given to the caller, after a number of packs. -/
  | report (packs : Nat)
  /-- They are counted and forgotten. -/
  | discard
  /-- They are given to the caller, and no line is written. -/
  | collect
deriving DecidableEq, Repr

/-- Something for the application to do. -/
inductive Errand where
  /-- Takes one pack, or finds the end. -/
  | read
  /-- Takes packs up to the end. -/
  | readRest
  /-- Takes a number of packs, or fewer if the end comes first. -/
  | take (n : Nat)
  /-- Takes packs up to the end and then drains the errors. -/
  | drain (packs : Nat)
  /-- Closes the terminal data channel. -/
  | shut
  /-- In the first section of a single poll. -/
  | check
  /-- Before its second section. -/
  | confirmCheck
  /-- Draining, in the first section of a poll. -/
  | poll (purpose : Purpose) (got : List Error)
  /-- Draining, before the second section of a poll. -/
  | confirm (purpose : Purpose) (got : List Error)
  /-- Waits for the task of a party to end. -/
  | join (p : Party)
  /-- Closes the data channel that the station at a position reads. -/
  | shutInput (i : Nat)
  /-- Destroys the station at a position, which makes the call of its finalizer if it is
  still owed. -/
  | release (i : Nat)
deriving DecidableEq, Repr

end Application

/-- The application: its agenda and what it has got so far. -/
structure Application where
  agenda : List Application.Errand := []
  /-- The number of packs taken. -/
  taken : Nat := 0
  /-- Whether the last read has found the end. -/
  ended : Bool := false
  /-- The errors taken, in order. -/
  errors : List Error := []
  /-- The errors of the last drain that has come to its end. -/
  drained : List Error := []
  /-- Whether the last single poll has found the errors closed and empty. -/
  errorsDone : Bool := false
  /-- What every pack that is taken is shown to, with the number of packs before it; it
  may throw. -/
  onItem : Nat → Option Pack → Option Fault := fun _ _ => none
  /-- What it has thrown. -/
  thrown : Option Fault := none

namespace Application

/-- Adds errands at the end of the agenda. -/
def plan (a : Application) (es : List Errand) : Application := { a with agenda := a.agenda ++ es }

/-- The fault of draining where one of the two channels is missing. -/
def missingChannelFault : Fault := .invalidArgument "drain(): invalid stream pair"

def drainedEntry (packs errors : Nat) : Log.Entry :=
  Log.debug .pipeline
    (bytes "drained " ++ .ofNat packs ++ bytes " item(s) and " ++ .ofNat errors
      ++ bytes " error(s)")

def discardedEntry (errors : Nat) : Log.Entry :=
  Log.debug .pipeline
    (bytes "discarding " ++ .ofNat errors ++ bytes " unread error(s) of an abandoned pipeline")

/-- What the end of a drain leaves to say. -/
def Purpose.entries (got : List Error) : Purpose → List Log.Entry
  | .report packs => [drainedEntry packs got.length]
  | .discard => if got.isEmpty then [] else [discardedEntry got.length]
  | .collect => []

/-- Notes a pack that was taken, or the end, and goes on with an agenda for each. If
`onItem` throws, nothing of the agenda is left. -/
def note (a : Application) (item : Option (Option Pack)) (next atEnd : List Errand) :
    Application × List Event :=
  match item with
  | some p =>
    let thrown := a.onItem a.taken p
    ({ a with
        agenda := if thrown.isSome then [] else next
        taken := a.taken + 1
        ended := false
        thrown }, [.received p])
  | none => ({ a with agenda := atEnd, ended := true }, [])

/-- The next section of an errand at the terminal conduit. -/
def advance? (a : Application) (c : Conduit) : Option (Application × Conduit × List Event) :=
  match a.agenda with
  | .read :: rest =>
    c.data.take?.map fun (item, data) =>
      let (a, events) := a.note item rest rest
      (a, { c with data }, events)
  | .readRest :: rest =>
    c.data.take?.map fun (item, data) =>
      let (a, events) := a.note item (.readRest :: rest) rest
      (a, { c with data }, events)
  | .take 0 :: rest => some ({ a with agenda := rest }, c, [])
  | .take (n + 1) :: rest =>
    c.data.take?.map fun (item, data) =>
      let (a, events) := a.note item (.take n :: rest) rest
      (a, { c with data }, events)
  | .drain n :: rest =>
    c.data.take?.map fun (item, data) =>
      let (a, events) := a.note item (.drain (n + 1) :: rest) (.poll (.report n) [] :: rest)
      (a, { c with data }, events)
  | .shut :: rest => some ({ a with agenda := rest }, c.closeData, [])
  | .check :: rest =>
    c.errors.receive?.map fun (e, errors) =>
      let c := { c with errors }
      match e with
      | some e =>
        ({ a with agenda := rest, errors := a.errors ++ [e], errorsDone := false }, c, [.polled e])
      | none => ({ a with agenda := .confirmCheck :: rest }, c, [])
  | .confirmCheck :: rest =>
    some ({ a with agenda := rest, errorsDone := c.errors.isDrained }, c, [])
  | .poll purpose got :: rest =>
    c.errors.receive?.map fun (e, errors) =>
      let c := { c with errors }
      match e with
      | some e =>
        ({ a with agenda := .poll purpose (got ++ [e]) :: rest, errors := a.errors ++ [e] }, c,
          [.polled e])
      | none => ({ a with agenda := .confirm purpose got :: rest }, c, [])
  | .confirm purpose got :: rest =>
    if c.errors.isDrained then
      some ({ a with agenda := rest, drained := got }, c, Event.saying (purpose.entries got))
    else some ({ a with agenda := .poll purpose got :: rest }, c, [])
  | _ => none

/-- The end of a poll whose time is over. -/
def expire? (a : Application) (c : Conduit) : Option Application :=
  match a.agenda with
  | .check :: rest =>
    if c.errors.canExpire then some { a with agenda := .confirmCheck :: rest } else none
  | .poll purpose got :: rest =>
    if c.errors.canExpire then some { a with agenda := .confirm purpose got :: rest } else none
  | _ => none

end Application
end StagedPipeline
