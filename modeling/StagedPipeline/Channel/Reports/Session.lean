import StagedPipeline.Channel.Reports

/-!
# Sessions at an error channel

Any number of parties that put errors and close, and one reader who polls once or
drains, as a system of atomic sections. A poll has two sections, and anything may
happen between them. The first one is possible when there is an error or the channel
is closed, whether or not the reader was notified; while he waits, his time can run out.
-/
namespace StagedPipeline.Reports

/-- Where the reader stands. -/
inductive Reader where
  | idle
  /-- In the first section of a single poll. -/
  | checking
  /-- Before its second section. -/
  | confirmingCheck
  /-- Draining, in the first section of a poll. -/
  | draining (got : List Error)
  /-- Draining, before the second section of a poll. -/
  | confirming (got : List Error)
deriving DecidableEq, Repr

/-- What a call has come to. -/
inductive Deed where
  | put (e : Error) (how : Putting)
  /-- A single poll has ended, with an error or none; `done` if the channel is closed
  and empty. -/
  | checked (e : Option Error) (done : Bool)
  | drained (es : List Error)
deriving DecidableEq, Repr

namespace Deed

/-- How a putting has ended. -/
def put? : Deed → Option Putting
  | .put _ how => some how
  | _ => none

/-- What a single poll has found. -/
def checked? : Deed → Option (Option Error × Bool)
  | .checked e done => some (e, done)
  | _ => none

/-- What a drain has got. -/
def drained? : Deed → Option (List Error)
  | .drained es => some es
  | _ => none

/-- What is left to say. -/
def entries : Deed → List Log.Entry
  | .put e how => how.entries e
  | _ => []

end Deed

/-- A channel with its users. -/
structure Session where
  channel : Reports
  /-- The errors of the parties that wait to put them. -/
  waiting : List Error := []
  reader : Reader := .idle
  /-- What the calls have come to, the latest first. -/
  history : List Deed := []
deriving DecidableEq, Repr

namespace Session

/-- Something that can happen next. -/
inductive Act where
  /-- A party begins to put an error. -/
  | put (e : Error)
  /-- The section of the party at a position among those that wait. -/
  | putter (i : Nat)
  /-- The reader begins a single poll. -/
  | check
  /-- The reader begins to drain. -/
  | drain
  /-- The next section of the reader. -/
  | reader
  /-- The time of the reader's poll is over. -/
  | expire
  | close
deriving DecidableEq, Repr

/-- The reader with what its call has come to. -/
def ended (x : Session) (channel : Reports) (d : Deed) : Session :=
  { x with channel, reader := .idle, history := d :: x.history }

/-- The next section of the reader. -/
def advanceReader? (x : Session) : Option Session :=
  match x.reader with
  | .idle => none
  | .checking =>
    x.channel.receive?.map fun (e, channel) =>
      match e with
      | some e => x.ended channel (.checked (some e) false)
      | none => { x with channel, reader := .confirmingCheck }
  | .confirmingCheck => some (x.ended x.channel (.checked none x.channel.isDrained))
  | .draining got =>
    x.channel.receive?.map fun (e, channel) =>
      match e with
      | some e => { x with channel, reader := .draining (got ++ [e]) }
      | none => { x with channel, reader := .confirming got }
  | .confirming got =>
    if x.channel.isDrained then some (x.ended x.channel (.drained got))
    else some { x with reader := .draining got }

/-- The state after an act, if the act is possible. -/
def step? (x : Session) : Act → Option Session
  | .put e => some { x with waiting := x.waiting ++ [e] }
  | .putter i =>
    x.waiting[i]?.bind fun e =>
      (x.channel.put? e).map fun (how, channel) =>
        { x with channel, waiting := x.waiting.eraseIdx i, history := .put e how :: x.history }
  | .check => if x.reader = .idle then some { x with reader := .checking } else none
  | .drain => if x.reader = .idle then some { x with reader := .draining [] } else none
  | .reader => x.advanceReader?
  | .expire =>
    if x.channel.canExpire then
      match x.reader with
      | .checking => some { x with reader := .confirmingCheck }
      | .draining got => some { x with reader := .confirming got }
      | _ => none
    else none
  | .close => some { x with channel := x.channel.close }

/-- The next section of a party or of the reader. -/
def next? (x : Session) : Option Session :=
  ((List.range x.waiting.length).findSome? fun i => x.step? (.putter i)) <|> x.step? .reader

/-- A bound on the sections that the calls still have before them. -/
def ahead (x : Session) : Nat := 2 * (x.waiting.length + x.channel.size) + 2

/-- Lets the parties move until they wait or have ended. -/
def settle (x : Session) : Session := x.ahead.repeat (fun x => x.next?.getD x) x

/-- Carries out an act, and lets the parties move. -/
def after (x : Session) (act : Act) : Session := ((x.step? act).getD x).settle

/-- A single poll that waits for its time at most. -/
def check (x : Session) : Session :=
  let x := x.after .check
  if x.reader = .checking then x.after .expire else x

end Session
end StagedPipeline.Reports
