import StagedPipeline.Channel.Handoff

/-!
# Exchanges over a hand-off channel

One writer, one reader and anyone who closes, as a system of atomic sections. A
call that has begun moves whenever its next section is possible, whether or not it
was notified of that; the history keeps what the calls have come to.
-/
namespace StagedPipeline.Handoff

/-- Where the writer stands. -/
inductive Writer (α : Type) where
  | idle
  | offering (a : α)
  | awaiting (a : α) (ticket : Nat)
deriving DecidableEq, Repr

/-- What a call has come to. -/
inductive Deed (α : Type) where
  /-- A write has ended; `taken` if its item has found the reader. -/
  | wrote (a : α) (taken : Bool)
  | read (item : Option α)
deriving DecidableEq, Repr

/-- How a write has ended. -/
def Deed.wrote? {α : Type} : Deed α → Option Bool
  | .wrote _ taken => some taken
  | .read _ => none

/-- What a read has got. -/
def Deed.read? {α : Type} : Deed α → Option (Option α)
  | .wrote _ _ => none
  | .read item => some item

/-- A channel with its two users. -/
structure Exchange (α : Type) where
  channel : Handoff α := {}
  writer : Writer α := .idle
  reading : Bool := false
  /-- What the calls have come to, the latest first. -/
  history : List (Deed α) := []
deriving DecidableEq, Repr

namespace Exchange

/-- Something that can happen next. -/
inductive Act (α : Type) where
  /-- The writer begins a write. -/
  | write (a : α)
  /-- The reader begins a read. -/
  | read
  | close
  /-- The next section of the write. -/
  | writer
  /-- The section of the read. -/
  | reader
deriving DecidableEq, Repr

variable {α : Type}

/-- Notes what a write has come to. -/
def wrote (x : Exchange α) (channel : Handoff α) (a : α) (taken : Bool) : Exchange α :=
  { x with channel, writer := .idle, history := .wrote a taken :: x.history }

/-- The state after an act, if the act is possible. -/
def step? (x : Exchange α) : Act α → Option (Exchange α)
  | .write a => if x.writer matches .idle then some { x with writer := .offering a } else none
  | .read => if x.reading then none else some { x with reading := true }
  | .close => some { x with channel := x.channel.close }
  | .writer =>
    match x.writer with
    | .idle => none
    | .offering a =>
      (x.channel.offer? a).map fun (r, channel) =>
        match r with
        | .refused => x.wrote channel a false
        | .placed ticket => { x with channel, writer := .awaiting a ticket }
    | .awaiting a ticket =>
      (x.channel.settle? ticket).map fun (taken, channel) => x.wrote channel a taken
  | .reader =>
    if x.reading then
      x.channel.take?.map fun (item, channel) =>
        { x with channel, reading := false, history := .read item :: x.history }
    else none

/-- The next section of a call that can move. -/
def next? (x : Exchange α) : Option (Exchange α) := x.step? .reader <|> x.step? .writer

/-- The number of sections that the calls still have before them. -/
def ahead (x : Exchange α) : Nat :=
  (match x.writer with
    | .idle => 0
    | .offering _ => 2
    | .awaiting _ _ => 1) + (if x.reading then 1 else 0)

/-- Lets the calls move until they wait or have ended. -/
def settle (x : Exchange α) : Exchange α :=
  x.ahead.repeat (fun x => x.next?.getD x) x

/-- Begins a call or closes, and lets the calls move. -/
def after (x : Exchange α) (act : Act α) : Exchange α := ((x.step? act).getD x).settle

end Exchange
end StagedPipeline.Handoff
