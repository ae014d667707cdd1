import StagedPipeline.Channel.Fifo

/-!
# Traffic through a buffered channel

Any number of senders, receivers and closers at one channel, as a system of
atomic sections. A receiver has an effect only in the section that ends its call,
so only the senders that wait are part of the state. One that waits can go on as soon
as there is room or the channel is closed, whether or not it was notified.
-/
namespace StagedPipeline.Fifo

/-- What a call has come to. -/
inductive Deed (α : Type) where
  /-- A send has ended; `entered` if its item has entered the queue. -/
  | sent (a : α) (entered : Bool)
  | received (item : Option α)
deriving DecidableEq, Repr

/-- How a send has ended. -/
def Deed.sent? {α : Type} : Deed α → Option Bool
  | .sent _ entered => some entered
  | .received _ => none

/-- What a receive has got. -/
def Deed.received? {α : Type} : Deed α → Option (Option α)
  | .sent _ _ => none
  | .received item => some item

/-- A channel with the items of the senders that wait. -/
structure Traffic (α : Type) where
  channel : Fifo α := {}
  waiting : List α := []
  /-- What the calls have come to, the latest first. -/
  history : List (Deed α) := []
deriving DecidableEq, Repr

namespace Traffic

/-- Something that can happen next. -/
inductive Act (α : Type) where
  /-- A sender begins to send. -/
  | send (a : α)
  /-- The section of the sender at a position among those that wait. -/
  | sender (i : Nat)
  /-- A receiver gets an item, or finds the channel closed and empty. -/
  | receive
  /-- A receiver's time is over. -/
  | expire
  | close
deriving DecidableEq, Repr

variable {α : Type}

/-- The state after an act, if the act is possible. -/
def step? (x : Traffic α) : Act α → Option (Traffic α)
  | .send a => some { x with waiting := x.waiting ++ [a] }
  | .sender i =>
    x.waiting[i]?.bind fun a =>
      (x.channel.send? a).map fun (entered, channel) =>
        { channel, waiting := x.waiting.eraseIdx i, history := .sent a entered :: x.history }
  | .receive =>
    x.channel.receive?.map fun (item, channel) =>
      { x with channel, history := .received item :: x.history }
  | .expire =>
    if x.channel.canExpire then some { x with history := .received none :: x.history } else none
  | .close => some { x with channel := x.channel.close }

/-- Lets the senders move, in order of arrival, until they wait or have ended. -/
def settle (x : Traffic α) : Traffic α :=
  x.waiting.length.repeat (fun x => (x.step? (.sender 0)).getD x) x

/-- Carries out an act, and lets the senders move. -/
def after (x : Traffic α) (act : Act α) : Traffic α := ((x.step? act).getD x).settle

/-- A receive that waits for its time at most. -/
def receive (x : Traffic α) : Traffic α :=
  ((x.step? .receive <|> x.step? .expire).getD x).settle

end Traffic
end StagedPipeline.Fifo
