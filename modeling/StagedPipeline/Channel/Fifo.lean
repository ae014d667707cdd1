/-!
# Buffered channels

A buffered channel is a queue. With a capacity of zero it has room for any number
of items. Closing it stops further items from entering and discards none of those
that are inside.

Every operation below is one atomic section; it is `none` while it has to wait. So a
wait is nothing but its condition. The notifications by which one section wakes those
that wait for another are not modelled: whoever waits can go on once the condition holds.
-/
namespace StagedPipeline

/-- A queue of items. -/
structure Fifo (α : Type) where
  /-- The greatest number of items inside; zero if there is no bound. -/
  capacity : UInt64 := 0
  queue : List α := []
  closed : Bool := false
deriving DecidableEq, Repr

namespace Fifo

variable {α : Type}

/-- Whether the queue has reached its bound. -/
def isFull (c : Fifo α) : Bool := c.capacity != 0 && c.capacity.toNat ≤ c.queue.length

/-- Sends an item: `true` if it has entered the queue, `false` if the channel is
closed. It waits while the queue is full. -/
def send? (a : α) (c : Fifo α) : Option (Bool × Fifo α) :=
  if c.closed then some (false, c)
  else if c.isFull then none
  else some (true, { c with queue := c.queue ++ [a] })

/-- Receives the first item, or `none` once the channel is closed and empty. It
waits for one of the two. -/
def receive? (c : Fifo α) : Option (Option α × Fifo α) :=
  match c.queue with
  | a :: rest => some (some a, { c with queue := rest })
  | [] => if c.closed then some (none, c) else none

/-- Whether a receiver that has waited for its time leaves without an item. -/
def canExpire (c : Fifo α) : Bool := c.queue.isEmpty

/-- Closes the channel. -/
def close (c : Fifo α) : Fifo α := { c with closed := true }

/-- Closed, and nothing left to receive. -/
def isDrained (c : Fifo α) : Bool := c.closed && c.queue.isEmpty

def size (c : Fifo α) : Nat := c.queue.length

end Fifo
end StagedPipeline
