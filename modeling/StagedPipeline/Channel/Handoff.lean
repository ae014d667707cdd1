/-!
# Hand-off channels

A hand-off channel passes items from one writer to one reader and holds at most
one item. A write ends when its item has been taken or the channel has been
closed, and says which of the two it was. Either side may close the channel.

Every operation below is one atomic section. Where the section has to wait for a
condition, the operation is `none` until the condition holds; the notifications that
wake those who wait are not modelled. A write is two sections: the offer, and the
settlement of the ticket that the offer was given.
-/
namespace StagedPipeline

/-- A channel with room for one item. -/
structure Handoff (α : Type) where
  slot : Option α := none
  /-- The number of items offered so far, which is the last ticket. -/
  offered : Nat := 0
  /-- The number of items taken so far. -/
  taken : Nat := 0
  closed : Bool := false
deriving DecidableEq, Repr

namespace Handoff

variable {α : Type}

/-- How an offer is received. -/
inductive Reception where
  /-- The channel is closed, and the item was not put into the slot. -/
  | refused
  /-- The item waits in the slot under a ticket. -/
  | placed (ticket : Nat)
deriving DecidableEq, Repr

/-- Offers an item. It waits for the slot to be empty, unless the channel is closed. -/
def offer? (a : α) (c : Handoff α) : Option (Reception × Handoff α) :=
  if c.closed then some (.refused, c)
  else
    match c.slot with
    | some _ => none
    | none => some (.placed (c.offered + 1), { c with slot := some a, offered := c.offered + 1 })

/-- What became of the item of a ticket: `true` if it was taken. Otherwise the
channel is closed, and the item is withdrawn. It waits for one of the two. -/
def settle? (ticket : Nat) (c : Handoff α) : Option (Bool × Handoff α) :=
  if ticket ≤ c.taken then some (true, c)
  else if c.closed then some (false, { c with slot := none })
  else none

/-- Takes the item in the slot, or `none` once the channel is closed. It waits for
one of the two. -/
def take? (c : Handoff α) : Option (Option α × Handoff α) :=
  if c.closed then some (none, c)
  else
    match c.slot with
    | some a => some (some a, { c with slot := none, taken := c.taken + 1 })
    | none => none

/-- Closes the channel. An item that was not taken is lost. -/
def close (c : Handoff α) : Handoff α := { c with closed := true }

end Handoff
end StagedPipeline
