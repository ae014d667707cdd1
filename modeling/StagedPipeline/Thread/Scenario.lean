import StagedPipeline.Thread

/-!
# Handles in use

A few lives of a traced thread and its handle, from the start of the thread to the
end of the handle, and what can be seen on the way.
-/
namespace StagedPipeline.Thread

/-- A life of a handle. -/
inductive Scenario where
  /-- The handle never owns a thread. -/
  | empty
  | join
  /-- The thread moves to a new handle. -/
  | move
  /-- The thread moves to an empty handle. -/
  | assign
  /-- The thread moves to the handle of another thread, which has a name. -/
  | assignOver (old : Bytes)
  /-- The thread moves to the handle that owns it already. -/
  | assignSelf
  /-- The thread moves to a handle that is destroyed. -/
  | destroy
  /-- The function of the thread joins its own handle. -/
  | selfJoin
  /-- The function of the thread destroys its own handle. -/
  | selfDestroy
deriving DecidableEq, Repr

/-- What can be seen in a life; what is absent is not looked at. -/
structure Sights where
  joinable : Option Bool := none
  name : Option Bytes := none
  /-- Whether the source of a move is still joinable. -/
  source : Option Bool := none
  /-- The name of the handle that the thread was moved to. -/
  moved : Option Bytes := none
  /-- Whether the handle is still joinable inside of the function. -/
  still : Option Bool := none
  /-- Whether it is still joinable in the end. -/
  after : Option Bool := none
  /-- The number of functions that have run by the end of an assignment. -/
  runsThen : Option Nat := none
  /-- The name that the function has found, and how many functions have run. -/
  seen : Option Bytes := none
  runs : Option Nat := none
deriving DecidableEq, Repr

namespace Scenario

/-- What can be seen when a thread with a name goes through a life. -/
def sights (name : Bytes) : Scenario → Sights
  | .empty =>
    let h : Handle := {}
    { joinable := some h.joinable, name := some h.name, after := some (h.join false).joinable }
  | s =>
    let h := Handle.start name
    let x : Sights := { seen := some (keptName name), runs := some 1 }
    let begun : Sights := { x with joinable := some h.joinable, name := some h.name }
    match s with
    | .empty | .join => { begun with after := some (h.join false).joinable }
    | .move => moved begun h.move
    | .assign => moved begun (Handle.assign {} h)
    | .assignOver old =>
      { moved begun (Handle.assign (.start old) h) with runsThen := some 2, runs := some 2 }
    | .assignSelf => { begun with moved := some h.name, after := some (h.join false).joinable }
    | .destroy => { begun with after := some h.move.2.joinable }
    | .selfJoin =>
      let h := h.join true
      { x with still := some h.joinable, after := some (h.join false).joinable }
    | .selfDestroy => { x with still := some (h.join true).joinable }
where
  /-- The two handles of a move; the one that took over is joined in the end. -/
  moved (x : Sights) : Handle × Handle → Sights
    | (target, source) =>
      { x with
        source := some source.joinable
        moved := some target.name
        after := some (target.join false).joinable }

/-- What the threads of a life write, each under its name. The thread that moves has run
before the one whose handle it moves to. -/
def entries (name : Bytes) (thrown : Option Fault) : Scenario → List (Bytes × List Log.Entry)
  | .empty => []
  | .assignOver old =>
    [(keptName name, Thread.entries name [] thrown), (keptName old, Thread.entries old [] none)]
  | _ => [(keptName name, Thread.entries name [] thrown)]

end Scenario
end StagedPipeline.Thread
