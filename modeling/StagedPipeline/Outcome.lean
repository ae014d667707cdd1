import StagedPipeline.Fault

/-!
# Outcomes

An outcome is a value or an error. Asking an outcome for the side that it does
not have is a fault. The null error is an error like any other here: an outcome
that holds it has no value.
-/
namespace StagedPipeline

/-- A value of type `α`, or an error. -/
abbrev Outcome (α : Type) := Except Error α

namespace Outcome

variable {α β : Type}

def isOk : Outcome α → Bool
  | .ok _ => true
  | .error _ => false

/-- The value; a fault if there is none. -/
def value : Outcome α → Except Fault α
  | .ok a => .ok a
  | .error _ => .error (.logicError "Result::value() on error")

/-- The error; a fault if there is none. -/
def failure : Outcome α → Except Fault Error
  | .ok _ => .error (.logicError "Result::error() on value")
  | .error e => .ok e

def valueOr (r : Outcome α) (fallback : α) : α :=
  match r with
  | .ok a => a
  | .error _ => fallback

/-- Goes on with the value; an error stays. -/
def andThen (r : Outcome α) (f : α → Outcome β) : Outcome β :=
  match r with
  | .ok a => f a
  | .error e => .error e

end Outcome
end StagedPipeline
