/-! # Operations that may be refused

An operation ends with a result or with the cause of its refusal, and either way it leaves a state
behind. So it can be asked what a refused operation has done before it was refused.
-/

namespace Microkernel

/-- What comes of an operation on a state. -/
inductive Attempt (ε S α : Type) where
  | ok (result : α) (state : S)
  | error (cause : ε) (state : S)
  deriving DecidableEq

namespace Attempt

variable {ε S α : Type}

/-- The state that is left, whether the operation was refused or not. -/
def state : Attempt ε S α → S
  | .ok _ state | .error _ state => state

/-- What the caller learns. -/
def outcome : Attempt ε S α → Except ε α
  | .ok result _ => .ok result
  | .error cause _ => .error cause

def result? : Attempt ε S α → Option α
  | .ok result _ => some result
  | .error _ _ => none

end Attempt

end Microkernel
