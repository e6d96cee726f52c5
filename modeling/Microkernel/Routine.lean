/-! # Routines

A routine asks one thing after the other of a state, and what it asks next follows from the answers
so far. It is run on a state for its result, and its steps can be listed, each with the state in
which it is taken.
-/

namespace Microkernel

/-- What is done in requests of type `R`, each with answers of a type of its own. -/
inductive Routine {R : Type} (Answer : R → Type) (α : Type) where
  | done (result : α)
  | ask (request : R) (next : Answer request → Routine Answer α)

namespace Routine

/-- A request and the state in which it is made. -/
structure Step (R S : Type) where
  state : S
  request : R

variable {R Q S α β : Type} {Answer : R → Type}

def bind : Routine Answer α → (α → Routine Answer β) → Routine Answer β
  | .done result, rest => rest result
  | .ask request next, rest => .ask request fun given => (next given).bind rest

instance : Monad (Routine Answer) where
  pure := .done
  bind := bind

/-- Run a routine on a state that answers requests in this way. -/
def run (answer : (request : R) → S → Answer request × S) : Routine Answer α → S → α × S
  | .done result, state => (result, state)
  | .ask request next, state =>
    let (given, state) := answer request state
    (next given).run answer state

/-- The steps of a run, the first one first. -/
def steps (answer : (request : R) → S → Answer request × S) :
    Routine Answer α → S → List (Step R S)
  | .done _, _ => []
  | .ask request next, state =>
    let (given, after) := answer request state
    ⟨state, request⟩ :: (next given).steps answer after

/-- The same routine with requests of another kind, of which its own are a part. -/
def embed {Given : Q → Type} (wrap : R → Q) :
    Routine (fun request => Given (wrap request)) α → Routine Given α
  | .done result => .done result
  | .ask request next => .ask (wrap request) fun given => (next given).embed wrap

end Routine

end Microkernel
