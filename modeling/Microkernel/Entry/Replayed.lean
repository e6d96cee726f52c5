import Microkernel.Entry.Boundary

/-! # Replayed answers

A boundary without a kernel: each call takes the next of a list of answers, and every call after
the last one fails with its argument untouched. Interrupts change nothing.
-/

namespace Microkernel

/-- One prepared answer. -/
structure PreparedReply where
  ret : Value
  /-- What replaces the argument, if anything does. -/
  arg : Option Value

/-- The answers left and the calls seen. -/
structure Replayed where
  replies : List PreparedReply
  /-- The number and the argument of every call, the newest first. -/
  seen : List (UInt32 × Value)

namespace Replayed

def dispatch (id : UInt32) (arg : Value) (replayed : Replayed) : Served Replayed :=
  let seen := (id, arg) :: replayed.seen
  match replayed.replies with
  | [] => .refused arg ⟨[], seen⟩ []
  | reply :: replies => ⟨reply.ret, reply.arg.getD arg, ⟨replies, seen⟩, []⟩

instance : Boundary Replayed where
  dispatch := dispatch
  interrupt frame _ replayed := ⟨frame, replayed, []⟩

end Replayed

end Microkernel
