import Microkernel.Log
import Microkernel.Machine.IrqLines
import Microkernel.Machine.TrapFrame
import Microkernel.Value.Basic

/-! # The kernel boundary

Two kinds of event reach a kernel: a system call with an argument that it may change, and an
interrupt with the frame that it broke off. Every way into the kernel has this one interface.
-/

namespace Microkernel

/-- What a system call leaves behind. -/
structure Served (S : Type) where
  ret : Value
  /-- The argument as the call left it. -/
  arg : Value
  state : S
  log : List Log.Entry

/-- What a system call answers, whatever state it leaves. -/
structure Reply where
  ret : Value
  arg : Value
  log : List Log.Entry

/-- What an interrupt leaves behind. -/
structure Resumed (S : Type) where
  frame : TrapFrame
  state : S
  log : List Log.Entry

/-- A way into a kernel. -/
class Boundary (S : Type) where
  dispatch : UInt32 → Value → S → Served S
  interrupt : TrapFrame → IrqLines → S → Resumed S

namespace Reply

/-- Fail and leave the argument as it is. -/
def refused (arg : Value) (log : List Log.Entry) : Reply :=
  ⟨.fail, arg, log⟩

/-- The call that gave this answer and left this state. -/
def upon {S : Type} (reply : Reply) (state : S) : Served S :=
  ⟨reply.ret, reply.arg, state, reply.log⟩

end Reply

namespace Served

variable {S T : Type}

/-- A refused call: it fails and changes nothing. -/
def refused (arg : Value) (state : S) (log : List Log.Entry) : Served S :=
  ⟨.fail, arg, state, log⟩

/-- The same call seen as one on a larger state. -/
def map (within : S → T) (served : Served S) : Served T :=
  ⟨served.ret, served.arg, within served.state, served.log⟩

end Served

/-- The same interrupt seen as one on a larger state. -/
def Resumed.map {S T : Type} (within : S → T) (resumed : Resumed S) : Resumed T :=
  ⟨resumed.frame, within resumed.state, resumed.log⟩

end Microkernel
