import Microkernel.Kernel.ProcessDump
import Microkernel.Syscall.Id

/-! # Calls and interrupts on the kernel itself

Every number that names no call is answered with failure. An interrupt is counted, then served
for the serial line, then for the timer.
-/

namespace Microkernel

namespace Kernel

variable {C : Type}

namespace Work

def unknownCall (id : UInt32) (arg : Value) : Work Reply :=
  return .refused arg [Log.warn ("[syscall] unknown syscall id " ++ toString id.toNat)]

def call (id : SyscallId) (arg : Value) : Work Reply :=
  match id with
  | .none => unknownCall 0 arg
  | .hello => hello arg
  | .uartRxEmpty => uartRxEmpty arg
  | .uartTxFull => uartTxFull arg
  | .uartGetc => uartGetc arg
  | .uartPutc => uartPutc arg
  | .procCreate => procCreate arg
  | .procStart => procStart arg
  | .procStop => procStop arg
  | .procKill => procKill arg
  | .procBase => procBase arg
  | .procDump => procDump arg
  | .kernelDump => kernelDump arg
  | .memAlloc => memAlloc arg
  | .memFree => memFree arg

/-- The call with a number. -/
def callNumber (id : UInt32) (arg : Value) : Work Reply :=
  match SyscallId.ofCode? id with
  | some named => call named arg
  | none => unknownCall id arg

end Work

/-- Do the work of a call. -/
def perform [Controller C] (work : Work Reply) (kernel : Kernel C) : Served (Kernel C) :=
  let (reply, kernel) := work.run answer kernel
  reply.upon kernel

def serve [Controller C] (kernel : Kernel C) (id : SyscallId) (arg : Value) : Served (Kernel C) :=
  kernel.perform (.call id arg)

/-- Serve the call with a number. -/
def dispatch [Controller C] (id : UInt32) (arg : Value) (kernel : Kernel C) : Served (Kernel C) :=
  kernel.perform (.callNumber id arg)

def serviceUart [PolledController C] (kernel : Kernel C) (lines : IrqLines) :
    List Uart.Reception × Kernel C :=
  if lines.uart then
    let (receptions, uart) := kernel.uart.service
    (receptions, { kernel with uart })
  else ([], kernel)

def serviceTimer (kernel : Kernel C) (frame : TrapFrame) (lines : IrqLines) :
    TrapFrame × Kernel C :=
  if lines.timer then
    let (frame, processes, memory) := kernel.processes.schedule kernel.memory frame
    (frame, { kernel with processes, memory })
  else (frame, kernel)

def interrupt [PolledController C] (frame : TrapFrame) (lines : IrqLines) (kernel : Kernel C) :
    Resumed (Kernel C) :=
  let counted := { kernel with ticks := kernel.ticks + 1 }
  let (receptions, served) := counted.serviceUart lines
  let (resumed, final) := served.serviceTimer frame lines
  let timerLog :=
    if lines.timer then served.processes.scheduleLog served.memory frame else []
  ⟨resumed, final, Uart.serviceLog receptions ++ timerLog⟩

/-- The kernel reached as it stands, without a lock. -/
instance [PolledController C] : Boundary (Kernel C) where
  dispatch := dispatch
  interrupt := interrupt

end Kernel

end Microkernel
