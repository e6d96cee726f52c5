import Microkernel.Process.Log
import Microkernel.Uart.Driver

/-! # The kernel

The allocator, the process table, the serial driver and the count of interrupts. Nothing is ready
before `boot`, which makes the kernel's own image process zero.
-/

namespace Microkernel

open Memory (Allocator Region)

/-- First register of the serial controller. Every address is physical and is used as it stands. -/
def Machine.uartBase : UInt32 :=
  0xF0000000

/-- What can be set before a kernel is assembled. -/
structure KernelConfig where
  memory : Region
  process : ProcessConfig
  /-- First register of the serial controller. -/
  uartBase : UInt32
  deriving DecidableEq

namespace KernelConfig

def default : KernelConfig :=
  ⟨.default, .default, Machine.uartBase⟩

/-- Set the address to which the entry point of a new process returns. -/
def withExitStub (config : KernelConfig) (address : UInt32) : KernelConfig :=
  { config with process := { config.process with exitStub := address } }

end KernelConfig

/-- The whole state of a kernel over a controller. -/
structure Kernel (C : Type) where
  config : KernelConfig
  memory : Allocator
  processes : ProcessTable
  uart : Uart C
  /-- Interrupts served, modulo the word size. -/
  ticks : UInt32

namespace Kernel

variable {C : Type}

/-- A kernel that has not been booted. -/
def new (config : KernelConfig) (controller : C) (mask : IrqMask) : Kernel C where
  config := config
  memory := .new config.memory
  processes := .new config.process
  uart := .new controller mask
  ticks := 0

/-- The kernel with an empty process table and all of its memory free. -/
def reset (kernel : Kernel C) : Kernel C :=
  { kernel with processes := kernel.processes.clear, memory := kernel.memory.init }

/-- Make the kernel's image the first process of an empty table. -/
def loadImage (kernel : Kernel C) (imageSize : UInt32) :
    Except ProcessError Pid × Kernel C :=
  match kernel.processes.create kernel.memory imageSize with
  | .error error (processes, memory) => (.error error, { kernel with processes, memory })
  | .ok pid (processes, memory) =>
    match processes.start pid with
    | .error error processes => (.error error, { kernel with processes, memory })
    | .ok _ processes => (.ok pid, { kernel with processes, memory })

/-- Bring the kernel up. If its image cannot be loaded the serial driver is left as it was. -/
def boot [Controller C] (kernel : Kernel C) (imageSize : UInt32) :
    Except ProcessError Pid × Kernel C :=
  match kernel.reset.loadImage imageSize with
  | (.ok pid, kernel) => (.ok pid, { kernel with uart := kernel.uart.init })
  | refused => refused

/-- What the operator is told while the image is loaded. -/
def loadImageLog (kernel : Kernel C) (imageSize : UInt32) : List Log.Entry :=
  let started := match kernel.processes.create kernel.memory imageSize with
    | .ok pid (processes, _) => processes.startLog pid
    | .error _ _ => []
  kernel.processes.createLog kernel.memory imageSize ++ started

/-- What the operator is told of a boot. -/
def bootLog [Controller C] (kernel : Kernel C) (imageSize : UInt32) : List Log.Entry :=
  let up := match kernel.boot imageSize with
    | (.ok pid, kernel) =>
      Log.info ("[sched] process " ++ toString pid.val ++ " (kernel) at " ++
        Text.hexAddress kernel.processes.slots[pid].base) :: Uart.initLog
    | (.error _, _) => []
  kernel.memory.initLog ++ kernel.reset.loadImageLog imageSize ++ up

/-- What the operator is told when the kernel's counters are dumped. -/
def dumpLog (kernel : Kernel C) : List Log.Entry :=
  [Log.info ("[kernel] kticks: " ++ Text.hexColumnUpper 8 kernel.ticks.toNat)]

end Kernel

end Microkernel
