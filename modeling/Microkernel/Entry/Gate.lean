import Microkernel.Kernel.Dispatch

/-! # The entry gate

A kernel behind a lock. A system call runs with every interrupt line held back, so that an
interrupt raised meanwhile waits until the lock is free again. Whatever still finds the kernel
locked is refused and reported. The gate's work on the mask register and on the lock and the
kernel's own work are one routine.
-/

namespace Microkernel

/-- A kernel and its lock. The mask register that the gate writes is the one that guards the
kernel's serial driver. -/
structure System (C : Type) where
  kernel : Kernel C
  locked : Bool

namespace System

variable {C : Type}

def new (kernel : Kernel C) : System C :=
  ⟨kernel, false⟩

def mask (system : System C) : IrqMask :=
  system.kernel.uart.mask

def setMask (system : System C) (mask : IrqMask) : System C :=
  { system with kernel := { system.kernel with uart := { system.kernel.uart with mask } } }

inductive Request where
  /-- Take the lock if it is free, and learn whether it was. -/
  | tryLock
  | unlock
  | kernel (request : Kernel.Request)
  deriving DecidableEq

abbrev Answer : Request → Type
  | .tryLock => Bool
  | .unlock => Unit
  | .kernel request => Kernel.Answer request

abbrev Work (α : Type) : Type :=
  Routine Answer α

def answer [Controller C] : (request : Request) → System C → Answer request × System C
  | .tryLock, system => (!system.locked, { system with locked := true })
  | .unlock, system => ((), { system with locked := false })
  | .kernel request, system =>
    let (given, kernel) := Kernel.answer request system.kernel
    (given, { system with kernel })

namespace Work

def tryLock : Work Bool :=
  .ask .tryLock .done

def unlock : Work Unit :=
  .ask .unlock .done

/-- Work of the kernel as work of the system. -/
def onKernel {α : Type} (work : Kernel.Work α) : Work α :=
  work.embed .kernel

/-- Work of the kernel's serial driver, whose mask register is the gate's. -/
def onDriver {α : Type} (work : Uart.Work α) : Work α :=
  onKernel (.onDriver work)

/-- Serve a call if the lock is free; the lock is free again afterwards. -/
def tryDispatch (id : UInt32) (arg : Value) : Work Reply := do
  if ← tryLock then
    let reply ← onKernel (.callNumber id arg)
    unlock
    return reply
  else
    return .refused arg
      [Log.warn ("[entry] syscall " ++ toString id.toNat ++ " while kernel busy")]

/-- Serve a call with every interrupt line held back. -/
def syscall (id : UInt32) (arg : Value) : Work Reply := do
  let previous ← onDriver (.maskLines IrqMask.allLines)
  let reply ← tryDispatch id arg
  onDriver (.restore previous)
  return reply

end Work

def syscall [Controller C] (id : UInt32) (arg : Value) (system : System C) : Served (System C) :=
  let (reply, system) := (Work.syscall id arg).run answer system
  reply.upon system

/-- Serve an interrupt if the lock is free, and resume the interrupted frame if not. -/
def interrupt [PolledController C] (frame : TrapFrame) (lines : IrqLines) (system : System C) :
    Resumed (System C) :=
  if system.locked then
    ⟨frame, system,
      [Log.error ("[entry] interrupt " ++ Text.hexSize lines.toBits.toNat ++
        " while kernel busy")]⟩
  else (system.kernel.interrupt frame lines).map fun kernel => { system with kernel }

instance [PolledController C] : Boundary (System C) where
  dispatch := syscall
  interrupt := interrupt

end System

end Microkernel
