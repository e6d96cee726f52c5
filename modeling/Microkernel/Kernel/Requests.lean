import Microkernel.Entry.Boundary
import Microkernel.Kernel.Basic

/-! # What a call asks of the kernel

A system call is a routine over the driver's accesses and the operations on the allocator and the
process table. An operation that is refused answers with the cause, and whatever it has done to the
kernel by then is done.
-/

namespace Microkernel

/-- An answer, and what the operator is told meanwhile. -/
structure Told (α : Type) where
  answer : α
  log : List Log.Entry

namespace Kernel

inductive Request where
  | driver (request : Uart.Request)
  | alloc (size : UInt32)
  | free (address : UInt32)
  | create (size : UInt32)
  | start (pid : Nat)
  | stop (pid : Nat)
  | kill (pid : Nat)
  | baseOf (pid : Nat)
  /-- Every occupied slot of the process table. -/
  | dump
  /-- The interrupts served so far. -/
  | ticks
  deriving DecidableEq

abbrev Answer : Request → Type
  | .driver request => Uart.Answer request
  | .alloc _ => Told (Except Memory.MemoryError UInt32)
  | .free _ => Told (Except Memory.MemoryError Unit)
  | .create _ => Told (Except ProcessError Pid)
  | .start _ | .stop _ | .kill _ => Told (Except ProcessError Unit)
  | .baseOf _ => Except ProcessError UInt32
  | .dump => List ProcessInfo
  | .ticks => Told UInt32

abbrev Work (α : Type) : Type :=
  Routine Answer α

variable {C : Type}

/-- What becomes of a kernel when its process table was operated on. -/
def changed (attempt : Attempt ProcessError ProcessTable Unit) (log : List Log.Entry)
    (kernel : Kernel C) : Told (Except ProcessError Unit) × Kernel C :=
  (⟨attempt.outcome, log⟩, { kernel with processes := attempt.state })

def answer [Controller C] : (request : Request) → Kernel C → Answer request × Kernel C
  | .driver request, kernel =>
    let (given, uart) := Uart.answer request kernel.uart
    (given, { kernel with uart })
  | .alloc size, kernel =>
    let attempt := kernel.memory.alloc size
    (⟨attempt.outcome, kernel.memory.allocLog size⟩, { kernel with memory := attempt.state })
  | .free address, kernel =>
    let attempt := kernel.memory.free address
    (⟨attempt.outcome, kernel.memory.freeLog address⟩, { kernel with memory := attempt.state })
  | .create size, kernel =>
    let attempt := kernel.processes.create kernel.memory size
    let (processes, memory) := attempt.state
    (⟨attempt.outcome, kernel.processes.createLog kernel.memory size⟩,
      { kernel with processes, memory })
  | .start pid, kernel =>
    kernel.changed (kernel.processes.start pid) (kernel.processes.startLog pid)
  | .stop pid, kernel =>
    kernel.changed (kernel.processes.stop pid) (kernel.processes.stopLog pid)
  | .kill pid, kernel =>
    kernel.changed (kernel.processes.kill pid) (kernel.processes.killLog pid)
  | .baseOf pid, kernel => (kernel.processes.baseOf pid, kernel)
  | .dump, kernel => (kernel.processes.dump, kernel)
  | .ticks, kernel => (⟨kernel.ticks, kernel.dumpLog⟩, kernel)

namespace Work

/-- Work of the driver as work of the kernel. -/
def onDriver {α : Type} (work : Uart.Work α) : Work α :=
  work.embed .driver

def alloc (size : UInt32) : Work (Told (Except Memory.MemoryError UInt32)) :=
  .ask (.alloc size) .done

def free (address : UInt32) : Work (Told (Except Memory.MemoryError Unit)) :=
  .ask (.free address) .done

def create (size : UInt32) : Work (Told (Except ProcessError Pid)) :=
  .ask (.create size) .done

def start (pid : Nat) : Work (Told (Except ProcessError Unit)) :=
  .ask (.start pid) .done

def stop (pid : Nat) : Work (Told (Except ProcessError Unit)) :=
  .ask (.stop pid) .done

def kill (pid : Nat) : Work (Told (Except ProcessError Unit)) :=
  .ask (.kill pid) .done

def baseOf (pid : Nat) : Work (Except ProcessError UInt32) :=
  .ask (.baseOf pid) .done

def dump : Work (List ProcessInfo) :=
  .ask .dump .done

def ticks : Work (Told UInt32) :=
  .ask .ticks .done

end Work

end Kernel

end Microkernel
