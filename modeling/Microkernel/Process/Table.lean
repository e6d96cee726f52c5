import Microkernel.Memory.Allocator
import Microkernel.Process.Basic

/-! # The process table

Sixteen slots and a cursor on the one whose registers are live. A process is created parked, with
memory of its own and a first frame; it takes part in scheduling from `start` to `stop`, and
`kill` leaves the rest to the scheduler.
-/

namespace Microkernel

open Memory (Allocator alignUp)

/-- The slots of all processes and the scheduler's cursor. -/
structure ProcessTable where
  config : ProcessConfig
  slots : Vector Process maxProcesses
  /-- The slot whose registers are live. -/
  current : Pid
  deriving DecidableEq

namespace ProcessTable

def new (config : ProcessConfig) : ProcessTable :=
  ⟨config, Vector.replicate maxProcesses .empty, 0⟩

/-- Free every slot and put the cursor back on the first. -/
def clear (table : ProcessTable) : ProcessTable :=
  new table.config

/-- The slot with a number, if there is one. -/
def get? (table : ProcessTable) (pid : Nat) : Option Process :=
  table.slots[pid]?

def occupied? (table : ProcessTable) (pid : Nat) : Option Process :=
  (table.get? pid).filter fun process => !process.isFree

def freeSlot? (table : ProcessTable) : Option Pid :=
  (List.finRange maxProcesses).find? fun pid => table.slots[pid].isFree

/-- The number of active slots, dying ones included. -/
def activeCount (table : ProcessTable) : Nat :=
  table.slots.toList.countP Process.isActive

def setSlot (table : ProcessTable) (pid : Pid) (process : Process) : ProcessTable :=
  { table with slots := table.slots.put pid process }

/-- The bytes to reserve for an image and its stack: their sum, rounded up to whole blocks.
Nothing if the sum leaves no room for the rounding. -/
def reservation? (table : ProcessTable) (alignment size : UInt32) : Option UInt32 :=
  let stack := table.config.stackReserve
  if size.toNat + stack.toNat + alignment.toNat < UInt32.size then
    some (alignUp (size + stack) alignment)
  else none

/-- The frame of a process that has not run yet. -/
def firstFrame (table : ProcessTable) (base : UInt32) : TrapFrame :=
  ((TrapFrame.zero.setPc base).setRa table.config.exitStub).setSp table.config.initialSp

/-- Create a parked process with room for an image of `size` bytes, in the first free slot. -/
def create (table : ProcessTable) (memory : Allocator) (size : UInt32) :
    Attempt ProcessError (ProcessTable × Allocator) Pid :=
  match table.freeSlot? with
  | none => .error .tableFull (table, memory)
  | some pid =>
    match table.reservation? memory.region.alignment size with
    | none => .error (.tooLarge size) (table, memory)
    | some total =>
      match memory.alloc total with
      | .error cause memory => .error (.memory cause) (table, memory)
      | .ok base memory =>
        .ok pid (table.setSlot pid ⟨base, total, .none, table.firstFrame base⟩, memory)

def update (table : ProcessTable) (pid : Nat) (change : Process → Process) :
    Attempt ProcessError ProcessTable Unit :=
  if inTable : pid < maxProcesses then
    let process := table.slots[pid]
    if process.isFree then .error (.noSuchProcess pid) table
    else .ok () (table.setSlot ⟨pid, inTable⟩ (change process))
  else .error (.noSuchProcess pid) table

def start (table : ProcessTable) (pid : Nat) : Attempt ProcessError ProcessTable Unit :=
  table.update pid Process.activate

/-- Take a process out of scheduling; it keeps its memory and its frame. -/
def stop (table : ProcessTable) (pid : Nat) : Attempt ProcessError ProcessTable Unit :=
  table.update pid Process.park

/-- Mark a process to be reclaimed; it keeps its memory until the cursor lands on its slot. -/
def kill (table : ProcessTable) (pid : Nat) : Attempt ProcessError ProcessTable Unit :=
  table.update pid Process.condemn

def baseOf (table : ProcessTable) (pid : Nat) : Except ProcessError UInt32 :=
  match table.occupied? pid with
  | some process => .ok process.base
  | none => .error (.noSuchProcess pid)

def info (table : ProcessTable) (pid : Pid) : ProcessInfo :=
  let process := table.slots[pid]
  ⟨pid, process.base, process.size, process.regs.pc, process.regs.sp, process.flags⟩

/-- Every occupied slot, in slot order. -/
def dump (table : ProcessTable) : List ProcessInfo :=
  ((List.finRange maxProcesses).filter fun pid => !table.slots[pid].isFree).map table.info

end ProcessTable

end Microkernel
