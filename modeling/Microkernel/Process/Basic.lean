import Microkernel.Machine.TrapFrame
import Microkernel.Memory.Region
import Microkernel.Syscall.Id

/-! # Processes

One slot of the process table, the parameters that lay a process out, and the reasons for which
an operation on a process is refused.
-/

namespace Microkernel

abbrev Pid : Type := Fin maxProcesses

structure ProcessFlags where
  /-- The process takes part in scheduling. -/
  active : Bool
  /-- The slot is reclaimed once the cursor lands on it. -/
  die : Bool
  deriving DecidableEq

namespace ProcessFlags

def none : ProcessFlags :=
  ⟨false, false⟩

def activeBit : UInt32 := 1

def dieBit : UInt32 := 2

def toBits (flags : ProcessFlags) : UInt32 :=
  (if flags.active then activeBit else 0) ||| (if flags.die then dieBit else 0)

end ProcessFlags

/-- A slot of the process table; it is free when its base is zero. -/
structure Process where
  /-- Start of the process's memory, which is also its entry point. -/
  base : UInt32
  /-- Bytes reserved for code, data and stack. -/
  size : UInt32
  flags : ProcessFlags
  /-- The frame to resume, up to date while the process is not running. -/
  regs : TrapFrame
  deriving DecidableEq

namespace Process

def empty : Process :=
  ⟨0, 0, .none, .zero⟩

def isFree (process : Process) : Bool :=
  process.base == 0

def isActive (process : Process) : Bool :=
  process.flags.active

def isDying (process : Process) : Bool :=
  process.flags.die

/-- Whether the scheduler may resume the process. -/
def isRunnable (process : Process) : Bool :=
  process.isActive && !process.isDying

def activate (process : Process) : Process :=
  { process with flags := { process.flags with active := true } }

def park (process : Process) : Process :=
  { process with flags := { process.flags with active := false } }

def condemn (process : Process) : Process :=
  { process with flags := { process.flags with die := true } }

end Process

/-- How the memory and the first frame of a process are laid out. -/
structure ProcessConfig where
  /-- Bytes added to every process for its stack. -/
  stackReserve : UInt32
  /-- The stack pointer of the first frame. -/
  initialSp : UInt32
  /-- The return address of the first frame. -/
  exitStub : UInt32
  deriving DecidableEq

/-- Eight kibibytes of stack below the end of the default region. -/
def ProcessConfig.default : ProcessConfig where
  stackReserve := 8192
  initialSp := 0x40100000
  exitStub := 0

/-- What a dump shows of an occupied slot. -/
structure ProcessInfo where
  pid : Pid
  base : UInt32
  size : UInt32
  pc : UInt32
  sp : UInt32
  flags : ProcessFlags
  deriving DecidableEq

inductive ProcessError where
  | tableFull
  | noSuchProcess (pid : Nat)
  | tooLarge (size : UInt32)
  | memory (cause : Memory.MemoryError)
  deriving DecidableEq

def ProcessError.message : ProcessError → String
  | .tableFull => "process table full"
  | .noSuchProcess pid => "no process with pid " ++ toString pid
  | .tooLarge size => "process size " ++ Text.hexSize size.toNat ++ " too large"
  | .memory cause => "process memory: " ++ cause.message

end Microkernel
