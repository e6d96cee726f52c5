/-! # System calls

What both sides of the boundary know. The calls are numbered without gaps from zero; number zero
names no call, since in the raw convention it announces an interrupt. A process dump is carried by a
buffer with one map for each slot of the process table, and a number under each of six keys.
-/

namespace Microkernel

/-- Slots in the process table. -/
abbrev maxProcesses : Nat := 16

instance : @NeZero Nat Zero.ofOfNat0 maxProcesses :=
  ⟨by decide⟩

/-- The keys of an entry of a dump, in the order in which they are written. -/
def dumpKeys : List String :=
  ["pid", "base", "size", "pc", "sp", "flags"]

inductive SyscallId where
  | none
  | hello
  | uartRxEmpty
  | uartTxFull
  | uartGetc
  | uartPutc
  | procCreate
  | procStart
  | procStop
  | procKill
  | procBase
  | procDump
  | kernelDump
  | memAlloc
  | memFree
  deriving DecidableEq

namespace SyscallId

/-- Every call, in the order of the numbers. -/
def all : List SyscallId :=
  [.none, .hello, .uartRxEmpty, .uartTxFull, .uartGetc, .uartPutc, .procCreate, .procStart,
    .procStop, .procKill, .procBase, .procDump, .kernelDump, .memAlloc, .memFree]

def code : SyscallId → UInt32
  | .none => 0
  | .hello => 1
  | .uartRxEmpty => 2
  | .uartTxFull => 3
  | .uartGetc => 4
  | .uartPutc => 5
  | .procCreate => 6
  | .procStart => 7
  | .procStop => 8
  | .procKill => 9
  | .procBase => 10
  | .procDump => 11
  | .kernelDump => 12
  | .memAlloc => 13
  | .memFree => 14

/-- The call with a number. -/
def ofCode? (code : UInt32) : Option SyscallId :=
  all[code.toNat]?

def name : SyscallId → String
  | .none => "NONE"
  | .hello => "HELLO"
  | .uartRxEmpty => "UART_RX_EMPTY"
  | .uartTxFull => "UART_TX_FULL"
  | .uartGetc => "UART_GETC"
  | .uartPutc => "UART_PUTC"
  | .procCreate => "PROC_CREATE"
  | .procStart => "PROC_START"
  | .procStop => "PROC_STOP"
  | .procKill => "PROC_KILL"
  | .procBase => "PROC_BASE"
  | .procDump => "PROC_DUMP"
  | .kernelDump => "KERNEL_DUMP"
  | .memAlloc => "MEM_ALLOC"
  | .memFree => "MEM_FREE"

/-- The call that a word stands for. -/
def ofName? (name : String) : Option SyscallId :=
  all.find? fun id => id.name == name

end SyscallId

end Microkernel
