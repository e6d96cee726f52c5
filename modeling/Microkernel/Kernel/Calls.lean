import Microkernel.Kernel.Requests
import Microkernel.Value.Table

/-! # System calls on the kernel

Each call reads an argument of its own shape and answers in the same place. An argument that owns
storage of its maker is refused where an answer would replace it, before anything else changes.
-/

namespace Microkernel

namespace Reply

/-- Succeed with an answer in place of the argument, which must not own storage. -/
def answered (arg answer : Value) (log : List Log.Entry) : Reply :=
  if arg.ownsHeap then .refused arg log else ⟨.ok, answer, log⟩

end Reply

namespace Kernel

/-- The number that stands for a truth value in an answer. -/
def truthValue (holds : Bool) : Value :=
  .int32 (if holds then 1 else 0)

/-- The number that stands for a received byte in an answer, minus one if none waited. -/
def encodeByte : Option UInt8 → Value
  | some byte => .int32 byte.toUInt32.toInt32
  | none => .int32 (-1)

/-- The byte that an argument stands for: the low eight bits of a number. -/
def byteOf? : Value → Option UInt8
  | .int32 n => some n.toUInt32.toUInt8
  | .uint32 n => some n.toUInt8
  | _ => none

namespace Work

def hello (arg : Value) : Work Reply :=
  return ⟨.ok, arg, [Log.info "[syscall] hello"]⟩

def uartRxEmpty (arg : Value) : Work Reply := do
  let empty ← onDriver Uart.Work.rxIsEmpty
  return .answered arg (truthValue empty) []

/-- Whether the transmit ring takes no further byte. -/
def uartTxFull (arg : Value) : Work Reply := do
  let full ← onDriver Uart.Work.txIsFull
  return .answered arg (truthValue full) []

/-- The next received byte, or minus one if none waits. A refused argument leaves the byte where
it is. -/
def uartGetc (arg : Value) : Work Reply := do
  if arg.ownsHeap then return .refused arg []
  let byte ← onDriver Uart.Work.take
  return .answered arg (encodeByte byte) []

def uartPutc (arg : Value) : Work Reply := do
  match byteOf? arg with
  | some byte =>
    onDriver (Uart.Work.put byte)
    return ⟨.ok, arg, []⟩
  | none => return .refused arg []

/-- Create a process; the answer is its number. -/
def procCreate (arg : Value) : Work Reply := do
  match arg.asUInt32? with
  | none => return .refused arg []
  | some size =>
    let created ← create size
    match created.answer with
    | .ok pid => return .answered arg (.uint32 (UInt32.ofNat pid.val)) created.log
    | .error error =>
      return .refused arg (created.log ++ [Log.warn ("[syscall] proc_create(" ++
        Text.hexSize size.toNat ++ "): " ++ error.message)])

/-- Run an operation on the process that the argument names. -/
def withPid (operation : Nat → Work (Told (Except ProcessError Unit))) (arg : Value) :
    Work Reply := do
  match arg.asUInt32? with
  | none => return .refused arg []
  | some pid =>
    let done ← operation pid.toNat
    match done.answer with
    | .ok _ => return ⟨.ok, arg, done.log⟩
    | .error _ => return .refused arg done.log

def procStart (arg : Value) : Work Reply :=
  withPid start arg

def procStop (arg : Value) : Work Reply :=
  withPid stop arg

def procKill (arg : Value) : Work Reply :=
  withPid kill arg

def procBase (arg : Value) : Work Reply := do
  match arg.asUInt32? with
  | none => return .refused arg []
  | some pid =>
    match ← baseOf pid.toNat with
    | .ok base => return .answered arg (.uint32 base) []
    | .error _ => return .refused arg []

/-- The interrupts served so far. -/
def kernelDump (arg : Value) : Work Reply := do
  let served ← ticks
  return .answered arg (.uint32 served.answer) served.log

def memAlloc (arg : Value) : Work Reply := do
  match arg.asUInt32? with
  | none => return .refused arg []
  | some size =>
    let granted ← alloc size
    match granted.answer with
    | .ok address => return .answered arg (.uint32 address) granted.log
    | .error _ => return .refused arg granted.log

def memFree (arg : Value) : Work Reply := do
  match arg.asUInt32? with
  | none => return .refused arg []
  | some address =>
    let released ← free address
    match released.answer with
    | .ok _ => return ⟨.ok, arg, released.log⟩
    | .error _ => return .refused arg released.log

end Work

end Kernel

end Microkernel
