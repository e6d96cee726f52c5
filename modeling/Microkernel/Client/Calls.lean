import Microkernel.Client.Program

/-! # Typed system calls

Each call as a function of the numbers that it takes and gives. A call that must succeed fails
the program otherwise, and so does an answer of another kind than expected.
-/

namespace Microkernel.Client

/-- Issue a call; the result is its return value and the argument that it left. -/
def syscall (id : SyscallId) (arg : Value) : Program (Value × Value) :=
  .call id arg fun ret arg => .done (ret, arg)

/-- Issue a call that must succeed; the result is the argument that it left. -/
def callOk (id : SyscallId) (arg : Value) : Program Value :=
  .call id arg fun ret arg => if ret.isOk then .done arg else .failed (.syscallFailed id)

/-- Issue a call that answers with an unsigned word in its argument. -/
def callUInt32 (id : SyscallId) (input : UInt32) : Program UInt32 := do
  let arg ← callOk id (.uint32 input)
  match arg.asUInt32? with
  | some word => .done word
  | none => .failed (.unexpectedReply id arg.kind)

/-- Issue a call that answers with a signed word in its argument. -/
def callInt32 (id : SyscallId) : Program Int32 := do
  let arg ← callOk id .none
  match arg.asInt32? with
  | some word => .done word
  | none => .failed (.unexpectedReply id arg.kind)

/-- Issue a call that answers with nothing. -/
def callUnit (id : SyscallId) (arg : Value) : Program Unit := do
  let _ ← callOk id arg
  .done ()

def hello : Program Unit :=
  callUnit .hello .none

/-- Interrupts that the kernel has served. -/
def kernelTicks : Program UInt32 :=
  callUInt32 .kernelDump 0

/-- Allocate at least `size` bytes; the result is the block's address. -/
def memAlloc (size : UInt32) : Program UInt32 :=
  callUInt32 .memAlloc size

def memFree (address : UInt32) : Program Unit :=
  callUnit .memFree (.uint32 address)

/-- Reserve memory and a slot for an image; the result is the process's number. -/
def procCreate (size : UInt32) : Program UInt32 :=
  callUInt32 .procCreate size

def procStart (pid : UInt32) : Program Unit :=
  callUnit .procStart (.uint32 pid)

def procStop (pid : UInt32) : Program Unit :=
  callUnit .procStop (.uint32 pid)

def procKill (pid : UInt32) : Program Unit :=
  callUnit .procKill (.uint32 pid)

/-- Where the image of a process lies. -/
def procBase (pid : UInt32) : Program UInt32 :=
  callUInt32 .procBase pid

end Microkernel.Client
