import Microkernel.Client.Calls
import Microkernel.Console

/-! # Serial input and output

Bytes through the kernel's rings. A byte is only queued once the kernel reports room for it, and
text gets a carriage return before every line feed. Waiting is bounded by a patience, the number
of times that a program asks before it gives up.
-/

namespace Microkernel.Client

def rxEmpty : Program Bool := do
  let answer ← callInt32 .uartRxEmpty
  .done (answer != 0)

def txFull : Program Bool := do
  let answer ← callInt32 .uartTxFull
  .done (answer != 0)

def byteOf? (answer : Int32) : Option UInt8 :=
  if 0 ≤ answer.toInt ∧ answer.toInt ≤ 255 then some (UInt8.ofNat answer.toInt.toNat)
  else none

/-- Take one received byte, if any waits. -/
def getc : Program (Option UInt8) := do
  let answer ← callInt32 .uartGetc
  .done (byteOf? answer)

/-- Queue one byte without asking for room. -/
def putc (byte : UInt8) : Program Unit :=
  callUnit .uartPutc (.int32 byte.toUInt32.toInt32)

/-- Take one received byte after asking whether any waits. -/
def getch : Program (Option UInt8) := do
  if ← rxEmpty then .done none else getc

/-- Queue one byte as soon as there is room. -/
def putByte : (patience : Nat) → UInt8 → Program Unit
  | 0, _ => .stalled
  | patience + 1, byte => do
    if ← txFull then putByte patience byte else putc byte

def putAll (patience : Nat) : List UInt8 → Program Unit
  | [] => .done ()
  | byte :: rest => do
    putByte patience byte
    putAll patience rest

/-- Write bytes with a carriage return before every line feed. -/
def writeBytes (patience : Nat) (bytes : List UInt8) : Program Unit :=
  putAll patience (Console.wireBytes bytes)

/-- Write a text; a failure is told to the operator and answered with false. -/
def print (patience : Nat) (text : String) : Program Bool := do
  match ← (writeBytes patience (Console.bytesOf text)).attempt with
  | .ok () => .done true
  | .error error => .note (Log.warn ("[sdk] console write: " ++ error.message)) (.done false)

end Microkernel.Client
