/-! # Serial controllers

A controller is five byte-wide registers. Reading one may change the controller, so both
accesses take its state and give the next. The driver speaks to any type with this interface.
-/

namespace Microkernel.Uart

/-- The registers that the driver uses. -/
inductive Register where
  /-- Received and transmitted bytes, or the low divisor byte behind the divisor latch. -/
  | data
  /-- Interrupt enable, or the high divisor byte behind the divisor latch. -/
  | interruptEnable
  /-- Interrupt identification when read, queue control when written. -/
  | interruptId
  | lineControl
  | lineStatus
  deriving DecidableEq

namespace Register

/-- Distance of a register from the controller's first address. -/
def offset : Register → Nat
  | .data => 0x00
  | .interruptEnable => 0x04
  | .interruptId => 0x08
  | .lineControl => 0x0C
  | .lineStatus => 0x14

def all : List Register :=
  [.data, .interruptEnable, .interruptId, .lineControl, .lineStatus]

end Register

def dataReady : UInt8 := 0x01

def transmitterReady : UInt8 := 0x20

def lineError : UInt8 := 0x80

def receiveInterrupt : UInt8 := 0x01

def transmitInterrupt : UInt8 := 0x02

def nothingPending : UInt8 := 0x01

def causeTransmitter : UInt8 := 0x01

def causeReceived : UInt8 := 0x02

def causeTimeout : UInt8 := 0x06

def flushQueues : UInt8 := 0x07

def flushReceive : UInt8 := 0x02

def divisorLatch : UInt8 := 0x80

def eightNoneOne : UInt8 := 0x03

/-- Whether a byte has any bit of a mask. -/
def hasBit (byte mask : UInt8) : Bool :=
  byte &&& mask != 0

end Microkernel.Uart

namespace Microkernel

open Uart (Register)

/-- Byte access to a serial controller. -/
class Controller (C : Type) where
  read : Register → C → UInt8 × C
  write : Register → UInt8 → C → C

/-- A controller of which one can tell how often its line status may be polled, with nothing
arriving meanwhile, before it has no received byte left. -/
class PolledController (C : Type) extends Controller C where
  pollLimit : C → Nat

end Microkernel
