import Microkernel.Uart.Controller

/-! # A simulated controller

The parts of a controller that the driver relies on: a transmitter that takes a limited number of
bytes before it reports busy, a queue of received bytes, the line-error bit, the divisor latch,
and an interrupt identification that follows from the rest.
-/

namespace Microkernel

open Uart

/-- A simulated serial controller and its line. -/
structure SimulatedUart where
  /-- Bytes that have left on the line. -/
  transmitted : Array UInt8
  /-- Received bytes that wait to be read. -/
  incoming : List UInt8
  /-- How many more bytes the transmitter takes before it is busy. -/
  room : Nat
  /-- Bytes written while the transmitter was busy. -/
  overruns : Nat
  /-- A line error that waits to be cleared. -/
  damaged : Bool
  interruptEnable : UInt8
  lineControl : UInt8
  queueControl : UInt8
  divisor : UInt16

namespace SimulatedUart

/-- An idle controller whose transmitter takes one byte. -/
def idle : SimulatedUart where
  transmitted := #[]
  incoming := []
  room := 1
  overruns := 0
  damaged := false
  interruptEnable := 0
  lineControl := 0
  queueControl := 0
  divisor := 0

instance : Inhabited SimulatedUart :=
  ⟨idle⟩

/-- The line has moved on: the transmitter takes `room` more bytes. -/
def drain (room : Nat) (uart : SimulatedUart) : SimulatedUart :=
  { uart with room }

/-- Bytes arrive on the line. -/
def receive (bytes : List UInt8) (uart : SimulatedUart) : SimulatedUart :=
  { uart with incoming := uart.incoming ++ bytes }

/-- The line-error bit is raised or dropped. -/
def setDamaged (damaged : Bool) (uart : SimulatedUart) : SimulatedUart :=
  { uart with damaged }

def latchOpen (uart : SimulatedUart) : Bool :=
  hasBit uart.lineControl divisorLatch

def lineStatus (uart : SimulatedUart) : UInt8 :=
  (if uart.incoming.isEmpty then 0 else dataReady) |||
    (if uart.room = 0 then 0 else transmitterReady) |||
      (if uart.damaged then lineError else 0)

/-- A waiting byte is reported before a ready transmitter, and each only if it is enabled. -/
def interruptId (uart : SimulatedUart) : UInt8 :=
  if hasBit uart.interruptEnable receiveInterrupt && !uart.incoming.isEmpty then
    causeReceived <<< 1
  else if hasBit uart.interruptEnable transmitInterrupt && uart.room != 0 then
    causeTransmitter <<< 1
  else nothingPending

/-- Take the next received byte, zero if there is none; this clears a line error. -/
def takeByte (uart : SimulatedUart) : UInt8 × SimulatedUart :=
  (uart.incoming.headD 0, { uart with incoming := uart.incoming.tail, damaged := false })

/-- Give the transmitter a byte; a busy transmitter loses it. -/
def giveByte (byte : UInt8) (uart : SimulatedUart) : SimulatedUart :=
  if uart.room = 0 then { uart with overruns := uart.overruns + 1 }
  else { uart with room := uart.room - 1, transmitted := uart.transmitted.push byte }

def read (register : Register) (uart : SimulatedUart) : UInt8 × SimulatedUart :=
  match register with
  | .data => if uart.latchOpen then (uart.divisor.toUInt8, uart) else uart.takeByte
  | .interruptEnable =>
    (if uart.latchOpen then (uart.divisor >>> 8).toUInt8 else uart.interruptEnable, uart)
  | .interruptId => (uart.interruptId, uart)
  | .lineControl => (uart.lineControl, uart)
  | .lineStatus => (uart.lineStatus, uart)

def write (register : Register) (byte : UInt8) (uart : SimulatedUart) : SimulatedUart :=
  match register with
  | .data =>
    if uart.latchOpen then
      { uart with divisor := (uart.divisor &&& (0xFF00 : UInt16)) ||| byte.toUInt16 }
    else uart.giveByte byte
  | .interruptEnable =>
    if uart.latchOpen then
      { uart with divisor := (uart.divisor &&& (0x00FF : UInt16)) ||| (byte.toUInt16 <<< 8) }
    else { uart with interruptEnable := byte }
  | .interruptId =>
    { uart with
      queueControl := byte
      incoming := if hasBit byte flushReceive then [] else uart.incoming }
  | .lineControl => { uart with lineControl := byte }
  | .lineStatus => uart

/-- Each poll that finds a byte is followed by a read. With the latch closed that read takes the
byte, so one poll more than bytes are waiting finds none. With the latch open the driver would
poll for ever. -/
instance : PolledController SimulatedUart where
  read := read
  write := write
  pollLimit uart := uart.incoming.length + 1

end SimulatedUart

end Microkernel
