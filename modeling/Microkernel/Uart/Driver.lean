import Microkernel.Log
import Microkernel.Machine.IrqLines
import Microkernel.Machine.IrqMask
import Microkernel.Routine
import Microkernel.Text.Hex
import Microkernel.Uart.Controller
import Microkernel.Uart.Ring

/-! # The serial driver

Bytes to transmit and bytes received each wait in a ring. A client only touches the rings, apart
from one byte that goes straight to an idle transmitter; the interrupt service moves bytes
between the rings and the controller. A byte that finds its ring full is dropped, and so is the
byte that a line error damaged. What a client asks of the driver is a routine over the mask
register, the rings and the controller, so that each access can be told from the others.
-/

namespace Microkernel

open Uart

/-- Cells of each ring; one of them always stays unused. -/
def Uart.ringSize : Nat := 512

/-- A controller with its driver's rings and the mask register that guards them. -/
structure Uart (C : Type) where
  controller : C
  mask : IrqMask
  rx : Ring ringSize
  tx : Ring ringSize

namespace Uart

/-- Why the line could not be set up. -/
inductive LineError where
  | zeroDivisor
  deriving DecidableEq

def LineError.message : LineError → String
  | .zeroDivisor => "divisor must be nonzero"

/-- A byte that the interrupt service read, and whether the receive ring had room for it. -/
structure Reception where
  byte : UInt8
  queued : Bool
  deriving DecidableEq

/-- What the operator is told of a byte that found the receive ring full. -/
def Reception.log? (reception : Reception) : Option Log.Entry :=
  if reception.queued then none
  else some (Log.trace ("[uart] rx overflow, dropped " ++ Text.hexByte reception.byte))

variable {C : Type}

def new (controller : C) (mask : IrqMask) : Uart C :=
  ⟨controller, mask, .empty, .empty⟩

def get (uart : Uart C) : Option UInt8 × Uart C :=
  match uart.rx.pop? with
  | some (byte, rx) => (some byte, { uart with rx })
  | none => (none, uart)

/-- Take received bytes one after the other, as often as asked. -/
def getMany (count : Nat) (uart : Uart C) : List (Option UInt8) × Uart C :=
  let (bytes, rx) := uart.rx.popMany count
  (bytes, { uart with rx })

/-- Keep a received byte if the receive ring has room. -/
def keep (byte : UInt8) (uart : Uart C) : Reception × Uart C :=
  match uart.rx.push? byte with
  | some rx => (⟨byte, true⟩, { uart with rx })
  | none => (⟨byte, false⟩, uart)

section Controller

variable [Controller C]

def readRegister (register : Register) (uart : Uart C) : UInt8 × Uart C :=
  let (byte, controller) := Controller.read register uart.controller
  (byte, { uart with controller })

def writeRegister (register : Register) (byte : UInt8) (uart : Uart C) : Uart C :=
  { uart with controller := Controller.write register byte uart.controller }

/-- Empty the controller's queues and let received bytes interrupt. -/
def init (uart : Uart C) : Uart C :=
  (uart.writeRegister .interruptId flushQueues).writeRegister .interruptEnable receiveInterrupt

def initLog : List Log.Entry :=
  [Log.info "[uart] initialized"]

/-- Set the line's speed and framing. -/
def setDivisor (divisor : UInt16) (uart : Uart C) : Except LineError (Uart C) :=
  if divisor = 0 then .error .zeroDivisor
  else
    let uart := uart.writeRegister .lineControl divisorLatch
    let uart := uart.writeRegister .data divisor.toUInt8
    let uart := uart.writeRegister .interruptEnable (divisor >>> 8).toUInt8
    .ok (uart.writeRegister .lineControl eightNoneOne)

end Controller

/-! ## Accesses -/

/-- One access to what belongs to the driver. -/
inductive Request where
  /-- Write the mask register and learn what it held. -/
  | swapMask (mask : UInt32)
  | rxIsEmpty
  /-- Take the oldest received byte. -/
  | take
  | txIsEmpty
  | txIsFull
  /-- Queue a byte to transmit, and learn whether there was room. -/
  | push (byte : UInt8)
  /-- Take the oldest byte to transmit. -/
  | pop
  | read (register : Register)
  | write (register : Register) (byte : UInt8)
  deriving DecidableEq

abbrev Answer : Request → Type
  | .swapMask _ => UInt32
  | .rxIsEmpty | .txIsEmpty | .txIsFull | .push _ => Bool
  | .take | .pop => Option UInt8
  | .read _ => UInt8
  | .write _ _ => Unit

abbrev Work (α : Type) : Type :=
  Routine Answer α

def answer [Controller C] : (request : Request) → Uart C → Answer request × Uart C
  | .swapMask mask, uart =>
    let (previous, mask) := uart.mask.swap mask
    (previous, { uart with mask })
  | .rxIsEmpty, uart => (uart.rx.isEmpty, uart)
  | .take, uart => uart.get
  | .txIsEmpty, uart => (uart.tx.isEmpty, uart)
  | .txIsFull, uart => (uart.tx.isFull, uart)
  | .push byte, uart =>
    match uart.tx.push? byte with
    | some tx => (true, { uart with tx })
    | none => (false, uart)
  | .pop, uart =>
    match uart.tx.pop? with
    | some (byte, tx) => (some byte, { uart with tx })
    | none => (none, uart)
  | .read register, uart => uart.readRegister register
  | .write register byte, uart => ((), uart.writeRegister register byte)

namespace Work

def swapMask (mask : UInt32) : Work UInt32 :=
  .ask (.swapMask mask) .done

def rxIsEmpty : Work Bool :=
  .ask .rxIsEmpty .done

def take : Work (Option UInt8) :=
  .ask .take .done

def txIsEmpty : Work Bool :=
  .ask .txIsEmpty .done

def txIsFull : Work Bool :=
  .ask .txIsFull .done

def push (byte : UInt8) : Work Bool :=
  .ask (.push byte) .done

def pop : Work (Option UInt8) :=
  .ask .pop .done

def read (register : Register) : Work UInt8 :=
  .ask (.read register) .done

def write (register : Register) (byte : UInt8) : Work Unit :=
  .ask (.write register byte) .done

/-- Hold `lines` back as well as the lines already held. The mask in force is learnt by holding
every line back, so none is let through meanwhile. -/
def maskLines (lines : UInt32) : Work UInt32 := do
  let previous ← swapMask IrqMask.allLines
  let _ ← swapMask (previous ||| lines)
  return previous

/-- Reinstall a mask that `maskLines` returned. -/
def restore (previous : UInt32) : Work Unit := do
  let _ ← swapMask previous

def sendOldest : Work Unit := do
  match ← pop with
  | some byte => write .data byte
  | none => return

/-- Hand the oldest byte to the controller if its transmitter is ready. -/
def sendIfReady : Work Unit := do
  let status ← read .lineStatus
  if hasBit status transmitterReady then sendOldest

/-- Let the transmitter interrupt while bytes are queued. -/
def awaitRoom : Work Unit := do
  unless ← txIsEmpty do
    write .interruptEnable (receiveInterrupt ||| transmitInterrupt)

/-- Queue a byte to transmit. An idle line takes it at once; if bytes remain queued the
transmitter is made to interrupt. -/
def enqueue (byte : UInt8) : Work Unit := do
  let idle ← txIsEmpty
  if ← push byte then
    if idle then sendIfReady
    awaitRoom

/-- Queue a byte to transmit while the controller's interrupt is held back. -/
def put (byte : UInt8) : Work Unit := do
  let previous ← maskLines (IrqLines.bitOf IrqLines.uartLine)
  enqueue byte
  restore previous

end Work

section Controller

variable [Controller C]

def put (byte : UInt8) (uart : Uart C) : Uart C :=
  ((Work.put byte).run answer uart).2

def putAll (bytes : List UInt8) (uart : Uart C) : Uart C :=
  bytes.foldl (fun uart byte => uart.put byte) uart

/-- Hand queued bytes over until the transmitter is busy or none is left. -/
def transmitLoop : Nat → Uart C → Uart C
  | 0, uart => uart
  | polls + 1, uart =>
    let (status, uart) := uart.readRegister .lineStatus
    if hasBit status transmitterReady then
      match uart.tx.pop? with
      | some (byte, tx) => transmitLoop polls ({ uart with tx }.writeRegister .data byte)
      | none => uart
    else uart

/-- Serve a ready transmitter. Each round but the last takes a byte out of the ring, so one round
more than bytes are queued ends the loop. Its interrupt is disabled once nothing is queued. -/
def transmit (uart : Uart C) : Uart C :=
  let uart := transmitLoop (uart.tx.length + 1) uart
  if uart.tx.isEmpty then uart.writeRegister .interruptEnable receiveInterrupt else uart

/-- Read received bytes while the controller reports one, for at most `polls` polls of its line
status; nothing if it still reports one after that. -/
def receive? : Nat → Uart C → Option (List Reception × Uart C)
  | 0, _ => none
  | polls + 1, uart =>
    let (status, uart) := uart.readRegister .lineStatus
    if hasBit status dataReady then
      let (byte, uart) := uart.readRegister .data
      let (reception, uart) := uart.keep byte
      match receive? polls uart with
      | some (later, uart) => some (reception :: later, uart)
      | none => none
    else some ([], uart)

/-- Serve an interrupt, polling the line status for received bytes at most `polls` times. A line
error discards the byte that it damaged. -/
def service? (polls : Nat) (uart : Uart C) : Option (List Reception × Uart C) :=
  let (identification, uart) := uart.readRegister .interruptId
  if hasBit identification nothingPending then some ([], uart)
  else
    let (status, uart) := uart.readRegister .lineStatus
    if hasBit status lineError then some ([], (uart.readRegister .data).2)
    else
      let cause := (identification >>> 1) &&& 0x07
      if cause = causeTransmitter then some ([], uart.transmit)
      else if cause = causeReceived ∨ cause = causeTimeout then uart.receive? polls
      else some ([], uart)

end Controller

/-- Serve an interrupt of a controller whose received bytes come to an end. One that goes on
reporting bytes past its own limit would keep the driver in its loop for ever; that has no outcome,
and leaving everything as it was only stands in for one. So what is said of a run that serves
interrupts is said of services that end, those for which `service?` is not `none`. -/
def service [PolledController C] (uart : Uart C) : List Reception × Uart C :=
  (uart.service? (PolledController.pollLimit uart.controller)).getD ([], uart)

/-- What the operator is told of an interrupt's received bytes. -/
def serviceLog (receptions : List Reception) : List Log.Entry :=
  receptions.filterMap Reception.log?

end Uart

end Microkernel
