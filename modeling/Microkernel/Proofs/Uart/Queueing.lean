import Microkernel.Proofs.Machine.Brackets
import Microkernel.Proofs.Routine
import Microkernel.Uart.Driver

/-!
# Queueing a byte

What the parts of `put` do to the driver, each as one function of it.  Only the critical section
around them writes the mask register.
-/

namespace Microkernel.Uart

variable {C : Type}

/-- The driver with another mask register. -/
def withMask (mask : IrqMask) (uart : Uart C) : Uart C :=
  { uart with mask }

/-- The mask register when the section in which a byte is queued has begun. -/
def opened (uart : Uart C) : IrqMask :=
  (uart.mask.maskLines (IrqLines.bitOf IrqLines.uartLine)).2

/-- The mask that an access writes, if it writes one. -/
def Request.written? : Request → Option UInt32
  | .swapMask mask => some mask
  | _ => none

/-- An access to the rings or the controller. -/
def Request.IsQuiet (request : Request) : Prop :=
  request.written? = none

/-- An access to the transmit ring or the controller. -/
def Request.Transmits : Request → Prop
  | .txIsEmpty | .push _ | .pop | .read _ | .write _ _ => True
  | _ => False

private theorem sendOldest_transmits : Work.sendOldest.Asks Request.Transmits := by
  refine Routine.Asks.bind ⟨trivial, fun _ => trivial⟩ ?_
  intro popped
  cases popped with
  | none => trivial
  | some byte => exact ⟨trivial, fun _ => trivial⟩

private theorem sendIfReady_transmits : Work.sendIfReady.Asks Request.Transmits := by
  refine Routine.Asks.bind ⟨trivial, fun _ => trivial⟩ ?_
  intro status
  split
  · exact sendOldest_transmits
  · trivial

private theorem awaitRoom_transmits : Work.awaitRoom.Asks Request.Transmits := by
  refine Routine.Asks.bind ⟨trivial, fun _ => trivial⟩ ?_
  intro isEmpty
  split
  · trivial
  · exact ⟨trivial, fun _ => trivial⟩

private theorem enqueue_transmits (byte : UInt8) : (Work.enqueue byte).Asks Request.Transmits := by
  refine Routine.Asks.bind ⟨trivial, fun _ => trivial⟩ fun idle => ?_
  refine Routine.Asks.bind ⟨trivial, fun _ => trivial⟩ fun pushed => ?_
  split
  · dsimp only
    split
    · exact sendIfReady_transmits.bind fun _ => awaitRoom_transmits
    · exact awaitRoom_transmits
  · trivial

theorem enqueue_quiet (byte : UInt8) : (Work.enqueue byte).Asks Request.IsQuiet := by
  refine (enqueue_transmits byte).mono ?_
  intro request transmits
  cases request with
  | swapMask mask => exact transmits.elim
  | _ => rfl

/-- Queueing a byte takes none of those received. -/
theorem put_spares (byte : UInt8) : (Work.put byte).Asks (· ≠ .take) := by
  have spares : (Work.enqueue byte).Asks (· ≠ .take) := by
    refine (enqueue_transmits byte).mono ?_
    rintro request transmits rfl
    exact transmits
  refine Routine.Asks.bind ⟨nofun, fun _ => ⟨nofun, fun _ => trivial⟩⟩ fun previous => ?_
  exact spares.bind fun _ => ⟨nofun, fun _ => trivial⟩

section Controller

variable [Controller C] (uart : Uart C)

/-- The driver after some work. -/
def perform (work : Work Unit) : Uart C :=
  (work.run answer uart).2

theorem perform_sendOldest :
    uart.perform .sendOldest =
      match uart.tx.pop? with
      | some (byte, tx) => { uart with tx }.writeRegister .data byte
      | none => uart := by
  rw [perform, Work.sendOldest, Routine.run_bind, Work.pop, Routine.run_ask, answer]
  cases uart.tx.pop? with
  | none => rfl
  | some popped => rfl

theorem perform_sendIfReady :
    uart.perform .sendIfReady =
      let (status, polled) := uart.readRegister .lineStatus
      if hasBit status transmitterReady then polled.perform .sendOldest else polled := by
  rw [perform, Work.sendIfReady, Routine.run_bind]
  exact apply_ite (fun work : Work Unit => (work.run answer (uart.readRegister .lineStatus).2).2)
    _ _ _

private theorem perform_awaitRoom :
    uart.perform .awaitRoom =
      if uart.tx.isEmpty then uart
      else uart.writeRegister .interruptEnable (receiveInterrupt ||| transmitInterrupt) := by
  rw [perform, Work.awaitRoom, Routine.run_bind]
  exact apply_ite (fun work : Work Unit => (work.run answer uart).2) _ _ _

private theorem run_push (byte : UInt8) :
    (Work.push byte).run answer uart =
      match uart.tx.push? byte with
      | some tx => (true, { uart with tx })
      | none => (false, uart) :=
  rfl

theorem perform_enqueue (byte : UInt8) :
    uart.perform (.enqueue byte) =
      match uart.tx.push? byte with
      | none => uart
      | some tx =>
        let queued := { uart with tx }
        let sent := if uart.tx.isEmpty then queued.perform .sendIfReady else queued
        if sent.tx.isEmpty then sent
        else sent.writeRegister .interruptEnable (receiveInterrupt ||| transmitInterrupt) := by
  have asked : Work.txIsEmpty.run answer uart = (uart.tx.isEmpty, uart) := rfl
  rw [perform, Work.enqueue, Routine.run_bind, Routine.run_bind, asked, run_push]
  cases uart.tx.push? byte with
  | none => rfl
  | some tx =>
      cases uart.tx.isEmpty with
      | true =>
          refine Eq.trans (congrArg Prod.snd (Routine.run_bind answer _ _ _)) ?_
          exact perform_awaitRoom _
      | false =>
          exact perform_awaitRoom _

/-- A byte is queued under a mask that holds the controller's line back, and the caller's mask is
reinstalled. -/
theorem put_eq (byte : UInt8) :
    uart.put byte =
      let queued := (uart.withMask uart.opened).perform (.enqueue byte)
      queued.withMask (queued.mask.restore uart.mask.current) := by
  rw [put, Work.put, Routine.run_bind, Routine.run_bind]
  rfl

end Controller

end Microkernel.Uart
