import Microkernel.Uart.Driver
import Microkernel.Uart.Simulated

/-!
# The driver over the simulated controller

What the status and the identification of the simulated controller tell, and what the driver's
loops come to when they believe it: with the divisor latch closed every received byte is read, and
no byte is written to a busy transmitter.
-/

namespace Microkernel

open Uart

namespace SimulatedUart

theorem lineStatus_bits (line : SimulatedUart) :
    hasBit line.lineStatus dataReady = !line.incoming.isEmpty ∧
      hasBit line.lineStatus transmitterReady = (line.room != 0) ∧
      hasBit line.lineStatus lineError = line.damaged := by
  have eachBit : ∀ idle busy damaged : Bool,
      let status := (if idle then 0 else dataReady) |||
        (if busy then 0 else transmitterReady) ||| (if damaged then lineError else 0)
      hasBit status dataReady = !idle ∧ hasBit status transmitterReady = !busy ∧
        hasBit status lineError = damaged := by
    decide
  have bits := eachBit line.incoming.isEmpty (line.room == 0) line.damaged
  simpa only [lineStatus, beq_iff_eq, bne] using bits

theorem interruptId_of_incoming {line : SimulatedUart}
    (enabled : hasBit line.interruptEnable receiveInterrupt = true)
    (waits : line.incoming.isEmpty = false) : line.interruptId = causeReceived <<< 1 := by
  rw [interruptId, enabled, waits]
  rfl

theorem interruptId_of_ready {line : SimulatedUart}
    (enabled : hasBit line.interruptEnable transmitInterrupt = true)
    (nothing : line.incoming.isEmpty = true) (ready : line.room ≠ 0) :
    line.interruptId = causeTransmitter <<< 1 := by
  have hasRoom : (line.room != 0) = true := bne_iff_ne.mpr ready
  rw [interruptId, enabled, nothing, hasRoom, Bool.not_true, Bool.and_false]
  rfl

theorem interruptId_of_idle {line : SimulatedUart} (nothing : line.incoming.isEmpty = true)
    (idle : hasBit line.interruptEnable transmitInterrupt = false ∨ line.room = 0) :
    line.interruptId = nothingPending := by
  have notReady : (hasBit line.interruptEnable transmitInterrupt && line.room != 0) = false := by
    rcases idle with disabled | busy
    · rw [disabled, Bool.false_and]
    · rw [busy, bne_self_eq_false, Bool.and_false]
  rw [interruptId, nothing, notReady, Bool.not_true, Bool.and_false]
  rfl

/-- The controller after all received bytes were read.  Reading one clears a line error. -/
def emptied (line : SimulatedUart) : SimulatedUart :=
  { line with incoming := [], damaged := line.incoming.isEmpty && line.damaged }

private theorem emptied_of_nil {line : SimulatedUart} (nothing : line.incoming = []) :
    line.emptied = line := by
  cases line with
  | mk transmitted incoming =>
      obtain rfl : incoming = [] := nothing
      rfl

private theorem emptied_takeByte {line : SimulatedUart} {byte : UInt8} {rest : List UInt8}
    (waits : line.incoming = byte :: rest) : line.takeByte.2.emptied = line.emptied := by
  simp only [emptied, takeByte, waits, List.isEmpty_cons, Bool.and_false, Bool.false_and]

end SimulatedUart

namespace Uart

private theorem keep_eq {C : Type} (uart : Uart C) (byte : UInt8) :
    ∃ queued rx, uart.keep byte = (⟨byte, queued⟩, { uart with rx }) := by
  unfold keep
  split
  · next rx _ => exact ⟨true, rx, rfl⟩
  · exact ⟨false, uart.rx, rfl⟩

variable {uart : Uart SimulatedUart}

theorem readRegister_lineStatus (uart : Uart SimulatedUart) :
    uart.readRegister .lineStatus = (uart.controller.lineStatus, uart) :=
  rfl

private theorem readRegister_interruptId (uart : Uart SimulatedUart) :
    uart.readRegister .interruptId = (uart.controller.interruptId, uart) :=
  rfl

private theorem readRegister_data (closed : uart.controller.latchOpen = false) :
    uart.readRegister .data =
      (uart.controller.takeByte.1, { uart with controller := uart.controller.takeByte.2 }) := by
  simp only [readRegister, Controller.read, SimulatedUart.read, closed, Bool.false_eq_true,
    if_false]

/-- With the latch closed the driver reads every received byte, and then stops. -/
theorem receive_simulated {polls : Nat} (closed : uart.controller.latchOpen = false)
    (enough : uart.controller.incoming.length < polls) :
    ∃ receptions rx,
      uart.receive? polls =
        some (receptions, { uart with rx, controller := uart.controller.emptied }) ∧
      receptions.map Reception.byte = uart.controller.incoming := by
  induction polls generalizing uart with
  | zero =>
      exact absurd enough (Nat.not_lt_zero _)
  | succ polls inductionHypothesis =>
      have ready := (SimulatedUart.lineStatus_bits uart.controller).1
      simp only [receive?, readRegister_lineStatus, readRegister_data closed, ready]
      cases waiting : uart.controller.incoming with
      | nil =>
          refine ⟨[], uart.rx, ?_, rfl⟩
          rw [SimulatedUart.emptied_of_nil waiting]
          rfl
      | cons byte rest =>
          have byteEq : uart.controller.takeByte.1 = byte := congrArg (List.headD · 0) waiting
          obtain ⟨queued, rx, kept⟩ :=
            keep_eq { uart with controller := uart.controller.takeByte.2 } byte
          let next : Uart SimulatedUart :=
            { uart with rx, controller := uart.controller.takeByte.2 }
          have nextIncoming : next.controller.incoming = rest := congrArg List.tail waiting
          have nextClosed : next.controller.latchOpen = false := closed
          have fewer : next.controller.incoming.length < polls := by
            rw [waiting, List.length_cons] at enough
            rw [nextIncoming]
            omega
          obtain ⟨later, finalRx, received, bytesEq⟩ := inductionHypothesis nextClosed fewer
          rw [SimulatedUart.emptied_takeByte waiting] at received
          rw [nextIncoming] at bytesEq
          refine ⟨⟨byte, queued⟩ :: later, finalRx, ?_, congrArg (byte :: ·) bytesEq⟩
          rw [byteEq, kept]
          simp only [List.isEmpty_cons, Bool.not_false, if_true, received, next]

theorem service_of_idle (idle : uart.controller.interruptId = nothingPending) (polls : Nat) :
    uart.service? polls = some ([], uart) := by
  simp only [service?, readRegister_interruptId, idle]
  rfl

/-- A damaged byte is read and dropped, whatever the cause of the interrupt. -/
theorem service_of_damaged (pending : hasBit uart.controller.interruptId nothingPending = false)
    (closed : uart.controller.latchOpen = false) (damaged : uart.controller.damaged = true)
    (polls : Nat) :
    uart.service? polls = some ([], { uart with controller := uart.controller.takeByte.2 }) := by
  have error := (SimulatedUart.lineStatus_bits uart.controller).2.2
  simp only [service?, readRegister_interruptId, readRegister_lineStatus, pending, error, damaged,
    readRegister_data closed, Bool.false_eq_true, if_false, if_true]

theorem service_of_ready (identified : uart.controller.interruptId = causeTransmitter <<< 1)
    (clean : uart.controller.damaged = false) (polls : Nat) :
    uart.service? polls = some ([], uart.transmit) := by
  have error := (SimulatedUart.lineStatus_bits uart.controller).2.2
  simp only [service?, readRegister_interruptId, readRegister_lineStatus, identified, error, clean]
  rfl

/-- With bytes waiting and no error all of them are read. -/
theorem service_of_received (identified : uart.controller.interruptId = causeReceived <<< 1)
    (closed : uart.controller.latchOpen = false) (clean : uart.controller.damaged = false)
    {polls : Nat} (enough : uart.controller.incoming.length < polls) :
    ∃ receptions rx,
      uart.service? polls =
        some (receptions, { uart with rx, controller := uart.controller.emptied }) ∧
      receptions.map Reception.byte = uart.controller.incoming := by
  have error := (SimulatedUart.lineStatus_bits uart.controller).2.2
  obtain ⟨receptions, rx, received, bytesEq⟩ := receive_simulated closed enough
  refine ⟨receptions, rx, ?_, bytesEq⟩
  simp only [service?, readRegister_interruptId, readRegister_lineStatus, identified, error, clean]
  exact received

end Uart

end Microkernel
