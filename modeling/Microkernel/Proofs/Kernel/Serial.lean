import Microkernel.Proofs.Kernel.Handlers
import Microkernel.Proofs.Uart.Transmit

/-!
# What enters the transmit ring

`entered` is the history of the transmit ring, whether a byte still waits or was written to the
controller.  A call of `UART_PUTC` that finds room extends it, and an interrupt or a change of the
line does not.
-/

namespace Microkernel

namespace Uart

variable {C : Type}

/-- Every byte that has entered the transmit ring, of a driver whose divisor was never set: those
that were written to the controller and those that still wait. -/
def entered (uart : Uart (TracedUart C)) : List UInt8 :=
  writesTo .data uart.controller.trace ++ uart.tx.toList

/-- What the line does by itself to the controller. -/
def disturb (change : C → C) (uart : Uart (TracedUart C)) : Uart (TracedUart C) :=
  { uart with controller := ⟨change uart.controller.controller, uart.controller.accesses⟩ }

theorem looks_disturb (change : C → C) (uart : Uart (TracedUart C)) :
    Looks uart (uart.disturb change) [] :=
  ⟨(List.append_nil _).symm, rfl, fun _ => rfl⟩

theorem Conveys.entered {before after : Uart (TracedUart C)} {queued : List UInt8}
    {accesses : List Access} (conveys : Conveys before after queued accesses) :
    after.entered = before.entered ++ queued := by
  rw [Uart.entered, conveys.trace, writesTo_append, List.append_assoc, conveys.order,
    ← List.append_assoc]
  rfl

theorem Conveys.isFull_eq_false {before after : Uart (TracedUart C)} {accesses : List Access}
    (conveys : Conveys before after [] accesses) (valid : before.tx.Valid)
    (room : before.tx.isFull = false) : after.tx.isFull = false := by
  have lengths := congrArg List.length conveys.order
  rw [List.length_append, List.length_append, List.length_nil] at lengths
  rw [valid.isFull_eq_false_iff] at room
  rw [conveys.valid.isFull_eq_false_iff]
  omega

private theorem conveys_interrupted [PolledController C] {uart : Uart (TracedUart C)}
    (valid : uart.tx.Valid) : ∃ accesses, Conveys uart uart.service.2 [] accesses := by
  rw [service]
  cases served : uart.service? (PolledController.pollLimit uart.controller) with
  | none =>
      exact ⟨[], (Looks.refl uart).conveys valid⟩
  | some result =>
      obtain ⟨accesses, conveys, _⟩ := service_operates valid served
      exact ⟨accesses, conveys⟩

end Uart

namespace Kernel

variable {C : Type}

def disturb (change : C → C) (kernel : Kernel (TracedUart C)) : Kernel (TracedUart C) :=
  { kernel with uart := kernel.uart.disturb change }

theorem byteOf_int32 (byte : UInt8) : byteOf? (.int32 byte.toUInt32.toInt32) = some byte := by
  simp [byteOf?]

theorem dispatch_uartTxFull [Controller C] (kernel : Kernel C) :
    kernel.dispatch SyscallId.uartTxFull.code .none =
      ⟨.ok, truthValue kernel.uart.tx.isFull, kernel, []⟩ :=
  rfl

theorem dispatch_uartPutc [Controller C] (kernel : Kernel C) (byte : UInt8) :
    kernel.dispatch SyscallId.uartPutc.code (.int32 byte.toUInt32.toInt32) =
      ⟨.ok, .int32 byte.toUInt32.toInt32, { kernel with uart := kernel.uart.put byte }, []⟩ := by
  have named : SyscallId.ofCode? SyscallId.uartPutc.code = some .uartPutc := rfl
  have asked := perform_uartPutc kernel (.int32 byte.toUInt32.toInt32)
  rw [byteOf_int32] at asked
  rw [dispatch_eq, named]
  exact asked

theorem interrupt_uart [PolledController C] (kernel : Kernel C) (frame : TrapFrame)
    (lines : IrqLines) :
    (kernel.interrupt frame lines).state.uart =
      if lines.uart then kernel.uart.service.2 else kernel.uart := by
  have timer (served : Kernel C) : (served.serviceTimer frame lines).2.uart = served.uart := by
    unfold serviceTimer
    split
    · rfl
    · rfl
  simp only [interrupt, timer, serviceUart]
  split
  · rfl
  · rfl

theorem conveys_interrupt [PolledController C] {kernel : Kernel (TracedUart C)}
    (valid : kernel.uart.tx.Valid) (frame : TrapFrame) (lines : IrqLines) :
    ∃ accesses, Uart.Conveys kernel.uart (kernel.interrupt frame lines).state.uart [] accesses := by
  rw [interrupt_uart]
  split
  · exact Uart.conveys_interrupted valid
  · exact ⟨[], (Uart.Looks.refl _).conveys valid⟩

end Kernel

end Microkernel
