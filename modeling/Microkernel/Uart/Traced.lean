import Microkernel.Uart.Controller

/-! # Traced controllers

A controller together with every access made to it, so that a statement can speak of what the
driver wrote and in which order.
-/

namespace Microkernel

open Uart

/-- One access to a register, with the byte read or written. -/
inductive Uart.Access where
  | read (register : Register) (byte : UInt8)
  | write (register : Register) (byte : UInt8)
  deriving DecidableEq

/-- A controller and the accesses made to it, the newest first. -/
structure TracedUart (C : Type) where
  controller : C
  accesses : List Access

namespace TracedUart

variable {C : Type}

/-- Every access so far, the oldest first. -/
def trace (uart : TracedUart C) : List Access :=
  uart.accesses.reverse

/-- The accesses after the first `count`, the oldest first. -/
def accessesSince (uart : TracedUart C) (count : Nat) : List Access :=
  uart.trace.drop count

instance [Controller C] : Controller (TracedUart C) where
  read register uart :=
    let (byte, controller) := Controller.read register uart.controller
    (byte, ⟨controller, .read register byte :: uart.accesses⟩)
  write register byte uart :=
    ⟨Controller.write register byte uart.controller, .write register byte :: uart.accesses⟩

instance [PolledController C] : PolledController (TracedUart C) where
  pollLimit uart := PolledController.pollLimit uart.controller

end TracedUart

end Microkernel
