import Microkernel.Uart.Controller

/-! # A replayed controller

Each register answers its reads from a list of its own, and with zero once the list is used up.
Writes change nothing. Any sequence of answers is such a list, so this controller stands for an
arbitrary one.
-/

namespace Microkernel

open Uart

/-- The answers that each register still has. -/
structure ReplayedUart where
  answers : Register → List UInt8

namespace ReplayedUart

def read (register : Register) (uart : ReplayedUart) : UInt8 × ReplayedUart :=
  ((uart.answers register).headD 0,
    ⟨fun other =>
      if other = register then (uart.answers register).tail else uart.answers other⟩)

/-- Every poll of the line status uses up an answer, and zero reports nothing waiting. -/
instance : PolledController ReplayedUart where
  read := read
  write _ _ uart := uart
  pollLimit uart := (uart.answers .lineStatus).length + 1

end ReplayedUart

end Microkernel
