import Microkernel.Uart.Controller

/-! # A register block in memory

Thirty-two bytes of memory in the place of a controller: a write stores the byte at the
register's offset and a read returns the byte stored there.
-/

namespace Microkernel

open Uart

/-- A block of memory that answers to register offsets. -/
structure MappedUart where
  bytes : Vector UInt8 32

namespace MappedUart

def zero : MappedUart :=
  ⟨Vector.replicate 32 0⟩

/-- Memory does not change by itself, so the first poll of the line status settles it. -/
instance : PolledController MappedUart where
  read register uart := (uart.bytes[register.offset]?.getD 0, uart)
  write register byte uart := ⟨uart.bytes.setIfInBounds register.offset byte⟩
  pollLimit _ := 1

end MappedUart

end Microkernel
