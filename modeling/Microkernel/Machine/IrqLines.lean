/-! # Interrupt lines

The set of lines that an interrupt reports. Three lines exist; every other bit of the
controller's word is dropped when the set is read.
-/

namespace Microkernel

/-- A set of the three interrupt lines. -/
structure IrqLines where
  timer : Bool
  uart : Bool
  hid : Bool
  deriving DecidableEq

namespace IrqLines

/-- Position of the timer's line in a mask word. -/
def timerLine : UInt32 := 3

/-- Position of the serial controller's line in a mask word. -/
def uartLine : UInt32 := 4

/-- Position of the human-interface line in a mask word. -/
def hidLine : UInt32 := 5

/-- The mask word with one line set. -/
def bitOf (line : UInt32) : UInt32 :=
  1 <<< line

def empty : IrqLines :=
  ⟨false, false, false⟩

def all : IrqLines :=
  ⟨true, true, true⟩

/-- The known lines of a word; unknown bits are dropped. -/
def ofBits (bits : UInt32) : IrqLines where
  timer := bits &&& bitOf timerLine != 0
  uart := bits &&& bitOf uartLine != 0
  hid := bits &&& bitOf hidLine != 0

/-- The word that has exactly the bits of these lines. -/
def toBits (lines : IrqLines) : UInt32 :=
  (if lines.timer then bitOf timerLine else 0) |||
    (if lines.uart then bitOf uartLine else 0) |||
      (if lines.hid then bitOf hidLine else 0)

/-- The lines of a word that has no unknown bit, nothing otherwise. -/
def ofExactBits? (bits : UInt32) : Option IrqLines :=
  if (ofBits bits).toBits = bits then some (ofBits bits) else none

end IrqLines

end Microkernel
