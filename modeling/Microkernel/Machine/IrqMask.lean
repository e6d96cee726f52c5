/-! # The interrupt mask

One register decides which interrupt lines are held back: a set bit holds its line. A critical
section is a bracket, `maskLines` to open and `restore` to close. The register remembers what was
written to it, so that a statement can speak of every mask in force during a bracket.
-/

namespace Microkernel

/-- The mask register and the masks written to it. -/
structure IrqMask where
  current : UInt32
  /-- Every mask written so far, the newest first. -/
  installed : List UInt32
  deriving DecidableEq

namespace IrqMask

/-- The mask word that holds every line back. -/
def allLines : UInt32 :=
  0xFFFFFFFF

def clear : IrqMask :=
  ⟨0, []⟩

instance : Inhabited IrqMask :=
  ⟨clear⟩

/-- Write a mask and return the one it replaces. -/
def swap (mask : UInt32) (register : IrqMask) : UInt32 × IrqMask :=
  (register.current, ⟨mask, mask :: register.installed⟩)

/-- Hold `lines` back as well as the lines already held. The mask in force is learnt by holding
every line back, so none is let through meanwhile. -/
def maskLines (lines : UInt32) (register : IrqMask) : UInt32 × IrqMask :=
  let (previous, register) := register.swap allLines
  (previous, (register.swap (previous ||| lines)).2)

/-- Reinstall a mask that `maskLines` returned. -/
def restore (previous : UInt32) (register : IrqMask) : IrqMask :=
  (register.swap previous).2

/-- Whether a line of the register is held back. -/
def isMasked (register : IrqMask) (line : UInt32) : Bool :=
  register.current &&& (1 <<< line) != 0

/-- Every mask written so far, the oldest first. -/
def history (register : IrqMask) : List UInt32 :=
  register.installed.reverse

/-- The masks written after the first `count`, the oldest first. -/
def installedSince (register : IrqMask) (count : Nat) : List UInt32 :=
  register.history.drop count

end IrqMask

end Microkernel
