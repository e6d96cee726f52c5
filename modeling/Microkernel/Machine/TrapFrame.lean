/-! # Trap frames

The register file that an interrupted program leaves and that the kernel hands back to resume
it: thirty-two words, of which the first three have a name.
-/

namespace Microkernel

/-- A saved register file. -/
structure TrapFrame where
  words : Vector UInt32 32
  deriving DecidableEq

namespace TrapFrame

def zero : TrapFrame :=
  ⟨Vector.replicate 32 0⟩

instance : Inhabited TrapFrame :=
  ⟨zero⟩

def pc (frame : TrapFrame) : UInt32 :=
  frame.words[0]

def ra (frame : TrapFrame) : UInt32 :=
  frame.words[1]

def sp (frame : TrapFrame) : UInt32 :=
  frame.words[2]

def setPc (frame : TrapFrame) (address : UInt32) : TrapFrame :=
  ⟨frame.words.set 0 address⟩

def setRa (frame : TrapFrame) (address : UInt32) : TrapFrame :=
  ⟨frame.words.set 1 address⟩

def setSp (frame : TrapFrame) (address : UInt32) : TrapFrame :=
  ⟨frame.words.set 2 address⟩

/-- The words that are not zero, each with its index, in index order. -/
def nonzeroWords (frame : TrapFrame) : List (Nat × UInt32) :=
  (frame.words.toList.zipIdx.map fun (word, index) => (index, word)).filter fun (_, word) =>
    word != 0

/-- The frame that holds the listed words, a later entry replacing an earlier one, and zero
elsewhere; an index outside the frame is ignored. -/
def ofWords (listed : List (Nat × UInt32)) : TrapFrame :=
  listed.foldl (fun frame (index, word) => ⟨frame.words.setIfInBounds index word⟩) zero

end TrapFrame

end Microkernel
