import Microkernel.Text.Hex

/-! # The managed region

One stretch of memory that is handed out in aligned blocks, with the rules that round a request
and the reasons for which one is refused.
-/

namespace Microkernel

/-- First byte of main memory, where the kernel's image is loaded. -/
def Machine.mainMemoryBase : UInt32 :=
  0x40000000

namespace Memory

/-- A stretch of memory and the granularity in which it is handed out. -/
structure Region where
  base : UInt32
  size : UInt32
  /-- Blocks start at multiples of this power of two. -/
  alignment : UInt32
  /-- No smaller block is handed out. -/
  minBlock : UInt32
  deriving DecidableEq

/-- One mebibyte at the start of main memory, in blocks of at least 32 KiB on 4 KiB bounds. -/
def Region.default : Region where
  base := Machine.mainMemoryBase
  size := 1048576
  alignment := 4096
  minBlock := 32768

/-- The least multiple of a power of two that is not below `n`, modulo the word size. -/
def alignUp (n alignment : UInt32) : UInt32 :=
  (n + (alignment - 1)) &&& ~~~(alignment - 1)

inductive MemoryError where
  | outOfMemory (size : UInt32)
  | metadataExhausted
  | unknownAddress (address : UInt32)
  deriving DecidableEq

def MemoryError.message : MemoryError → String
  | .outOfMemory size => "no free block can hold " ++ Text.hexSize size.toNat ++ " bytes"
  | .metadataExhausted => "block metadata pool exhausted"
  | .unknownAddress address => "no allocated block starts at " ++ Text.hexAddress address

/-- The size of the block that a request needs. A request larger than the region is refused as it
stands, which also keeps the rounding from wrapping. -/
def Region.roundRequest (region : Region) (size : UInt32) : Except MemoryError UInt32 :=
  if region.size < size then .error (.outOfMemory size)
  else .ok (max (alignUp size region.alignment) region.minBlock)

end Memory

end Microkernel
