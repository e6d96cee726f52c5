import Microkernel.Memory.Allocator

/-! # What the allocator tells

The log entries of an operation follow from the allocator as it was before.
-/

namespace Microkernel.Memory.Allocator

/-- The region that `init` takes over. -/
def initLog (memory : Allocator) : List Log.Entry :=
  let region := memory.region
  [Log.debug ("[mem] managing " ++ Text.hexAddress region.base ++ ".." ++
    Text.hexAddress (region.base + region.size) ++ " (" ++
    toString (region.size.toNat / 1024) ++ " KiB)")]

/-- The outcome of a request; one that is larger than the region is not reported. -/
def allocLog (memory : Allocator) (size : UInt32) : List Log.Entry :=
  match memory.region.roundRequest size with
  | .error _ => []
  | .ok request =>
    let amount := Text.hexSize request.toNat
    match memory.alloc size with
    | .ok address _ =>
      [Log.debug ("[mem] alloc " ++ amount ++ " bytes at " ++ Text.hexAddress address)]
    | .error .metadataExhausted _ =>
      [Log.warn ("[mem] alloc " ++ amount ++ ": block metadata exhausted")]
    | .error _ _ => [Log.warn ("[mem] alloc " ++ amount ++ ": out of memory")]

/-- The block that is taken back, with its size before any merging. -/
def freeLog (memory : Allocator) (address : UInt32) : List Log.Entry :=
  match memory.findUsed? address none memory.chain with
  | some found =>
    [Log.debug ("[mem] free " ++ Text.hexAddress address ++ " (" ++
      Text.hexSize memory.pool[found.id].size.toNat ++ " bytes)")]
  | none =>
    [Log.debug ("[mem] free " ++ Text.hexAddress address ++ ": not an allocated block")]

end Microkernel.Memory.Allocator
