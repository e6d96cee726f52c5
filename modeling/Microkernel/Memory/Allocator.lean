import Microkernel.Attempt
import Microkernel.Log
import Microkernel.Memory.Region

/-! # The block allocator

The region is a chain of blocks in address order, each free or used, and every byte belongs to
one of them. The first free block that can hold a request is split around it; a released block
is merged with the free block behind it and then into the free block before it. Block entries
come from a pool that is used up from front to back and is only refilled by `init`.

The pool is a vector, and its entries are named by numbers that are below its length by their type,
so that reading and writing at such a number needs no other bound.
-/

namespace Vector

variable {α : Type} {n : Nat}

instance getElemFin : GetElem (Vector α n) (Fin n) α fun _ _ => True where
  getElem entries index _ := getElem entries index.val index.isLt

/-- Replace the entry that a number below the length names. -/
def put (entries : Vector α n) (index : Fin n) (entry : α) : Vector α n :=
  entries.set index entry index.isLt

end Vector

namespace Microkernel.Memory

abbrev maxBlocks : Nat := 256

instance : @NeZero Nat Zero.ofOfNat0 maxBlocks :=
  ⟨by decide⟩

abbrev BlockId : Type := Fin maxBlocks

/-- One extent of the region. -/
structure Block where
  start : UInt32
  size : UInt32
  used : Bool
  /-- The block that follows in address order. -/
  next : Option BlockId
  deriving DecidableEq

namespace Block

def empty : Block :=
  ⟨0, 0, false, none⟩

def stop (block : Block) : UInt32 :=
  block.start + block.size

end Block

/-- A chain of blocks over a region. -/
structure Allocator where
  region : Region
  pool : Vector Block maxBlocks
  /-- How many entries of the pool have been taken. -/
  poolUsed : Nat
  /-- The block at the lowest address; none before `init`. -/
  head : Option BlockId
  deriving DecidableEq

namespace Allocator

def new (region : Region) : Allocator :=
  ⟨region, Vector.replicate maxBlocks .empty, 0, none⟩

/-- At most `count` entries of the chain that starts at an entry. -/
def chainFrom (pool : Vector Block maxBlocks) : Nat → Option BlockId → List BlockId
  | 0, _ => []
  | _, none => []
  | count + 1, some id => id :: chainFrom pool count pool[id].next

/-- The entries of the chain in address order. -/
def chain (memory : Allocator) : List BlockId :=
  chainFrom memory.pool maxBlocks memory.head

def blocks (memory : Allocator) : List Block :=
  memory.chain.map fun id => memory.pool[id]

def blockAt? (memory : Allocator) (address : UInt32) : Option Block :=
  memory.blocks.find? fun block => block.start == address

/-- The sizes of the blocks that pass a test, added up. -/
def bytesOf (memory : Allocator) (test : Block → Bool) : UInt32 :=
  (memory.blocks.filter test).foldl (fun bytes block => bytes + block.size) 0

def freeBytes (memory : Allocator) : UInt32 :=
  memory.bytesOf fun block => !block.used

def usedBytes (memory : Allocator) : UInt32 :=
  memory.bytesOf Block.used

def setBlock (memory : Allocator) (id : BlockId) (block : Block) : Allocator :=
  { memory with pool := memory.pool.put id block }

/-- Take the next entry of the pool for a block. Callers make sure that one is left. -/
def push (block : Block) (memory : Allocator) : BlockId × Allocator :=
  let id := Fin.ofNat maxBlocks memory.poolUsed
  (id, { memory.setBlock id block with poolUsed := memory.poolUsed + 1 })

/-- Let the chain reach an entry from the block before it, or from the head if there is none. -/
def link (memory : Allocator) (before : Option BlockId) (id : BlockId) : Allocator :=
  match before with
  | some previous => memory.setBlock previous { memory.pool[previous] with next := some id }
  | none => { memory with head := some id }

/-- Make the whole region one free block and forget every allocation. -/
def init (memory : Allocator) : Allocator :=
  let whole : Block := ⟨memory.region.base, memory.region.size, false, none⟩
  let (id, memory) := { memory with poolUsed := 0 }.push whole
  { memory with head := some id }

/-- A free block that can hold a request. -/
structure Fit where
  /-- The block before it in the chain. -/
  before : Option BlockId
  id : BlockId
  /-- Bytes between the block's start and the first aligned address. -/
  padding : UInt32

/-- The bytes to skip at the start of a free block that can hold a request, nothing if it cannot
or is not free. -/
def paddingFor? (memory : Allocator) (request : UInt32) (id : BlockId) : Option UInt32 :=
  let block := memory.pool[id]
  let padding := alignUp block.start memory.region.alignment - block.start
  if !block.used && request.toNat + padding.toNat ≤ block.size.toNat then some padding else none

/-- The first block of a stretch of the chain that can hold a request. -/
def findFit? (memory : Allocator) (request : UInt32) :
    Option BlockId → List BlockId → Option Fit
  | _, [] => none
  | before, id :: rest =>
    match memory.paddingFor? request id with
    | some padding => some ⟨before, id, padding⟩
    | none => memory.findFit? request (some id) rest

/-- The pool entries that a split needs: one for each side on which free bytes remain. -/
def entriesNeeded (memory : Allocator) (request : UInt32) (fit : Fit) : Nat :=
  (if fit.padding = 0 then 0 else 1) +
    (if request + fit.padding < memory.pool[fit.id].size then 1 else 0)

def splitFront (memory : Allocator) (fit : Fit) : Allocator :=
  if fit.padding = 0 then memory
  else
    let block := memory.pool[fit.id]
    let (front, memory) := memory.push ⟨block.start, fit.padding, false, some fit.id⟩
    let memory := memory.link fit.before front
    let block := memory.pool[fit.id]
    memory.setBlock fit.id
      { block with start := block.start + fit.padding, size := block.size - fit.padding }

/-- Cut what is more than `size` bytes off the back of a block. -/
def splitBack (memory : Allocator) (id : BlockId) (size : UInt32) : Allocator :=
  let block := memory.pool[id]
  if size < block.size then
    let (back, memory) :=
      memory.push ⟨block.start + size, block.size - size, false, block.next⟩
    memory.setBlock id { block with size, next := some back }
  else memory

/-- Split a block around a request and mark it used. -/
def carve (memory : Allocator) (request : UInt32) (fit : Fit) : UInt32 × Allocator :=
  let memory := (memory.splitFront fit).splitBack fit.id request
  let block := memory.pool[fit.id]
  (block.start, memory.setBlock fit.id { block with used := true })

/-- Hand out a block of at least `size` bytes, from the first free block that can hold it. -/
def alloc (memory : Allocator) (size : UInt32) : Attempt MemoryError Allocator UInt32 :=
  match memory.region.roundRequest size with
  | .error error => .error error memory
  | .ok request =>
    match memory.findFit? request none memory.chain with
    | none => .error (.outOfMemory request) memory
    | some fit =>
      if maxBlocks - memory.poolUsed < memory.entriesNeeded request fit then
        .error .metadataExhausted memory
      else
        let (address, memory) := memory.carve request fit
        .ok address memory

/-- A used block of the chain and the block before it. -/
structure Found where
  before : Option BlockId
  id : BlockId

/-- The first used block of a stretch of the chain that starts at an address. -/
def findUsed? (memory : Allocator) (address : UInt32) :
    Option BlockId → List BlockId → Option Found
  | _, [] => none
  | before, id :: rest =>
    if memory.pool[id].used && memory.pool[id].start == address then some ⟨before, id⟩
    else memory.findUsed? address (some id) rest

/-- Let a block take over the block behind it. -/
def absorb (memory : Allocator) (id behind : BlockId) : Allocator :=
  let block := memory.pool[id]
  let taken := memory.pool[behind]
  memory.setBlock id { block with size := block.size + taken.size, next := taken.next }

/-- Let a block take over the block behind it if that one is free. -/
def mergeBehind (memory : Allocator) (id : BlockId) : Allocator :=
  match memory.pool[id].next with
  | some behind => if memory.pool[behind].used then memory else memory.absorb id behind
  | none => memory

/-- Let the block before an entry take the entry over if it is free. -/
def mergeInto (memory : Allocator) (before : Option BlockId) (id : BlockId) : Allocator :=
  match before with
  | some previous => if memory.pool[previous].used then memory else memory.absorb previous id
  | none => memory

/-- Mark a block free and merge it with its free neighbours. -/
def release (memory : Allocator) (found : Found) : Allocator :=
  let memory := memory.setBlock found.id { memory.pool[found.id] with used := false }
  (memory.mergeBehind found.id).mergeInto found.before found.id

/-- Take back the used block that starts at an address. -/
def free (memory : Allocator) (address : UInt32) : Attempt MemoryError Allocator Unit :=
  match memory.findUsed? address none memory.chain with
  | some found => .ok () (memory.release found)
  | none => .error (.unknownAddress address) memory

end Allocator

end Microkernel.Memory
