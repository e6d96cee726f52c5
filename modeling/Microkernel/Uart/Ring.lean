/-! # Byte rings

A bounded queue of bytes in a circle of cells. It is empty when the two positions agree and full
when one more step of the write position would make them agree, so one cell always stays unused.
-/

namespace Microkernel

/-- A queue in a circle of `size` cells. -/
structure Ring (size : Nat) where
  cells : Vector UInt8 size
  /-- Where the next byte is written. -/
  head : Nat
  /-- Where the next byte is read. -/
  tail : Nat
  deriving DecidableEq

namespace Ring

variable {size : Nat}

def empty : Ring size :=
  ⟨Vector.replicate size 0, 0, 0⟩

instance : Inhabited (Ring size) :=
  ⟨empty⟩

def capacity (_ring : Ring size) : Nat :=
  size - 1

def next (size position : Nat) : Nat :=
  (position + 1) % size

def isEmpty (ring : Ring size) : Bool :=
  ring.head == ring.tail

def isFull (ring : Ring size) : Bool :=
  next size ring.head == ring.tail

def length (ring : Ring size) : Nat :=
  (ring.head + size - ring.tail) % size

/-- Queue a byte behind the others; a full ring takes none. -/
def push? (byte : UInt8) (ring : Ring size) : Option (Ring size) :=
  if ring.isFull then none
  else some
    { cells := ring.cells.setIfInBounds ring.head byte
      head := next size ring.head
      tail := ring.tail }

/-- Take the byte that was queued first; an empty ring gives none. -/
def pop? (ring : Ring size) : Option (UInt8 × Ring size) :=
  if ring.isEmpty then none
  else some (ring.cells[ring.tail]?.getD 0, { ring with tail := next size ring.tail })

/-- Queue bytes one after the other, and say of each whether the ring took it. -/
def pushAll : List UInt8 → Ring size → List Bool × Ring size
  | [], ring => ([], ring)
  | byte :: rest, ring =>
    let pushed := ring.push? byte
    let (taken, ring) := pushAll rest (pushed.getD ring)
    (pushed.isSome :: taken, ring)

/-- Take bytes one after the other, as often as asked. -/
def popMany : Nat → Ring size → List (Option UInt8) × Ring size
  | 0, ring => ([], ring)
  | count + 1, ring =>
    let popped := ring.pop?
    let (bytes, ring) := popMany count ((popped.map Prod.snd).getD ring)
    (popped.map Prod.fst :: bytes, ring)

/-- The `count` bytes from a position on, going round the circle. -/
def bytesFrom (ring : Ring size) : Nat → Nat → List UInt8
  | 0, _ => []
  | count + 1, position =>
    ring.cells[position]?.getD 0 :: ring.bytesFrom count (next size position)

/-- The queued bytes, the oldest first. -/
def toList (ring : Ring size) : List UInt8 :=
  ring.bytesFrom ring.length ring.tail

end Ring

end Microkernel
