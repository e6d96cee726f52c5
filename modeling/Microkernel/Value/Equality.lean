import Microkernel.Value.Basic

/-! # Copies and equality of values

A copy is deep: texts and tables are duplicated slot by slot. Values of different kinds are never
equal. Tables have to be of the same length and are compared slot by slot, floating-point numbers
by nearness, everything else exactly.
-/

namespace Microkernel.Value

mutual

/-- The value rebuilt from its leaves up. -/
def copy : Value → Value
  | .none => .none
  | .retVal code => .retVal code
  | .uint32 n => .uint32 n
  | .int32 n => .int32 n
  | .float32 x => .float32 x
  | .str text => .str text
  | .list slots => .list (copyItems slots)
  | .map slots => .map (copySlots slots)

def copyItems : List Value → List Value
  | [] => []
  | item :: rest => copy item :: copyItems rest

def copySlots : List (Option String × Value) → List (Option String × Value)
  | [] => []
  | (key, value) :: rest => (key, copy value) :: copySlots rest

end

/-- The same keys, slot by slot as far as both tables reach. -/
def keysEqual (as bs : List (Option String × Value)) : Bool :=
  (as.zip bs).all fun pair => pair.1.1 == pair.2.1

mutual

def equal : Value → Value → Bool
  | .none, .none => true
  | .retVal a, .retVal b => a == b
  | .uint32 a, .uint32 b => a == b
  | .int32 a, .int32 b => a == b
  | .float32 a, .float32 b => a.near b
  | .str a, .str b => a == b
  | .list a, .list b => a.length == b.length && itemsEqual a b
  | .map a, .map b => a.length == b.length && (keysEqual a b && valuesEqual a b)
  | _, _ => false

/-- Equal items, slot by slot as far as both lists reach. -/
def itemsEqual : List Value → List Value → Bool
  | a :: as, b :: bs => equal a b && itemsEqual as bs
  | _, _ => true

/-- Equal values, slot by slot as far as both maps reach. -/
def valuesEqual : List (Option String × Value) → List (Option String × Value) → Bool
  | (_, a) :: as, (_, b) :: bs => equal a b && valuesEqual as bs
  | _, _ => true

end

end Microkernel.Value
