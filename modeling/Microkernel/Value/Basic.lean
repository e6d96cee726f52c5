import Microkernel.Decimal.Single

/-! # Values

What a system call carries: a tag and its payload together. A list and a map have a fixed number
of slots, chosen when they are made; an empty slot holds `none`.
-/

namespace Microkernel

inductive Value where
  | none
  /-- The outcome of a system call: zero is success, anything else failure. -/
  | retVal (code : Int32)
  | uint32 (n : UInt32)
  | int32 (n : Int32)
  | float32 (x : Single)
  | str (text : String)
  | list (slots : List Value)
  /-- The slots of a map. A map keeps its keys and its values in two arrays of one length, and a key
  is text or absent, so the arrays are read here as one list of pairs. A slot without a key is free,
  whatever value it holds. -/
  | map (slots : List (Option String × Value))

namespace Value

instance : Inhabited Value :=
  ⟨.none⟩

inductive Kind where
  | none
  | retVal
  | uint32
  | int32
  | float32
  | str
  | list
  | map
  deriving DecidableEq

def Kind.name : Kind → String
  | .none => "none"
  | .retVal => "retval"
  | .uint32 => "uint32"
  | .int32 => "int32"
  | .float32 => "float32"
  | .str => "str"
  | .list => "list"
  | .map => "map"

def kind : Value → Kind
  | .none => .none
  | .retVal _ => .retVal
  | .uint32 _ => .uint32
  | .int32 _ => .int32
  | .float32 _ => .float32
  | .str _ => .str
  | .list _ => .list
  | .map _ => .map

def ok : Value :=
  .retVal 0

def fail : Value :=
  .retVal 1

def isOk : Value → Bool
  | .retVal code => code == 0
  | _ => false

def isFail : Value → Bool
  | .retVal code => code != 0
  | _ => false

def isNone : Value → Bool
  | .none => true
  | _ => false

/-- Whether the value owns storage on its maker's heap. The kernel neither drops nor replaces
such a value. -/
def ownsHeap : Value → Bool
  | .str _ | .list _ | .map _ => true
  | _ => false

/-- The number of slots of a table, the number of bytes of a text, zero for a scalar. -/
def size : Value → Nat
  | .list slots => slots.length
  | .map slots => slots.length
  | .str text => text.utf8ByteSize
  | _ => 0

def asUInt32? : Value → Option UInt32
  | .uint32 n => some n
  | _ => Option.none

def asInt32? : Value → Option Int32
  | .int32 n => some n
  | _ => Option.none

def asFloat32? : Value → Option Single
  | .float32 x => some x
  | _ => Option.none

def asStr? : Value → Option String
  | .str text => some text
  | _ => Option.none

def retCode? : Value → Option Int32
  | .retVal code => some code
  | _ => Option.none

def freshList (length : Nat) : Value :=
  .list (List.replicate length .none)

def freshMap (length : Nat) : Value :=
  .map (List.replicate length (Option.none, .none))

end Value

end Microkernel
