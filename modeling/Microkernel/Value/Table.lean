import Microkernel.Value.Basic

/-! # Tables

Reading and filling the slots of lists and maps. A table never grows: a new item takes the first
free slot, and is refused when there is none.
-/

namespace Microkernel.Value

inductive TableError where
  | wrongKind (expected found : Kind)
  | tableFull (length : Nat)
  deriving DecidableEq

def TableError.message : TableError → String
  | .wrongKind expected found => "expected a " ++ expected.name ++ " value, found " ++ found.name
  | .tableFull length => "no free slot in table of length " ++ toString length

def listGet? (value : Value) (index : Nat) : Option Value :=
  match value with
  | .list slots => slots[index]?
  | _ => Option.none

/-- The value of a map's slot at a position, whether or not the slot has a key. -/
def mapValue? (value : Value) (index : Nat) : Option Value :=
  match value with
  | .map slots => slots[index]?.map Prod.snd
  | _ => Option.none

/-- The key of a map's slot at a position, `none` where the slot is free. -/
def mapKey? (value : Value) (index : Nat) : Option Value :=
  match value with
  | .map slots => slots[index]?.map fun slot => (slot.1.map Value.str).getD .none
  | _ => Option.none

/-- The value of the first slot with a key. -/
def lookup (key : String) : List (Option String × Value) → Option Value
  | [] => Option.none
  | (name, value) :: rest => if name = some key then some value else lookup key rest

/-- The value stored in a map under a key. -/
def mapFind? (value : Value) (key : String) : Option Value :=
  match value with
  | .map slots => lookup key slots
  | _ => Option.none

/-- Replace the value of the first slot with a key; no such slot, no change. -/
def assign (key : String) (item : Value) :
    List (Option String × Value) → List (Option String × Value)
  | [] => []
  | (name, value) :: rest =>
    if name = some key then (name, item) :: rest else (name, value) :: assign key item rest

/-- Give the first slot without a key this key and value, nothing if every slot has a key. -/
def claim? (key : String) (item : Value) :
    List (Option String × Value) → Option (List (Option String × Value))
  | [] => Option.none
  | (Option.none, _) :: rest => some ((some key, item) :: rest)
  | (some name, value) :: rest => (claim? key item rest).map ((some name, value) :: ·)

/-- Put an item into the first free slot, nothing if every slot is taken. -/
def fill? (item : Value) : List Value → Option (List Value)
  | [] => Option.none
  | .none :: rest => some (item :: rest)
  | taken :: rest => (fill? item rest).map (taken :: ·)

/-- Append an item to a list. -/
def listAppend (value item : Value) : Except TableError Value :=
  match value with
  | .list slots =>
    match fill? item slots with
    | some slots => .ok (.list slots)
    | Option.none => .error (.tableFull slots.length)
  | other => .error (.wrongKind .list other.kind)

/-- Store an item in a map under a key: in place where the key is present, in the first free
slot where it is not. -/
def mapSet (value : Value) (key : String) (item : Value) : Except TableError Value :=
  match value with
  | .map slots =>
    match lookup key slots with
    | some _ => .ok (.map (assign key item slots))
    | Option.none =>
      match claim? key item slots with
      | some slots => .ok (.map slots)
      | Option.none => .error (.tableFull slots.length)
  | other => .error (.wrongKind .map other.kind)

/-- The value inside lists of one slot, `depth` of them. -/
def nest (value : Value) : (depth : Nat) → Value
  | 0 => value
  | depth + 1 => .list [value.nest depth]

/-- Assign to an item of a list; an absent position changes nothing. -/
def listPut (value : Value) (index : Nat) (item : Value) : Value :=
  match value with
  | .list slots => .list (slots.set index item)
  | other => other

/-- Assign to the value of a map's slot at a position; an absent position changes nothing. -/
def mapPutValue (value : Value) (index : Nat) (item : Value) : Value :=
  match value with
  | .map slots => .map (slots.modify index fun slot => (slot.1, item))
  | other => other

/-- Assign to the value stored under a key; an absent key changes nothing. -/
def mapPut (value : Value) (key : String) (item : Value) : Value :=
  match value with
  | .map slots => .map (assign key item slots)
  | other => other

end Microkernel.Value
