import Microkernel.Value.Table

/-! # Places inside a value

A path names a place inside nested tables: each step is a key of a map or the number of a slot.
-/

namespace Microkernel.Value

/-- One step into a table. -/
inductive Step where
  | key (name : String)
  | slot (index : Nat)
  deriving DecidableEq

/-- The value one step down, if the step leads anywhere. -/
def child? (value : Value) : Step → Option Value
  | .key name => value.mapFind? name
  | .slot index => value.mapValue? index <|> value.listGet? index

/-- Assign to the value one step down; a step that leads nowhere changes nothing. -/
def putChild (value : Value) (step : Step) (item : Value) : Value :=
  match step with
  | .key name => value.mapPut name item
  | .slot index => (value.mapPutValue index item).listPut index item

/-- The value at a path, if the path leads anywhere. -/
def at? (value : Value) : List Step → Option Value
  | [] => some value
  | step :: rest => (value.child? step).bind (at? · rest)

/-- Assign to the place at a path; a path that leads nowhere changes nothing. -/
def putAt (value item : Value) : List Step → Value
  | [] => item
  | step :: rest =>
    match value.child? step with
    | some child => value.putChild step (child.putAt item rest)
    | Option.none => value

end Microkernel.Value
