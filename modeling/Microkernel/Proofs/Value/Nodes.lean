import Microkernel.Proofs.Value.Table
import Microkernel.Value.Path

/-!
# The nodes of a value

A value is a tree.  What can be seen of one of its nodes without going further down is the tag, a
leaf's payload, the length of a list, and the length and the keys of a map.  A value is described by
the paths that lead anywhere in it and by the nodes to which they lead.  A scalar that is stored
under a key in place of a scalar changes the node at the end of one path, or of two: the step down
can be taken by the key or by the number of its slot.
-/

namespace Microkernel.Value

/-- A node, without the values in its slots. -/
inductive Node where
  | none
  | retVal (code : Int32)
  | uint32 (n : UInt32)
  | int32 (n : Int32)
  | float32 (x : Single)
  | str (text : String)
  | list (length : Nat)
  | map (keys : List (Option String))

def root : Value → Node
  | .none => .none
  | .retVal code => .retVal code
  | .uint32 n => .uint32 n
  | .int32 n => .int32 n
  | .float32 x => .float32 x
  | .str text => .str text
  | .list slots => .list slots.length
  | .map slots => .map (slots.map Prod.fst)

/-- The node at the end of a path, if the path leads anywhere. -/
def node? (value : Value) (path : List Step) : Option Node :=
  (value.at? path).map root

@[simp]
theorem node?_nil (value : Value) : value.node? [] = some value.root :=
  rfl

theorem node?_cons (value : Value) (step : Step) (rest : List Step) :
    value.node? (step :: rest) = (value.child? step).bind (node? · rest) := by
  simp only [node?, at?]
  cases value.child? step with
  | none => rfl
  | some child => rfl

theorem child?_map_slot (slots : List (Option String × Value)) (index : Nat) :
    (map slots).child? (.slot index) = (slots.map Prod.snd)[index]? := by
  simp [child?, mapValue?, listGet?]

def isTable : Value → Bool
  | .list _ | .map _ => true
  | _ => false

/-- Only tables have anything below them. -/
theorem child?_of_leaf {value : Value} (leaf : value.isTable = false) (step : Step) :
    value.child? step = Option.none := by
  cases value with
  | list slots => cases leaf
  | map slots => cases leaf
  | _ => cases step <;> rfl

private theorem isTable_of_scalar {value : Value} (scalar : value.ownsHeap = false) :
    value.isTable = false := by
  cases value with
  | list slots => cases scalar
  | map slots => cases scalar
  | _ => rfl

theorem child?_of_scalar {value : Value} (scalar : value.ownsHeap = false) (step : Step) :
    value.child? step = Option.none :=
  child?_of_leaf (isTable_of_scalar scalar) step

/-- Induction from the leaves up, through the items of a list and the values of a map. -/
@[elab_as_elim, induction_eliminator]
theorem induction {motive : Value → Prop} (none : motive .none)
    (retVal : ∀ code, motive (.retVal code)) (uint32 : ∀ n, motive (.uint32 n))
    (int32 : ∀ n, motive (.int32 n)) (float32 : ∀ x, motive (.float32 x))
    (str : ∀ text, motive (.str text))
    (list : ∀ slots, (∀ item ∈ slots, motive item) → motive (.list slots))
    (map : ∀ slots, (∀ item ∈ slots.map Prod.snd, motive item) → motive (.map slots))
    (value : Value) : motive value :=
  match value with
  | .none => none
  | .retVal code => retVal code
  | .uint32 n => uint32 n
  | .int32 n => int32 n
  | .float32 x => float32 x
  | .str text => str text
  | .list slots =>
    list slots fun item _member => induction none retVal uint32 int32 float32 str list map item
  | .map slots =>
    map slots fun item _member => induction none retVal uint32 int32 float32 str list map item
termination_by sizeOf value
decreasing_by
  · have smaller := List.sizeOf_lt_of_mem _member
    simp only [Value.list.sizeOf_spec]
    omega
  · obtain ⟨slot, slotMember, rfl⟩ := List.mem_map.mp _member
    have smaller := List.sizeOf_lt_of_mem slotMember
    obtain ⟨key, item⟩ := slot
    simp only [Value.map.sizeOf_spec, Prod.mk.sizeOf_spec] at smaller ⊢
    omega

/-- The number of the slot that a key names, the first one with the key. -/
def Node.position? : Node → String → Option Nat
  | .map keys, key => keys.findIdx? (· == some key)
  | _, _ => Option.none

/-- Whether a step leads to the slot that a key names. -/
def Names (value : Value) (key : String) : Step → Prop
  | .key name => name = key
  | .slot index => value.root.position? key = some index

theorem child?_of_names {value item : Value} {key : String} {step : Step}
    (named : value.Names key step) (found : value.mapFind? key = some item) :
    value.child? step = some item := by
  cases step with
  | key name =>
      obtain rfl : name = key := named
      exact found
  | slot index =>
      cases value with
      | map slots =>
          have position : (slots.map Prod.fst).findIdx? (· == some key) = some index := named
          rw [mapFind?, lookup_eq_getElem?, position, Option.bind_some] at found
          rw [child?_map_slot, List.getElem?_map, found]
      | _ => cases found

theorem root_mapPut (value : Value) (key : String) (item : Value) :
    (value.mapPut key item).root = value.root := by
  cases value with
  | map slots => exact congrArg Node.map (map_fst_assign key item slots)
  | _ => rfl

/-- What the keys name depends on the root only. -/
theorem names_congr {value value' : Value} (sameRoot : value'.root = value.root) (key : String)
    (step : Step) : value'.Names key step ↔ value.Names key step := by
  cases step with
  | key name => exact Iff.rfl
  | slot index => rw [Names, Names, sameRoot]

theorem child?_mapPut_of_not_names {value : Value} {key : String} {step : Step}
    (notNamed : ¬ value.Names key step) (item : Value) :
    (value.mapPut key item).child? step = value.child? step := by
  cases step with
  | key name =>
      exact (mapFind?_mapPut value key name item).trans (if_neg notNamed)
  | slot index =>
      cases value with
      | map slots =>
          have kept : (assign key item slots)[index]? = slots[index]? :=
            (getElem?_assign key item slots index).trans (if_neg notNamed)
          rw [mapPut, child?_map_slot, child?_map_slot, List.getElem?_map, List.getElem?_map, kept]
      | _ => rfl

theorem child?_mapPut_of_names {value old : Value} {key : String} {step : Step}
    (named : value.Names key step) (found : value.mapFind? key = some old) (item : Value) :
    (value.mapPut key item).child? step = some item := by
  have written : (value.mapPut key item).mapFind? key = some item := by
    rw [mapFind?_mapPut, if_pos rfl, found]
    rfl
  exact child?_of_names ((names_congr (root_mapPut value key item) key step).mpr named) written

end Microkernel.Value
