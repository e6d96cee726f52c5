import Microkernel.Proofs.Value.Nodes

/-!
# The storage of a value

A text and a table own storage of their maker, a scalar does not.  Two values have the same storage
if every path leads to the same text, to tables of the same slots, or to scalars in both of them, so
that one becomes the other when scalars are replaced by scalars.  Replacing a part by one of the
same storage keeps the storage of the whole.
-/

namespace Microkernel.Value

/-- What a node is without the values in its slots; all scalars look alike. -/
inductive Outline where
  | scalar
  | text (text : String)
  | items (length : Nat)
  | slots (keys : List (Option String))
  deriving DecidableEq

def outline : Value → Outline
  | .str text => .text text
  | .list slots => .items slots.length
  | .map slots => .slots (slots.map Prod.fst)
  | .none | .retVal _ | .uint32 _ | .int32 _ | .float32 _ => .scalar

/-- The same nodes at the end of every path, up to scalars. -/
def SameStorage (before after : Value) : Prop :=
  ∀ path, (after.at? path).map outline = (before.at? path).map outline

private theorem outline_eq_scalar {value : Value} (scalar : value.ownsHeap = false) :
    value.outline = .scalar := by
  cases value with
  | str text => cases scalar
  | list slots => cases scalar
  | map slots => cases scalar
  | _ => rfl

namespace SameStorage

variable {before middle after : Value}

theorem refl (value : Value) : SameStorage value value :=
  fun _ => rfl

theorem trans (first : SameStorage before middle) (second : SameStorage middle after) :
    SameStorage before after :=
  fun path => (second path).trans (first path)

/-- Nodes that look alike have the same storage if the values below them do. -/
theorem of_children (same : after.outline = before.outline)
    (children : ∀ step, after.child? step = before.child? step ∨
      ∃ old new, before.child? step = some old ∧ after.child? step = some new ∧
        SameStorage old new) :
    SameStorage before after := by
  intro path
  cases path with
  | nil =>
      exact congrArg some same
  | cons step rest =>
      simp only [at?]
      rcases children step with kept | ⟨old, new, oldChild, newChild, below⟩
      · rw [kept]
      · rw [oldChild, newChild]
        exact below rest

theorem of_scalars (scalarBefore : before.ownsHeap = false) (scalarAfter : after.ownsHeap = false) :
    SameStorage before after := by
  refine of_children ?_ fun step => Or.inl ?_
  · rw [outline_eq_scalar scalarBefore, outline_eq_scalar scalarAfter]
  · rw [child?_of_scalar scalarBefore, child?_of_scalar scalarAfter]

end SameStorage

theorem sameStorage_listPut {value old item : Value} {index : Nat}
    (found : value.listGet? index = some old) (below : SameStorage old item) :
    SameStorage value (value.listPut index item) := by
  cases value with
  | list slots =>
      refine SameStorage.of_children ?_ ?_
      · simp [outline, listPut]
      · intro step
        cases step with
        | key name =>
            exact Or.inl rfl
        | slot position =>
            by_cases here : index = position
            · subst position
              exact Or.inr ⟨old, item, found, listGet?_listPut_self found item, below⟩
            · exact Or.inl (listGet?_listPut_of_ne (.list slots) item here)
  | _ => cases found

private theorem outline_mapPut (value : Value) (key : String) (item : Value) :
    (value.mapPut key item).outline = value.outline := by
  cases value with
  | map slots => exact congrArg Outline.slots (map_fst_assign key item slots)
  | _ => rfl

theorem sameStorage_mapPut {value old item : Value} {key : String}
    (found : value.mapFind? key = some old) (below : SameStorage old item) :
    SameStorage value (value.mapPut key item) := by
  refine SameStorage.of_children (outline_mapPut value key item) fun step => ?_
  by_cases named : value.Names key step
  · exact Or.inr
      ⟨old, item, child?_of_names named found, child?_mapPut_of_names named found item, below⟩
  · exact Or.inl (child?_mapPut_of_not_names named item)

end Microkernel.Value
