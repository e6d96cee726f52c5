import Microkernel.Memory.Allocator
import Mathlib.Data.Vector.Basic

/-!
# Entries of a vector

A pool of blocks and a table of slots are both vectors that are read and written at numbers
below their length.
-/

namespace Microkernel

variable {α : Type} {n : Nat}

theorem getElem_fin (entries : Vector α n) (index : Fin n) :
    entries[index] = getElem entries index.val index.isLt :=
  rfl

theorem toList_eq_map (entries : Vector α n) :
    entries.toList = (List.finRange n).map fun index => entries[index] := by
  apply List.ext_getElem
  · simp
  · simp [getElem_fin]

theorem toList_put (entries : Vector α n) (index : Fin n) (entry : α) :
    (entries.put index entry).toList = entries.toList.set index entry :=
  Vector.toList_set index.isLt

@[simp]
theorem getElem_put_self (entries : Vector α n) (index : Fin n) (entry : α) :
    (entries.put index entry)[index] = entry :=
  Vector.getElem_set_self index.isLt

theorem put_getElem_self (entries : Vector α n) (index : Fin n) :
    entries.put index entries[index] = entries :=
  Vector.set_getElem_self index.isLt

theorem getElem_put_of_ne {entries : Vector α n} {changed index : Fin n} (entry : α)
    (different : changed ≠ index) : (entries.put changed entry)[index] = entries[index] :=
  Vector.getElem_set_ne changed.isLt index.isLt (Fin.val_ne_of_ne different)

/-- After a write, what holds of the new entry and of all others holds of every entry. -/
theorem forall_getElem_put {entries : Vector α n} {changed : Fin n} {entry : α}
    {P : Fin n → α → Prop} (here : P changed entry)
    (elsewhere : ∀ index, changed ≠ index → P index entries[index]) (index : Fin n) :
    P index (entries.put changed entry)[index] := by
  by_cases same : changed = index
  · subst index
    rwa [getElem_put_self]
  · rw [getElem_put_of_ne _ same]
    exact elsewhere index same

/-- Writing an entry that is not listed changes none of the listed ones. -/
theorem getElem_put_of_notMem (entries : Vector α n) {listed : List (Fin n)} {changed : Fin n}
    (entry : α) (notListed : changed ∉ listed) :
    ∀ index ∈ listed, (entries.put changed entry)[index] = entries[index] := by
  intro index member
  refine getElem_put_of_ne entry ?_
  intro equal
  subst changed
  exact notListed member

end Microkernel
