import Microkernel.Uart.Ring

/-!
# A ring is a bounded queue

The positions of a ring say nothing about how often they have gone round.  As long as both lie in
the circle, the cells between them read as a list, of which `push?` extends the end and `pop?` takes
the front, and the list is one cell short of the circle when the ring is full.
-/

namespace Microkernel.Ring

variable {size : Nat}

/-- Both positions lie in the circle. -/
structure Valid (ring : Ring size) : Prop where
  head : ring.head < size
  tail : ring.tail < size

theorem valid_empty (positive : 0 < size) : (empty : Ring size).Valid :=
  ⟨positive, positive⟩

theorem wrap {position : Nat} (onceRound : position < 2 * size) :
    position % size = if position < size then position else position - size := by
  split
  · next inside => exact Nat.mod_eq_of_lt inside
  · rw [Nat.mod_eq_sub_mod (by omega), Nat.mod_eq_of_lt (by omega)]

private theorem next_eq {position : Nat} (inside : position < size) :
    next size position = if position + 1 < size then position + 1 else 0 := by
  rw [next, wrap (by omega)]
  split <;> omega

private theorem next_lt {position : Nat} (inside : position < size) : next size position < size :=
  Nat.mod_lt _ (by omega)

theorem Valid.length_eq {ring : Ring size} (valid : ring.Valid) :
    ring.length =
      if ring.tail ≤ ring.head then ring.head - ring.tail
      else ring.head + size - ring.tail := by
  have headInside := valid.head
  have tailInside := valid.tail
  rw [length, wrap (by omega)]
  split <;> split <;> omega

/-- The cell of a queued byte, counted from the oldest. -/
def cellOf (size position index : Nat) : Nat :=
  if position + index < size then position + index else position + index - size

private theorem cellOf_next {position index : Nat} (inside : position < size)
    (inCircle : index + 1 < size) :
    cellOf size (next size position) index = cellOf size position (index + 1) := by
  rw [next_eq inside]
  simp only [cellOf]
  split <;> split <;> split <;> omega

private theorem bytesFrom_eq_map (ring : Ring size) {count position : Nat}
    (inside : position < size)
    (inCircle : count ≤ size) :
    ring.bytesFrom count position =
      (List.range count).map fun index => ring.cells[cellOf size position index]?.getD 0 := by
  induction count generalizing position with
  | zero =>
      rfl
  | succ count inductionHypothesis =>
      rw [bytesFrom, inductionHypothesis (next_lt inside) (by omega), List.range_succ_eq_map,
        List.map_cons, List.map_map]
      congr 1
      · simp [cellOf, inside]
      · apply List.map_congr_left
        intro index indexMember
        have indexLt := List.mem_range.1 indexMember
        simp only [Function.comp_apply, Nat.succ_eq_add_one]
        rw [cellOf_next inside (by omega)]

section Queue

variable {ring : Ring size}

private theorem Valid.length_lt (valid : ring.Valid) : ring.length < size :=
  Nat.mod_lt _ (Nat.lt_of_le_of_lt (Nat.zero_le _) valid.head)

theorem Valid.toList_eq_map (valid : ring.Valid) :
    ring.toList = (List.range ring.length).map fun index =>
      ring.cells[cellOf size ring.tail index]?.getD 0 :=
  bytesFrom_eq_map ring valid.tail (Nat.le_of_lt valid.length_lt)

theorem Valid.length_toList (valid : ring.Valid) : ring.toList.length = ring.length := by
  rw [valid.toList_eq_map, List.length_map, List.length_range]

theorem Valid.isEmpty_iff (valid : ring.Valid) : ring.isEmpty = true ↔ ring.toList = [] := by
  have headInside := valid.head
  have tailInside := valid.tail
  rw [← List.length_eq_zero_iff, valid.length_toList, valid.length_eq, isEmpty, beq_iff_eq]
  split <;> omega

theorem Valid.isFull_iff (valid : ring.Valid) :
    ring.isFull = true ↔ ring.toList.length = size - 1 := by
  have headInside := valid.head
  have tailInside := valid.tail
  rw [valid.length_toList, valid.length_eq, isFull, beq_iff_eq, next_eq headInside]
  split <;> split <;> omega

theorem Valid.isFull_eq_false_iff (valid : ring.Valid) :
    ring.isFull = false ↔ ring.toList.length < size - 1 := by
  have lengthLt := valid.length_lt
  rw [← valid.length_toList] at lengthLt
  rw [← Bool.not_eq_true, valid.isFull_iff]
  omega

theorem push?_eq_none_iff {byte : UInt8} : ring.push? byte = none ↔ ring.isFull = true := by
  simp [push?]

theorem push?_eq_some_iff {byte : UInt8} {pushed : Ring size} :
    ring.push? byte = some pushed ↔
      ring.isFull = false ∧
        pushed = ⟨ring.cells.setIfInBounds ring.head byte, next size ring.head, ring.tail⟩ := by
  rw [push?, Option.ite_none_left_eq_some, Bool.not_eq_true, Option.some.injEq, @eq_comm _ pushed]

theorem Valid.push? {byte : UInt8} {pushed : Ring size} (valid : ring.Valid)
    (taken : ring.push? byte = some pushed) : pushed.Valid := by
  obtain ⟨_, rfl⟩ := push?_eq_some_iff.1 taken
  exact ⟨next_lt valid.head, valid.tail⟩

private theorem Valid.length_push? {byte : UInt8} {pushed : Ring size} (valid : ring.Valid)
    (taken : ring.push? byte = some pushed) : pushed.length = ring.length + 1 := by
  have headInside := valid.head
  have tailInside := valid.tail
  have lengthEq := valid.length_eq
  have pushedLength := (valid.push? taken).length_eq
  have moved := next_eq headInside
  obtain ⟨notFull, rfl⟩ := push?_eq_some_iff.1 taken
  rw [isFull, beq_eq_false_iff_ne] at notFull
  dsimp only at pushedLength
  split at moved <;> split at lengthEq <;> split at pushedLength <;> omega

/-- A byte that the ring takes goes behind the others.  It is written into the unused cell, so
none of them is lost. -/
theorem Valid.toList_push? {byte : UInt8} {pushed : Ring size} (valid : ring.Valid)
    (taken : ring.push? byte = some pushed) : pushed.toList = ring.toList ++ [byte] := by
  have headInside := valid.head
  have tailInside := valid.tail
  have lengthEq := valid.length_eq
  have lengthLt := valid.length_lt
  rw [(valid.push? taken).toList_eq_map, valid.length_push? taken, valid.toList_eq_map]
  obtain ⟨_, rfl⟩ := push?_eq_some_iff.1 taken
  rw [List.range_succ, List.map_append]
  congr 1
  · apply List.map_congr_left
    intro index indexMember
    have indexLt := List.mem_range.1 indexMember
    have elsewhere : ring.head ≠ cellOf size ring.tail index := by
      simp only [cellOf]
      split at lengthEq <;> split <;> omega
    rw [Vector.getElem?_setIfInBounds_ne elsewhere]
  · have unused : cellOf size ring.tail ring.length = ring.head := by
      simp only [cellOf]
      split at lengthEq <;> split <;> omega
    simp [unused, headInside]

theorem Valid.isEmpty_push? {byte : UInt8} {pushed : Ring size} (valid : ring.Valid)
    (taken : ring.push? byte = some pushed) : pushed.isEmpty = false := by
  rw [Bool.eq_false_iff, ne_eq, (valid.push? taken).isEmpty_iff, valid.toList_push? taken]
  exact List.append_ne_nil_of_right_ne_nil _ (List.cons_ne_nil byte [])

theorem pop?_eq_none_iff : ring.pop? = none ↔ ring.isEmpty = true := by
  simp [pop?]

private theorem pop?_eq_some_iff {byte : UInt8} {popped : Ring size} :
    ring.pop? = some (byte, popped) ↔
      ring.isEmpty = false ∧ byte = ring.cells[ring.tail]?.getD 0 ∧
        popped = ⟨ring.cells, ring.head, next size ring.tail⟩ := by
  rw [pop?, Option.ite_none_left_eq_some, Bool.not_eq_true, Option.some.injEq, Prod.mk.injEq,
    @eq_comm _ byte, @eq_comm _ popped]

theorem Valid.pop? {byte : UInt8} {popped : Ring size} (valid : ring.Valid)
    (taken : ring.pop? = some (byte, popped)) : popped.Valid := by
  obtain ⟨_, _, rfl⟩ := pop?_eq_some_iff.1 taken
  exact ⟨valid.head, next_lt valid.tail⟩

theorem Valid.length_pop? {byte : UInt8} {popped : Ring size} (valid : ring.Valid)
    (taken : ring.pop? = some (byte, popped)) : ring.length = popped.length + 1 := by
  have headInside := valid.head
  have tailInside := valid.tail
  have lengthEq := valid.length_eq
  have poppedLength := (valid.pop? taken).length_eq
  have moved := next_eq tailInside
  obtain ⟨notEmpty, _, rfl⟩ := pop?_eq_some_iff.1 taken
  rw [isEmpty, beq_eq_false_iff_ne] at notEmpty
  dsimp only at poppedLength
  split at moved <;> split at lengthEq <;> split at poppedLength <;> omega

private theorem bytesFrom_advanced (tail count position : Nat) :
    bytesFrom ⟨ring.cells, ring.head, tail⟩ count position = ring.bytesFrom count position := by
  induction count generalizing position with
  | zero =>
      rfl
  | succ count inductionHypothesis =>
      rw [bytesFrom, bytesFrom, inductionHypothesis]

/-- The byte that a ring gives was in front of the others. -/
theorem Valid.toList_pop? {byte : UInt8} {popped : Ring size} (valid : ring.Valid)
    (taken : ring.pop? = some (byte, popped)) : ring.toList = byte :: popped.toList := by
  rw [toList, valid.length_pop? taken, bytesFrom]
  obtain ⟨_, rfl, rfl⟩ := pop?_eq_some_iff.1 taken
  exact congrArg _ (bytesFrom_advanced _ _ _).symm

end Queue

end Microkernel.Ring
