import Microkernel.Proofs.Process.Slots

/-!
# Allocators that a process table cannot tell apart

A process table works with an allocator only through requests and releases.  Where a relation
between allocators has them answer every request alike and is kept by it, every operation of the
table gives the same result over either of them and keeps the relation as well.
-/

namespace Microkernel

open Memory (Allocator)

/-- Two attempts with the same result or the same error, which leave related states. -/
inductive SameOutcome {ε S α : Type} (R : S → S → Prop) : Attempt ε S α → Attempt ε S α → Prop
  | ok (result : α) {left right : S} (related : R left right) :
      SameOutcome R (.ok result left) (.ok result right)
  | error (cause : ε) {left right : S} (related : R left right) :
      SameOutcome R (.error cause left) (.error cause right)

theorem SameOutcome.state {ε S α : Type} {R : S → S → Prop} {left right : Attempt ε S α}
    (same : SameOutcome R left right) : R left.state right.state := by
  cases same with
  | ok result related => exact related
  | error cause related => exact related

/-- The same first part and related second parts. -/
def Beside {α β : Type} (R : β → β → Prop) (left right : α × β) : Prop :=
  left.1 = right.1 ∧ R left.2 right.2

/-- A relation between allocators that answer alike as long as it lasts, and that lasts. -/
structure Indistinct (R : Allocator → Allocator → Prop) : Prop where
  region : ∀ {memory other}, R memory other → memory.region = other.region
  alloc : ∀ {memory other}, R memory other → ∀ size,
    SameOutcome R (memory.alloc size) (other.alloc size)
  free : ∀ {memory other}, R memory other → ∀ address,
    SameOutcome R (memory.free address) (other.free address)

theorem indistinct_eq : Indistinct Eq where
  region related := congrArg Allocator.region related
  alloc := by
    rintro memory _ rfl size
    cases memory.alloc size with
    | ok address memory' => exact .ok address rfl
    | error cause memory' => exact .error cause rfl
  free := by
    rintro memory _ rfl address
    cases memory.free address with
    | ok _ memory' => exact .ok () rfl
    | error cause memory' => exact .error cause rfl

namespace ProcessTable

/-- Two walks that end on the same slot, over the same slots and related allocators. -/
structure SameWalk (R : Allocator → Allocator → Prop) (left right : Walk) : Prop where
  slots : left.slots = right.slots
  landed : left.landed = right.landed
  memory : R left.memory right.memory

section Congruence

variable {R : Allocator → Allocator → Prop} {memory other : Allocator}

theorem create_congr (indistinct : Indistinct R) (related : R memory other)
    (table : ProcessTable) (size : UInt32) :
    SameOutcome (Beside R) (table.create memory size) (table.create other size) := by
  rw [create, create, ← indistinct.region related]
  split
  · exact .error _ ⟨rfl, related⟩
  · split
    · exact .error _ ⟨rfl, related⟩
    · next pid _ _ total _ =>
      have allocated := indistinct.alloc related total
      generalize memory.alloc total = granted at allocated ⊢
      generalize other.alloc total = otherGranted at allocated ⊢
      cases allocated with
      | error cause relatedAfter => exact .error _ ⟨rfl, relatedAfter⟩
      | ok base relatedAfter => exact .ok pid ⟨rfl, relatedAfter⟩

private theorem releaseBlock_congr (indistinct : Indistinct R) (related : R memory other)
    (base : UInt32) : R (releaseBlock memory base) (releaseBlock other base) :=
  (indistinct.free related base).state

private theorem walk_congr (indistinct : Indistinct R) (related : R memory other) (steps : Nat)
    (cursor : Pid) (slots : Vector Process maxProcesses) :
    SameWalk R (walk steps cursor slots memory) (walk steps cursor slots other) := by
  induction steps generalizing cursor slots memory other with
  | zero =>
      exact ⟨rfl, rfl, related⟩
  | succ steps inductionHypothesis =>
      by_cases dying : slots[nextSlot cursor].isDying = true
      · rw [walk_of_dying dying, walk_of_dying dying]
        obtain ⟨slotsEq, landedEq, relatedAfter⟩ :=
          inductionHypothesis (releaseBlock_congr indistinct related slots[nextSlot cursor].base)
            (nextSlot cursor) (slots.put (nextSlot cursor) .empty)
        exact ⟨slotsEq, landedEq, relatedAfter⟩
      · by_cases runnable : slots[nextSlot cursor].isRunnable = true
        · rw [walk_of_runnable runnable, walk_of_runnable runnable]
          exact ⟨rfl, rfl, related⟩
        · rw [walk_of_idle dying runnable, walk_of_idle dying runnable]
          exact inductionHypothesis related _ _

theorem schedule_congr (indistinct : Indistinct R) (related : R memory other)
    (table : ProcessTable) (frame : TrapFrame) :
    Beside (Beside R) (table.schedule memory frame) (table.schedule other frame) := by
  have alike : SameWalk R (table.turn memory frame) (table.turn other frame) :=
    walk_congr indistinct related _ _ _
  rw [schedule, schedule]
  split
  · exact ⟨rfl, rfl, related⟩
  · generalize table.turn memory frame = left at alike ⊢
    generalize table.turn other frame = right at alike ⊢
    obtain ⟨slots, memory', landed, _⟩ := left
    obtain ⟨slots', _, landed', _⟩ := right
    obtain ⟨slotsEq, landedEq, relatedAfter⟩ := alike
    obtain rfl : slots = slots' := slotsEq
    obtain rfl : landed = landed' := landedEq
    cases landed with
    | none => exact ⟨rfl, rfl, relatedAfter⟩
    | some pid => exact ⟨rfl, rfl, relatedAfter⟩

end Congruence

end ProcessTable

end Microkernel
