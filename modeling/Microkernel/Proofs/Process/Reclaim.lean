import Microkernel.Proofs.Process.Ownership
import Microkernel.Proofs.Process.Rotation
import Microkernel.Proofs.Memory.Backing

/-!
# Reclaimed slots

The scheduler empties slots and gives their memory back one after the other.  A slot may name an
address at which no used block starts, and two slots may name the same one; then there is nothing
to take back, and the allocator stays as it is.  So all that counts is which addresses are named:
the used blocks that start at one of them go, and every other one stays where it is.
-/

namespace Microkernel.ProcessTable

open Memory (Allocator Extent usedExtents)

/-- What an interrupt does to a table and an allocator when it reclaims certain slots. -/
structure Sweep (table : ProcessTable) (memory : Allocator) (frame : TrapFrame) (dead : List Pid)
    (swept : ProcessTable × Allocator) : Prop where
  config : swept.1.config = table.config
  emptied : ∀ pid ∈ dead, swept.1.slots[pid] = .empty
  saved : table.current ∉ dead →
    swept.1.slots[table.current] = { table.slots[table.current] with regs := frame }
  kept : ∀ pid ∉ dead, pid ≠ table.current → swept.1.slots[pid] = table.slots[pid]
  /-- The addresses that the slots name are given back, one after the other. -/
  released : swept.2 =
    dead.foldl (fun memory pid => releaseBlock memory table.slots[pid].base) memory
  /-- In whatever state the allocator is, no used block is touched that starts elsewhere. -/
  entries : ∀ id : Memory.BlockId, memory.pool[id].used = true →
    (∀ pid ∈ dead, table.slots[pid].base ≠ memory.pool[id].start) →
      swept.2.pool[id] = memory.pool[id]
  /-- The used blocks that are left are those that start elsewhere. -/
  blocks : memory.Sound → swept.2.Sound ∧ swept.2.region = memory.region ∧
    usedExtents swept.2.extents = (usedExtents memory.extents).filter fun extent =>
      ∀ pid ∈ dead, extent.start ≠ table.slots[pid].base.toNat

/-- What becomes of an allocator when the memory of certain slots is given back. -/
structure GivesBack (slots : Vector Process maxProcesses) (dead : List Pid)
    (memory memory' : Allocator) : Prop where
  sound : memory'.Sound
  region_eq : memory'.region = memory.region
  /-- The used blocks that are left are those that start elsewhere. -/
  blocks : usedExtents memory'.extents = (usedExtents memory.extents).filter fun extent =>
    ∀ pid ∈ dead, extent.start ≠ slots[pid].base.toNat

section Release

variable {slots : Vector Process maxProcesses} {memory : Allocator} {base size : UInt32}

private theorem releaseBlock_cases (memory : Allocator) (base : UInt32) :
    (memory.free base = .error (.unknownAddress base) memory ∧ releaseBlock memory base = memory) ∨
      memory.free base = .ok () (releaseBlock memory base) := by
  rw [releaseBlock]
  cases done : memory.free base with
  | ok _ memory' =>
      exact Or.inr rfl
  | error cause after =>
      obtain ⟨rfl, rfl⟩ := Allocator.free_eq_error done
      exact Or.inl ⟨rfl, rfl⟩

private theorem releaseBlock_sound (sound : memory.Sound) (base : UInt32) :
    (releaseBlock memory base).Sound ∧ (releaseBlock memory base).region = memory.region := by
  rcases releaseBlock_cases memory base with ⟨_, same⟩ | done
  · rw [same]
    exact ⟨sound, rfl⟩
  · exact Allocator.free_sound sound done

theorem releaseAll_sound (sound : memory.Sound) (dead : List Pid) :
    (releaseAll slots dead memory).Sound ∧
      (releaseAll slots dead memory).region = memory.region := by
  induction dead generalizing memory with
  | nil =>
      exact ⟨sound, rfl⟩
  | cons pid rest inductionHypothesis =>
      obtain ⟨soundNow, regionNow⟩ := releaseBlock_sound sound slots[pid].base
      obtain ⟨soundLater, regionLater⟩ := inductionHypothesis soundNow
      rw [releaseAll, List.foldl_cons]
      exact ⟨soundLater, regionLater.trans regionNow⟩

/-- In whatever state the allocator is, a used block keeps its entry if nothing names the address
at which it starts. -/
theorem releaseAll_entry {dead : List Pid} {id : Memory.BlockId}
    (used : memory.pool[id].used = true)
    (elsewhere : ∀ pid ∈ dead, slots[pid].base ≠ memory.pool[id].start) :
    (releaseAll slots dead memory).pool[id] = memory.pool[id] := by
  induction dead generalizing memory with
  | nil =>
      rfl
  | cons pid rest inductionHypothesis =>
      rw [List.forall_mem_cons] at elsewhere
      obtain ⟨elsewhereHere, elsewhereLater⟩ := elsewhere
      have kept : (releaseBlock memory slots[pid].base).pool[id] = memory.pool[id] := by
        rcases releaseBlock_cases memory slots[pid].base with ⟨_, same⟩ | done
        · rw [same]
        · exact Allocator.free_entry done used (Ne.symm elsewhereHere)
      rw [← kept] at used elsewhereLater ⊢
      exact inductionHypothesis used elsewhereLater

private theorem releaseBlock_usedExtents (sound : memory.Sound) (base : UInt32) :
    usedExtents (releaseBlock memory base).extents =
      (usedExtents memory.extents).filter fun extent => extent.start ≠ base.toNat := by
  rcases releaseBlock_cases memory base with ⟨refused, same⟩ | done
  · -- Nothing starts there, so nothing is filtered out.
    rw [same]
    refine (List.filter_eq_self.mpr ?_).symm
    intro extent member
    obtain ⟨inRegion, used⟩ := List.mem_filter.mp member
    exact decide_eq_true (Allocator.free_eq_error_iff.mp refused extent inRegion used)
  · exact Allocator.free_usedExtents_eq_filter sound done

/-- The used blocks that stay are those at addresses that nothing names.  The order in which the
others are given back does not matter. -/
theorem releaseAll_usedExtents (sound : memory.Sound) (dead : List Pid) :
    usedExtents (releaseAll slots dead memory).extents =
      (usedExtents memory.extents).filter fun extent =>
        ∀ pid ∈ dead, extent.start ≠ slots[pid].base.toNat := by
  induction dead generalizing memory with
  | nil =>
      simp [releaseAll]
  | cons pid rest inductionHypothesis =>
      rw [releaseAll, List.foldl_cons]
      refine (inductionHypothesis (releaseBlock_sound sound slots[pid].base).1).trans ?_
      rw [releaseBlock_usedExtents sound, List.filter_filter]
      apply List.filter_congr
      intro extent _
      rw [Bool.eq_iff_iff, Bool.and_eq_true, decide_eq_true_iff, decide_eq_true_iff,
        decide_eq_true_iff, List.forall_mem_cons]
      exact and_comm

theorem releaseAll_givesBack (sound : memory.Sound) (dead : List Pid) :
    GivesBack slots dead memory (releaseAll slots dead memory) :=
  ⟨(releaseAll_sound sound dead).1, (releaseAll_sound sound dead).2,
    releaseAll_usedExtents sound dead⟩

theorem releaseAll_backs_iff (sound : memory.Sound) (dead : List Pid)
    (backed : memory.Backs base size) :
    (releaseAll slots dead memory).Backs base size ↔ ∀ pid ∈ dead, slots[pid].base ≠ base := by
  rw [Allocator.backs_iff (releaseAll_sound sound dead).1, releaseAll_usedExtents sound]
  constructor
  · rintro ⟨extent, member, startEq, _⟩ pid isDead rfl
    exact of_decide_eq_true (List.mem_filter.mp member).2 pid isDead startEq
  · intro elsewhere
    obtain ⟨extent, member, startEq, fits⟩ := (Allocator.backs_iff sound).mp backed
    refine ⟨extent, List.mem_filter.mpr ⟨member, decide_eq_true ?_⟩, startEq, fits⟩
    intro pid isDead sameStart
    exact elsewhere pid isDead (UInt32.toNat_inj.mp (sameStart.symm.trans startEq))

end Release

section Swept

variable (table : ProcessTable) (memory : Allocator) (frame : TrapFrame)

theorem sweep_reap (dead : List Pid) (landing : Pid) :
    Sweep table memory frame dead
      ({ table with slots := reap (table.savedSlots frame) dead, current := landing },
        releaseAll table.slots dead memory) where
  config := rfl
  emptied _ member := reap_slot_of_mem member
  saved alive := (reap_slot_of_notMem alive).trans (savedSlots_current table frame)
  kept _ alive away := (reap_slot_of_notMem alive).trans (savedSlots_of_ne table frame away.symm)
  released := rfl
  entries _ used elsewhere := releaseAll_entry used elsewhere
  blocks sound :=
    ⟨(releaseAll_sound sound dead).1, (releaseAll_sound sound dead).2,
      releaseAll_usedExtents sound dead⟩

/-- Whatever the table is, an interrupt leaves it and the allocator alone or sweeps them. -/
theorem schedule_sweeps :
    (table.schedule memory frame).2 = (table, memory) ∨
      ∃ dead, Sweep table memory frame dead (table.schedule memory frame).2 := by
  have slotsEq := walk_slots maxProcesses table.current (table.savedSlots frame) memory
  have memoryEq := walk_memory maxProcesses table.current (table.savedSlots frame) memory
  rw [releaseAll_savedSlots] at memoryEq
  rcases schedule_cases table memory frame with
    ⟨_, scheduled⟩ | ⟨_, landing, _, scheduled⟩ | ⟨_, _, scheduled⟩
  · rw [scheduled]
    exact Or.inl rfl
  · rw [scheduled, turn, slotsEq, memoryEq]
    exact Or.inr ⟨_, table.sweep_reap memory frame _ landing⟩
  · rw [scheduled, turn, slotsEq, memoryEq]
    exact Or.inr ⟨_, table.sweep_reap memory frame _ table.current⟩

variable {table memory frame}

theorem Sweep.slot_of_notMem {dead : List Pid} {swept : ProcessTable × Allocator} {pid : Pid}
    (sweep : Sweep table memory frame dead swept) (alive : pid ∉ dead) :
    ∃ regs, swept.1.slots[pid] = { table.slots[pid] with regs } := by
  by_cases here : pid = table.current
  · subst pid
    exact ⟨frame, sweep.saved alive⟩
  · exact ⟨table.slots[pid].regs, sweep.kept pid alive here⟩

end Swept

end Microkernel.ProcessTable
