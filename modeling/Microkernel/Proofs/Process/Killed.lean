import Microkernel.Proofs.Process.Reclaim
import Microkernel.Proofs.Process.Switch

/-!
# Killed processes

A killed process waits until its slot is emptied, whatever operations follow, and the cursor does
not move onto it meanwhile.  Its memory waits with it, provided that no other slot names the same
address.  Two slots can do so if a client gave back the memory of one of them while it was
occupied; then the block goes with the first of the two that is reclaimed.
-/

namespace Microkernel

open Memory (Allocator)

namespace Operation

/-- Operations none of which creates a process in a slot. -/
def Uncreated (pid : Pid) : List Operation → ProcessTable × Allocator → Prop
  | [], _ => True
  | operation :: rest, state =>
      operation.created? state ≠ some pid ∧ Uncreated pid rest (operation.perform state)

instance decidableUncreated (pid : Pid) :
    (operations : List Operation) → (state : ProcessTable × Allocator) →
      Decidable (Uncreated pid operations state)
  | [], _ => inferInstanceAs (Decidable True)
  | operation :: rest, state =>
      have := decidableUncreated pid rest (operation.perform state)
      inferInstanceAs (Decidable (_ ∧ _))

private theorem performAll_induction {P : ProcessTable × Allocator → Prop} {pid : Pid}
    (step : ∀ (operation : Operation) (table : ProcessTable) (memory : Allocator),
      operation.created? (table, memory) ≠ some pid → P (table, memory) →
        P (operation.perform (table, memory)))
    {operations : List Operation} {state : ProcessTable × Allocator}
    (uncreated : Uncreated pid operations state) (holds : P state) :
    P (performAll operations state) := by
  induction operations generalizing state with
  | nil =>
      exact holds
  | cons operation rest inductionHypothesis =>
      exact inductionHypothesis uncreated.2 (step operation state.1 state.2 uncreated.1 holds)

private theorem perform_sound {memory : Allocator} (sound : memory.Sound)
    (minBlock_pos : 0 < memory.region.minBlock.toNat) (operation : Operation)
    (table : ProcessTable) :
    (operation.perform (table, memory)).2.Sound ∧
      (operation.perform (table, memory)).2.region = memory.region := by
  cases operation.outcome table memory with
  | refused performed =>
      rw [performed]
      exact ⟨sound, rfl⟩
  | created size slot table' memory' done inSlot performed =>
      obtain ⟨_, _, _, _, allocated, _⟩ := ProcessTable.create_eq_ok done
      rw [performed]
      exact Allocator.alloc_sound sound minBlock_pos allocated
  | updated number change table' flagsOnly staysDying done performed =>
      rw [performed]
      exact ⟨sound, rfl⟩
  | scheduled frame performed =>
      rw [performed, ProcessTable.schedule_memory]
      exact ProcessTable.releaseAll_sound sound _

theorem performAll_sound {state : ProcessTable × Allocator} (sound : state.2.Sound)
    (minBlock_pos : 0 < state.2.region.minBlock.toNat) (operations : List Operation) :
    (performAll operations state).2.Sound := by
  induction operations generalizing state with
  | nil =>
      exact sound
  | cons operation rest inductionHypothesis =>
      obtain ⟨soundNow, regionNow⟩ := perform_sound sound minBlock_pos operation state.1
      rw [← regionNow] at minBlock_pos
      exact inductionHypothesis soundNow minBlock_pos

end Operation

namespace ProcessTable

/-- No process is in the slot.  A frame may be, if the cursor was on the slot. -/
def Vacated (process : Process) : Prop :=
  process.isFree = true ∧ process.flags = .none

/-- A killed process that waits to be reclaimed, with the memory that it had. -/
def Condemned (killed process : Process) : Prop :=
  process.isDying = true ∧ process.base = killed.base ∧ process.size = killed.size

/-- The process in a slot has its memory in a used block, and no other slot names the address of
that block. -/
structure SoleTenant (table : ProcessTable) (memory : Allocator) (pid : Pid) : Prop where
  sound : memory.Sound
  minBlock_pos : 0 < memory.region.minBlock.toNat
  occupied : table.slots[pid].isFree = false
  backed : memory.Backs table.slots[pid].base table.slots[pid].size
  alone : ∀ other, pid ≠ other → table.slots[other].base ≠ table.slots[pid].base

section Killed

variable {table : ProcessTable} {memory : Allocator} {pid : Pid} {killed : Process}
  {operation : Operation}

/-- What an operation does to a slot in which it creates no process: it may get a frame, other
flags if it is occupied, or be emptied if it is dying.  A dying slot gets no flags that spare it. -/
theorem perform_slot (notCreated : operation.created? (table, memory) ≠ some pid) :
    let process := table.slots[pid]
    let after := (operation.perform (table, memory)).1.slots[pid]
    (∃ regs, after = { process with regs }) ∨
      (process.isFree = false ∧ (process.isDying = true → after.isDying = true) ∧
        ∃ flags, after = { process with flags }) ∨
      after = .empty := by
  cases operation.outcome table memory with
  | refused performed =>
      rw [performed]
      exact Or.inl ⟨table.slots[pid].regs, rfl⟩
  | created size slot table' memory' done inSlot performed =>
      have elsewhere : slot ≠ pid := fun same => notCreated (same ▸ inSlot)
      rw [performed, create_slot_of_ne elsewhere done]
      exact Or.inl ⟨table.slots[pid].regs, rfl⟩
  | updated number change table' flagsOnly staysDying done performed =>
      obtain ⟨changed, _, occupied, tableEq⟩ := update_eq_ok done
      rw [performed, tableEq]
      by_cases here : changed = pid
      · subst changed
        have afterEq := getElem_put_self table.slots pid (change table.slots[pid])
        obtain ⟨flags, changeEq⟩ := flagsOnly table.slots[pid]
        refine Or.inr (Or.inl ⟨occupied, ?_, flags, afterEq.trans changeEq⟩)
        intro dying
        exact (congrArg Process.isDying afterEq).trans (staysDying _ dying)
      · exact Or.inl ⟨table.slots[pid].regs, getElem_put_of_ne _ here⟩
  | scheduled frame performed =>
      rw [performed]
      rcases schedule_slot table memory frame pid with unchanged | saved | ⟨_, emptied⟩
      · rw [unchanged]
        exact Or.inl ⟨table.slots[pid].regs, rfl⟩
      · rw [saved]
        exact Or.inl (savedSlots_slot table frame pid)
      · exact Or.inr (Or.inr emptied)

theorem Vacated.perform (vacated : Vacated table.slots[pid])
    (notCreated : operation.created? (table, memory) ≠ some pid) :
    Vacated (operation.perform (table, memory)).1.slots[pid] := by
  rcases perform_slot notCreated with ⟨regs, framed⟩ | ⟨occupied, _⟩ | emptied
  · rw [framed]
    exact vacated
  · exact absurd (occupied.symm.trans vacated.1) Bool.false_ne_true
  · rw [emptied]
    exact ⟨rfl, rfl⟩

/-- A killed process waits on until its slot is emptied. -/
theorem Condemned.perform (condemned : Condemned killed table.slots[pid])
    (notCreated : operation.created? (table, memory) ≠ some pid) :
    Vacated (operation.perform (table, memory)).1.slots[pid] ∨
      Condemned killed (operation.perform (table, memory)).1.slots[pid] := by
  obtain ⟨dying, sameMemory⟩ := condemned
  rcases perform_slot notCreated with ⟨regs, framed⟩ | ⟨_, staysDying, flags, flagged⟩ | emptied
  · rw [framed]
    exact Or.inr ⟨dying, sameMemory⟩
  · refine Or.inr ⟨staysDying dying, ?_⟩
    rw [flagged]
    exact sameMemory
  · rw [emptied]
    exact Or.inl ⟨rfl, rfl⟩

theorem SoleTenant.create {table' : ProcessTable} {memory' : Allocator} {slot : Pid}
    {size : UInt32} (tenant : SoleTenant table memory pid) (elsewhere : slot ≠ pid)
    (done : table.create memory size = .ok slot (table', memory')) :
    SoleTenant table' memory' pid := by
  obtain ⟨base, total, _, _, allocated, tableEq⟩ := create_eq_ok done
  obtain ⟨soundNow, regionNow⟩ :=
    Allocator.alloc_sound tenant.sound tenant.minBlock_pos allocated
  have slotEq := create_slot_of_ne elsewhere done
  refine ⟨soundNow, ?_, ?_, ?_, ?_⟩
  · rw [regionNow]
    exact tenant.minBlock_pos
  · rw [slotEq]
    exact tenant.occupied
  · rw [slotEq]
    exact tenant.backed.alloc tenant.sound tenant.minBlock_pos allocated
  · -- The new process has its block where no block was used.
    have starts := Allocator.alloc_usedStarts tenant.sound tenant.minBlock_pos allocated
    have distinct := starts.nodup_iff.mp (Allocator.usedStarts_nodup soundNow)
    have notTaken := (List.nodup_cons.mp distinct).1
    rw [slotEq, tableEq]
    let Apart := fun (other : Pid) (process : Process) =>
      pid ≠ other → process.base ≠ table.slots[pid].base
    refine forall_getElem_put (P := Apart) ?_ (fun other _ => tenant.alone other)
    intro _ sameBase
    apply notTaken
    rw [show base = _ from sameBase]
    exact tenant.backed.mem_usedStarts tenant.sound

theorem SoleTenant.update {table' : ProcessTable} {number : Nat} {change : Process → Process}
    (tenant : SoleTenant table memory pid) (flagsOnly : OnlyFlags change)
    (done : table.update number change = .ok () table') : SoleTenant table' memory pid := by
  have kept : ∀ other : Pid, table'.slots[other].base = table.slots[other].base ∧
      table'.slots[other].size = table.slots[other].size := by
    intro other
    rcases update_slot flagsOnly done other with unchanged | ⟨_, flags, changed⟩
    · rw [unchanged]
      exact ⟨rfl, rfl⟩
    · rw [changed]
      exact ⟨rfl, rfl⟩
  obtain ⟨baseEq, sizeEq⟩ := kept pid
  refine ⟨tenant.sound, tenant.minBlock_pos, ?_, ?_, ?_⟩
  · rw [Process.isFree, baseEq]
    exact tenant.occupied
  · rw [baseEq, sizeEq]
    exact tenant.backed
  · intro other different
    rw [(kept other).1, baseEq]
    exact tenant.alone other different

theorem SoleTenant.sweep {frame : TrapFrame} {dead : List Pid} {swept : ProcessTable × Allocator}
    (tenant : SoleTenant table memory pid) (sweep : Sweep table memory frame dead swept)
    (alive : pid ∉ dead) : SoleTenant swept.1 swept.2 pid := by
  obtain ⟨soundNow, regionNow, _⟩ := sweep.blocks tenant.sound
  obtain ⟨regs, slotEq⟩ := sweep.slot_of_notMem alive
  have notDead : ∀ other ∈ dead, pid ≠ other := fun other member same => alive (same ▸ member)
  refine ⟨soundNow, ?_, ?_, ?_, ?_⟩
  · rw [regionNow]
    exact tenant.minBlock_pos
  · rw [slotEq]
    exact tenant.occupied
  · rw [slotEq, sweep.released]
    refine (releaseAll_backs_iff tenant.sound dead tenant.backed).mpr ?_
    exact fun other member => tenant.alone other (notDead other member)
  · intro other different
    rw [slotEq]
    by_cases member : other ∈ dead
    · rw [sweep.emptied other member]
      intro sameBase
      have occupied := tenant.occupied
      rw [Process.isFree, ← sameBase] at occupied
      exact absurd occupied (by decide)
    · obtain ⟨otherRegs, otherEq⟩ := sweep.slot_of_notMem member
      rw [otherEq]
      exact tenant.alone other different

/-- As long as a killed process waits, its block stays its own. -/
theorem SoleTenant.perform (tenant : SoleTenant table memory pid)
    (notCreated : operation.created? (table, memory) ≠ some pid)
    (occupied : (operation.perform (table, memory)).1.slots[pid].isFree = false) :
    SoleTenant (operation.perform (table, memory)).1 (operation.perform (table, memory)).2 pid := by
  cases operation.outcome table memory with
  | refused performed =>
      rw [performed]
      exact tenant
  | created size slot table' memory' done inSlot performed =>
      have elsewhere : slot ≠ pid := fun same => notCreated (same ▸ inSlot)
      rw [performed]
      exact tenant.create elsewhere done
  | updated number change table' flagsOnly staysDying done performed =>
      rw [performed]
      exact tenant.update flagsOnly done
  | scheduled frame performed =>
      rw [performed] at occupied ⊢
      rcases table.schedule_sweeps memory frame with unchanged | ⟨dead, sweep⟩
      · rw [unchanged]
        exact tenant
      · refine tenant.sweep sweep ?_
        intro member
        rw [sweep.emptied pid member] at occupied
        exact absurd occupied (by decide)

/-- Where every used block has one owner, every process is alone with its block. -/
theorem Owned.soleTenant {region : Memory.Region} {held : List UInt32}
    (owned : Owned region table.slots memory held) (minBlock_pos : 0 < region.minBlock.toNat)
    (occupied : table.slots[pid].isFree = false) : SoleTenant table memory pid := by
  refine ⟨owned.sound, ?_, occupied, ?_, ?_⟩
  · rw [owned.region_eq]
    exact minBlock_pos
  · exact (Allocator.backs_iff owned.sound).mpr ((owned.housed pid).1 occupied)
  · intro other different sameBase
    have otherOccupied : table.slots[other].isFree = false := by
      rw [Process.isFree, sameBase]
      exact occupied
    exact owned.base_ne different occupied otherOccupied sameBase

/-- The scheduler moves onto neither an emptied slot nor a killed process. -/
theorem current_of_not_isRunnable {frame : TrapFrame} (idle : table.slots[pid].isRunnable ≠ true)
    (onto : (table.schedule memory frame).2.1.current = pid) :
    table.current = pid ∧ (table.schedule memory frame).1 = frame := by
  by_cases here : table.current = pid
  · exact ⟨here, schedule_frame_of_stays (onto.trans here.symm)⟩
  · exact absurd (schedule_frame_of_moves here onto).1 idle

theorem not_isRunnable_of_vacated {process : Process} (vacated : Vacated process) :
    process.isRunnable ≠ true := by
  simp [Process.isRunnable, Process.isActive, vacated.2, ProcessFlags.none]

/-- Whatever happens to a killed process, it waits with its memory or its slot was emptied. -/
theorem condemned_performAll (dying : table.slots[pid].isDying = true)
    {operations : List Operation}
    (uncreated : Operation.Uncreated pid operations (table, memory)) :
    let killed := table.slots[pid]
    let reached := Operation.performAll operations (table, memory)
    Vacated reached.1.slots[pid] ∨
      Condemned killed reached.1.slots[pid] ∧
        (SoleTenant table memory pid → reached.2.Backs killed.base killed.size) := by
  intro killed reached
  let Waits := fun state : ProcessTable × Allocator =>
    Vacated state.1.slots[pid] ∨ Condemned killed state.1.slots[pid] ∧
      (SoleTenant table memory pid → SoleTenant state.1 state.2 pid)
  have waits : Waits reached := by
    refine Operation.performAll_induction ?_ uncreated (Or.inr ⟨⟨dying, rfl, rfl⟩, id⟩)
    rintro operation current currentMemory notCreated (vacated | ⟨condemned, tenant⟩)
    · exact Or.inl (vacated.perform notCreated)
    · refine (condemned.perform notCreated).imp_right fun condemnedNow => ⟨condemnedNow, ?_⟩
      intro first
      refine (tenant first).perform notCreated ?_
      rw [Process.isFree, condemnedNow.2.1]
      exact first.occupied
  refine waits.imp_right ?_
  rintro ⟨condemned, tenant⟩
  refine ⟨condemned, fun first => ?_⟩
  have backed := (tenant first).backed
  rwa [condemned.2.1, condemned.2.2] at backed

end Killed

end ProcessTable

end Microkernel
