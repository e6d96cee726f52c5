import Mathlib.Order.Bounds.Basic
import Microkernel.Proofs.Process.Killed

/-!
# One interrupt of the timer

What an interrupt of the timer does, whatever the table, the allocator and the frame are.  The
first runnable slot is named by its distance from the cursor, one for the slot behind the cursor
and a whole lap for the slot under it; the dying slots at shorter distances are reclaimed, and no
other slot and no other used block is touched.
-/

namespace Microkernel

open Memory (Allocator)

namespace ProcessTable

/-- The slot to which a cursor comes in a number of steps. -/
def atDistance (cursor : Pid) (distance : Nat) : Pid :=
  Fin.ofNat maxProcesses (cursor.val + distance)

/-- The distances within a lap at which a runnable slot lies. -/
def runnableDistances (table : ProcessTable) : Set Nat :=
  {distance | 1 ≤ distance ∧ distance ≤ maxProcesses ∧
    table.slots[atDistance table.current distance].isRunnable = true}

/-- The dying slots at distances from one up to a bound, in the order of the distances. -/
def dyingWithin (table : ProcessTable) (bound : Nat) : List Pid :=
  ((List.range' 1 bound).map (atDistance table.current)).filter fun pid =>
    table.slots[pid].isDying

private theorem atDistance_nextSlot (cursor : Pid) (distance : Nat) :
    atDistance (nextSlot cursor) distance = atDistance cursor (1 + distance) := by
  apply Fin.ext
  simp only [atDistance, nextSlot, Fin.ofNat, Fin.val_add, maxProcesses, Fin.val_one]
  omega

private theorem atDistance_eq_self_iff {cursor : Pid} {distance : Nat} (positive : 1 ≤ distance)
    (within : distance ≤ maxProcesses) :
    atDistance cursor distance = cursor ↔ distance = maxProcesses := by
  have bound := cursor.isLt
  rw [Fin.ext_iff]
  simp only [atDistance, Fin.ofNat, maxProcesses] at *
  omega

private theorem ahead_eq_map (steps : Nat) (cursor : Pid) :
    ahead steps cursor = (List.range' 1 steps).map (atDistance cursor) := by
  induction steps generalizing cursor with
  | zero =>
      rfl
  | succ steps inductionHypothesis =>
      have shifted : List.range' (1 + 1) steps = (List.range' 1 steps).map (1 + ·) :=
        List.map_add_range' 1 steps 1 |>.symm
      rw [ahead_succ, List.range'_succ, List.map_cons, shifted, List.map_map,
        inductionHypothesis]
      congr 1
      exact List.map_congr_left fun distance _ => atDistance_nextSlot cursor distance

private theorem mem_ahead_iff {steps : Nat} {cursor pid : Pid} :
    pid ∈ ahead steps cursor ↔
      ∃ distance, 1 ≤ distance ∧ distance ≤ steps ∧ atDistance cursor distance = pid := by
  rw [ahead_eq_map, List.mem_map]
  refine exists_congr fun distance => ?_
  rw [List.mem_range'_1, and_assoc, Nat.lt_one_add_iff]

private theorem dyingWithin_eq (table : ProcessTable) (bound : Nat) :
    table.dyingWithin bound = dyingOf table.slots (ahead bound table.current) := by
  rw [ahead_eq_map]
  rfl

private theorem mem_dyingWithin_lap {table : ProcessTable} {pid : Pid} :
    pid ∈ table.dyingWithin maxProcesses ↔ table.slots[pid].isDying = true := by
  rw [dyingWithin_eq, dyingOf, List.mem_filter]
  exact and_iff_right (mem_lap table.current pid)

/-- The slot under the cursor lies a whole lap ahead. -/
theorem current_notMem_dyingWithin (table : ProcessTable) {bound : Nat}
    (short : bound < maxProcesses) : table.current ∉ table.dyingWithin bound := by
  intro member
  rw [dyingWithin_eq] at member
  obtain ⟨distance, positive, within, here⟩ := mem_ahead_iff.mp (List.mem_of_mem_filter member)
  have whole := (atDistance_eq_self_iff positive (within.trans short.le)).mp here
  omega

section Interrupt

variable {table : ProcessTable} {distance : Nat} (memory : Allocator) (frame : TrapFrame)

/-- Up to the least distance there is nothing runnable, and at that distance there is. -/
theorem turn_of_least (least : IsLeast table.runnableDistances distance) :
    let dead := table.dyingWithin (distance - 1)
    table.turn memory frame =
      ⟨reap (table.savedSlots frame) dead, releaseAll table.slots dead memory,
        some (atDistance table.current distance), dead⟩ := by
  obtain ⟨⟨positive, within, runnable⟩, lowest⟩ := least
  have split : ahead distance table.current =
      ahead (distance - 1) table.current ++ [atDistance table.current distance] := by
    obtain ⟨before, rfl⟩ := Nat.exists_eq_add_of_le' positive
    rw [Nat.add_sub_cancel, ahead_eq_map, ahead_eq_map, List.range'_1_concat, List.map_append,
      Nat.add_comm 1 before]
    rfl
  have idle : ∀ other ∈ ahead (distance - 1) table.current,
      table.slots[other].isRunnable ≠ true := by
    intro other member otherRunnable
    obtain ⟨nearer, nearerPositive, nearerLe, rfl⟩ := mem_ahead_iff.mp member
    have notNearer := lowest ⟨nearerPositive, by omega, otherRunnable⟩
    omega
  rw [dyingWithin_eq]
  exact turn_of_ahead memory frame within split idle runnable

/-- Without a runnable slot the walk goes once round the table and comes to every dying slot. -/
theorem turn_of_none (noneRunnable : table.runnableDistances = ∅) :
    let dead := table.dyingWithin maxProcesses
    table.turn memory frame =
      ⟨reap (table.savedSlots frame) dead, releaseAll table.slots dead memory, none, dead⟩ := by
  have idle : ∀ pid ∈ lap table.current, (table.savedSlots frame)[pid].isRunnable ≠ true := by
    intro pid member runnable
    rw [savedSlots_isRunnable] at runnable
    obtain ⟨distance, positive, within, rfl⟩ := mem_ahead_iff.mp member
    exact Set.eq_empty_iff_forall_notMem.mp noneRunnable distance ⟨positive, within, runnable⟩
  have deadEq : dyingOf (table.savedSlots frame) (lap table.current) =
      table.dyingWithin maxProcesses := by
    rw [dyingWithin_eq]
    exact dyingOf_congr fun pid _ => savedSlots_isDying table frame pid
  intro dead
  have walked := walk_past 0 memory (lap_nodup table.current) idle
  rw [← lap, deadEq] at walked
  rw [turn]
  refine walked.trans ?_
  rw [← releaseAll_savedSlots table frame dead memory]
  exact congrArg (Walk.mk _ _ _) (List.append_nil dead)

theorem schedule_of_least (enough : 2 ≤ table.activeCount)
    (least : IsLeast table.runnableDistances distance) :
    let scheduled := table.schedule memory frame
    let landing := atDistance table.current distance
    Sweep table memory frame (table.dyingWithin (distance - 1)) scheduled.2 ∧
      scheduled.2.1.slots[table.current] = { table.slots[table.current] with regs := frame } ∧
      scheduled.2.1.current = landing ∧
      scheduled.1 = if distance = maxProcesses then frame else table.slots[landing].regs := by
  have scheduled := turn_of_least memory frame least
  obtain ⟨⟨positive, within, runnable⟩, _⟩ := least
  have alive : atDistance table.current distance ∉ table.dyingWithin (distance - 1) := by
    intro member
    exact not_isDying_of_isRunnable runnable (List.mem_filter.mp member).2
  have survives : table.current ∉ table.dyingWithin (distance - 1) :=
    table.current_notMem_dyingWithin (by omega)
  rw [schedule, if_neg (Nat.not_lt.mpr enough), scheduled]
  have swept := table.sweep_reap memory frame (table.dyingWithin (distance - 1))
    (atDistance table.current distance)
  refine ⟨swept, swept.saved survives, rfl, ?_⟩
  change (reap (table.savedSlots frame) _)[atDistance table.current distance].regs = _
  rw [reap_slot_of_notMem alive]
  by_cases whole : distance = maxProcesses
  · rw [if_pos whole, (atDistance_eq_self_iff positive within).mpr whole, savedSlots_current]
  · have away : table.current ≠ atDistance table.current distance := fun same =>
      whole ((atDistance_eq_self_iff positive within).mp same.symm)
    rw [if_neg whole, savedSlots_of_ne table frame away]

theorem schedule_of_none (enough : 2 ≤ table.activeCount)
    (noneRunnable : table.runnableDistances = ∅) :
    let scheduled := table.schedule memory frame
    Sweep table memory frame (table.dyingWithin maxProcesses) scheduled.2 ∧
      scheduled.2.1.current = table.current ∧ scheduled.1 = frame := by
  rw [schedule, if_neg (Nat.not_lt.mpr enough), turn_of_none memory frame noneRunnable]
  exact ⟨table.sweep_reap memory frame _ table.current, rfl, rfl⟩

end Interrupt

/-- With fewer than two active slots an interrupt changes nothing.  Otherwise the dying slots
before the first runnable one ahead are swept away, the frame is saved under the cursor, and the
cursor moves to that runnable slot, whose frame is resumed; without a runnable slot all dying ones
are swept away and the interrupted frame is resumed.  Whatever operations follow, a killed slot
keeps the memory that it names until it is emptied, in a used block of its own if it was the only
slot to name it, and the cursor does not move onto it before a new process is created there. -/
theorem schedule_exact (table : ProcessTable) (memory : Allocator) (frame : TrapFrame) :
    let scheduled := table.schedule memory frame
    (table.activeCount < 2 → scheduled = (frame, table, memory)) ∧
    (2 ≤ table.activeCount →
      (∀ distance, IsLeast table.runnableDistances distance →
        let landing := atDistance table.current distance
        Sweep table memory frame (table.dyingWithin (distance - 1)) scheduled.2 ∧
          scheduled.2.1.slots[table.current] = { table.slots[table.current] with regs := frame } ∧
          scheduled.2.1.current = landing ∧
          scheduled.1 = if distance = maxProcesses then frame else table.slots[landing].regs) ∧
      (table.runnableDistances = ∅ →
        (∀ pid, pid ∈ table.dyingWithin maxProcesses ↔ table.slots[pid].isDying = true) ∧
          Sweep table memory frame (table.dyingWithin maxProcesses) scheduled.2 ∧
          scheduled.2.1.current = table.current ∧ scheduled.1 = frame)) ∧
    ∀ pid : Pid, table.slots[pid].isDying = true →
      ∀ operations, Operation.Uncreated pid operations (table, memory) →
        let killed := table.slots[pid]
        let reached := Operation.performAll operations (table, memory)
        (Vacated reached.1.slots[pid] ∨
          Condemned killed reached.1.slots[pid] ∧
            (SoleTenant table memory pid → reached.2.Backs killed.base killed.size)) ∧
        ∀ later : TrapFrame,
          let next := reached.1.schedule reached.2 later
          next.2.1.current = pid → reached.1.current = pid ∧ next.1 = later := by
  refine ⟨fun few => if_pos few, fun enough => ⟨?_, ?_⟩, ?_⟩
  · intro distance least
    exact schedule_of_least memory frame enough least
  · intro noneRunnable
    exact ⟨fun _ => mem_dyingWithin_lap, schedule_of_none memory frame enough noneRunnable⟩
  · intro pid dying operations uncreated
    have waits := condemned_performAll dying uncreated
    refine ⟨waits, fun later => current_of_not_isRunnable ?_⟩
    rcases waits with vacated | ⟨⟨dyingNow, _⟩, _⟩
    · exact not_isRunnable_of_vacated vacated
    · exact fun runnable => not_isDying_of_isRunnable runnable dyingNow

def vacantTable : ProcessTable × Allocator :=
  (.new .default, (Allocator.new .default).init)

/-- Four running processes, of which the second and the last are killed while the first runs. -/
def twoKilled : ProcessTable × Allocator :=
  Operation.performAll
    [.create 8192, .create 1, .create 70000, .create 8192, .start 0, .start 1, .start 2, .start 3,
      .kill 1, .kill 3] vacantTable

def allKilled : ProcessTable × Allocator :=
  Operation.performAll [.kill 0, .kill 2] twoKilled

/-- The third process is resumed, and a new one takes the place of the second. -/
def whileLastWaits : List Operation :=
  [.schedule (TrapFrame.zero.setPc 8), .create 5, .start 1]

private theorem vacantTable_sound : vacantTable.2.Sound :=
  (Allocator.init_represents ⟨by decide, by decide, by decide, by decide⟩).sound

theorem schedule_exact_twoKilled :
    let frame := TrapFrame.zero.setPc 12
    let resumed := twoKilled.1.schedule twoKilled.2 frame
    let stuck := allKilled.1.schedule allKilled.2 frame
    let reached := Operation.performAll whileLastWaits twoKilled
    vacantTable.1.schedule vacantTable.2 frame = (frame, vacantTable) ∧
      (IsLeast twoKilled.1.runnableDistances 2 ∧
        Sweep twoKilled.1 twoKilled.2 frame [1] resumed.2 ∧ resumed.2.1.current = 2 ∧
        resumed.1 = twoKilled.1.slots[(2 : Pid)].regs) ∧
      (allKilled.1.runnableDistances = ∅ ∧
        Sweep allKilled.1 allKilled.2 frame [1, 2, 3, 0] stuck.2 ∧ stuck.1 = frame) ∧
      SoleTenant twoKilled.1 twoKilled.2 3 ∧
      reached.2.Backs twoKilled.1.slots[(3 : Pid)].base twoKilled.1.slots[(3 : Pid)].size ∧
      (reached.1.schedule reached.2 frame).2.1.current ≠ 3 := by
  intro frame resumed stuck reached
  have still := (schedule_exact vacantTable.1 vacantTable.2 frame).1 (by decide +kernel)
  obtain ⟨_, moves, waits⟩ := schedule_exact twoKilled.1 twoKilled.2 frame
  have least : IsLeast twoKilled.1.runnableDistances 2 := by
    refine ⟨⟨by decide, by decide, by decide +kernel⟩, ?_⟩
    rintro distance ⟨positive, _, runnable⟩
    by_contra nearer
    obtain rfl : distance = 1 := by omega
    revert runnable
    decide +kernel
  obtain ⟨swept, _, current, regs⟩ := (moves (by decide +kernel)).1 2 least
  have noneRunnable : allKilled.1.runnableDistances = ∅ := by
    apply Set.eq_empty_iff_forall_notMem.mpr
    rintro distance ⟨_, _, runnable⟩
    have idle : ∀ pid : Pid, allKilled.1.slots[pid].isRunnable ≠ true := by
      decide +kernel
    exact idle _ runnable
  obtain ⟨_, emptied, _, same⟩ :=
    ((schedule_exact allKilled.1 allKilled.2 frame).2.1 (by decide +kernel)).2 noneRunnable
  have tenant : SoleTenant twoKilled.1 twoKilled.2 3 :=
    ⟨Operation.performAll_sound vacantTable_sound (by decide) _, by decide +kernel,
      by decide +kernel, by decide +kernel, by decide +kernel⟩
  obtain ⟨kept, never⟩ := waits 3 (by decide +kernel) whileLastWaits (by decide +kernel)
  refine ⟨still, ⟨least, ?_, current, regs⟩, ⟨noneRunnable, ?_, same⟩, tenant, ?_, ?_⟩
  · have dead : twoKilled.1.dyingWithin 1 = [1] := by decide +kernel
    exact dead ▸ swept
  · have dead : allKilled.1.dyingWithin maxProcesses = [1, 2, 3, 0] := by decide +kernel
    exact dead ▸ emptied
  · have occupied : ¬ Vacated reached.1.slots[(3 : Pid)] := by
      rintro ⟨free, _⟩
      revert free
      decide +kernel
    exact (kept.resolve_left occupied).2 tenant
  · intro onto
    have here := (never frame onto).1
    revert here
    decide +kernel

end ProcessTable

end Microkernel
