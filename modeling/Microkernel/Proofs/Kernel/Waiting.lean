import Mathlib.Data.List.Perm.Subperm
import Microkernel.Proofs.Kernel.Events
import Microkernel.Proofs.Process.Rotation

/-!
# Who has the processor after an interrupt of the timer

With two active slots or more the scheduler goes round the table, and it stops on a runnable slot if
there is one.  With fewer it does nothing, wherever the cursor is.  So a process that was stopped
keeps the processor from a runnable one exactly where the runnable one is the only active slot.
-/

namespace Microkernel

open Memory (Allocator)

namespace ProcessTable

/-- A runnable slot waits while the cursor is on one that is not runnable. -/
def Stalled (table : ProcessTable) : Prop :=
  (∃ pid : Pid, table.slots[pid].isRunnable = true) ∧
    table.slots[table.current].isRunnable ≠ true

/-- The only active slot is runnable, and the cursor is on another one. -/
def LoneElsewhere (table : ProcessTable) : Prop :=
  table.activeCount = 1 ∧
    ∃ pid : Pid, pid ≠ table.current ∧ table.slots[pid].isRunnable = true

private theorem isActive_of_isRunnable {process : Process} (runnable : process.isRunnable = true) :
    process.isActive = true := by
  rw [Process.isRunnable, Bool.and_eq_true] at runnable
  exact runnable.1

/-- Distinct active slots are counted one by one. -/
theorem length_le_activeCount (table : ProcessTable) {pids : List Pid} (nodup : pids.Nodup)
    (active : ∀ pid ∈ pids, table.slots[pid].isActive = true) :
    pids.length ≤ table.activeCount := by
  let activePids := (List.finRange maxProcesses).filter fun pid => table.slots[pid].isActive
  have counted : activePids.length = table.activeCount := by
    rw [activeCount, toList_eq_map, List.countP_map, ← List.countP_eq_length_filter]
    rfl
  have listed : pids ⊆ activePids :=
    fun pid member => List.mem_filter.mpr ⟨List.mem_finRange pid, active pid member⟩
  rw [← counted]
  exact (List.Nodup.subperm nodup listed).length_le

/-- Where nothing is switched, a runnable slot waits just if it is the only active one. -/
theorem stalled_iff_of_few {table : ProcessTable} (few : table.activeCount < 2) :
    table.Stalled ↔ table.LoneElsewhere := by
  constructor
  · rintro ⟨⟨pid, runnable⟩, parked⟩
    have away : pid ≠ table.current := by
      rintro rfl
      exact parked runnable
    have counted : [pid].length ≤ table.activeCount := by
      refine table.length_le_activeCount (List.nodup_singleton pid) ?_
      intro other member
      rw [List.mem_singleton.mp member]
      exact isActive_of_isRunnable runnable
    rw [List.length_singleton] at counted
    exact ⟨Nat.le_antisymm (Nat.le_of_lt_succ few) counted, pid, away, runnable⟩
  · rintro ⟨_, pid, away, runnable⟩
    refine ⟨⟨pid, runnable⟩, ?_⟩
    intro currentRunnable
    have counted : [pid, table.current].length ≤ table.activeCount := by
      refine table.length_le_activeCount (by simp [away]) ?_
      intro other member
      rcases List.mem_pair.mp member with rfl | rfl
      · exact isActive_of_isRunnable runnable
      · exact isActive_of_isRunnable currentRunnable
    exact absurd counted (Nat.not_le.mpr few)

/-- With enough active slots the cursor comes to rest on a runnable slot if there is one. -/
theorem not_stalled_of_enough {table : ProcessTable} (memory : Allocator) (frame : TrapFrame)
    (enough : 2 ≤ table.activeCount) : ¬ (table.schedule memory frame).2.1.Stalled := by
  rintro ⟨⟨pid, runnableAfter⟩, parked⟩
  rw [schedule_isRunnable] at runnableAfter
  have member : pid ∈ runnableOf table.slots (lap table.current) :=
    List.mem_filter.mpr ⟨mem_lap table.current pid, runnableAfter⟩
  obtain ⟨passed, first, later, split, idle, runnable⟩ :=
    exists_first_runnable (List.length_pos_of_mem member)
  have advance :=
    (schedule_of_ahead memory frame enough (Nat.le_refl maxProcesses) split idle runnable).1
  rw [schedule_isRunnable, advance.current] at parked
  exact parked runnable

private theorem schedule_stalled_iff (table : ProcessTable) (memory : Allocator)
    (frame : TrapFrame) :
    (table.schedule memory frame).2.1.Stalled ↔ table.LoneElsewhere := by
  by_cases few : table.activeCount < 2
  · rw [schedule, if_pos few]
    exact stalled_iff_of_few few
  · have enough : 2 ≤ table.activeCount := Nat.le_of_not_lt few
    refine iff_of_false (not_stalled_of_enough memory frame enough) ?_
    rintro ⟨one, _⟩
    omega

/-- Where the cursor stays the interrupted frame goes on, elsewhere the frame saved there. -/
theorem schedule_frame (table : ProcessTable) (memory : Allocator) (frame : TrapFrame) :
    let scheduled := table.schedule memory frame
    scheduled.1 =
      if scheduled.2.1.current = table.current then frame
      else table.slots[scheduled.2.1.current].regs := by
  intro scheduled
  split
  · next stays => exact schedule_frame_of_stays stays
  · next moves => exact (schedule_frame_of_moves (Ne.symm moves) rfl).2

end ProcessTable

namespace Kernel

variable {C : Type} [PolledController C]

/-- After an interrupt of the timer the slot under the cursor, whose frame is resumed, is runnable
if any slot is, except where the only active slot was runnable and not under the cursor.  There
the interrupted frame goes on and the processes and the memory stay as they were. -/
theorem interrupt_stalled_iff (kernel : Kernel C) (frame : TrapFrame) {lines : IrqLines}
    (timer : lines.timer = true) :
    let resumed := kernel.interrupt frame lines
    let table := resumed.state.processes
    (table.Stalled ↔ kernel.processes.LoneElsewhere) ∧
      (resumed.frame =
        if table.current = kernel.processes.current then frame
        else kernel.processes.slots[table.current].regs) ∧
      (kernel.processes.LoneElsewhere →
        resumed.frame = frame ∧ table = kernel.processes ∧
          resumed.state.memory = kernel.memory) := by
  intro resumed table
  obtain ⟨frameEq, processesEq, memoryEq⟩ := interrupt_of_timer kernel frame lines timer
  have tableEq : table = (kernel.processes.schedule kernel.memory frame).2.1 := processesEq
  refine ⟨?_, ?_, ?_⟩
  · rw [tableEq]
    exact kernel.processes.schedule_stalled_iff kernel.memory frame
  · rw [frameEq, tableEq]
    exact kernel.processes.schedule_frame kernel.memory frame
  · rintro ⟨one, _⟩
    have few : kernel.processes.activeCount < 2 := by
      omega
    have unchanged : kernel.processes.schedule kernel.memory frame =
        (frame, kernel.processes, kernel.memory) :=
      if_pos few
    rw [frameEq, tableEq, memoryEq, unchanged]
    exact ⟨rfl, rfl, rfl⟩

/-- Three processes of which the first was stopped while it ran and the second was killed. -/
def firstStopped : Kernel ReplayedUart :=
  (quiet.boot 8192).2.afterAll
    [.call 6 (.uint32 1), .call 6 (.uint32 1), .call 7 (.uint32 1), .call 7 (.uint32 2),
      .call 9 (.uint32 1), .call 8 (.uint32 0)]

theorem interrupt_stalled_iff_firstStopped :
    let resumed := firstStopped.interrupt (TrapFrame.zero.setPc 8) .all
    IrqLines.all.timer = true ∧ ¬ firstStopped.processes.LoneElsewhere ∧
      ¬ resumed.state.processes.Stalled ∧ resumed.state.processes.current = 2 ∧
      resumed.frame = firstStopped.processes.slots[(2 : Pid)].regs := by
  intro resumed
  have timer : IrqLines.all.timer = true := rfl
  obtain ⟨stalled, frame, _⟩ :=
    firstStopped.interrupt_stalled_iff (TrapFrame.zero.setPc 8) timer
  have notLone : ¬ firstStopped.processes.LoneElsewhere := by
    rintro ⟨one, _⟩
    revert one
    decide +kernel
  have moved : resumed.state.processes.current = 2 := by
    decide +kernel
  have away : firstStopped.processes.current ≠ 2 := by
    decide +kernel
  refine ⟨timer, notLone, fun after => notLone (stalled.mp after), moved, ?_⟩
  rw [frame, moved, if_neg (Ne.symm away)]

/-- A second process waits, runnable, while the first one goes on after it was stopped. -/
theorem stopped_process_goes_on :
    let stopped := (quiet.boot 8192).2.afterAll
      [.call 6 (.uint32 8192), .call 7 (.uint32 1), .call 8 (.uint32 0)]
    let resumed := stopped.interrupt (TrapFrame.zero.setPc 100) .all
    resumed.state.processes.Stalled ∧ resumed.state.processes.current = 0 ∧
      resumed.frame = TrapFrame.zero.setPc 100 := by
  refine ⟨⟨⟨1, ?_⟩, ?_⟩, ?_, ?_⟩
  · decide +kernel
  · decide +kernel
  · decide +kernel
  · decide +kernel

end Kernel

end Microkernel
