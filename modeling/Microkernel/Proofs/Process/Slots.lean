import Microkernel.Process.Schedule
import Microkernel.Proofs.Memory.Handout

/-!
# The slots of the process table

What the operations on a table and the cursor's walk do to the slots.  An operation changes one
slot; the walk empties dying slots and leaves all others alone, and it stops on a slot that was
runnable before it began.
-/

namespace Microkernel.ProcessTable

open Memory (Allocator)

variable {table table' : ProcessTable} {memory memory' : Allocator}

theorem freeSlot?_eq_some {pid : Pid} (found : table.freeSlot? = some pid) :
    table.slots[pid].isFree = true := by
  unfold freeSlot? at found
  simpa using List.find?_some found

/-- A process is created in the first free slot, with memory of its own. -/
theorem create_eq_ok {size : UInt32} {pid : Pid}
    (done : table.create memory size = .ok pid (table', memory')) :
    ∃ base total,
      table.freeSlot? = some pid ∧
      table.reservation? memory.region.alignment size = some total ∧
      memory.alloc total = .ok base memory' ∧
      table' = table.setSlot pid ⟨base, total, .none, table.firstFrame base⟩ := by
  unfold create at done
  cases found : table.freeSlot? with
  | none =>
      simp [found] at done
  | some free =>
      cases reserved : table.reservation? memory.region.alignment size with
      | none =>
          simp [found, reserved] at done
      | some total =>
          cases allocated : memory.alloc total with
          | error cause after =>
              simp [found, reserved, allocated] at done
          | ok base after =>
              simp only [found, reserved, allocated, Attempt.ok.injEq, Prod.mk.injEq] at done
              obtain ⟨pidEq, tableEq, memoryEq⟩ := done
              subst pidEq memoryEq
              exact ⟨base, total, rfl, rfl, allocated, tableEq.symm⟩

/-- A process that is not created leaves the table and the memory as they are. -/
theorem create_eq_error {size : UInt32} {cause : ProcessError} {after : ProcessTable × Allocator}
    (refused : table.create memory size = .error cause after) : after = (table, memory) := by
  unfold create at refused
  cases found : table.freeSlot? with
  | none =>
      simp only [found, Attempt.error.injEq] at refused
      exact refused.2.symm
  | some free =>
      cases reserved : table.reservation? memory.region.alignment size with
      | none =>
          simp only [found, reserved, Attempt.error.injEq] at refused
          exact refused.2.symm
      | some total =>
          cases allocated : memory.alloc total with
          | error cause left =>
              obtain rfl := Allocator.alloc_eq_error allocated
              simp only [found, reserved, allocated, Attempt.error.injEq] at refused
              exact refused.2.symm
          | ok base left =>
              simp [found, reserved, allocated] at refused

theorem clear_slot (table : ProcessTable) (pid : Pid) : table.clear.slots[pid] = .empty := by
  simp [clear, new, getElem_fin]

theorem create_slot_of_ne {size : UInt32} {pid other : Pid} (different : pid ≠ other)
    (done : table.create memory size = .ok pid (table', memory')) :
    table'.slots[other] = table.slots[other] := by
  obtain ⟨base, total, _, _, _, tableEq⟩ := create_eq_ok done
  rw [tableEq]
  exact getElem_put_of_ne _ different

theorem create_rest {size : UInt32} {pid : Pid}
    (done : table.create memory size = .ok pid (table', memory')) :
    table'.config = table.config ∧ table'.current = table.current := by
  obtain ⟨base, total, _, _, _, tableEq⟩ := create_eq_ok done
  rw [tableEq]
  exact ⟨rfl, rfl⟩

/-- A change of a process that touches nothing but its flags. -/
def OnlyFlags (change : Process → Process) : Prop :=
  ∀ process, ∃ flags, change process = { process with flags }

theorem onlyFlags_activate : OnlyFlags Process.activate :=
  fun _ => ⟨_, rfl⟩

theorem onlyFlags_park : OnlyFlags Process.park :=
  fun _ => ⟨_, rfl⟩

theorem onlyFlags_condemn : OnlyFlags Process.condemn :=
  fun _ => ⟨_, rfl⟩

/-- Only an occupied slot is changed. -/
theorem update_eq_ok {number : Nat} {change : Process → Process}
    (done : table.update number change = .ok () table') :
    ∃ pid : Pid, pid.val = number ∧ table.slots[pid].isFree = false ∧
      table' = table.setSlot pid (change table.slots[pid]) := by
  unfold update at done
  by_cases inTable : number < maxProcesses
  · let pid : Pid := ⟨number, inTable⟩
    cases free : table.slots[pid].isFree with
    | true =>
        have freeHere : table.slots[number].isFree = true := free
        simp [inTable, freeHere] at done
    | false =>
        have occupiedHere : table.slots[number].isFree = false := free
        simp only [inTable, dif_pos, occupiedHere, Bool.false_eq_true, if_false,
          Attempt.ok.injEq, true_and] at done
        exact ⟨pid, rfl, free, done.symm⟩
  · simp [inTable] at done

theorem update_eq_error {number : Nat} {change : Process → Process} {cause : ProcessError}
    (refused : table.update number change = .error cause table') : table' = table := by
  unfold update at refused
  split at refused
  · dsimp only at refused
    split at refused
    · exact (Attempt.error.inj refused).2.symm
    · cases refused
  · exact (Attempt.error.inj refused).2.symm

theorem update_rest {number : Nat} {change : Process → Process}
    (done : table.update number change = .ok () table') :
    table'.config = table.config ∧ table'.current = table.current := by
  obtain ⟨pid, _, _, tableEq⟩ := update_eq_ok done
  rw [tableEq]
  exact ⟨rfl, rfl⟩

/-- An update of the flags touches no more of a slot than its flags. -/
theorem update_slot {number : Nat} {change : Process → Process} (flagsOnly : OnlyFlags change)
    (done : table.update number change = .ok () table') (pid : Pid) :
    table'.slots[pid] = table.slots[pid] ∨
      table.slots[pid].isFree = false ∧
        ∃ flags, table'.slots[pid] = { table.slots[pid] with flags } := by
  obtain ⟨changed, _, occupied, tableEq⟩ := update_eq_ok done
  rw [tableEq]
  by_cases here : changed = pid
  · subst changed
    obtain ⟨flags, changeEq⟩ := flagsOnly table.slots[pid]
    exact Or.inr ⟨occupied, flags, (getElem_put_self table.slots pid _).trans changeEq⟩
  · exact Or.inl (getElem_put_of_ne _ here)

theorem isRunnable_empty : Process.empty.isRunnable = false :=
  rfl

theorem not_isDying_of_isRunnable {process : Process} (runnable : process.isRunnable = true) :
    process.isDying ≠ true := by
  intro dying
  simp [Process.isRunnable, dying] at runnable

section Walk

variable {slots : Vector Process maxProcesses} {steps : Nat} {cursor pid : Pid}

theorem walk_of_dying (dying : slots[nextSlot cursor].isDying = true) :
    walk (steps + 1) cursor slots memory =
      let rest := walk steps (nextSlot cursor) (slots.put (nextSlot cursor) .empty)
        (releaseBlock memory slots[nextSlot cursor].base)
      { rest with reclaimed := nextSlot cursor :: rest.reclaimed } := by
  rw [walk, if_pos dying]

theorem walk_of_runnable (runnable : slots[nextSlot cursor].isRunnable = true) :
    walk (steps + 1) cursor slots memory = ⟨slots, memory, some (nextSlot cursor), []⟩ := by
  rw [walk, if_neg (not_isDying_of_isRunnable runnable), if_pos runnable]

theorem walk_of_idle (notDying : slots[nextSlot cursor].isDying ≠ true)
    (notRunnable : slots[nextSlot cursor].isRunnable ≠ true) :
    walk (steps + 1) cursor slots memory = walk steps (nextSlot cursor) slots memory := by
  rw [walk, if_neg notDying, if_neg notRunnable]

/-- What holds of the slots and the allocator and survives a reclaim holds after the walk. -/
theorem walk_induction {P : Vector Process maxProcesses → Allocator → Prop}
    (reclaim : ∀ (slots : Vector Process maxProcesses) (memory : Allocator) (pid : Pid),
      P slots memory → slots[pid].isDying = true →
        P (slots.put pid .empty) (releaseBlock memory slots[pid].base))
    (holds : P slots memory) :
    P (walk steps cursor slots memory).slots (walk steps cursor slots memory).memory := by
  induction steps generalizing cursor slots memory with
  | zero =>
      exact holds
  | succ steps inductionHypothesis =>
      by_cases dying : slots[nextSlot cursor].isDying = true
      · rw [walk_of_dying dying]
        exact inductionHypothesis (reclaim slots memory (nextSlot cursor) holds dying)
      · by_cases runnable : slots[nextSlot cursor].isRunnable = true
        · rw [walk_of_runnable runnable]
          exact holds
        · rw [walk_of_idle dying runnable]
          exact inductionHypothesis holds

/-- A slot is as it was before the walk, or it was dying and is now empty. -/
theorem walk_slot (steps : Nat) (cursor : Pid) (slots : Vector Process maxProcesses)
    (memory : Allocator) (pid : Pid) :
    (walk steps cursor slots memory).slots[pid] = slots[pid] ∨
      slots[pid].isDying = true ∧ (walk steps cursor slots memory).slots[pid] = .empty := by
  let Holds := fun (current : Vector Process maxProcesses) (_ : Allocator) =>
    current[pid] = slots[pid] ∨ slots[pid].isDying = true ∧ current[pid] = .empty
  refine walk_induction (P := Holds) ?_ (Or.inl rfl)
  intro current _ reclaimed holds dying
  by_cases same : reclaimed = pid
  · subst reclaimed
    refine Or.inr ⟨?_, getElem_put_self current pid .empty⟩
    rcases holds with unchanged | ⟨wasDying, _⟩
    · rwa [← unchanged]
    · exact wasDying
  · simpa only [Holds, getElem_put_of_ne _ same] using holds

/-- The slot on which the walk stops was runnable all along and is left as it was. -/
theorem walk_landed (landed : (walk steps cursor slots memory).landed = some pid) :
    slots[pid].isRunnable = true ∧ (walk steps cursor slots memory).slots[pid] = slots[pid] := by
  induction steps generalizing cursor slots memory with
  | zero =>
      simp [walk] at landed
  | succ steps inductionHypothesis =>
      by_cases dying : slots[nextSlot cursor].isDying = true
      · rw [walk_of_dying dying] at landed ⊢
        obtain ⟨runnable, kept⟩ := inductionHypothesis landed
        -- An emptied slot is not runnable, so the walk did not come back to it.
        have notHere : nextSlot cursor ≠ pid := by
          intro equal
          subst pid
          rw [getElem_put_self, isRunnable_empty] at runnable
          exact Bool.false_ne_true runnable
        rw [getElem_put_of_ne _ notHere] at runnable kept
        exact ⟨runnable, kept⟩
      · by_cases runnable : slots[nextSlot cursor].isRunnable = true
        · rw [walk_of_runnable runnable] at landed ⊢
          obtain rfl := Option.some.inj landed
          exact ⟨runnable, rfl⟩
        · rw [walk_of_idle dying runnable] at landed ⊢
          exact inductionHypothesis landed

/-- Only slots that were dying before the walk are reclaimed. -/
theorem isDying_of_mem_reclaimed
    (member : pid ∈ (walk steps cursor slots memory).reclaimed) : slots[pid].isDying = true := by
  induction steps generalizing cursor slots memory with
  | zero =>
      simp [walk] at member
  | succ steps inductionHypothesis =>
      by_cases dying : slots[nextSlot cursor].isDying = true
      · rw [walk_of_dying dying] at member
        rcases List.mem_cons.mp member with here | later
        · rwa [here]
        · have dyingLater := inductionHypothesis later
          have notHere : nextSlot cursor ≠ pid := by
            intro equal
            subst pid
            rw [getElem_put_self] at dyingLater
            exact Bool.false_ne_true dyingLater
          rwa [getElem_put_of_ne _ notHere] at dyingLater
      · by_cases runnable : slots[nextSlot cursor].isRunnable = true
        · simp [walk_of_runnable runnable] at member
        · rw [walk_of_idle dying runnable] at member
          exact inductionHypothesis member

end Walk

/-- The three ways in which an interrupt of the timer ends: too few processes take part, the walk
stops on a runnable slot, or it comes round without one. -/
theorem schedule_cases (table : ProcessTable) (memory : Allocator) (frame : TrapFrame) :
    let walk := table.turn memory frame
    (table.activeCount < 2 ∧ table.schedule memory frame = (frame, table, memory)) ∨
      (2 ≤ table.activeCount ∧ ∃ pid, walk.landed = some pid ∧
        table.schedule memory frame =
          (walk.slots[pid].regs, { table with slots := walk.slots, current := pid },
            walk.memory)) ∨
      (2 ≤ table.activeCount ∧ walk.landed = none ∧
        table.schedule memory frame =
          (frame, { table with slots := walk.slots }, walk.memory)) := by
  unfold schedule
  by_cases few : table.activeCount < 2
  · exact Or.inl ⟨few, if_pos few⟩
  · have enough : 2 ≤ table.activeCount := Nat.le_of_not_lt few
    rw [if_neg few]
    cases landed : (table.turn memory frame).landed with
    | some pid =>
        refine Or.inr (Or.inl ⟨enough, pid, landed, ?_⟩)
        simp only [landed]
    | none =>
        refine Or.inr (Or.inr ⟨enough, landed, ?_⟩)
        simp only [landed]

theorem schedule_config (table : ProcessTable) (memory : Allocator) (frame : TrapFrame) :
    (table.schedule memory frame).2.1.config = table.config := by
  rcases schedule_cases table memory frame with
    ⟨_, scheduled⟩ | ⟨_, landed, _, scheduled⟩ | ⟨_, _, scheduled⟩
  · rw [scheduled]
  · rw [scheduled]
  · rw [scheduled]

theorem savedSlots_current (table : ProcessTable) (frame : TrapFrame) :
    (table.savedSlots frame)[table.current] =
      { table.slots[table.current] with regs := frame } :=
  getElem_put_self table.slots table.current _

theorem savedSlots_of_ne (table : ProcessTable) (frame : TrapFrame) {pid : Pid}
    (away : table.current ≠ pid) : (table.savedSlots frame)[pid] = table.slots[pid] :=
  getElem_put_of_ne _ away

theorem savedSlots_slot (table : ProcessTable) (frame : TrapFrame) (pid : Pid) :
    ∃ regs, (table.savedSlots frame)[pid] = { table.slots[pid] with regs } := by
  by_cases here : table.current = pid
  · subst pid
    exact ⟨frame, savedSlots_current table frame⟩
  · exact ⟨table.slots[pid].regs, savedSlots_of_ne table frame here⟩

/-- Scheduling leaves a slot alone, saves the frame in it or reclaims it. -/
theorem schedule_slot (table : ProcessTable) (memory : Allocator) (frame : TrapFrame) (pid : Pid) :
    let slots := (table.schedule memory frame).2.1.slots
    slots[pid] = table.slots[pid] ∨ slots[pid] = (table.savedSlots frame)[pid] ∨
      table.slots[pid].isDying = true ∧ slots[pid] = .empty := by
  have turned : (table.turn memory frame).slots[pid] = (table.savedSlots frame)[pid] ∨
      table.slots[pid].isDying = true ∧ (table.turn memory frame).slots[pid] = .empty := by
    obtain ⟨regs, savedEq⟩ := savedSlots_slot table frame pid
    rcases walk_slot maxProcesses table.current (table.savedSlots frame) memory pid with
      kept | ⟨dying, emptied⟩
    · exact Or.inl kept
    · rw [savedEq] at dying
      exact Or.inr ⟨dying, emptied⟩
  rcases schedule_cases table memory frame with
    ⟨_, scheduled⟩ | ⟨_, landed, _, scheduled⟩ | ⟨_, _, scheduled⟩
  · rw [scheduled]
    exact Or.inl rfl
  · rw [scheduled]
    exact Or.inr turned
  · rw [scheduled]
    exact Or.inr turned

/-- The slot under the cursor is the only one that gets a frame. -/
theorem schedule_slot_of_ne (memory : Allocator) (frame : TrapFrame) {pid : Pid}
    (away : table.current ≠ pid) :
    let slots := (table.schedule memory frame).2.1.slots
    slots[pid] = table.slots[pid] ∨
      table.slots[pid].isDying = true ∧ slots[pid] = .empty := by
  rcases schedule_slot table memory frame pid with unchanged | saved | emptied
  · exact Or.inl unchanged
  · rw [savedSlots_of_ne table frame away] at saved
    exact Or.inl saved
  · exact Or.inr emptied

/-- Where the cursor stays, the interrupted frame is resumed. -/
theorem schedule_frame_of_stays {frame : TrapFrame}
    (stays : (table.schedule memory frame).2.1.current = table.current) :
    (table.schedule memory frame).1 = frame := by
  rcases schedule_cases table memory frame with
    ⟨_, scheduled⟩ | ⟨_, pid, landed, scheduled⟩ | ⟨_, _, scheduled⟩
  · rw [scheduled]
  · rw [scheduled] at stays ⊢
    have pidEq : pid = table.current := stays
    subst pidEq
    have kept := (walk_landed landed).2
    rw [savedSlots_current] at kept
    exact congrArg Process.regs kept
  · rw [scheduled]

/-- Where the cursor moves on, the frame of the slot that it moves onto is resumed. -/
theorem schedule_frame_of_moves {frame : TrapFrame} {pid : Pid} (away : table.current ≠ pid)
    (onto : (table.schedule memory frame).2.1.current = pid) :
    table.slots[pid].isRunnable = true ∧
      (table.schedule memory frame).1 = table.slots[pid].regs := by
  rcases schedule_cases table memory frame with
    ⟨_, scheduled⟩ | ⟨_, landing, landed, scheduled⟩ | ⟨_, _, scheduled⟩
  · rw [scheduled] at onto
    exact absurd onto away
  · rw [scheduled] at onto ⊢
    have pidEq : landing = pid := onto
    subst pidEq
    obtain ⟨runnable, kept⟩ := walk_landed landed
    rw [savedSlots_of_ne table frame away] at runnable kept
    exact ⟨runnable, congrArg Process.regs kept⟩
  · rw [scheduled] at onto
    exact absurd onto away

/-- A slot that the cursor leaves keeps the interrupted frame, unless it is reclaimed. -/
theorem schedule_slot_of_leaves {frame : TrapFrame}
    (leaves : (table.schedule memory frame).2.1.current ≠ table.current) :
    let slots := (table.schedule memory frame).2.1.slots
    slots[table.current] = { table.slots[table.current] with regs := frame } ∨
      slots[table.current] = .empty := by
  rcases schedule_cases table memory frame with
    ⟨_, scheduled⟩ | ⟨_, landing, landed, scheduled⟩ | ⟨_, _, scheduled⟩
  · rw [scheduled] at leaves
    exact absurd rfl leaves
  · rw [scheduled, ← savedSlots_current]
    rcases walk_slot maxProcesses table.current (table.savedSlots frame) memory table.current with
      kept | ⟨_, emptied⟩
    · exact Or.inl kept
    · exact Or.inr emptied
  · rw [scheduled] at leaves
    exact absurd rfl leaves

end Microkernel.ProcessTable
