import Microkernel.Proofs.Kernel.Ledger
import Microkernel.Proofs.Process.Reclaim

/-!
# What a run reclaims

Interrupts of the timer reclaim killed processes.  While nobody operates on a process, no slot
becomes dying and a dying one keeps its base until it is emptied; so the memory that a run gives
back is told by the table at its beginning.
-/

namespace Microkernel

open Memory (Allocator)
open ProcessTable (releaseAll GivesBack)

namespace Event

def isTimer : Event → Bool
  | .interrupt _ lines => lines.timer
  | .call _ _ => false

/-- The calls that operate on a process. -/
def processOperations : List SyscallId :=
  [.procCreate, .procStart, .procStop, .procKill]

/-- The calls by which a client takes memory or gives it back. -/
def memoryOperations : List SyscallId :=
  [.memAlloc, .memFree]

/-- An event other than one of certain calls. -/
def Avoids (calls : List SyscallId) : Event → Prop
  | .call id _ => ∀ call ∈ calls, SyscallId.ofCode? id ≠ some call
  | .interrupt _ _ => True

instance (calls : List SyscallId) : DecidablePred (Avoids calls)
  | .call id _ =>
      inferInstanceAs (Decidable (∀ call ∈ calls, SyscallId.ofCode? id ≠ some call))
  | .interrupt _ _ => inferInstanceAs (Decidable True)

end Event

namespace Kernel

open Event (processOperations memoryOperations)

variable {C : Type} [PolledController C]

def reclaims (kernel : Kernel C) : Event → List Pid
  | .interrupt frame lines =>
    if lines.timer then kernel.processes.reclaims kernel.memory frame else []
  | .call _ _ => []

/-- The slots that are reclaimed in a run, in the order in which they are. -/
def reclaimed : Kernel C → List Event → List Pid
  | _, [] => []
  | kernel, event :: rest => kernel.reclaims event ++ reclaimed (kernel.after event) rest

/-- An interrupt gives back the memory of the slots that it reclaims and changes nothing else in
the allocator. -/
theorem interrupt_memory (kernel : Kernel C) (frame : TrapFrame) (lines : IrqLines) :
    (kernel.interrupt frame lines).state.memory =
      releaseAll kernel.processes.slots (kernel.reclaims (.interrupt frame lines))
        kernel.memory := by
  by_cases timer : lines.timer = true
  · have scheduled := (interrupt_of_timer kernel frame lines timer).2.2
    rw [scheduled, ProcessTable.schedule_memory, reclaims, if_pos timer]
  · have unchanged := (interrupt_of_no_timer kernel frame lines timer).2
    rw [unchanged, reclaims, if_neg timer]
    rfl

/-- Whatever arrives, the allocator stays sound. -/
theorem after_sound {kernel : Kernel C} (sound : kernel.memory.Sound)
    (minBlock_pos : 0 < kernel.memory.region.minBlock.toNat) (event : Event) :
    (kernel.after event).memory.Sound ∧
      (kernel.after event).memory.region = kernel.memory.region := by
  cases event with
  | interrupt frame lines =>
      rw [after, interrupt_memory]
      exact ProcessTable.releaseAll_sound sound _
  | call id arg =>
      change (kernel.dispatch id arg).state.memory.Sound ∧
        (kernel.dispatch id arg).state.memory.region = kernel.memory.region
      cases dispatch_effect kernel arg id with
      | created size pid processes memory called argument done succeeded answer stateEq =>
          obtain ⟨base, total, _, _, allocated, _⟩ := ProcessTable.create_eq_ok done
          rw [stateEq]
          exact Allocator.alloc_sound sound minBlock_pos allocated
      | updated call number change processes called listed done succeeded stateEq =>
          rw [stateEq]
          exact ⟨sound, rfl⟩
      | granted size address memory called argument done succeeded answer stateEq =>
          rw [stateEq]
          exact Allocator.alloc_sound sound minBlock_pos done
      | released address memory called argument done succeeded stateEq =>
          rw [stateEq]
          exact Allocator.free_sound sound done
      | apart processesKept memoryKept =>
          rw [memoryKept]
          exact ⟨sound, rfl⟩

theorem afterAll_sound {kernel : Kernel C} (sound : kernel.memory.Sound)
    (minBlock_pos : 0 < kernel.memory.region.minBlock.toNat) (events : List Event) :
    (kernel.afterAll events).memory.Sound ∧
      (kernel.afterAll events).memory.region = kernel.memory.region := by
  induction events generalizing kernel with
  | nil =>
      exact ⟨sound, rfl⟩
  | cons event rest inductionHypothesis =>
      obtain ⟨soundNow, regionNow⟩ := after_sound sound minBlock_pos event
      rw [← regionNow] at minBlock_pos
      obtain ⟨soundLater, regionLater⟩ := inductionHypothesis soundNow minBlock_pos
      exact ⟨soundLater, regionLater.trans regionNow⟩

/-- Only calls that operate on processes and interrupts of the timer change the table. -/
theorem after_processes (kernel : Kernel C) {event : Event}
    (spared : event.Avoids processOperations) (noTimer : event.isTimer ≠ true) :
    (kernel.after event).processes = kernel.processes := by
  cases event with
  | interrupt frame lines =>
      exact (interrupt_of_no_timer kernel frame lines noTimer).1
  | call id arg =>
      change (kernel.dispatch id arg).state.processes = kernel.processes
      cases dispatch_effect kernel arg id with
      | created size pid processes memory called =>
          exact absurd called (spared .procCreate (by decide))
      | updated call number change processes called listed =>
          refine absurd called (spared call ?_)
          simp only [flagCalls, List.mem_cons, Prod.mk.injEq, List.not_mem_nil, or_false] at listed
          rcases listed with ⟨rfl, _⟩ | ⟨rfl, _⟩ | ⟨rfl, _⟩
          · decide
          · decide
          · decide
      | granted size address memory called argument done succeeded answer stateEq =>
          rw [stateEq]
      | released address memory called argument done succeeded stateEq =>
          rw [stateEq]
      | apart processesKept =>
          exact processesKept

theorem after_memory (kernel : Kernel C) {event : Event}
    (spared : event.Avoids processOperations) (quiet : event.Avoids memoryOperations) :
    (kernel.after event).memory =
      releaseAll kernel.processes.slots (kernel.reclaims event) kernel.memory := by
  cases event with
  | interrupt frame lines =>
      exact interrupt_memory kernel frame lines
  | call id arg =>
      change (kernel.dispatch id arg).state.memory = kernel.memory
      cases dispatch_effect kernel arg id with
      | created size pid processes memory called =>
          exact absurd called (spared .procCreate (by decide))
      | updated call number change processes called listed done succeeded stateEq =>
          rw [stateEq]
      | granted size address memory called =>
          exact absurd called (quiet .memAlloc (by decide))
      | released address memory called =>
          exact absurd called (quiet .memFree (by decide))
      | apart processesKept memoryKept =>
          exact memoryKept

/-- A slot that is dying after an event was dying before, with the same memory. -/
theorem dying_after {kernel : Kernel C} {event : Event} {pid : Pid}
    (spared : event.Avoids processOperations)
    (dying : (kernel.after event).processes.slots[pid].isDying = true) :
    kernel.processes.slots[pid].isDying = true ∧
      (kernel.after event).processes.slots[pid].base = kernel.processes.slots[pid].base := by
  by_cases timer : event.isTimer = true
  · cases event with
    | call id arg => cases timer
    | interrupt frame lines =>
        have scheduled : (kernel.after (.interrupt frame lines)).processes =
            (kernel.processes.schedule kernel.memory frame).2.1 :=
          (interrupt_of_timer kernel frame lines timer).2.1
        rw [scheduled] at dying ⊢
        rcases ProcessTable.schedule_slot kernel.processes kernel.memory frame pid with
          unchanged | saved | ⟨_, emptied⟩
        · rw [unchanged] at dying ⊢
          exact ⟨dying, rfl⟩
        · obtain ⟨regs, savedEq⟩ := ProcessTable.savedSlots_slot kernel.processes frame pid
          rw [saved, savedEq] at dying ⊢
          exact ⟨dying, rfl⟩
        · rw [emptied] at dying
          exact absurd dying (by decide)
  · rw [after_processes kernel spared timer] at dying ⊢
    exact ⟨dying, rfl⟩

private theorem dying_afterAll {kernel : Kernel C} {events : List Event} {pid : Pid}
    (spared : ∀ event ∈ events, event.Avoids processOperations)
    (dying : (kernel.afterAll events).processes.slots[pid].isDying = true) :
    kernel.processes.slots[pid].isDying = true ∧
      (kernel.afterAll events).processes.slots[pid].base = kernel.processes.slots[pid].base := by
  induction events generalizing kernel with
  | nil =>
      exact ⟨dying, rfl⟩
  | cons event rest inductionHypothesis =>
      obtain ⟨here, later⟩ := List.forall_mem_cons.mp spared
      obtain ⟨dyingNow, baseLater⟩ := inductionHypothesis later dying
      obtain ⟨dyingBefore, baseNow⟩ := dying_after here dyingNow
      exact ⟨dyingBefore, baseLater.trans baseNow⟩

omit [PolledController C] in
theorem isDying_of_mem_reclaims {kernel : Kernel C} {event : Event} {pid : Pid}
    (member : pid ∈ kernel.reclaims event) : kernel.processes.slots[pid].isDying = true := by
  cases event with
  | call id arg => cases member
  | interrupt frame lines =>
      rw [reclaims] at member
      split at member
      · exact ProcessTable.isDying_of_mem_reclaims member
      · cases member

theorem isDying_of_mem_reclaimed {kernel : Kernel C} {events : List Event} {pid : Pid}
    (spared : ∀ event ∈ events, event.Avoids processOperations)
    (member : pid ∈ kernel.reclaimed events) : kernel.processes.slots[pid].isDying = true := by
  induction events generalizing kernel with
  | nil => cases member
  | cons event rest inductionHypothesis =>
      obtain ⟨here, later⟩ := List.forall_mem_cons.mp spared
      rcases List.mem_append.mp member with now | behind
      · exact isDying_of_mem_reclaims now
      · exact (dying_after here (inductionHypothesis later behind)).1

/-- While nobody operates on a process, an interrupt gives back the memory of the slots that it
reclaims, as the table had it at the beginning. -/
theorem interrupt_givesBack {kernel : Kernel C} {earlier : List Event}
    (spared : ∀ event ∈ earlier, event.Avoids processOperations) (frame : TrapFrame)
    (lines : IrqLines) (sound : (kernel.afterAll earlier).memory.Sound) :
    let now := kernel.afterAll earlier
    GivesBack kernel.processes.slots (now.reclaims (.interrupt frame lines)) now.memory
      (now.after (.interrupt frame lines)).memory := by
  intro now
  have sameBase : ∀ pid ∈ now.reclaims (.interrupt frame lines),
      now.processes.slots[pid].base = kernel.processes.slots[pid].base :=
    fun pid member => (dying_afterAll spared (isDying_of_mem_reclaims member)).2
  rw [after, interrupt_memory, ProcessTable.releaseAll_congr sameBase]
  exact ProcessTable.releaseAll_givesBack sound _

/-- If clients leave the memory alone as well, a run gives back that of the slots that it reclaims,
one after the other. -/
theorem afterAll_memory {kernel : Kernel C} {events : List Event}
    (spared : ∀ event ∈ events, event.Avoids processOperations)
    (quiet : ∀ event ∈ events, event.Avoids memoryOperations) :
    (kernel.afterAll events).memory =
      releaseAll kernel.processes.slots (kernel.reclaimed events) kernel.memory := by
  induction events generalizing kernel with
  | nil =>
      rfl
  | cons event rest inductionHypothesis =>
      obtain ⟨sparedHere, sparedLater⟩ := List.forall_mem_cons.mp spared
      obtain ⟨quietHere, quietLater⟩ := List.forall_mem_cons.mp quiet
      have sameBase : ∀ pid ∈ (kernel.after event).reclaimed rest,
          (kernel.after event).processes.slots[pid].base = kernel.processes.slots[pid].base :=
        fun pid member =>
          (dying_after sparedHere (isDying_of_mem_reclaimed sparedLater member)).2
      refine (inductionHypothesis sparedLater quietLater).trans ?_
      rw [ProcessTable.releaseAll_congr sameBase, after_memory kernel sparedHere quietHere,
        reclaimed]
      exact List.foldl_append.symm

end Kernel

end Microkernel
