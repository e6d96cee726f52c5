import Microkernel.Proofs.Kernel.Separation
import Microkernel.Proofs.Memory.Stale

/-!
# A boot forgets what went before

A boot clears the table, but of the block pool it rewrites the first entry only.  Whatever a kernel
has lived through, it keeps the layout that it was assembled with, and the boot leaves it alike to
a new kernel of that layout: the same table, and an allocator that differs in stale entries at
most.  By `unwinding_processes` nothing that comes later tells the two apart.
-/

namespace Microkernel

open Memory (Allocator SameTaken)

/-- What a kernel can have lived through, boots included. -/
inductive Past (C : Type) where
  | boot (imageSize : UInt32)
  | happening (happening : Happening C)

namespace Memory.Allocator

variable {memory memory' : Allocator}

private theorem alloc_region {size address : UInt32}
    (done : memory.alloc size = .ok address memory') :
    memory'.region = memory.region := by
  obtain ⟨request, fit, _, _, _, carved⟩ := alloc_eq_ok done
  calc memory'.region = (memory.carve request fit).2.region := by rw [carved]
    _ = memory.region := carve_region request fit

private theorem free_region {address : UInt32} (done : memory.free address = .ok () memory') :
    memory'.region = memory.region := by
  unfold free at done
  split at done
  · cases done
    exact release_region _
  · cases done

end Memory.Allocator

namespace ProcessTable

private theorem releaseBlock_region (memory : Allocator) (base : UInt32) :
    (releaseBlock memory base).region = memory.region := by
  rw [releaseBlock]
  cases done : memory.free base with
  | ok _ memory' => exact Memory.Allocator.free_region done
  | error cause after =>
      obtain ⟨-, rfl⟩ := Memory.Allocator.free_eq_error done
      rfl

private theorem walk_region (steps : Nat) (cursor : Pid) (slots : Vector Process maxProcesses)
    (memory : Allocator) : (walk steps cursor slots memory).memory.region = memory.region := by
  induction steps generalizing cursor slots memory with
  | zero =>
      rfl
  | succ steps inductionHypothesis =>
      by_cases dying : slots[nextSlot cursor].isDying = true
      · rw [walk_of_dying dying]
        exact (inductionHypothesis _ _ _).trans (releaseBlock_region _ _)
      · by_cases runnable : slots[nextSlot cursor].isRunnable = true
        · rw [walk_of_runnable runnable]
        · rw [walk_of_idle dying runnable]
          exact inductionHypothesis _ _ _

private theorem schedule_region (table : ProcessTable) (memory : Allocator) (frame : TrapFrame) :
    (table.schedule memory frame).2.2.region = memory.region := by
  unfold schedule
  split
  · rfl
  · dsimp only
    split
    · exact walk_region _ _ _ _
    · exact walk_region _ _ _ _

private theorem create_region {table table' : ProcessTable} {memory memory' : Allocator}
    {size : UInt32}
    {pid : Pid} (done : table.create memory size = .ok pid (table', memory')) :
    memory'.region = memory.region := by
  obtain ⟨base, total, _, _, granted, _⟩ := create_eq_ok done
  exact Memory.Allocator.alloc_region granted

end ProcessTable

namespace Kernel

open Happening (processSide?)

variable {C : Type} [PolledController C]

def live (kernel : Kernel C) : Past C → Kernel C
  | .boot imageSize => (kernel.boot imageSize).2
  | .happening happening => kernel.undergo happening

def liveAll (kernel : Kernel C) (past : List (Past C)) : Kernel C :=
  past.foldl live kernel

/-- The region and the process parameters of a configuration. -/
structure Configured (config : KernelConfig) (kernel : Kernel C) : Prop where
  region : kernel.memory.region = config.memory
  process : kernel.processes.config = config.process

namespace Configured

variable {config : KernelConfig} {kernel : Kernel C} (configured : Configured config kernel)

include configured

theorem call (id : UInt32) (arg : Value) :
    Configured config (kernel.dispatch id arg).state := by
  obtain ⟨region, process⟩ := configured
  cases dispatch_effect kernel arg id with
  | created size pid processes memory _ _ done _ _ stateEq =>
      rw [stateEq]
      exact ⟨(ProcessTable.create_region done).trans region,
        (ProcessTable.create_rest done).1.trans process⟩
  | updated _ _ _ processes _ _ done _ stateEq =>
      rw [stateEq]
      exact ⟨region, (ProcessTable.update_rest done).1.trans process⟩
  | granted _ _ memory _ _ done _ _ stateEq =>
      rw [stateEq]
      exact ⟨(Memory.Allocator.alloc_region done).trans region, process⟩
  | released _ memory _ _ done _ stateEq =>
      rw [stateEq]
      exact ⟨(Memory.Allocator.free_region done).trans region, process⟩
  | apart processesKept memoryKept =>
      exact ⟨memoryKept ▸ region, processesKept ▸ process⟩

theorem interrupt (frame : TrapFrame) (lines : IrqLines) :
    Configured config (kernel.interrupt frame lines).state := by
  obtain ⟨region, process⟩ := configured
  by_cases timer : lines.timer = true
  · obtain ⟨_, processesEq, memoryEq⟩ := interrupt_of_timer kernel frame lines timer
    refine ⟨?_, ?_⟩
    · rw [memoryEq, ProcessTable.schedule_region, region]
    · rw [processesEq, ProcessTable.schedule_config, process]
  · obtain ⟨processesEq, memoryEq⟩ := interrupt_of_no_timer kernel frame lines timer
    exact ⟨memoryEq ▸ region, processesEq ▸ process⟩

theorem undergo (happening : Happening C) : Configured config (kernel.undergo happening) := by
  cases happening with
  | event event =>
      cases event with
      | call id arg => exact configured.call id arg
      | interrupt frame lines => exact configured.interrupt frame lines
  | line change => exact ⟨configured.region, configured.process⟩
  | divisor divisor =>
      dsimp only [Kernel.undergo]
      split
      · exact ⟨configured.region, configured.process⟩
      · exact configured

omit [PolledController C] in
theorem loadImage (imageSize : UInt32) : Configured config (kernel.loadImage imageSize).2 := by
  obtain ⟨region, process⟩ := configured
  unfold Kernel.loadImage
  cases creation : kernel.processes.create kernel.memory imageSize with
  | error cause after =>
      obtain rfl := ProcessTable.create_eq_error creation
      exact ⟨region, process⟩
  | ok pid after =>
      obtain ⟨created, memory⟩ := after
      have regionKept := (ProcessTable.create_region creation).trans region
      have createdKept := (ProcessTable.create_rest creation).1.trans process
      dsimp only
      cases start : created.start pid with
      | error cause after =>
          obtain rfl := ProcessTable.update_eq_error start
          exact ⟨regionKept, createdKept⟩
      | ok _ started =>
          exact ⟨regionKept, (ProcessTable.update_rest start).1.trans createdKept⟩

end Configured

/-- The serial driver aside, a boot loads the image into a cleared kernel. -/
theorem boot_eq_loadImage (kernel : Kernel C) (imageSize : UInt32) :
    ∃ uart, kernel.boot imageSize = ((kernel.reset.loadImage imageSize).1,
      { (kernel.reset.loadImage imageSize).2 with uart }) := by
  unfold boot
  obtain ⟨loaded, cleared⟩ := kernel.reset.loadImage imageSize
  cases loaded with
  | ok pid => exact ⟨_, rfl⟩
  | error cause => exact ⟨_, rfl⟩

theorem Configured.live {config : KernelConfig} {kernel : Kernel C}
    (configured : Configured config kernel) (past : Past C) :
    Configured config (kernel.live past) := by
  cases past with
  | boot imageSize =>
      have cleared : Configured config kernel.reset := ⟨configured.region, configured.process⟩
      obtain ⟨region, process⟩ := cleared.loadImage imageSize
      obtain ⟨uart, booted⟩ := boot_eq_loadImage kernel imageSize
      rw [Kernel.live, booted]
      exact ⟨region, process⟩
  | happening happening => exact configured.undergo happening

private theorem configured_liveAll {config : KernelConfig} {kernel : Kernel C}
    (configured : Configured config kernel) (past : List (Past C)) :
    Configured config (kernel.liveAll past) := by
  induction past generalizing kernel with
  | nil =>
      exact configured
  | cons first rest inductionHypothesis =>
      exact inductionHypothesis (configured.live first)

section Boot

variable {R : Allocator → Allocator → Prop} {kernel other : Kernel C}

omit [PolledController C] in
private theorem loadImage_alike (indistinct : Indistinct R) (alike : AlikeProcesses R kernel other)
    (imageSize : UInt32) :
    (kernel.loadImage imageSize).1 = (other.loadImage imageSize).1 ∧
      AlikeProcesses R (kernel.loadImage imageSize).2 (other.loadImage imageSize).2 := by
  obtain ⟨processesEq, related⟩ := alike
  have created := ProcessTable.create_congr indistinct related other.processes imageSize
  rw [loadImage, loadImage, processesEq]
  generalize other.processes.create kernel.memory imageSize = outcome at created ⊢
  generalize other.processes.create other.memory imageSize = otherOutcome at created ⊢
  cases created with
  | error cause after => exact ⟨rfl, after.1, after.2⟩
  | @ok pid left right after =>
      obtain ⟨processes, memory⟩ := left
      obtain ⟨processes', memory'⟩ := right
      obtain ⟨tableEq, relatedAfter⟩ := after
      obtain rfl : processes = processes' := tableEq
      dsimp only
      split
      · exact ⟨rfl, rfl, relatedAfter⟩
      · exact ⟨rfl, rfl, relatedAfter⟩

/-- A boot leaves kernels of one configuration alike, up to stale pool entries. -/
theorem boot_alike {config : KernelConfig} (configured : Configured config kernel)
    (otherConfigured : Configured config other) (imageSize : UInt32) :
    (kernel.boot imageSize).1 = (other.boot imageSize).1 ∧
      AlikeProcesses SameTaken (kernel.boot imageSize).2 (other.boot imageSize).2 := by
  have cleared : AlikeProcesses SameTaken kernel.reset other.reset := by
    refine ⟨?_, SameTaken.init (configured.region.trans otherConfigured.region.symm)⟩
    exact congrArg ProcessTable.new (configured.process.trans otherConfigured.process.symm)
  obtain ⟨answerEq, processesEq, related⟩ := loadImage_alike indistinct_sameTaken cleared imageSize
  obtain ⟨uart, booted⟩ := boot_eq_loadImage kernel imageSize
  obtain ⟨otherUart, otherBooted⟩ := boot_eq_loadImage other imageSize
  rw [booted, otherBooted]
  exact ⟨answerEq, processesEq, related⟩

end Boot

/-- After a boot, successful or not, processes and memory are as on a new kernel of the same
configuration after the same boot, whatever was lived through before: the boot answers the same,
and in every later run the same calls get the same answers, the same timer interrupts resume the
same frames, and the tables, cursors, blocks and numbers of taken entries agree at the end. -/
theorem boot_forgets (config : KernelConfig) (controller otherController : C)
    (mask otherMask : IrqMask) (past : List (Past C)) (imageSize : UInt32)
    (later : List (Happening C)) :
    let lived := ((new config controller mask).liveAll past).boot imageSize
    let fresh := (new config otherController otherMask).boot imageSize
    lived.1 = fresh.1 ∧
      lived.2.answers processAnswer? later = fresh.2.answers processAnswer? later ∧
      (lived.2.undergoAll later).processes = (fresh.2.undergoAll later).processes ∧
      (lived.2.undergoAll later).memory.blocks = (fresh.2.undergoAll later).memory.blocks ∧
      (lived.2.undergoAll later).memory.poolUsed = (fresh.2.undergoAll later).memory.poolUsed := by
  intro lived fresh
  have assembled : Configured config (new config controller mask) := ⟨rfl, rfl⟩
  have freshConfigured : Configured config (new config otherController otherMask) := ⟨rfl, rfl⟩
  obtain ⟨bootEq, alike⟩ :=
    boot_alike (configured_liveAll assembled past) freshConfigured imageSize
  obtain ⟨_, self⟩ := boot_alike freshConfigured freshConfigured imageSize
  have unwinding := unwinding_processes (C := C) indistinct_sameTaken
  obtain ⟨livedAnswers, livedAlike⟩ := unwinding.run alike later
  obtain ⟨freshAnswers, freshAlike⟩ := unwinding.run self later
  exact ⟨bootEq, livedAnswers.trans freshAnswers.symm,
    livedAlike.processes.trans freshAlike.processes.symm,
    livedAlike.memory.blocks_eq.symm.trans freshAlike.memory.blocks_eq,
    livedAlike.memory.poolUsed.trans freshAlike.memory.poolUsed.symm⟩

/-- The entries of two earlier allocations are still in the pool, and no block shows them. -/
example :
    let assembled : Kernel SimulatedUart := new .default .idle .clear
    let past : List (Past SimulatedUart) :=
      [.boot 4096, .happening (.event (.call 13 (.uint32 64))),
        .happening (.event (.call 13 (.uint32 64)))]
    let lived := ((assembled.liveAll past).boot 4096).2
    let fresh := (assembled.boot 4096).2
    lived.memory.pool[(3 : Memory.BlockId)] ≠ fresh.memory.pool[(3 : Memory.BlockId)] ∧
      lived.memory.blocks = fresh.memory.blocks := by
  decide +kernel

end Kernel

end Microkernel
