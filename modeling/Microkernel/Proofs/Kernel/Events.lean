import Microkernel.Proofs.Kernel.Handlers
import Microkernel.Uart.Replayed

/-!
# What an event does to the processes and the memory

Of all calls only seven reach the process table or the allocator, and of an interrupt only the
timer's part does.  `dispatch_effect` lists what a call can do to the two and what it then answers;
`interrupt_eq` reduces an interrupt to `schedule`.  Later modules reason by these cases and do not
open the calls again.
-/

namespace Microkernel

open Memory (Allocator)

/-- What reaches a kernel from outside. -/
inductive Event where
  | call (id : UInt32) (arg : Value)
  | interrupt (frame : TrapFrame) (lines : IrqLines)

theorem Value.isOk_ok : Value.ok.isOk = true :=
  rfl

namespace Kernel

variable {C : Type}

/-- The word that a creating call answers with. -/
theorem toNat_ofNat_pid (pid : Pid) : (UInt32.ofNat pid.val).toNat = pid.val :=
  UInt32.toNat_ofNat_of_lt (pid.isLt.trans (by decide))

/-- The calls that change the flags of a process, each with its change. -/
def flagCalls : List (SyscallId × (Process → Process)) :=
  [(.procStart, Process.activate), (.procStop, Process.park), (.procKill, Process.condemn)]

theorem onlyFlags_of_mem_flagCalls {id : SyscallId} {change : Process → Process}
    (listed : (id, change) ∈ flagCalls) : ProcessTable.OnlyFlags change := by
  simp only [flagCalls, List.mem_cons, Prod.mk.injEq, List.not_mem_nil, or_false] at listed
  rcases listed with ⟨_, rfl⟩ | ⟨_, rfl⟩ | ⟨_, rfl⟩
  · exact ProcessTable.onlyFlags_activate
  · exact ProcessTable.onlyFlags_park
  · exact ProcessTable.onlyFlags_condemn

theorem procCreate_notMem_flagCalls {change : Process → Process} :
    (SyscallId.procCreate, change) ∉ flagCalls := by
  simp [flagCalls]

/-- A call's effect on the process table and the allocator, with its answer. -/
inductive Effect (kernel : Kernel C) (call : Option SyscallId) (arg : Value)
    (served : Served (Kernel C)) : Prop where
  | created (size : UInt32) (pid : Pid) (processes : ProcessTable) (memory : Allocator)
      (called : call = some .procCreate) (argument : arg = .uint32 size)
      (done : kernel.processes.create kernel.memory size = .ok pid (processes, memory))
      (succeeded : served.ret = .ok) (answer : served.arg = .uint32 (UInt32.ofNat pid.val))
      (stateEq : served.state = { kernel with processes, memory })
  | updated (id : SyscallId) (number : Nat) (change : Process → Process)
      (processes : ProcessTable)
      (called : call = some id) (listed : (id, change) ∈ flagCalls)
      (done : kernel.processes.update number change = .ok () processes)
      (succeeded : served.ret = .ok) (stateEq : served.state = { kernel with processes })
  | granted (size address : UInt32) (memory : Allocator)
      (called : call = some .memAlloc) (argument : arg = .uint32 size)
      (done : kernel.memory.alloc size = .ok address memory)
      (succeeded : served.ret = .ok) (answer : served.arg = .uint32 address)
      (stateEq : served.state = { kernel with memory })
  | released (address : UInt32) (memory : Allocator)
      (called : call = some .memFree) (argument : arg = .uint32 address)
      (done : kernel.memory.free address = .ok () memory)
      (succeeded : served.ret = .ok) (stateEq : served.state = { kernel with memory })
  | apart (processesKept : served.state.processes = kernel.processes)
      (memoryKept : served.state.memory = kernel.memory)
      (silent : served.ret.isOk = true →
        call ∉ [some SyscallId.procCreate, some .memAlloc, some .memFree])

/-- A kernel as it is by default, over a line on which nothing happens. -/
def quiet : Kernel ReplayedUart :=
  .new .default ⟨fun _ => []⟩ .clear

def after [PolledController C] (kernel : Kernel C) : Event → Kernel C
  | .call id arg => (kernel.dispatch id arg).state
  | .interrupt frame lines => (kernel.interrupt frame lines).state

def afterAll [PolledController C] (kernel : Kernel C) (events : List Event) : Kernel C :=
  events.foldl after kernel

section Calls

variable (kernel : Kernel C) (arg : Value)

private theorem refused_effect (call : Option SyscallId) (log : List Log.Entry) :
    Effect kernel call arg (.refused arg kernel log) := by
  refine .apart rfl rfl ?_
  intro succeeded
  have failed : Value.fail.isOk = false := rfl
  exact absurd (failed.symm.trans succeeded) Bool.false_ne_true

private theorem effect_of_other {call : SyscallId} {served : Served (Kernel C)}
    (processesKept : served.state.processes = kernel.processes)
    (memoryKept : served.state.memory = kernel.memory)
    (other : call ∉ [SyscallId.procCreate, .memAlloc, .memFree]) :
    Effect kernel (some call) arg served := by
  refine .apart processesKept memoryKept ?_
  intro _ member
  simp only [List.mem_cons, Option.some.injEq, List.not_mem_nil, or_false] at member other
  exact other member

private theorem answered_effect {call : SyscallId} {answer : Value} {log : List Log.Entry}
    (other : call ∉ [SyscallId.procCreate, .memAlloc, .memFree]) :
    Effect kernel (some call) arg ((Reply.answered arg answer log).upon kernel) := by
  unfold Reply.answered
  split
  · exact refused_effect kernel _ _ _
  · exact effect_of_other kernel arg rfl rfl other

variable [Controller C]

private theorem procCreate_effect :
    Effect kernel (some .procCreate) arg (kernel.perform (.procCreate arg)) := by
  rw [perform_procCreate]
  cases arg with
  | uint32 size =>
      cases done : kernel.processes.create kernel.memory size with
      | ok pid after =>
          simp only [Value.asUInt32?, done]
          exact .created size pid after.1 after.2 rfl rfl done rfl rfl rfl
      | error cause after =>
          simp only [Value.asUInt32?, done]
          exact refused_effect kernel _ _ _
  | _ => exact refused_effect kernel _ _ _

private theorem memAlloc_effect :
    Effect kernel (some .memAlloc) arg (kernel.perform (.memAlloc arg)) := by
  rw [perform_memAlloc]
  cases arg with
  | uint32 size =>
      cases done : kernel.memory.alloc size with
      | ok address memory =>
          simp only [Value.asUInt32?, done]
          exact .granted size address memory rfl rfl done rfl rfl rfl
      | error cause memory =>
          simp only [Value.asUInt32?, done]
          exact refused_effect kernel _ _ _
  | _ => exact refused_effect kernel _ _ _

private theorem memFree_effect :
    Effect kernel (some .memFree) arg (kernel.perform (.memFree arg)) := by
  rw [perform_memFree]
  cases arg with
  | uint32 address =>
      cases done : kernel.memory.free address with
      | ok _ memory =>
          simp only [Value.asUInt32?, done]
          exact .released address memory rfl rfl done rfl rfl
      | error cause memory =>
          simp only [Value.asUInt32?, done]
          exact refused_effect kernel _ _ _
  | _ => exact refused_effect kernel _ _ _

omit [Controller C] in
private theorem flagged_effect {call : SyscallId} {change : Process → Process}
    {log : Nat → List Log.Entry}
    (listed : (call, change) ∈ flagCalls) :
    Effect kernel (some call) arg (kernel.flagged arg change log) := by
  unfold flagged
  cases arg with
  | uint32 number =>
      cases done : kernel.processes.update number.toNat change with
      | ok _ processes =>
          simp only [Value.asUInt32?, done]
          exact .updated call number.toNat change processes rfl listed done rfl rfl
      | error cause processes =>
          simp only [Value.asUInt32?, done]
          exact refused_effect kernel _ _ _
  | _ => exact refused_effect kernel _ _ _

private theorem uartGetc_effect :
    Effect kernel (some .uartGetc) arg (kernel.perform (.uartGetc arg)) := by
  rw [perform_uartGetc]
  split
  · exact refused_effect kernel _ _ _
  · exact effect_of_other kernel arg rfl rfl (by decide)

private theorem uartPutc_effect :
    Effect kernel (some .uartPutc) arg (kernel.perform (.uartPutc arg)) := by
  rw [perform_uartPutc]
  split
  · exact effect_of_other kernel arg rfl rfl (by decide)
  · exact refused_effect kernel _ _ _

private theorem procBase_effect :
    Effect kernel (some .procBase) arg (kernel.perform (.procBase arg)) := by
  rw [perform_procBase]
  split
  · exact refused_effect kernel _ _ _
  · split
    · exact effect_of_other kernel arg rfl rfl (by decide)
    · exact refused_effect kernel _ _ _

private theorem procDump_effect :
    Effect kernel (some .procDump) arg (kernel.perform (.procDump arg)) := by
  rw [perform_procDump]
  dsimp only
  split
  · exact effect_of_other kernel arg rfl rfl (by decide)
  · exact refused_effect kernel _ _ _

theorem serve_effect (call : SyscallId) :
    Effect kernel (some call) arg (kernel.serve call arg) := by
  cases call with
  | none => exact refused_effect kernel _ _ _
  | hello => exact effect_of_other kernel arg rfl rfl (by decide)
  | uartRxEmpty =>
      rw [serve, Work.call, perform_uartRxEmpty]
      exact answered_effect kernel arg (by decide)
  | uartTxFull =>
      rw [serve, Work.call, perform_uartTxFull]
      exact answered_effect kernel arg (by decide)
  | uartGetc => exact uartGetc_effect kernel arg
  | uartPutc => exact uartPutc_effect kernel arg
  | procCreate => exact procCreate_effect kernel arg
  | procStart =>
      rw [serve, Work.call, perform_procStart]
      exact flagged_effect kernel arg (by simp [flagCalls])
  | procStop =>
      rw [serve, Work.call, perform_procStop]
      exact flagged_effect kernel arg (by simp [flagCalls])
  | procKill =>
      rw [serve, Work.call, perform_procKill]
      exact flagged_effect kernel arg (by simp [flagCalls])
  | procBase => exact procBase_effect kernel arg
  | procDump => exact procDump_effect kernel arg
  | kernelDump =>
      rw [serve, Work.call, perform_kernelDump]
      exact answered_effect kernel arg (by decide)
  | memAlloc => exact memAlloc_effect kernel arg
  | memFree => exact memFree_effect kernel arg

theorem dispatch_effect (id : UInt32) :
    Effect kernel (SyscallId.ofCode? id) arg (kernel.dispatch id arg) := by
  rw [dispatch_eq]
  cases SyscallId.ofCode? id with
  | some call => exact serve_effect kernel arg call
  | none => exact refused_effect kernel _ _ _

end Calls

section Interrupts

variable (kernel : Kernel C) (frame : TrapFrame) (lines : IrqLines)

private theorem serviceTimer_eq :
    let served := kernel.serviceTimer frame lines
    (served.1, served.2.processes, served.2.memory) =
      if lines.timer then kernel.processes.schedule kernel.memory frame
      else (frame, kernel.processes, kernel.memory) := by
  unfold serviceTimer
  split
  · rfl
  · rfl

variable [PolledController C]

private theorem serviceUart_processes :
    (kernel.serviceUart lines).2.processes = kernel.processes := by
  unfold serviceUart
  split
  · rfl
  · rfl

private theorem serviceUart_memory : (kernel.serviceUart lines).2.memory = kernel.memory := by
  unfold serviceUart
  split
  · rfl
  · rfl

/-- An interrupt schedules if it reports the timer, and leaves processes and memory alone
otherwise. -/
theorem interrupt_eq :
    let resumed := kernel.interrupt frame lines
    (resumed.frame, resumed.state.processes, resumed.state.memory) =
      if lines.timer then kernel.processes.schedule kernel.memory frame
      else (frame, kernel.processes, kernel.memory) := by
  let counted : Kernel C := { kernel with ticks := kernel.ticks + 1 }
  have timerPart := serviceTimer_eq (counted.serviceUart lines).2 frame lines
  rw [serviceUart_processes, serviceUart_memory] at timerPart
  exact timerPart

theorem interrupt_of_timer (timer : lines.timer = true) :
    let scheduled := kernel.processes.schedule kernel.memory frame
    (kernel.interrupt frame lines).frame = scheduled.1 ∧
      (kernel.interrupt frame lines).state.processes = scheduled.2.1 ∧
      (kernel.interrupt frame lines).state.memory = scheduled.2.2 := by
  have resumed := interrupt_eq kernel frame lines
  rw [if_pos timer] at resumed
  rw [← resumed]
  exact ⟨rfl, rfl, rfl⟩

theorem interrupt_of_no_timer (noTimer : lines.timer ≠ true) :
    (kernel.interrupt frame lines).state.processes = kernel.processes ∧
      (kernel.interrupt frame lines).state.memory = kernel.memory := by
  have resumed := interrupt_eq kernel frame lines
  rw [if_neg noTimer, Prod.mk.injEq, Prod.mk.injEq] at resumed
  exact resumed.2

end Interrupts

/-- A boot that succeeds created and started a process in the cleared table. -/
theorem boot_eq_ok [Controller C] {kernel : Kernel C} {imageSize : UInt32} {pid : Pid}
    (booted : (kernel.boot imageSize).1 = .ok pid) :
    ∃ created memory started,
      kernel.processes.clear.create kernel.memory.init imageSize = .ok pid (created, memory) ∧
      created.start pid.val = .ok () started ∧
      (kernel.boot imageSize).2.processes = started ∧
      (kernel.boot imageSize).2.memory = memory := by
  unfold boot loadImage at booted ⊢
  cases creation : kernel.reset.processes.create kernel.reset.memory imageSize with
  | error cause after =>
      simp only [creation] at booted
      cases booted
  | ok image after =>
      obtain ⟨created, memory⟩ := after
      cases start : created.start image.val with
      | error cause after =>
          simp only [creation, start] at booted
          cases booted
      | ok _ started =>
          simp only [creation, start, Except.ok.injEq] at booted ⊢
          subst booted
          exact ⟨created, memory, started, creation, start, rfl, rfl⟩

end Kernel

end Microkernel
