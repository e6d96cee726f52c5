import Microkernel.Proofs.Kernel.Events
import Microkernel.Proofs.Kernel.Serial
import Microkernel.Proofs.Process.Congruence

/-!
# The two sides of a kernel

Processes and memory are one side of a kernel, the serial line is the other, and the only thing
that they share is the call and interrupt path.  A call of one side is answered from that side and
leaves the other one as it is; an interrupt serves each side from its own half of the kernel.  The
count of interrupts belongs to neither side.
-/

namespace Microkernel

open Memory (Allocator)

namespace Kernel

variable {C : Type}

/-- The calls that read or write the serial driver. -/
def serialCalls : List SyscallId :=
  [.uartRxEmpty, .uartTxFull, .uartGetc, .uartPutc]

/-- The calls that read or write the process table or the allocator. -/
def processCalls : List SyscallId :=
  [.procCreate, .procStart, .procStop, .procKill, .procBase, .procDump, .memAlloc, .memFree]

/-- The same serial driver over the same controller. -/
def AlikeSerial (kernel other : Kernel C) : Prop :=
  kernel.uart = other.uart

/-- The same process table, over allocators in a relation. -/
structure AlikeProcesses (R : Allocator → Allocator → Prop) (kernel other : Kernel C) : Prop where
  processes : kernel.processes = other.processes
  memory : R kernel.memory other.memory

theorem AlikeProcesses.of_kept {R : Allocator → Allocator → Prop} {kernel other after : Kernel C}
    (alike : AlikeProcesses R kernel other)
    (kept : (after.processes, after.memory) = (kernel.processes, kernel.memory)) :
    AlikeProcesses R after other := by
  obtain ⟨processesKept, memoryKept⟩ := Prod.mk.inj kept
  exact ⟨processesKept.trans alike.processes, memoryKept ▸ alike.memory⟩

/-- Two calls that are answered alike and leave kernels that are alike. -/
structure AlikeServed (Alike : Kernel C → Kernel C → Prop) (served other : Served (Kernel C)) :
    Prop where
  ret : served.ret = other.ret
  arg : served.arg = other.arg
  state : Alike served.state other.state

/-- Two calls whose work gives the same answer and leaves kernels that are alike. -/
theorem perform_alike [Controller C] {Alike : Kernel C → Kernel C → Prop} {kernel other : Kernel C}
    {work : Work Reply}
    (alike : (work.run answer kernel).1 = (work.run answer other).1 ∧
      Alike (work.run answer kernel).2 (work.run answer other).2) :
    AlikeServed Alike (kernel.perform work) (other.perform work) :=
  ⟨congrArg Reply.ret alike.1, congrArg Reply.arg alike.1, alike.2⟩

private theorem mayAsk_of_serialCalls {call : SyscallId} {request : Request}
    (serial : call ∈ serialCalls)
    (asked : MayAsk call request) : ∃ access, request = .driver access := by
  simp only [serialCalls, List.mem_cons, List.not_mem_nil, or_false] at serial
  cases request with
  | driver access => exact ⟨access, rfl⟩
  | _ => rcases serial with rfl | rfl | rfl | rfl <;> exact asked.elim

private theorem mayAsk_of_other {call : SyscallId} {request : Request} (other : call ∉ serialCalls)
    (asked : MayAsk call request) : ∀ access, request ≠ .driver access := by
  rintro access rfl
  cases call with
  | uartRxEmpty => exact absurd (by decide) other
  | uartTxFull => exact absurd (by decide) other
  | uartGetc => exact absurd (by decide) other
  | uartPutc => exact absurd (by decide) other
  | _ => exact asked

/-- A call of the serial side reads nothing but the serial driver. -/
theorem serve_alikeSerial [Controller C] {kernel other : Kernel C} {call : SyscallId}
    (serial : call ∈ serialCalls) (alike : AlikeSerial kernel other) (arg : Value) :
    AlikeServed AlikeSerial (kernel.serve call arg) (other.serve call arg) := by
  have answers : ∀ request (state other : Kernel C), MayAsk call request →
      AlikeSerial state other →
        (answer request state).1 = (answer request other).1 ∧
          AlikeSerial (answer request state).2 (answer request other).2 := by
    intro request state other asked alike
    obtain ⟨access, rfl⟩ := mayAsk_of_serialCalls serial asked
    have uartEq : state.uart = other.uart := alike
    simp only [answer, AlikeSerial, uartEq, and_self]
  exact perform_alike ((call_asks call arg).run_alike answers alike)

/-- A call of any other kind leaves the serial driver as it is. -/
theorem serve_uart [Controller C] (kernel : Kernel C) {call : SyscallId}
    (other : call ∉ serialCalls) (arg : Value) :
    (kernel.serve call arg).state.uart = kernel.uart := by
  refine (call_asks call arg).run_eq Kernel.uart ?_ kernel
  intro request state asked
  cases request with
  | driver access => exact absurd rfl (mayAsk_of_other other asked access)
  | _ => rfl

/-- A call that puts no byte leaves the transmit ring and the controller alone. -/
theorem looks_dispatch [Controller C] (kernel : Kernel (TracedUart C)) {id : UInt32}
    (other : SyscallId.ofCode? id ≠ some .uartPutc) (arg : Value) :
    Uart.Looks kernel.uart (kernel.dispatch id arg).state.uart [] := by
  have kept {after : Kernel (TracedUart C)} (uartEq : after.uart = kernel.uart) :
      Uart.Looks kernel.uart after.uart [] := by
    rw [uartEq]
    exact .refl kernel.uart
  rw [dispatch_eq]
  split
  · next call named =>
    by_cases serial : call ∈ serialCalls
    · simp only [serialCalls, List.mem_cons, List.not_mem_nil, or_false] at serial
      rcases serial with rfl | rfl | rfl | rfl
      · exact kept rfl
      · exact kept rfl
      · simp only [serve, Work.call, perform_uartGetc]
        split
        · exact kept rfl
        · exact Uart.looks_get kernel.uart
      · exact absurd named other
    · exact kept (serve_uart kernel serial arg)
  · exact kept rfl

section Processes

variable {R : Allocator → Allocator → Prop} {kernel other : Kernel C}

/-- An operation on a named process, made alike on both tables. -/
theorem flagged_alike (alike : AlikeProcesses R kernel other) (arg : Value)
    (change : Process → Process) (log otherLog : Nat → List Log.Entry) :
    AlikeServed (AlikeProcesses R) (kernel.flagged arg change log)
      (other.flagged arg change otherLog) := by
  obtain ⟨processesEq, related⟩ := alike
  rw [flagged, flagged, processesEq]
  split
  · exact ⟨rfl, rfl, processesEq, related⟩
  · split
    · exact ⟨rfl, rfl, rfl, related⟩
    · exact ⟨rfl, rfl, processesEq, related⟩

variable [Controller C]

private theorem procCreate_alike (indistinct : Indistinct R) (alike : AlikeProcesses R kernel other)
    (arg : Value) :
    AlikeServed (AlikeProcesses R) (kernel.perform (.procCreate arg))
      (other.perform (.procCreate arg)) := by
  obtain ⟨processesEq, related⟩ := alike
  rw [perform_procCreate, perform_procCreate]
  split
  · exact ⟨rfl, rfl, processesEq, related⟩
  · next size _ =>
    have created := ProcessTable.create_congr indistinct related other.processes size
    rw [processesEq]
    generalize other.processes.create kernel.memory size = outcome at created ⊢
    generalize other.processes.create other.memory size = otherOutcome at created ⊢
    cases created with
    | error cause _ => exact ⟨rfl, rfl, processesEq, related⟩
    | ok pid after => exact ⟨rfl, rfl, after.1, after.2⟩

private theorem procBase_alike (alike : AlikeProcesses R kernel other) (arg : Value) :
    AlikeServed (AlikeProcesses R) (kernel.perform (.procBase arg))
      (other.perform (.procBase arg)) := by
  rw [perform_procBase, perform_procBase, alike.processes]
  split
  · exact ⟨rfl, rfl, alike⟩
  · split
    · exact ⟨rfl, rfl, alike⟩
    · exact ⟨rfl, rfl, alike⟩

private theorem procDump_alike (alike : AlikeProcesses R kernel other) (arg : Value) :
    AlikeServed (AlikeProcesses R) (kernel.perform (.procDump arg))
      (other.perform (.procDump arg)) := by
  rw [perform_procDump, perform_procDump, alike.processes]
  dsimp only
  split
  · exact ⟨rfl, rfl, alike⟩
  · exact ⟨rfl, rfl, alike⟩

private theorem memAlloc_alike (indistinct : Indistinct R) (alike : AlikeProcesses R kernel other)
    (arg : Value) :
    AlikeServed (AlikeProcesses R) (kernel.perform (.memAlloc arg))
      (other.perform (.memAlloc arg)) := by
  obtain ⟨processesEq, related⟩ := alike
  rw [perform_memAlloc, perform_memAlloc]
  split
  · exact ⟨rfl, rfl, processesEq, related⟩
  · next size _ =>
    have granted := indistinct.alloc related size
    generalize kernel.memory.alloc size = outcome at granted ⊢
    generalize other.memory.alloc size = otherOutcome at granted ⊢
    cases granted with
    | error cause _ => exact ⟨rfl, rfl, processesEq, related⟩
    | ok address relatedAfter => exact ⟨rfl, rfl, processesEq, relatedAfter⟩

private theorem memFree_alike (indistinct : Indistinct R) (alike : AlikeProcesses R kernel other)
    (arg : Value) :
    AlikeServed (AlikeProcesses R) (kernel.perform (.memFree arg))
      (other.perform (.memFree arg)) := by
  obtain ⟨processesEq, related⟩ := alike
  rw [perform_memFree, perform_memFree]
  split
  · exact ⟨rfl, rfl, processesEq, related⟩
  · next address _ =>
    have freed := indistinct.free related address
    generalize kernel.memory.free address = outcome at freed ⊢
    generalize other.memory.free address = otherOutcome at freed ⊢
    cases freed with
    | error cause _ => exact ⟨rfl, rfl, processesEq, related⟩
    | ok _ relatedAfter => exact ⟨rfl, rfl, processesEq, relatedAfter⟩

/-- A call of the process side reads the process table and what the allocator answers, and nothing
else. -/
theorem serve_alikeProcesses (indistinct : Indistinct R) {call : SyscallId}
    (process : call ∈ processCalls) (alike : AlikeProcesses R kernel other) (arg : Value) :
    AlikeServed (AlikeProcesses R) (kernel.serve call arg) (other.serve call arg) := by
  simp only [processCalls, List.mem_cons, List.not_mem_nil, or_false] at process
  rcases process with rfl | rfl | rfl | rfl | rfl | rfl | rfl | rfl
  · exact procCreate_alike indistinct alike arg
  · simp only [serve, Work.call, perform_procStart]
    exact flagged_alike alike arg _ _ _
  · simp only [serve, Work.call, perform_procStop]
    exact flagged_alike alike arg _ _ _
  · simp only [serve, Work.call, perform_procKill]
    exact flagged_alike alike arg _ _ _
  · exact procBase_alike alike arg
  · exact procDump_alike alike arg
  · exact memAlloc_alike indistinct alike arg
  · exact memFree_alike indistinct alike arg

omit [Controller C] in
private theorem mem_processCalls_of_flagCalls {call : SyscallId} {change : Process → Process}
    (listed : (call, change) ∈ flagCalls) : call ∈ processCalls := by
  simp only [flagCalls, List.mem_cons, Prod.mk.injEq, List.not_mem_nil, or_false] at listed
  rcases listed with ⟨rfl, _⟩ | ⟨rfl, _⟩ | ⟨rfl, _⟩
  · decide
  · decide
  · decide

/-- A call of any other kind leaves the process table and the allocator as they are. -/
theorem serve_processes (kernel : Kernel C) {call : SyscallId}
    (other : call ∉ processCalls) (arg : Value) :
    ((kernel.serve call arg).state.processes, (kernel.serve call arg).state.memory) =
      (kernel.processes, kernel.memory) := by
  cases serve_effect kernel arg call with
  | created _ _ _ _ called =>
      cases called
      exact absurd (by decide) other
  | updated id _ change _ called listed =>
      cases called
      exact absurd (mem_processCalls_of_flagCalls listed) other
  | granted _ _ _ called =>
      cases called
      exact absurd (by decide) other
  | released _ _ called =>
      cases called
      exact absurd (by decide) other
  | apart processesKept memoryKept =>
      rw [processesKept, memoryKept]

end Processes

section Interrupts

variable [PolledController C] {kernel other : Kernel C}

/-- What an interrupt does to the serial side hangs on nothing but that side and its line. -/
theorem interrupt_alikeSerial (alike : AlikeSerial kernel other) (lines otherLines : IrqLines)
    (sameLine : lines.uart = otherLines.uart) (frame otherFrame : TrapFrame) :
    AlikeSerial (kernel.interrupt frame lines).state
      (other.interrupt otherFrame otherLines).state := by
  have uartEq : kernel.uart = other.uart := alike
  rw [AlikeSerial, interrupt_uart, interrupt_uart, sameLine, uartEq]

/-- What an interrupt does to the process side hangs on nothing but that side and its line. -/
theorem interrupt_alikeProcesses {R : Allocator → Allocator → Prop} (indistinct : Indistinct R)
    (alike : AlikeProcesses R kernel other) (lines otherLines : IrqLines)
    (sameLine : lines.timer = otherLines.timer) (frame : TrapFrame) :
    (kernel.interrupt frame lines).frame = (other.interrupt frame otherLines).frame ∧
      AlikeProcesses R (kernel.interrupt frame lines).state
        (other.interrupt frame otherLines).state := by
  obtain ⟨processesEq, related⟩ := alike
  by_cases timer : lines.timer = true
  · obtain ⟨frameEq, processes, memory⟩ := interrupt_of_timer kernel frame lines timer
    obtain ⟨otherFrameEq, otherProcesses, otherMemory⟩ :=
      interrupt_of_timer other frame otherLines (sameLine ▸ timer)
    obtain ⟨sameFrame, sameTable, relatedAfter⟩ :=
      ProcessTable.schedule_congr indistinct related other.processes frame
    rw [processesEq] at frameEq processes memory
    refine ⟨?_, ?_, ?_⟩
    · rw [frameEq, otherFrameEq, sameFrame]
    · rw [processes, otherProcesses, sameTable]
    · rw [memory, otherMemory]
      exact relatedAfter
  · have resumed := interrupt_eq kernel frame lines
    have otherResumed := interrupt_eq other frame otherLines
    rw [if_neg timer, Prod.mk.injEq, Prod.mk.injEq] at resumed
    rw [if_neg (sameLine ▸ timer), Prod.mk.injEq, Prod.mk.injEq] at otherResumed
    obtain ⟨frameEq, processes, memory⟩ := resumed
    obtain ⟨otherFrameEq, otherProcesses, otherMemory⟩ := otherResumed
    refine ⟨?_, ?_, ?_⟩
    · rw [frameEq, otherFrameEq]
    · rw [processes, otherProcesses, processesEq]
    · rw [memory, otherMemory]
      exact related

end Interrupts

end Kernel

end Microkernel
