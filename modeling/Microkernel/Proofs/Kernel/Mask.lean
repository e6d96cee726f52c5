import Microkernel.Proofs.Kernel.Handlers
import Microkernel.Proofs.Uart.Mask

/-!
# The kernel and its mask register

Only the call that queues a byte writes the mask register, in one critical section.  No call and no
interrupt depends on what the register holds: with another register each does the same and leaves
that register as its own critical sections do.
-/

namespace Microkernel.Kernel

open IrqMask (Holds)

variable {C : Type}

/-- The kernel with another mask register. -/
def withMask (mask : IrqMask) (kernel : Kernel C) : Kernel C :=
  { kernel with uart := kernel.uart.withMask mask }

/-- The critical sections of a call. -/
def brackets (call : SyscallId) (arg : Value) : Brackets :=
  match call, byteOf? arg with
  | .uartPutc, some _ => Uart.putBrackets
  | _, _ => .done

def bracketsOf (id : UInt32) (arg : Value) : Brackets :=
  match SyscallId.ofCode? id with
  | some call => brackets call arg
  | none => .done

section Calls

variable (mask : IrqMask) (kernel : Kernel C) (arg : Value)

@[simp]
theorem withMask_processes : (kernel.withMask mask).processes = kernel.processes :=
  rfl

@[simp]
theorem withMask_memory : (kernel.withMask mask).memory = kernel.memory :=
  rfl

@[simp]
theorem withMask_uart : (kernel.withMask mask).uart = kernel.uart.withMask mask :=
  rfl

/-- The mask that a request writes, if it writes one. -/
def Request.written? : Request → Option UInt32
  | .driver request => request.written?
  | _ => none

/-- Only the call that queues a byte writes the mask register. -/
theorem call_quiet {call : SyscallId} (other : call ≠ .uartPutc) :
    (Work.call call arg).Asks fun request => request.written? = none := by
  refine (call_asks call arg).mono ?_
  intro request asked
  cases request with
  | driver request =>
      cases call with
      | uartRxEmpty =>
          rw [show request = .rxIsEmpty from asked]
          rfl
      | uartTxFull =>
          rw [show request = .txIsFull from asked]
          rfl
      | uartGetc =>
          rw [show request = .take from asked]
          rfl
      | uartPutc => exact absurd rfl other
      | _ => exact asked.elim
  | _ => rfl

variable [Controller C]

theorem answer_withMask {request : Request} (quiet : request.written? = none) :
    answer request (kernel.withMask mask) =
      ((answer request kernel).1, (answer request kernel).2.withMask mask) := by
  cases request with
  | driver request =>
      simp only [answer, withMask_uart, Uart.answer_withMask mask kernel.uart quiet]
      rfl
  | _ => rfl

theorem answer_mask {request : Request} (quiet : request.written? = none) :
    (answer request kernel).2.uart.mask = kernel.uart.mask :=
  congrArg (fun answered => answered.2.uart.mask) (answer_withMask kernel.uart.mask kernel quiet)

theorem answer_history (request : Request) :
    (answer request kernel).2.uart.mask.history =
      kernel.uart.mask.history ++ request.written?.toList := by
  cases request with
  | driver request => exact Uart.answer_history kernel.uart request
  | _ => exact (List.append_nil _).symm

theorem answer_mask_current (request : Request) :
    (answer request kernel).2.uart.mask.current =
      request.written?.getD kernel.uart.mask.current := by
  cases request with
  | driver request => exact Uart.answer_mask_current kernel.uart request
  | _ => rfl

/-- Every mask that a call writes holds what its caller held. -/
theorem holds_of_written {id : UInt32} {mask : UInt32} {step : Routine.Step Request (Kernel C)}
    (member : step ∈ (Work.callNumber id arg).steps answer kernel)
    (written : step.request.written? = some mask) : Holds mask kernel.uart.mask.current := by
  unfold Work.callNumber at member
  cases named : SyscallId.ofCode? id with
  | none =>
      rw [named] at member
      cases member
  | some call =>
      rw [named] at member
      by_cases putc : call = .uartPutc
      · subst putc
        change step ∈ (Work.uartPutc arg).steps answer kernel at member
        unfold Work.uartPutc at member
        split at member
        · next byte _ =>
            rw [Routine.steps_bind, steps_onDriver, Routine.steps_pure, List.append_nil] at member
            obtain ⟨inner, inside, rfl⟩ := List.mem_map.mp member
            exact (kernel.uart.put_holdsBack byte).covers inner inside mask written
        · cases member
      · have quiet := (call_quiet arg putc).request_of_mem member
        exact absurd (quiet.symm.trans written) nofun

/-- Whatever is in force during a call holds what its caller held. -/
theorem holds_of_mem_callNumber (id : UInt32) :
    (∀ step ∈ (Work.callNumber id arg).steps answer kernel,
        Holds step.state.uart.mask.current kernel.uart.mask.current) ∧
      Holds ((Work.callNumber id arg).run answer kernel).2.uart.mask.current
        kernel.uart.mask.current := by
  let covered (request : Request) : Prop :=
    ∀ mask, request.written? = some mask → Holds mask kernel.uart.mask.current
  have keeps : ∀ request (state : Kernel C), covered request →
      Holds state.uart.mask.current kernel.uart.mask.current →
        Holds (answer request state).2.uart.mask.current kernel.uart.mask.current := by
    intro request state covers holds
    rw [answer_mask_current]
    cases written : request.written? with
    | none => exact holds
    | some mask => exact covers mask written
  have own : Holds kernel.uart.mask.current kernel.uart.mask.current := IrqMask.holds_self _
  exact Routine.holds_of_steps keeps own fun step member mask written =>
    holds_of_written kernel arg member written

private theorem uartPutc_withMask :
    (kernel.withMask mask).perform (.uartPutc arg) =
      (kernel.perform (.uartPutc arg)).map (withMask ((brackets .uartPutc arg).run mask)) := by
  rw [perform_uartPutc, perform_uartPutc]
  unfold brackets
  cases byteOf? arg with
  | some byte =>
      simp only [withMask_uart, Uart.put_withMask]
      rfl
  | none => rfl

private theorem serve_withMask (call : SyscallId) :
    (kernel.withMask mask).serve call arg =
      (kernel.serve call arg).map (withMask ((brackets call arg).run mask)) := by
  by_cases putc : call = .uartPutc
  · subst putc
    exact uartPutc_withMask mask kernel arg
  · have noBrackets : brackets call arg = .done := by
      cases call with
      | uartPutc => exact absurd rfl putc
      | _ => rfl
    have ran := (call_quiet arg putc).run_map
      (fun _ state quiet => answer_withMask mask state quiet) kernel
    rw [noBrackets, serve, perform_eq, ran]
    rfl

theorem dispatch_withMask (id : UInt32) :
    (kernel.withMask mask).dispatch id arg =
      (kernel.dispatch id arg).map (withMask ((bracketsOf id arg).run mask)) := by
  rw [dispatch_eq, dispatch_eq]
  unfold bracketsOf
  cases SyscallId.ofCode? id with
  | some call => exact serve_withMask mask kernel arg call
  | none => rfl

/-- A call writes the mask register as its critical sections do. -/
theorem dispatch_mask (id : UInt32) :
    (kernel.dispatch id arg).state.uart.mask = (bracketsOf id arg).run kernel.uart.mask := by
  have served := dispatch_withMask kernel.uart.mask kernel arg id
  have own : kernel.withMask kernel.uart.mask = kernel := rfl
  rw [own] at served
  rw [served]
  rfl

theorem dispatch_mask_current (id : UInt32) :
    (kernel.dispatch id arg).state.uart.mask.current = kernel.uart.mask.current := by
  rw [dispatch_mask, Brackets.run_current]

end Calls

section Interrupts

variable [PolledController C] (mask : IrqMask) (kernel : Kernel C)

private theorem serviceUart_withMask (lines : IrqLines) :
    (kernel.withMask mask).serviceUart lines =
      ((kernel.serviceUart lines).1, (kernel.serviceUart lines).2.withMask mask) := by
  unfold serviceUart
  split
  · rw [withMask_uart, Uart.service_withMask]
    rfl
  · rfl

omit [PolledController C] in
private theorem serviceTimer_withMask (frame : TrapFrame) (lines : IrqLines) :
    (kernel.withMask mask).serviceTimer frame lines =
      ((kernel.serviceTimer frame lines).1, (kernel.serviceTimer frame lines).2.withMask mask) := by
  unfold serviceTimer
  split
  · rfl
  · rfl

theorem interrupt_withMask (frame : TrapFrame) (lines : IrqLines) :
    (kernel.withMask mask).interrupt frame lines =
      (kernel.interrupt frame lines).map (withMask mask) := by
  let counted : Kernel C := { kernel with ticks := kernel.ticks + 1 }
  have served : serviceUart
      ⟨kernel.config, kernel.memory, kernel.processes, kernel.uart.withMask mask, kernel.ticks + 1⟩
      lines = ((counted.serviceUart lines).1, (counted.serviceUart lines).2.withMask mask) :=
    serviceUart_withMask mask counted lines
  change interrupt frame lines
    ⟨kernel.config, kernel.memory, kernel.processes, kernel.uart.withMask mask, kernel.ticks⟩ = _
  simp only [interrupt, served, serviceTimer_withMask, withMask_processes, withMask_memory]
  rfl

/-- An interrupt does not write the mask register. -/
theorem interrupt_mask (frame : TrapFrame) (lines : IrqLines) :
    (kernel.interrupt frame lines).state.uart.mask = kernel.uart.mask :=
  congrArg (fun resumed : Resumed (Kernel C) => resumed.state.uart.mask)
    (interrupt_withMask kernel.uart.mask kernel frame lines)

end Interrupts

end Microkernel.Kernel
