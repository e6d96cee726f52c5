import Microkernel.Proofs.Uart.Queueing

/-!
# The driver and its mask register

Of all operations of the driver only `put` writes the mask register, and it does so before and after
its work on the rings and the controller.  No operation depends on what the register holds.
-/

namespace Microkernel.Uart

open IrqMask (Holds)

variable {C : Type}

/-- The section in which a byte is queued. -/
def putBrackets : Brackets :=
  .bracket (IrqLines.bitOf IrqLines.uartLine) .done .done

section Mask

variable (mask : IrqMask) (uart : Uart C)

@[simp]
theorem withMask_rx : (uart.withMask mask).rx = uart.rx :=
  rfl

@[simp]
theorem withMask_tx : (uart.withMask mask).tx = uart.tx :=
  rfl

@[simp]
theorem withMask_controller : (uart.withMask mask).controller = uart.controller :=
  rfl

private theorem get_withMask :
    (uart.withMask mask).get = (uart.get.1, uart.get.2.withMask mask) := by
  simp only [get, withMask_rx]
  cases uart.rx.pop? with
  | some popped => rfl
  | none => rfl

private theorem keep_withMask (byte : UInt8) :
    (uart.withMask mask).keep byte = ((uart.keep byte).1, (uart.keep byte).2.withMask mask) := by
  simp only [keep, withMask_rx]
  cases uart.rx.push? byte with
  | some rx => rfl
  | none => rfl

private theorem ite_withMask (holds : Prop) [Decidable holds] (other : Uart C) :
    (if holds then uart.withMask mask else other.withMask mask) =
      (if holds then uart else other).withMask mask :=
  (apply_ite (withMask mask) holds uart other).symm

end Mask

section Controller

variable [Controller C] (mask : IrqMask) (uart : Uart C)

private theorem readRegister_withMask (register : Register) :
    (uart.withMask mask).readRegister register =
      ((uart.readRegister register).1, (uart.readRegister register).2.withMask mask) :=
  rfl

private theorem writeRegister_withMask (register : Register) (byte : UInt8) :
    (uart.withMask mask).writeRegister register byte =
      (uart.writeRegister register byte).withMask mask :=
  rfl

/-- No access to the rings or the controller depends on the mask register or writes it. -/
theorem answer_withMask {request : Request} (quiet : request.IsQuiet) :
    answer request (uart.withMask mask) =
      ((answer request uart).1, (answer request uart).2.withMask mask) := by
  cases request with
  | swapMask written => cases quiet
  | take => exact get_withMask mask uart
  | push byte =>
      simp only [answer, withMask_tx]
      cases uart.tx.push? byte with
      | some tx => rfl
      | none => rfl
  | pop =>
      simp only [answer, withMask_tx]
      cases uart.tx.pop? with
      | some popped => rfl
      | none => rfl
  | rxIsEmpty => rfl
  | txIsEmpty => rfl
  | txIsFull => rfl
  | read register => rfl
  | write register byte => rfl

theorem answer_mask {request : Request} (quiet : request.IsQuiet) :
    (answer request uart).2.mask = uart.mask :=
  congrArg (fun answered => answered.2.mask) (answer_withMask uart.mask uart quiet)

private theorem perform_withMask {work : Work Unit} (quiet : work.Asks Request.IsQuiet) :
    (uart.withMask mask).perform work = (uart.perform work).withMask mask := by
  have ran := quiet.run_map (fun _ state quiet => answer_withMask mask state quiet) uart
  exact congrArg Prod.snd ran

theorem put_withMask (byte : UInt8) :
    (uart.withMask mask).put byte = (uart.put byte).withMask (putBrackets.run mask) := by
  simp only [put_eq, perform_withMask _ _ (enqueue_quiet byte)]
  rfl

theorem answer_history (request : Request) :
    (answer request uart).2.mask.history = uart.mask.history ++ request.written?.toList := by
  cases written : request.written? with
  | none =>
      rw [answer_mask uart written]
      exact (List.append_nil _).symm
  | some mask =>
      cases request with
      | swapMask _ =>
          obtain rfl := Option.some.inj written
          exact List.reverse_cons
      | _ => cases written

theorem answer_mask_current (request : Request) :
    (answer request uart).2.mask.current = request.written?.getD uart.mask.current := by
  cases written : request.written? with
  | none => exact congrArg IrqMask.current (answer_mask uart written)
  | some mask =>
      cases request with
      | swapMask _ => exact Option.some.inj written
      | _ => cases written

theorem put_steps (byte : UInt8) :
    (Work.put byte).steps answer uart =
      ⟨uart, .swapMask IrqMask.allLines⟩ ::
        ⟨uart.withMask (uart.mask.swap IrqMask.allLines).2,
          .swapMask (uart.mask.current ||| IrqLines.bitOf IrqLines.uartLine)⟩ ::
        ((Work.enqueue byte).steps answer (uart.withMask uart.opened) ++
          [⟨(uart.withMask uart.opened).perform (.enqueue byte),
            .swapMask uart.mask.current⟩]) := by
  rw [Work.put, Routine.steps_bind, Routine.steps_bind]
  rfl

/-- What queueing a byte does with the mask register, told step by step. -/
structure HoldsBack (byte : UInt8) : Prop where
  /-- The register is written by the swaps among the steps, and by nothing else. -/
  writes : (uart.put byte).mask.history =
    uart.mask.history ++ ((Work.put byte).steps answer uart).filterMap (·.request.written?)
  /-- Every mask that is written holds what the caller held. -/
  covers : ∀ step ∈ (Work.put byte).steps answer uart, ∀ mask,
    step.request.written? = some mask → Holds mask uart.mask.current
  /-- Whenever the rings or the controller are touched, the controller's line is held as well as
  what the caller held. -/
  guards : ∀ step ∈ (Work.put byte).steps answer uart, step.request.IsQuiet →
    step.state.mask.current = uart.mask.current ||| IrqLines.bitOf IrqLines.uartLine
  restores : (uart.put byte).mask.current = uart.mask.current

private theorem mask_of_mem_enqueue {byte : UInt8} {step : Routine.Step Request (Uart C)}
    (member : step ∈ (Work.enqueue byte).steps answer uart) :
    step.request.IsQuiet ∧ step.state.mask = uart.mask :=
  ⟨(enqueue_quiet byte).request_of_mem member,
    (enqueue_quiet byte).state_of_mem Uart.mask (fun _ state quiet => answer_mask state quiet)
      member⟩

theorem put_holdsBack (byte : UInt8) : uart.HoldsBack byte where
  writes := Routine.run_log (·.mask.history) Request.written?
    (fun request state => answer_history state request) (Work.put byte) uart
  covers := by
    intro step member mask written
    rw [put_steps, List.mem_cons, List.mem_cons, List.mem_append, List.mem_singleton] at member
    rcases member with rfl | rfl | inside | rfl
    · obtain rfl := Option.some.inj written
      exact IrqMask.holds_allLines _
    · obtain rfl := Option.some.inj written
      exact (IrqMask.holds_self _).or _
    · have quiet := (mask_of_mem_enqueue _ inside).1
      exact absurd (quiet.symm.trans written) nofun
    · obtain rfl := Option.some.inj written
      exact IrqMask.holds_self _
  guards := by
    intro step member quiet
    rw [put_steps, List.mem_cons, List.mem_cons, List.mem_append, List.mem_singleton] at member
    rcases member with rfl | rfl | inside | rfl
    · cases quiet
    · cases quiet
    · rw [(mask_of_mem_enqueue _ inside).2]
      rfl
    · cases quiet
  restores := by
    rw [put_eq]
    rfl

private theorem transmitLoop_withMask (polls : Nat) :
    transmitLoop polls (uart.withMask mask) = (transmitLoop polls uart).withMask mask := by
  induction polls generalizing uart with
  | zero =>
      rfl
  | succ polls inductionHypothesis =>
      simp only [transmitLoop, readRegister_withMask, withMask_tx]
      let polled := (uart.readRegister .lineStatus).2
      rw [apply_ite (withMask mask)]
      refine ite_congr rfl (fun _ => ?ready) fun _ => rfl
      case ready =>
        cases (uart.readRegister .lineStatus).2.tx.pop? with
        | none => rfl
        | some popped =>
            exact inductionHypothesis ({ polled with tx := popped.2 }.writeRegister .data popped.1)

private theorem transmit_withMask :
    (uart.withMask mask).transmit = uart.transmit.withMask mask := by
  simp only [transmit, withMask_tx, transmitLoop_withMask, writeRegister_withMask, ite_withMask]

private theorem receive?_withMask (polls : Nat) :
    receive? polls (uart.withMask mask) =
      (receive? polls uart).map (Prod.map id (withMask mask)) := by
  induction polls generalizing uart with
  | zero =>
      rfl
  | succ polls inductionHypothesis =>
      simp only [receive?, readRegister_withMask]
      rw [apply_ite (Option.map (Prod.map id (withMask mask)))]
      refine ite_congr rfl (fun _ => ?arrived) fun _ => rfl
      case arrived =>
        simp only [keep_withMask, inductionHypothesis]
        cases receive? polls (_ : Uart C) with
        | none => rfl
        | some later => rfl

private theorem service?_withMask (polls : Nat) :
    (uart.withMask mask).service? polls =
      (uart.service? polls).map (Prod.map id (withMask mask)) := by
  simp only [service?, readRegister_withMask, transmit_withMask, receive?_withMask]
  split
  · rfl
  · split
    · rfl
    · split
      · rfl
      · split
        · rfl
        · rfl

end Controller

theorem service_withMask [PolledController C] (mask : IrqMask) (uart : Uart C) :
    (uart.withMask mask).service = (uart.service.1, uart.service.2.withMask mask) := by
  simp only [service, withMask_controller, service?_withMask]
  cases uart.service? (PolledController.pollLimit uart.controller) with
  | some served => rfl
  | none => rfl

end Microkernel.Uart
