import Microkernel.Proofs.Entry.Gate
import Microkernel.Uart.Simulated

/-!
# The mask register and the lock during a call

The gate and the kernel's serial driver write one register.  A call through the gate is one critical
section that holds every line back.  The lock is taken and released inside it, and so is the section
of the driver if the call queues a byte.
-/

namespace Microkernel

open IrqMask (Holds)

namespace System

variable {C : Type}

/-- The mask that a request writes, if it writes one. -/
def Request.written? : Request → Option UInt32
  | .kernel request => request.written?
  | _ => none

def Request.isOfLock : Request → Bool
  | .tryLock | .unlock => true
  | .kernel _ => false

/-- A request to the kernel that does more than write the mask register. -/
def Request.Serves : Request → Prop
  | .kernel request => request.written? = none
  | _ => False

/-- Interrupts that are delivered one after the other, each with its lines and the system that it
meets.  Devices raise lines at any moment, and a line waits until a moment comes whose mask lets it
through. -/
def delivered : (waiting : UInt32) → List (UInt32 × System C) → List (UInt32 × System C)
  | _, [] => []
  | waiting, (raised, system) :: later =>
    let waiting := waiting ||| raised
    (waiting &&& ~~~system.mask.current, system) ::
      delivered (waiting &&& system.mask.current) later

private theorem eq_zero_of_mem_delivered {waiting : UInt32} {raises : List (UInt32 × System C)}
    (closed : ∀ raise ∈ raises, raise.2.locked = true →
      raise.2.mask.current = IrqMask.allLines) :
    ∀ delivery ∈ delivered waiting raises, delivery.2.locked = true → delivery.1 = 0 := by
  induction raises generalizing waiting with
  | nil =>
      intro delivery member
      cases member
  | cons raise later inductionHypothesis =>
      obtain ⟨here, after⟩ := List.forall_mem_cons.mp closed
      intro delivery member locked
      rcases List.mem_cons.mp member with rfl | member
      · have shut : ~~~raise.2.mask.current = 0 := by
          rw [here locked]
          rfl
        change (waiting ||| raise.1) &&& ~~~raise.2.mask.current = 0
        rw [shut, UInt32.and_zero]
      · exact inductionHypothesis after delivery member locked

section Controller

variable [Controller C] (id : UInt32) (arg : Value) (system : System C)

/-- Every request of a call through the gate, the first one first, each with the system in which it
is made. -/
def trace : List (Routine.Step Request (System C)) :=
  (Work.syscall id arg).steps answer system

/-- The system before each request of a call and after the last one. -/
def moments : List (System C) :=
  (system.trace id arg).map Routine.Step.state ++ [(system.syscall id arg).state]

/-- The requests that a call through the gate makes, and when. -/
inductive InCall : Routine.Step Request (System C) → Prop
  | mask {state : System C} {mask : UInt32} (locked : state.locked = system.locked)
      (holds : Holds mask system.mask.current) :
      InCall ⟨state, .kernel (.driver (.swapMask mask))⟩
  | lock {state : System C} (locked : state.locked = system.locked) : InCall ⟨state, .tryLock⟩
  | serve {state : System C} {request : Kernel.Request} (free : system.locked = false)
      (locked : state.locked = true) (closed : state.mask.current = IrqMask.allLines)
      (covers : ∀ mask, request.written? = some mask → mask = IrqMask.allLines) :
      InCall ⟨state, .kernel request⟩
  | unlock {state : System C} (locked : state.locked = true)
      (closed : state.mask.current = IrqMask.allLines) : InCall ⟨state, .unlock⟩

/-- What a call through the gate does with the mask register and the lock, told step by step. -/
structure HoldsBack : Prop where
  /-- The register is written by the requests that write it, and by nothing else. -/
  writes : (system.syscall id arg).state.mask.history =
    system.mask.history ++ (system.trace id arg).filterMap (·.request.written?)
  /-- Every mask that is written holds what the caller held. -/
  covers : ∀ step ∈ system.trace id arg, ∀ mask,
    step.request.written? = some mask → Holds mask system.mask.current
  /-- A lock that is free is taken once and released once, and one that is taken is left alone. -/
  locks : ((system.trace id arg).map (·.request)).filter Request.isOfLock =
    if system.locked then [.tryLock] else [.tryLock, .unlock]
  /-- The kernel serves the call while the gate has the lock. -/
  encloses : ∀ step ∈ system.trace id arg, step.request.Serves →
    system.locked = false ∧ step.state.locked = true
  /-- Whenever the gate has the lock, every line is held back. -/
  closes : system.locked = false → ∀ moment ∈ system.moments id arg,
    moment.locked = true → moment.mask.current = IrqMask.allLines
  /-- No interrupt is delivered while the gate has the lock, whatever is raised and whenever. -/
  defers : system.locked = false → ∀ (waiting : UInt32) (raises : List (UInt32 × System C)),
    (∀ raise ∈ raises, raise.2 ∈ system.moments id arg) →
      ∀ delivery ∈ delivered waiting raises, delivery.1 ≠ 0 → delivery.2.locked = false
  restores : (system.syscall id arg).state.mask.current = system.mask.current ∧
    (system.syscall id arg).state.locked = system.locked

theorem answer_history (request : Request) :
    (answer request system).2.mask.history =
      system.mask.history ++ request.written?.toList := by
  cases request with
  | kernel request => exact Kernel.answer_history system.kernel request
  | _ => exact (List.append_nil _).symm

omit [Controller C] in
private theorem opened_mask_current : system.opened.mask.current = IrqMask.allLines :=
  UInt32.or_neg_one

private theorem inCall_of_mem_tryDispatch {step : Routine.Step Request (System C)}
    (member : step ∈ (Work.tryDispatch id arg).steps answer system.opened) :
    system.InCall step := by
  cases free : system.locked with
  | true =>
      rw [steps_tryDispatch_of_locked id arg system.opened free, List.mem_singleton] at member
      subst member
      exact .lock rfl
  | false =>
      obtain ⟨during, atEnd⟩ := Kernel.holds_of_mem_callNumber system.opened.kernel arg id
      have closed {mask : UInt32} (holds : Holds mask system.opened.mask.current) :
          mask = IrqMask.allLines := by
        rw [opened_mask_current] at holds
        exact holds.eq_allLines
      rw [steps_tryDispatch_of_free id arg system.opened free, List.cons_append, List.mem_cons,
        List.mem_append, List.mem_map, List.mem_singleton] at member
      rcases member with rfl | ⟨inner, inside, rfl⟩ | rfl
      · exact .lock rfl
      · refine .serve free rfl (closed (during inner inside)) fun mask written => ?_
        exact closed (Kernel.holds_of_written system.opened.kernel arg inside written)
      · exact .unlock rfl (closed atEnd)

private theorem syscall_locked : (system.syscall id arg).state.locked = system.locked := by
  rw [syscall_eq]
  cases free : system.locked with
  | true =>
      rw [run_tryDispatch_of_locked id arg system.opened free]
      exact free
  | false =>
      rw [run_tryDispatch_of_free id arg system.opened free]
      exact free

theorem inCall_of_mem_trace {step : Routine.Step Request (System C)}
    (member : step ∈ system.trace id arg) : system.InCall step := by
  rw [trace, syscall_steps, List.mem_cons, List.mem_cons, List.mem_append,
    List.mem_singleton] at member
  rcases member with rfl | rfl | inside | rfl
  · exact .mask rfl (IrqMask.holds_allLines _)
  · exact .mask rfl ((IrqMask.holds_self _).or _)
  · exact inCall_of_mem_tryDispatch id arg system inside
  · have released := syscall_locked id arg system
    rw [syscall_eq] at released
    exact .mask released (IrqMask.holds_self _)

private theorem trace_locks :
    ((system.trace id arg).map (·.request)).filter Request.isOfLock =
      if system.locked then [.tryLock] else [.tryLock, .unlock] := by
  rw [trace, syscall_steps]
  cases free : system.locked with
  | true =>
      rw [steps_tryDispatch_of_locked id arg system.opened free]
      rfl
  | false =>
      have none (steps : List (Routine.Step Kernel.Request (Kernel C))) :
          (steps.map fun step => Request.kernel step.request).filter Request.isOfLock = [] := by
        rw [List.filter_eq_nil_iff, List.forall_mem_map]
        exact fun step _ => Bool.false_ne_true
      rw [steps_tryDispatch_of_free id arg system.opened free]
      simp only [List.map_cons, List.map_append, List.map_map, List.filter_cons, List.filter_append,
        Function.comp_def, none]
      rfl

private theorem mask_eq_allLines_of_locked (free : system.locked = false) {moment : System C}
    (member : moment ∈ system.moments id arg) (locked : moment.locked = true) :
    moment.mask.current = IrqMask.allLines := by
  rw [moments, List.mem_append, List.mem_map, List.mem_singleton] at member
  rcases member with ⟨step, traced, rfl⟩ | rfl
  · cases inCall_of_mem_trace id arg system traced with
    | mask outside _ => exact absurd (locked.symm.trans (outside.trans free)) nofun
    | lock outside => exact absurd (locked.symm.trans (outside.trans free)) nofun
    | serve _ _ closed _ => exact closed
    | unlock _ closed => exact closed
  · exact absurd (locked.symm.trans ((syscall_locked id arg system).trans free)) nofun

theorem syscall_holdsBack : system.HoldsBack id arg where
  writes := Routine.run_log (·.mask.history) Request.written?
    (fun request state => answer_history state request) (Work.syscall id arg) system
  covers := by
    intro step traced mask written
    cases inCall_of_mem_trace id arg system traced with
    | mask _ holds =>
        obtain rfl := Option.some.inj written
        exact holds
    | lock _ => cases written
    | serve _ _ _ covers =>
        rw [covers mask written]
        exact IrqMask.holds_allLines _
    | unlock _ _ => cases written
  locks := trace_locks id arg system
  encloses := by
    intro step traced serves
    cases inCall_of_mem_trace id arg system traced with
    | mask _ _ => cases serves
    | lock _ => exact serves.elim
    | serve free locked _ _ => exact ⟨free, locked⟩
    | unlock _ _ => exact serves.elim
  closes := fun free moment member => mask_eq_allLines_of_locked id arg system free member
  defers := by
    intro free waiting raises scheduled delivery member raised
    have closed : ∀ raise ∈ raises, raise.2.locked = true →
        raise.2.mask.current = IrqMask.allLines :=
      fun raise raises => mask_eq_allLines_of_locked id arg system free (scheduled raise raises)
    exact Bool.eq_false_iff.mpr fun locked =>
      raised (eq_zero_of_mem_delivered closed delivery member locked)
  restores := by
    refine ⟨?_, syscall_locked id arg system⟩
    rw [syscall_eq]
    rfl

end Controller

end System

/-- Calls through the gate, the driver when it queues a byte, and critical sections in general: each
holds back what its caller held, leaves the register as the caller had it, and touches what it
guards under a mask that holds the lines it needs. -/
theorem mask_discipline {C : Type} [Controller C] (system : System C) (id : UInt32) (arg : Value)
    (uart : Uart C) (byte : UInt8) (brackets : Brackets) (register : IrqMask) :
    system.HoldsBack id arg ∧ uart.HoldsBack byte ∧ brackets.HoldsBack register :=
  ⟨system.syscall_holdsBack id arg, uart.put_holdsBack byte, brackets.run_holdsBack register⟩

/-- A byte is queued through the gate by a caller that holds one line back.  The timer is raised
again and again while the kernel is locked, and delivered once, after the call. -/
theorem mask_discipline_timerMeanwhile :
    let held := IrqLines.bitOf IrqLines.hidLine
    let timer := IrqLines.bitOf IrqLines.timerLine
    let system := System.new (Kernel.new .default SimulatedUart.idle ⟨held, []⟩)
    let moments := system.moments SyscallId.uartPutc.code (.int32 120)
    let raises := moments.map fun moment => (if moment.locked then timer else 0, moment)
    system.locked = false ∧
      moments.map (fun moment => (moment.mask.current, moment.locked)) =
        (held, false) :: .replicate 2 (IrqMask.allLines, false) ++
          .replicate 10 (IrqMask.allLines, true) ++ [(IrqMask.allLines, false), (held, false)] ∧
      (System.delivered 0 raises).map Prod.fst = .replicate 14 0 ++ [timer] ∧
      ∀ delivery ∈ System.delivered 0 raises, delivery.1 ≠ 0 → delivery.2.locked = false := by
  intro held timer system moments raises
  have during : ∀ raise ∈ raises, raise.2 ∈ moments := by
    intro raise member
    obtain ⟨moment, listed, rfl⟩ := List.mem_map.mp member
    exact listed
  have discipline := mask_discipline system SyscallId.uartPutc.code (.int32 120) system.kernel.uart
    120 .done system.mask
  refine ⟨rfl, ?_, ?_, discipline.1.defers rfl 0 raises during⟩
  · decide
  · decide

end Microkernel
