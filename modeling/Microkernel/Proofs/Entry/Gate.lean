import Microkernel.Entry.Gate
import Microkernel.Proofs.Kernel.Mask

/-!
# A call through the gate

The gate masks every line, takes the lock, has the kernel serve the call, releases the lock and
reinstalls the caller's mask.  A call that finds the lock taken reaches neither the kernel nor the
lock.
-/

namespace Microkernel.System

variable {C : Type} (id : UInt32) (arg : Value) (system : System C)

/-- The system when the gate has begun its critical section. -/
def opened : System C :=
  system.setMask (system.mask.maskLines IrqMask.allLines).2

variable [Controller C]

section Kernel

variable {α : Type} (work : Kernel.Work α)

theorem run_onKernel :
    (Work.onKernel work).run answer system =
      ((work.run Kernel.answer system.kernel).1,
        { system with kernel := (work.run Kernel.answer system.kernel).2 }) :=
  @Routine.run_embed _ _ _ _ _ Answer .kernel (fun kernel => { system with kernel }) Kernel.answer
    answer (fun _ _ => rfl) work system.kernel

theorem steps_onKernel :
    (Work.onKernel work).steps answer system =
      (work.steps Kernel.answer system.kernel).map fun step =>
        ⟨{ system with kernel := step.state }, .kernel step.request⟩ :=
  @Routine.steps_embed _ _ _ _ _ Answer .kernel (fun kernel => { system with kernel }) Kernel.answer
    answer (fun _ _ => rfl) work system.kernel

end Kernel

theorem run_tryDispatch_of_free (free : system.locked = false) :
    (Work.tryDispatch id arg).run answer system =
      let served := (Kernel.Work.callNumber id arg).run Kernel.answer system.kernel
      (served.1, { system with kernel := served.2 }) := by
  obtain ⟨kernel, locked⟩ := system
  obtain rfl : locked = false := free
  have taken : Work.tryLock.run answer (System.mk kernel false) = (true, ⟨kernel, true⟩) := rfl
  rw [Work.tryDispatch, Routine.run_bind, taken]
  simp only [if_true, Routine.run_bind, run_onKernel]
  rfl

theorem run_tryDispatch_of_locked (busy : system.locked = true) :
    (Work.tryDispatch id arg).run answer system =
      (.refused arg [Log.warn ("[entry] syscall " ++ toString id.toNat ++ " while kernel busy")],
        system) := by
  obtain ⟨kernel, locked⟩ := system
  obtain rfl : locked = true := busy
  rfl

theorem steps_tryDispatch_of_free (free : system.locked = false) :
    (Work.tryDispatch id arg).steps answer system =
      let served := (Kernel.Work.callNumber id arg).run Kernel.answer system.kernel
      ⟨system, .tryLock⟩ ::
        ((Kernel.Work.callNumber id arg).steps Kernel.answer system.kernel).map (fun step =>
          ⟨⟨step.state, true⟩, .kernel step.request⟩) ++ [⟨⟨served.2, true⟩, .unlock⟩] := by
  obtain ⟨kernel, locked⟩ := system
  obtain rfl : locked = false := free
  have taken : Work.tryLock.run answer (System.mk kernel false) = (true, ⟨kernel, true⟩) := rfl
  rw [Work.tryDispatch, Routine.steps_bind, taken]
  simp only [if_true, Routine.steps_bind, steps_onKernel, run_onKernel]
  rfl

theorem steps_tryDispatch_of_locked (busy : system.locked = true) :
    (Work.tryDispatch id arg).steps answer system = [⟨system, .tryLock⟩] := by
  obtain ⟨kernel, locked⟩ := system
  obtain rfl : locked = true := busy
  rfl

theorem syscall_eq :
    system.syscall id arg =
      let served := (Work.tryDispatch id arg).run answer system.opened
      served.1.upon (served.2.setMask (served.2.mask.restore system.mask.current)) := by
  rw [syscall, Work.syscall, Routine.run_bind, Routine.run_bind]
  rfl

theorem syscall_steps :
    (Work.syscall id arg).steps answer system =
      ⟨system, .kernel (.driver (.swapMask IrqMask.allLines))⟩ ::
        ⟨system.setMask (system.mask.swap IrqMask.allLines).2,
          .kernel (.driver (.swapMask (system.mask.current ||| IrqMask.allLines)))⟩ ::
        ((Work.tryDispatch id arg).steps answer system.opened ++
          [⟨((Work.tryDispatch id arg).run answer system.opened).2,
            .kernel (.driver (.swapMask system.mask.current))⟩]) := by
  rw [Work.syscall, Routine.steps_bind, Routine.steps_bind]
  rfl

end Microkernel.System
