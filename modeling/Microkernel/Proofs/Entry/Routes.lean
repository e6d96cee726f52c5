import Microkernel.Entry.Machine
import Microkernel.Proofs.Entry.Gate
import Microkernel.Proofs.Kernel.Events

/-!
# Three ways into one kernel

A kernel can be entered as it stands, through its gate, or through a control cell in which the
gate's raw entry is published.  All three answer alike and leave the same kernel, but for what the
mask register remembers: the gate has a critical section of its own, and the cell does not enter the
kernel for the number that announces an interrupt.
-/

namespace Microkernel

/-- What the sender of an event gets back. -/
inductive Response where
  | served (ret arg : Value)
  | resumed (frame : TrapFrame)

/-- The answer that leaves everything to the sender. -/
def Event.unanswered : Event → Response
  | .call _ arg => .served .fail arg
  | .interrupt frame _ => .resumed frame

section Response

variable {S : Type}

def Served.answered (served : Served S) : Response × S :=
  (.served served.ret served.arg, served.state)

def Resumed.answered (resumed : Resumed S) : Response × S :=
  (.resumed resumed.frame, resumed.state)

end Response

namespace Boundary

variable {S : Type} [Boundary S]

def handle (event : Event) (state : S) : Response × S :=
  match event with
  | .call id arg => (dispatch id arg state).answered
  | .interrupt frame lines => (interrupt frame lines state).answered

/-- Pass events on one after the other. -/
def handleAll : List Event → S → List Response × S
  | [], state => ([], state)
  | event :: rest, state =>
    let (answer, state) := handle event state
    let (answers, state) := handleAll rest state
    (answer :: answers, state)

end Boundary

open Boundary (handle handleAll)

namespace Kernel

variable {C T : Type} [PolledController C] [Boundary T]

private theorem handle_mask_current (event : Event) (kernel : Kernel C) :
    (handle event kernel).2.uart.mask.current = kernel.uart.mask.current := by
  cases event with
  | call id arg => exact dispatch_mask_current kernel arg id
  | interrupt frame lines => exact congrArg IrqMask.current (interrupt_mask kernel frame lines)

/-- No answer depends on what the mask register holds. -/
theorem handle_withMask (event : Event) (register : IrqMask) (kernel : Kernel C) :
    ∃ after : IrqMask, after.current = register.current ∧
      handle event (kernel.withMask register) =
        ((handle event kernel).1, (handle event kernel).2.withMask after) := by
  cases event with
  | call id arg =>
      let sections := bracketsOf id arg
      refine ⟨sections.run register, sections.run_current register, ?_⟩
      exact congrArg Served.answered (dispatch_withMask register kernel arg id)
  | interrupt frame lines =>
      have resumed := interrupt_withMask register kernel frame lines
      exact ⟨register, rfl, congrArg Resumed.answered resumed⟩

private theorem handleAll_mask_current (events : List Event) (kernel : Kernel C) :
    (handleAll events kernel).2.uart.mask.current = kernel.uart.mask.current := by
  induction events generalizing kernel with
  | nil =>
      rfl
  | cons event rest inductionHypothesis =>
      exact (inductionHypothesis (handle event kernel).2).trans (handle_mask_current event kernel)

/-- A way in follows the kernel through every run if it does so for one event, each time up to the
writes of a mask register whose mask is the same afterwards. -/
theorem handleAll_within {within : IrqMask → Kernel C → T}
    (step : ∀ event register kernel, ∃ after : IrqMask, after.current = register.current ∧
      handle event (within register kernel) =
        ((handle event kernel).1, within after (handle event kernel).2))
    (events : List Event) (register : IrqMask) (kernel : Kernel C) :
    ∃ after : IrqMask, after.current = register.current ∧
      handleAll events (within register kernel) =
        ((handleAll events kernel).1, within after (handleAll events kernel).2) := by
  induction events generalizing register kernel with
  | nil =>
      exact ⟨register, rfl, rfl⟩
  | cons event rest inductionHypothesis =>
      obtain ⟨between, keptFirst, handled⟩ := step event register kernel
      obtain ⟨after, keptLater, handledLater⟩ := inductionHypothesis between (handle event kernel).2
      refine ⟨after, keptLater.trans keptFirst, ?_⟩
      simp only [handleAll, handled, handledLater]

end Kernel

namespace System

variable {C : Type}

/-- A call through the gate of a free system answers as the kernel does, and leaves what the kernel
leaves but for the mask register. -/
theorem syscall_new [Controller C] (register : IrqMask) (kernel : Kernel C) (id : UInt32)
    (arg : Value) :
    let sections := Brackets.bracket IrqMask.allLines (Kernel.bracketsOf id arg) .done
    (new (kernel.withMask register)).syscall id arg =
      (kernel.dispatch id arg).map fun served => new (served.withMask (sections.run register)) := by
  let opened := (register.maskLines IrqMask.allLines).2
  let close (system : System C) : System C :=
    system.setMask (system.mask.restore register.current)
  calc (new (kernel.withMask register)).syscall id arg
      = (((kernel.withMask opened).dispatch id arg).map new).map close := by
        rw [syscall_eq, run_tryDispatch_of_free id arg _ rfl]
        rfl
    _ = (((kernel.dispatch id arg).map
          (Kernel.withMask ((Kernel.bracketsOf id arg).run opened))).map new).map close := by
        rw [Kernel.dispatch_withMask]
    _ = _ := rfl

variable [PolledController C]

private theorem interrupt_new (register : IrqMask) (kernel : Kernel C) (frame : TrapFrame)
    (lines : IrqLines) :
    (new (kernel.withMask register)).interrupt frame lines =
      (kernel.interrupt frame lines).map fun served => new (served.withMask register) := by
  calc (new (kernel.withMask register)).interrupt frame lines
      = ((kernel.withMask register).interrupt frame lines).map new := rfl
    _ = ((kernel.interrupt frame lines).map (Kernel.withMask register)).map new := by
        rw [Kernel.interrupt_withMask]
    _ = _ := rfl

private theorem handle_new (event : Event) (register : IrqMask) (kernel : Kernel C) :
    ∃ after : IrqMask, after.current = register.current ∧
      handle event (new (kernel.withMask register)) =
        ((handle event kernel).1, new ((handle event kernel).2.withMask after)) := by
  cases event with
  | call id arg =>
      let sections := Brackets.bracket IrqMask.allLines (Kernel.bracketsOf id arg) .done
      refine ⟨sections.run register, sections.run_current register, ?_⟩
      exact congrArg Served.answered (syscall_new register kernel id arg)
  | interrupt frame lines =>
      exact ⟨register, rfl, congrArg Resumed.answered (interrupt_new register kernel frame lines)⟩

end System

private theorem IrqLines.ofBits_toBits (lines : IrqLines) :
    IrqLines.ofBits lines.toBits = lines := by
  obtain ⟨timer, uart, hid⟩ := lines
  cases timer <;> cases uart <;> cases hid <;> decide

namespace Celled

section Empty

variable {S : Type}

private theorem handle_empty (event : Event) (state : S) :
    handle event (Celled.mk none state) = (event.unanswered, ⟨none, state⟩) := by
  cases event with
  | call id arg =>
      have refused : (Celled.mk none state).dispatch id arg = .refused arg ⟨none, state⟩ [] :=
        ite_self _
      exact congrArg Served.answered refused
  | interrupt frame lines => rfl

/-- An empty cell leaves every event to its sender. -/
theorem handleAll_empty (events : List Event) (state : S) :
    handleAll events (Celled.mk none state) = (events.map Event.unanswered, ⟨none, state⟩) := by
  induction events with
  | nil =>
      rfl
  | cons event rest inductionHypothesis =>
      simp only [handleAll, handle_empty, inductionHypothesis, List.map_cons]

end Empty

variable {C : Type} [PolledController C]

/-- A cell in which the gate's raw entry is published. -/
def published (system : System C) : Celled (System C) :=
  ⟨some (.serving (System C)), system⟩

/-- A call that has a number goes through the gate, since its frame holds no outcome yet. -/
theorem dispatch_published {id : UInt32} (named : id ≠ 0) (arg : Value) (system : System C) :
    (published system).dispatch id arg = (system.syscall id arg).map published := by
  unfold dispatch
  rw [if_neg named]
  rfl

private theorem interrupt_published (frame : TrapFrame) (lines : IrqLines) (system : System C) :
    (published system).interrupt frame lines = (system.interrupt frame lines).map published := by
  calc (published system).interrupt frame lines
      = (system.interrupt frame (.ofBits lines.toBits)).map published := rfl
    _ = (system.interrupt frame lines).map published := by
        rw [IrqLines.ofBits_toBits]

private theorem handle_published_eq {event : Event} {system : System C}
    (named : ∀ arg, event ≠ .call 0 arg) :
    handle event (published system) =
      ((handle event system).1, published (handle event system).2) := by
  cases event with
  | call id arg =>
      have nonzero : id ≠ 0 := by
        rintro rfl
        exact named arg rfl
      exact congrArg Served.answered (dispatch_published nonzero arg system)
  | interrupt frame lines =>
      exact congrArg Resumed.answered (interrupt_published frame lines system)

private theorem handle_published (event : Event) (register : IrqMask) (kernel : Kernel C) :
    ∃ after : IrqMask, after.current = register.current ∧
      handle event (published (.new (kernel.withMask register))) =
        ((handle event kernel).1, published (.new ((handle event kernel).2.withMask after))) := by
  by_cases zero : ∃ arg, event = .call 0 arg
  · obtain ⟨arg, rfl⟩ := zero
    exact ⟨register, rfl, rfl⟩
  · obtain ⟨after, kept, gated⟩ := System.handle_new event register kernel
    refine ⟨after, kept, ?_⟩
    rw [handle_published_eq (not_exists.mp zero), gated]

end Celled

namespace Machine

variable {C : Type} [PolledController C] {machine : Machine C}

theorem handle_of_direct (direct : machine.route = .direct) (event : Event) :
    handle event machine =
      ((handle event machine.kernel).1, machine.setKernel (handle event machine.kernel).2) := by
  obtain ⟨system, published, route⟩ := machine
  obtain rfl : route = .direct := direct
  cases event with
  | call id arg => rfl
  | interrupt frame lines => rfl

theorem handle_of_gate (gated : machine.route = .gate) (event : Event) :
    handle event machine =
      ((handle event machine.system).1,
        { machine with system := (handle event machine.system).2 }) := by
  obtain ⟨system, published, route⟩ := machine
  obtain rfl : route = .gate := gated
  cases event with
  | call id arg => rfl
  | interrupt frame lines => rfl

theorem handle_of_cell (celled : machine.route = .cell) (event : Event) :
    handle event machine =
      ((handle event machine.celled).1,
        { machine with system := (handle event machine.celled).2.state }) := by
  obtain ⟨system, published, route⟩ := machine
  obtain rfl : route = .cell := celled
  cases event with
  | call id arg => rfl
  | interrupt frame lines => rfl

private theorem handle_new (route : Route) (event : Event) (register : IrqMask)
    (kernel : Kernel C) :
    ∃ after : IrqMask, after.current = register.current ∧
      handle event (new (kernel.withMask register) route) =
        ((handle event kernel).1, new ((handle event kernel).2.withMask after) route) := by
  cases route with
  | direct =>
      obtain ⟨after, kept, handled⟩ := Kernel.handle_withMask event register kernel
      refine ⟨after, kept, (handle_of_direct rfl event).trans ?_⟩
      exact congrArg (Prod.map id (new · .direct)) handled
  | gate =>
      obtain ⟨after, kept, handled⟩ := System.handle_new event register kernel
      refine ⟨after, kept, (handle_of_gate rfl event).trans ?_⟩
      exact congrArg (Prod.map id (Machine.mk · true .gate)) handled
  | cell =>
      obtain ⟨after, kept, handled⟩ := Celled.handle_published event register kernel
      refine ⟨after, kept, (handle_of_cell rfl event).trans ?_⟩
      exact congrArg (Prod.map id fun celled => Machine.mk celled.state true .cell) handled

/-- Whichever way its clients use, a new machine answers every sequence of events as its kernel
does, and leaves the kernel that it leaves. -/
theorem handleAll_new (route : Route) (kernel : Kernel C) (events : List Event) :
    ∃ installed, handleAll events (new kernel route) =
      ((handleAll events kernel).1,
        new ((handleAll events kernel).2.withMask ⟨kernel.uart.mask.current, installed⟩)
          route) := by
  obtain ⟨⟨_, installed⟩, rfl, handled⟩ :=
    Kernel.handleAll_within (handle_new route) events kernel.uart.mask kernel
  exact ⟨installed, handled⟩

end Machine

/-- The three ways in agree on every sequence of events: the gate of a free system and the cell in
which it is published answer as the kernel does, and leave the kernel that it leaves, with the mask
that was in force at the start.  An empty cell answers nothing and changes nothing. -/
theorem routes_agree {C : Type} [PolledController C] (kernel : Kernel C) (events : List Event) :
    let direct := handleAll events kernel
    direct.2.uart.mask.current = kernel.uart.mask.current ∧
      (∃ installed, handleAll events (System.new kernel) =
        (direct.1, .new (direct.2.withMask ⟨kernel.uart.mask.current, installed⟩))) ∧
      (∃ installed, handleAll events (Celled.published (.new kernel)) =
        (direct.1, .published (.new (direct.2.withMask ⟨kernel.uart.mask.current, installed⟩)))) ∧
      ∀ system : System C, handleAll events (Celled.mk none system) =
        (events.map Event.unanswered, ⟨none, system⟩) := by
  intro direct
  have gated := Kernel.handleAll_within System.handle_new events kernel.uart.mask kernel
  have celled := Kernel.handleAll_within Celled.handle_published events kernel.uart.mask kernel
  obtain ⟨⟨_, gateMask⟩, rfl, gated⟩ := gated
  obtain ⟨⟨_, cellMask⟩, rfl, celled⟩ := celled
  exact ⟨Kernel.handleAll_mask_current events kernel, ⟨gateMask, gated⟩, ⟨cellMask, celled⟩,
    Celled.handleAll_empty events⟩

end Microkernel
