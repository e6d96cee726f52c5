import Microkernel.Proofs.Entry.Routes
import Microkernel.Proofs.Kernel.Sides
import Microkernel.Uart.Simulated

/-!
# Console traffic and processes do not interfere

A run mixes calls, interrupts, changes of the line and changes of its speed.  Each side of the
kernel sees a part of the run: its own calls, and interrupts cut down to its own line.  Runs of
which a side sees the same part are the same to that side, in every answer and in the end.  The
proof is an unwinding: what a side does not see leaves that side alone, and what it sees it answers
from itself.
-/

namespace Microkernel

open Boundary (handle)

/-- What a kernel lives through: an event, something that the line does by itself, or a new
divisor of its clock. -/
inductive Happening (C : Type) where
  | event (event : Event)
  | line (change : C → C)
  | divisor (divisor : UInt16)

/-- Whether a number stands for one of these calls. -/
def Kernel.isAmong (calls : List SyscallId) (id : UInt32) : Bool :=
  (SyscallId.ofCode? id).any fun call => decide (call ∈ calls)

namespace Happening

open Kernel (isAmong processCalls serialCalls)

variable {C : Type}

/-- What processes and memory see of a happening: calls of their own and the timer. -/
def processSide? : Happening C → Option (Happening C)
  | .event (.call id arg) =>
    if isAmong processCalls id then some (.event (.call id arg)) else none
  | .event (.interrupt frame lines) =>
    if lines.timer then some (.event (.interrupt frame ⟨true, false, false⟩)) else none
  | .line _ => none
  | .divisor _ => none

/-- What the serial driver sees of a happening: calls of its own, its interrupts without the frame
that they broke off, and everything about the line. -/
def serialSide? : Happening C → Option (Happening C)
  | .event (.call id arg) =>
    if isAmong serialCalls id then some (.event (.call id arg)) else none
  | .event (.interrupt _ lines) =>
    if lines.uart then some (.event (.interrupt .zero ⟨false, true, false⟩)) else none
  | .line change => some (.line change)
  | .divisor value => some (.divisor value)

end Happening

namespace Kernel

open Happening (processSide? serialSide?)
open Memory (Allocator)

variable {C : Type} [PolledController C]

/-- The kernel after a happening; a divisor that is refused changes nothing. -/
def undergo (kernel : Kernel C) : Happening C → Kernel C
  | .event event => (handle event kernel).2
  | .line change =>
    { kernel with uart := { kernel.uart with controller := change kernel.uart.controller } }
  | .divisor divisor =>
    match kernel.uart.setDivisor divisor with
    | .ok uart => { kernel with uart }
    | .error _ => kernel

def undergoAll (kernel : Kernel C) (run : List (Happening C)) : Kernel C :=
  run.foldl undergo kernel

/-- What a process or memory call is answered, and the frame that a timer interrupt resumes. -/
def processAnswer? (kernel : Kernel C) : Happening C → Option Response
  | .event (.call id arg) =>
    if isAmong processCalls id then some (handle (.call id arg) kernel).1 else none
  | .event (.interrupt frame lines) =>
    if lines.timer then some (handle (.interrupt frame lines) kernel).1 else none
  | .line _ => none
  | .divisor _ => none

/-- What a call of the serial side is answered. -/
def serialAnswer? (kernel : Kernel C) : Happening C → Option Response
  | .event (.call id arg) =>
    if isAmong serialCalls id then some (handle (.call id arg) kernel).1 else none
  | .event (.interrupt _ _) => none
  | .line _ => none
  | .divisor _ => none

/-- The answers of a run that one is shown, in their order. -/
def answers (answer? : Kernel C → Happening C → Option Response) :
    Kernel C → List (Happening C) → List Response
  | _, [] => []
  | kernel, happening :: rest =>
    (answer? kernel happening).toList ++ answers answer? (kernel.undergo happening) rest

/-- A side of the kernel that shows nothing of what it does not see and is not moved by it, and
that is answered and moved alike by what it sees. -/
structure Unwinding (side? : Happening C → Option (Happening C))
    (answer? : Kernel C → Happening C → Option Response) (Alike : Kernel C → Kernel C → Prop) :
    Prop where
  unseen : ∀ {kernel other : Kernel C} {happening : Happening C}, side? happening = none →
    Alike kernel other →
      answer? kernel happening = none ∧ Alike (kernel.undergo happening) other
  seen : ∀ {kernel other : Kernel C} {happening part : Happening C}, side? happening = some part →
    Alike kernel other →
      answer? kernel happening = answer? other part ∧
        Alike (kernel.undergo happening) (other.undergo part)

/-- A whole run is answered as the part of it that the side sees. -/
theorem Unwinding.run {side? : Happening C → Option (Happening C)}
    {answer? : Kernel C → Happening C → Option Response} {Alike : Kernel C → Kernel C → Prop}
    (unwinding : Unwinding side? answer? Alike) {kernel other : Kernel C}
    (alike : Alike kernel other) (run : List (Happening C)) :
    kernel.answers answer? run = other.answers answer? (run.filterMap side?) ∧
      Alike (kernel.undergoAll run) (other.undergoAll (run.filterMap side?)) := by
  induction run generalizing kernel other with
  | nil =>
      exact ⟨rfl, alike⟩
  | cons happening rest inductionHypothesis =>
      cases sight : side? happening with
      -- Only the first kernel goes on; the second is already where the rest begins.
      | none =>
          obtain ⟨silent, alikeAfter⟩ := unwinding.unseen sight alike
          rw [List.filterMap_cons_none sight, answers, silent]
          exact inductionHypothesis alikeAfter
      | some part =>
          obtain ⟨sameAnswer, alikeAfter⟩ := unwinding.seen sight alike
          obtain ⟨sameLater, alikeLater⟩ := inductionHypothesis alikeAfter
          rw [List.filterMap_cons_some sight, answers, answers, sameAnswer, sameLater]
          exact ⟨rfl, alikeLater⟩

private theorem dispatch_alike {Alike : Kernel C → Kernel C → Prop} {calls : List SyscallId}
    {kernel other : Kernel C}
    (served : ∀ call ∈ calls, ∀ arg,
      AlikeServed Alike (kernel.serve call arg) (other.serve call arg))
    {id : UInt32} (among : isAmong calls id = true) (arg : Value) :
    AlikeServed Alike (kernel.dispatch id arg) (other.dispatch id arg) := by
  obtain ⟨call, named, member⟩ := (Option.any_eq_true _ _).mp among
  rw [dispatch_eq, dispatch_eq, named]
  exact served call (of_decide_eq_true member) arg

/-- A number that stands for none of these calls changes nothing that all other calls keep. -/
theorem dispatch_keeps {α : Type} (part : Kernel C → α) {calls : List SyscallId}
    {kernel : Kernel C}
    (kept : ∀ call ∉ calls, ∀ arg, part (kernel.serve call arg).state = part kernel)
    {id : UInt32} (other : isAmong calls id ≠ true) (arg : Value) :
    part (kernel.dispatch id arg).state = part kernel := by
  rw [dispatch_eq]
  split
  · next call named =>
    refine kept call ?_ arg
    intro member
    exact other ((Option.any_eq_true _ _).mpr ⟨call, named, decide_eq_true member⟩)
  · rfl

section Processes

variable {R : Allocator → Allocator → Prop} {kernel other : Kernel C}

private theorem processes_unseen {happening : Happening C} (unseen : processSide? happening = none)
    (alike : AlikeProcesses R kernel other) :
    kernel.processAnswer? happening = none ∧
      AlikeProcesses R (kernel.undergo happening) other := by
  cases happening with
  | event event =>
      cases event with
      | call id arg =>
          have other : isAmong processCalls id ≠ true := by
            simpa [processSide?] using unseen
          refine ⟨if_neg other, alike.of_kept ?_⟩
          exact dispatch_keeps (fun kernel => (kernel.processes, kernel.memory))
            (fun call other arg => serve_processes kernel other arg) other arg
      | interrupt frame lines =>
          have noTimer : lines.timer ≠ true := by
            simpa [processSide?] using unseen
          refine ⟨if_neg noTimer, alike.of_kept ?_⟩
          exact Prod.ext_iff.mpr (interrupt_of_no_timer kernel frame lines noTimer)
  | line change => exact ⟨rfl, alike.of_kept rfl⟩
  | divisor divisor =>
      refine ⟨rfl, alike.of_kept ?_⟩
      dsimp only [undergo]
      split
      · rfl
      · rfl

private theorem processes_seen (indistinct : Indistinct R) {happening part : Happening C}
    (seen : processSide? happening = some part) (alike : AlikeProcesses R kernel other) :
    kernel.processAnswer? happening = other.processAnswer? part ∧
      AlikeProcesses R (kernel.undergo happening) (other.undergo part) := by
  cases happening with
  | event event =>
      cases event with
      | call id arg =>
          obtain ⟨among, ⟨⟩⟩ := Option.ite_none_right_eq_some.mp seen
          obtain ⟨retEq, argEq, alikeAfter⟩ := dispatch_alike
            (fun call process arg => serve_alikeProcesses indistinct process alike arg) among arg
          refine ⟨?_, alikeAfter⟩
          simp only [processAnswer?, if_pos among]
          exact congrArg some (congrArg₂ Response.served retEq argEq)
      | interrupt frame lines =>
          obtain ⟨timer, ⟨⟩⟩ := Option.ite_none_right_eq_some.mp seen
          obtain ⟨frameEq, alikeAfter⟩ :=
            interrupt_alikeProcesses indistinct alike lines ⟨true, false, false⟩ timer frame
          refine ⟨?_, alikeAfter⟩
          simp only [processAnswer?, if_pos timer]
          exact congrArg some (congrArg Response.resumed frameEq)
  | line change => cases seen
  | divisor divisor => cases seen

/-- Processes and memory unwind over every relation of allocators that answer alike. -/
theorem unwinding_processes (indistinct : Indistinct R) :
    Unwinding processSide? processAnswer? (AlikeProcesses (C := C) R) :=
  ⟨processes_unseen, processes_seen indistinct⟩

end Processes

section Serial

variable {kernel other : Kernel C}

private theorem serial_unseen {happening : Happening C} (unseen : serialSide? happening = none)
    (alike : AlikeSerial kernel other) :
    kernel.serialAnswer? happening = none ∧ AlikeSerial (kernel.undergo happening) other := by
  cases happening with
  | event event =>
      cases event with
      | call id arg =>
          have other : isAmong serialCalls id ≠ true := by
            simpa [serialSide?] using unseen
          have kept := dispatch_keeps Kernel.uart
            (fun call other arg => serve_uart kernel other arg) other arg
          exact ⟨if_neg other, kept.trans alike⟩
      | interrupt frame lines =>
          have noLine : lines.uart ≠ true := by
            simpa [serialSide?] using unseen
          have kept := (interrupt_uart kernel frame lines).trans (if_neg noLine)
          exact ⟨rfl, kept.trans alike⟩
  | line change => cases unseen
  | divisor divisor => cases unseen

private theorem serial_seen {happening part : Happening C}
    (seen : serialSide? happening = some part)
    (alike : AlikeSerial kernel other) :
    kernel.serialAnswer? happening = other.serialAnswer? part ∧
      AlikeSerial (kernel.undergo happening) (other.undergo part) := by
  have uartEq : kernel.uart = other.uart := alike
  cases happening with
  | event event =>
      cases event with
      | call id arg =>
          obtain ⟨among, ⟨⟩⟩ := Option.ite_none_right_eq_some.mp seen
          obtain ⟨retEq, argEq, alikeAfter⟩ := dispatch_alike
            (fun call serial arg => serve_alikeSerial serial alike arg) among arg
          refine ⟨?_, alikeAfter⟩
          simp only [serialAnswer?, if_pos among]
          exact congrArg some (congrArg₂ Response.served retEq argEq)
      | interrupt frame lines =>
          obtain ⟨line, ⟨⟩⟩ := Option.ite_none_right_eq_some.mp seen
          exact ⟨rfl, interrupt_alikeSerial alike lines ⟨false, true, false⟩ line frame .zero⟩
  | line change =>
      obtain rfl := Option.some.inj seen
      refine ⟨rfl, ?_⟩
      simp only [AlikeSerial, undergo, uartEq]
  | divisor divisor =>
      obtain rfl := Option.some.inj seen
      refine ⟨rfl, ?_⟩
      dsimp only [undergo]
      rw [uartEq]
      split
      · rfl
      · exact alike

private theorem unwinding_serial : Unwinding serialSide? serialAnswer? (AlikeSerial (C := C)) :=
  ⟨serial_unseen, serial_seen⟩

end Serial

/-- Of two runs from one kernel, processes and memory are answered alike and end up alike if the
runs differ in nothing that they see; the serial line likewise, down to the bytes that its
controller was given and those that wait in the rings.  The runs may also differ in the calls that
belong to neither side. -/
theorem sides_separate (kernel : Kernel C) (run other : List (Happening C)) :
    (run.filterMap processSide? = other.filterMap processSide? →
      kernel.answers processAnswer? run = kernel.answers processAnswer? other ∧
        (kernel.undergoAll run).processes = (kernel.undergoAll other).processes ∧
        (kernel.undergoAll run).memory = (kernel.undergoAll other).memory) ∧
    (run.filterMap serialSide? = other.filterMap serialSide? →
      kernel.answers serialAnswer? run = kernel.answers serialAnswer? other ∧
        (kernel.undergoAll run).uart = (kernel.undergoAll other).uart) := by
  refine ⟨?_, ?_⟩
  · intro sameSide
    have unwinding := unwinding_processes (C := C) indistinct_eq
    have self : AlikeProcesses Eq kernel kernel := ⟨rfl, rfl⟩
    obtain ⟨answersRun, alikeRun⟩ := unwinding.run self run
    obtain ⟨answersOther, alikeOther⟩ := unwinding.run self other
    rw [sameSide] at answersRun alikeRun
    exact ⟨answersRun.trans answersOther.symm,
      alikeRun.processes.trans alikeOther.processes.symm,
      alikeRun.memory.trans alikeOther.memory.symm⟩
  · intro sameSide
    have self : AlikeSerial kernel kernel := rfl
    obtain ⟨answersRun, alikeRun⟩ := unwinding_serial.run self run
    obtain ⟨answersOther, alikeOther⟩ := unwinding_serial.run self other
    rw [sameSide] at answersRun alikeRun
    exact ⟨answersRun.trans answersOther.symm, alikeRun.trans alikeOther.symm⟩

/-- A run in which a process is created, started and resumed while two bytes arrive and are read,
beside the run without the console traffic and the run without the process. -/
theorem sides_separate_busy :
    let kernel : Kernel SimulatedUart := ((new .default .idle .clear).boot 4096).2
    let busy : List (Happening SimulatedUart) :=
      [.event (.call 5 (.int32 65)), .event (.call 6 (.uint32 256)),
        .line (SimulatedUart.receive [66, 67]), .event (.call 7 (.uint32 1)),
        .event (.interrupt .zero .all), .divisor 12, .event (.call 13 (.uint32 64)),
        .event (.call 4 .none), .event (.call 12 .none)]
    let processesOnly : List (Happening SimulatedUart) :=
      [.event (.call 6 (.uint32 256)), .event (.call 7 (.uint32 1)),
        .event (.interrupt .zero ⟨true, false, false⟩), .event (.call 13 (.uint32 64))]
    let consoleOnly : List (Happening SimulatedUart) :=
      [.event (.call 5 (.int32 65)), .line (SimulatedUart.receive [66, 67]),
        .event (.interrupt .zero ⟨false, true, false⟩), .divisor 12, .event (.call 4 .none)]
    busy.filterMap processSide? = processesOnly.filterMap processSide? ∧
      busy.filterMap serialSide? = consoleOnly.filterMap serialSide? ∧
      kernel.answers processAnswer? busy = kernel.answers processAnswer? processesOnly ∧
      kernel.answers serialAnswer? busy = kernel.answers serialAnswer? consoleOnly ∧
      (kernel.undergoAll busy).memory = (kernel.undergoAll processesOnly).memory ∧
      (kernel.undergoAll busy).uart = (kernel.undergoAll consoleOnly).uart := by
  intro kernel busy processesOnly consoleOnly
  have sameProcesses : busy.filterMap processSide? = processesOnly.filterMap processSide? := rfl
  have sameConsole : busy.filterMap serialSide? = consoleOnly.filterMap serialSide? := rfl
  obtain ⟨processAnswers, _, memoryEq⟩ :=
    (sides_separate kernel busy processesOnly).1 sameProcesses
  obtain ⟨serialAnswers, uartEq⟩ := (sides_separate kernel busy consoleOnly).2 sameConsole
  exact ⟨sameProcesses, sameConsole, processAnswers, serialAnswers, memoryEq, uartEq⟩

end Kernel

end Microkernel
