import Microkernel.Client.Serial
import Microkernel.Proofs.Kernel.Reception

/-!
# Typed calls and the operations beneath them

A client's call wraps its number into a value, goes through the kernel's table of calls and unwraps
what comes back.  `Operation.perform` is what the allocator, the process table and the serial driver
do without any of this.  The two agree call by call, and so along every sequence of calls in which
each call may depend on the answers before it.
-/

namespace Microkernel

/-- The result of an attempt and the state that it leaves, nothing if it is refused. -/
def Attempt.granted? {ε S α : Type} : Attempt ε S α → Option (α × S)
  | .ok result state => some (result, state)
  | .error _ _ => none

namespace Program

variable {α β S : Type} [Boundary S]

/-- A failure as a result. -/
def Outcome.attempted : Outcome α → Outcome (Except ClientError α)
  | .done result => .done (.ok result)
  | .failed error => .done (.error error)
  | .stalled => .stalled

theorem run_attempt (program : Program α) (state : S) :
    (program.attempt.run state).outcome = (program.run state).outcome.attempted ∧
      (program.attempt.run state).state = (program.run state).state := by
  induction program generalizing state with
  | done result => exact ⟨rfl, rfl⟩
  | failed error => exact ⟨rfl, rfl⟩
  | stalled => exact ⟨rfl, rfl⟩
  | call id arg next inductionHypothesis =>
      let served := Boundary.dispatch id.code arg state
      exact inductionHypothesis served.ret served.arg served.state
  | note entry next inductionHypothesis => exact inductionHypothesis state

/-- What follows a program starts from its result and from the state that it leaves. -/
theorem run_bind {program : Program α} {state : S} {result : α}
    (done : (program.run state).outcome = .done result) (rest : α → Program β) :
    ((program.bind rest).run state).outcome =
        ((rest result).run (program.run state).state).outcome ∧
      ((program.bind rest).run state).state =
        ((rest result).run (program.run state).state).state := by
  induction program generalizing state with
  | done other =>
      cases done
      exact ⟨rfl, rfl⟩
  | failed error => cases done
  | stalled => cases done
  | call id arg next inductionHypothesis =>
      let served := Boundary.dispatch id.code arg state
      have later : ((next served.ret served.arg).run served.state).outcome = .done result := done
      exact inductionHypothesis served.ret served.arg later
  | note entry next inductionHypothesis =>
      have later : (next.run state).outcome = .done result := done
      exact inductionHypothesis later

end Program

namespace Client

/-- What a client can ask for in a single call, with the type of the result. -/
inductive Operation : Type → Type where
  | hello : Operation Unit
  | kernelTicks : Operation UInt32
  | memAlloc (size : UInt32) : Operation UInt32
  | memFree (address : UInt32) : Operation Unit
  | procCreate (size : UInt32) : Operation UInt32
  | procStart (pid : UInt32) : Operation Unit
  | procStop (pid : UInt32) : Operation Unit
  | procKill (pid : UInt32) : Operation Unit
  | procBase (pid : UInt32) : Operation UInt32
  | rxEmpty : Operation Bool
  | txFull : Operation Bool
  | getc : Operation (Option UInt8)
  | putc (byte : UInt8) : Operation Unit

namespace Operation

variable {α C : Type}

def id : Operation α → SyscallId
  | hello => .hello
  | kernelTicks => .kernelDump
  | memAlloc _ => .memAlloc
  | memFree _ => .memFree
  | procCreate _ => .procCreate
  | procStart _ => .procStart
  | procStop _ => .procStop
  | procKill _ => .procKill
  | procBase _ => .procBase
  | rxEmpty => .uartRxEmpty
  | txFull => .uartTxFull
  | getc => .uartGetc
  | putc _ => .uartPutc

/-- The client's call. -/
def program : Operation α → Program α
  | hello => Client.hello
  | kernelTicks => Client.kernelTicks
  | memAlloc size => Client.memAlloc size
  | memFree address => Client.memFree address
  | procCreate size => Client.procCreate size
  | procStart pid => Client.procStart pid
  | procStop pid => Client.procStop pid
  | procKill pid => Client.procKill pid
  | procBase pid => Client.procBase pid
  | rxEmpty => Client.rxEmpty
  | txFull => Client.txFull
  | getc => Client.getc
  | putc byte => Client.putc byte

/-- What the parts of the kernel do when they are asked directly, nothing if they refuse. -/
def perform [Controller C] (kernel : Kernel C) : Operation α → Option (α × Kernel C)
  | hello => some ((), kernel)
  | kernelTicks => some (kernel.ticks, kernel)
  | memAlloc size => (kernel.memory.alloc size).granted?.map fun (address, memory) =>
      (address, { kernel with memory })
  | memFree address => (kernel.memory.free address).granted?.map fun (_, memory) =>
      ((), { kernel with memory })
  | procCreate size =>
      (kernel.processes.create kernel.memory size).granted?.map fun (pid, processes, memory) =>
        (UInt32.ofNat pid.val, { kernel with processes, memory })
  | procStart pid => (kernel.processes.start pid.toNat).granted?.map fun (_, processes) =>
      ((), { kernel with processes })
  | procStop pid => (kernel.processes.stop pid.toNat).granted?.map fun (_, processes) =>
      ((), { kernel with processes })
  | procKill pid => (kernel.processes.kill pid.toNat).granted?.map fun (_, processes) =>
      ((), { kernel with processes })
  | procBase pid => (kernel.processes.baseOf pid.toNat).toOption.map fun base => (base, kernel)
  | rxEmpty => some (kernel.uart.rx.isEmpty, kernel)
  | txFull => some (kernel.uart.tx.isFull, kernel)
  | getc => some (kernel.uart.get.1, { kernel with uart := kernel.uart.get.2 })
  | putc byte => some ((), { kernel with uart := kernel.uart.put byte })

end Operation

section Calls

variable {α C : Type}

/-- A call answers as an operation ends: it succeeds with the result in its argument, or it is
refused. -/
inductive Answers (kernel : Kernel C) (arg : Value) (encode : α → Value) :
    Option (α × Kernel C) → Served (Kernel C) → Prop
  | done (result : α) (after : Kernel C) (log : List Log.Entry) :
      Answers kernel arg encode (some (result, after)) ⟨.ok, encode result, after, log⟩
  | refused (log : List Log.Entry) : Answers kernel arg encode none (.refused arg kernel log)

/-- How a run ends whose operation ends in this way. -/
def ending (id : SyscallId) (kernel : Kernel C) :
    Option (α × Kernel C) → Program.Outcome α × Kernel C
  | some (result, after) => (.done result, after)
  | none => (.failed (.syscallFailed id), kernel)

section Handlers

variable (kernel : Kernel C) (word : UInt32)

private theorem answers_flagged (change : Process → Process) (log : Nat → List Log.Entry) :
    Answers kernel (.uint32 word) (fun _ : Unit => .uint32 word)
      ((kernel.processes.update word.toNat change).granted?.map fun (_, processes) =>
        ((), { kernel with processes }))
      (kernel.flagged (.uint32 word) change log) := by
  simp only [Kernel.flagged, Value.asUInt32?]
  cases kernel.processes.update word.toNat change with
  | ok _ processes => exact .done () { kernel with processes } _
  | error cause processes => exact .refused _

variable [Controller C]

private theorem answers_memAlloc :
    Answers kernel (.uint32 word) Value.uint32
      ((kernel.memory.alloc word).granted?.map fun (address, memory) =>
        (address, { kernel with memory }))
      (kernel.perform (.memAlloc (.uint32 word))) := by
  simp only [Kernel.perform_memAlloc, Value.asUInt32?]
  cases kernel.memory.alloc word with
  | ok address memory => exact .done address { kernel with memory } _
  | error cause memory => exact .refused _

private theorem answers_memFree :
    Answers kernel (.uint32 word) (fun _ : Unit => .uint32 word)
      ((kernel.memory.free word).granted?.map fun (_, memory) => ((), { kernel with memory }))
      (kernel.perform (.memFree (.uint32 word))) := by
  simp only [Kernel.perform_memFree, Value.asUInt32?]
  cases kernel.memory.free word with
  | ok _ memory => exact .done () { kernel with memory } _
  | error cause memory => exact .refused _

private theorem answers_procCreate :
    Answers kernel (.uint32 word) Value.uint32
      ((kernel.processes.create kernel.memory word).granted?.map
        fun (pid, processes, memory) =>
          (UInt32.ofNat pid.val, { kernel with processes, memory }))
      (kernel.perform (.procCreate (.uint32 word))) := by
  simp only [Kernel.perform_procCreate, Value.asUInt32?]
  cases kernel.processes.create kernel.memory word with
  | ok pid after =>
      obtain ⟨processes, memory⟩ := after
      exact .done (UInt32.ofNat pid.val) { kernel with processes, memory } _
  | error cause after => exact .refused _

private theorem answers_procBase :
    Answers kernel (.uint32 word) Value.uint32
      ((kernel.processes.baseOf word.toNat).toOption.map fun base => (base, kernel))
      (kernel.perform (.procBase (.uint32 word))) := by
  simp only [Kernel.perform_procBase, Value.asUInt32?]
  cases kernel.processes.baseOf word.toNat with
  | ok base => exact .done base kernel _
  | error cause => exact .refused _

private theorem answers_uartGetc :
    Answers kernel .none Kernel.encodeByte
      (some (kernel.uart.get.1, { kernel with uart := kernel.uart.get.2 }))
      (kernel.perform (.uartGetc .none)) :=
  .done kernel.uart.get.1 { kernel with uart := kernel.uart.get.2 } []

end Handlers

section Wrappers

variable [PolledController C] {kernel : Kernel C} (id : SyscallId) {arg : Value}

private theorem run_callUnit {done? : Option (Unit × Kernel C)}
    (answers : Answers kernel arg (fun _ => arg) done? (kernel.dispatch id.code arg)) :
    let ran := (callUnit id arg).run kernel
    (ran.outcome, ran.state) = ending id kernel done? := by
  have dispatched : Boundary.dispatch id.code arg kernel = kernel.dispatch id.code arg := rfl
  simp only [callUnit, callOk, bind, Program.bind, Program.run, dispatched]
  generalize kernel.dispatch id.code arg = served at answers
  cases answers with
  | done result after log => rfl
  | refused log => rfl

private theorem run_callUInt32 {word : UInt32} {done? : Option (UInt32 × Kernel C)}
    (answers : Answers kernel (.uint32 word) Value.uint32 done?
      (kernel.dispatch id.code (.uint32 word))) :
    let ran := (callUInt32 id word).run kernel
    (ran.outcome, ran.state) = ending id kernel done? := by
  have dispatched : Boundary.dispatch id.code (.uint32 word) kernel =
    kernel.dispatch id.code (.uint32 word) := rfl
  simp only [callUInt32, callOk, bind, Program.bind, Program.run, dispatched]
  generalize kernel.dispatch id.code (.uint32 word) = served at answers
  cases answers with
  | done result after log => rfl
  | refused log => rfl

/-- A signed answer is decoded by the client. -/
theorem run_callInt32 {encode : α → Value} {decode : Int32 → α} {done? : Option (α × Kernel C)}
    (decodes : ∀ result, ∃ number, encode result = .int32 number ∧ decode number = result)
    (answers : Answers kernel .none encode done? (kernel.dispatch id.code .none)) :
    let ran := ((callInt32 id).bind fun number => .done (decode number)).run kernel
    (ran.outcome, ran.state) = ending id kernel done? := by
  have dispatched : Boundary.dispatch id.code .none kernel = kernel.dispatch id.code .none := rfl
  simp only [callInt32, callOk, bind, Program.bind, Program.run, dispatched]
  generalize kernel.dispatch id.code .none = served at answers
  cases answers with
  | done result after log =>
      obtain ⟨number, encoded, decoded⟩ := decodes result
      simp only [encoded]
      rw [← decoded]
      rfl
  | refused log => rfl

end Wrappers

private theorem decodes_truthValue (holds : Bool) :
    ∃ number : Int32, Kernel.truthValue holds = .int32 number ∧ (number != 0) = holds := by
  cases holds with
  | true => exact ⟨1, rfl, rfl⟩
  | false => exact ⟨0, rfl, rfl⟩

private theorem decodes_encodeByte (received : Option UInt8) :
    ∃ number, Kernel.encodeByte received = .int32 number ∧ byteOf? number = received := by
  cases received with
  | some byte => exact ⟨_, rfl, Kernel.byteAnswered_byte byte⟩
  | none => exact ⟨-1, rfl, rfl⟩

/-- A client's call ends as the operation beneath it does. -/
theorem Operation.run_eq [PolledController C] (operation : Operation α) (kernel : Kernel C) :
    let ran := operation.program.run kernel
    (ran.outcome, ran.state) = ending operation.id kernel (operation.perform kernel) := by
  cases operation with
  | hello => exact run_callUnit .hello (.done () kernel _)
  | kernelTicks => exact run_callUInt32 .kernelDump (.done kernel.ticks kernel _)
  | memAlloc size => exact run_callUInt32 .memAlloc (answers_memAlloc kernel size)
  | memFree address => exact run_callUnit .memFree (answers_memFree kernel address)
  | procCreate size => exact run_callUInt32 .procCreate (answers_procCreate kernel size)
  | procStart pid =>
      have answers := answers_flagged kernel pid Process.activate kernel.processes.startLog
      rw [← Kernel.perform_procStart] at answers
      exact run_callUnit .procStart answers
  | procStop pid =>
      have answers := answers_flagged kernel pid Process.park kernel.processes.stopLog
      rw [← Kernel.perform_procStop] at answers
      exact run_callUnit .procStop answers
  | procKill pid =>
      have answers := answers_flagged kernel pid Process.condemn kernel.processes.killLog
      rw [← Kernel.perform_procKill] at answers
      exact run_callUnit .procKill answers
  | procBase pid => exact run_callUInt32 .procBase (answers_procBase kernel pid)
  | rxEmpty =>
      exact run_callInt32 .uartRxEmpty decodes_truthValue
        (.done kernel.uart.rx.isEmpty kernel [])
  | txFull =>
      exact run_callInt32 .uartTxFull decodes_truthValue
        (.done kernel.uart.tx.isFull kernel [])
  | getc => exact run_callInt32 .uartGetc decodes_encodeByte (answers_uartGetc kernel)
  | putc byte =>
      refine run_callUnit .uartPutc ?_
      rw [Kernel.dispatch_uartPutc]
      exact .done () { kernel with uart := kernel.uart.put byte } []

end Calls

/-- Calls in a row, each chosen by the answers to the calls before it. -/
inductive Script (β : Type) : Type 1 where
  | done (result : β)
  | ask {α : Type} (operation : Operation α) (next : Except ClientError α → Script β)

namespace Script

variable {β C : Type}

def program : Script β → Program β
  | .done result => .done result
  | .ask operation next => operation.program.attempt.bind fun answer => (next answer).program

/-- The operations of a script in a row; one that is refused leaves the kernel alone. -/
def perform [Controller C] : Script β → Kernel C → β × Kernel C
  | .done result, kernel => (result, kernel)
  | .ask operation next, kernel =>
    match operation.perform kernel with
    | some (result, after) => (next (.ok result)).perform after
    | none => (next (.error (.syscallFailed operation.id))).perform kernel

/-- A script goes on with the answer to its first call, which may be a failure. -/
theorem run_ask [PolledController C] {α : Type} {operation : Operation α} {kernel after : Kernel C}
    {answer : Except ClientError α}
    (outcome : (operation.program.run kernel).outcome.attempted = .done answer)
    (state : (operation.program.run kernel).state = after)
    (next : Except ClientError α → Script β) :
    let ran := (ask operation next).program.run kernel
    let rest := (next answer).program.run after
    (ran.outcome, ran.state) = (rest.outcome, rest.state) := by
  obtain ⟨attemptOutcome, attemptState⟩ := Program.run_attempt operation.program kernel
  obtain ⟨outcomeEq, stateEq⟩ := Program.run_bind (attemptOutcome.trans outcome)
    fun answer => (next answer).program
  rw [attemptState, state] at outcomeEq stateEq
  exact Prod.ext outcomeEq stateEq

theorem run_eq [PolledController C] (script : Script β) (kernel : Kernel C) :
    let ran := script.program.run kernel
    (ran.outcome, ran.state) =
      (.done (script.perform kernel).1, (script.perform kernel).2) := by
  induction script generalizing kernel with
  | done result => rfl
  | ask operation next inductionHypothesis =>
      have ended := operation.run_eq kernel
      cases performed : operation.perform kernel with
      | some done =>
          obtain ⟨result, after⟩ := done
          rw [performed] at ended
          obtain ⟨outcome, state⟩ := Prod.mk.inj ended
          have onward := run_ask (congrArg Program.Outcome.attempted outcome) state next
          simp only [perform, performed]
          exact onward.trans (inductionHypothesis (.ok result) after)
      | none =>
          rw [performed] at ended
          obtain ⟨outcome, state⟩ := Prod.mk.inj ended
          have onward := run_ask (congrArg Program.Outcome.attempted outcome) state next
          simp only [perform, performed]
          exact onward.trans (inductionHypothesis (.error (.syscallFailed operation.id)) kernel)

end Script

/-- Every typed call ends as the operation beneath it: with the same result and the same kernel if
that one succeeds, and as a failed call on an unchanged kernel if it refuses, in no other way.  A
whole sequence of calls, chosen by their answers, is answered as the sequence of operations. -/
theorem typed_calls_answered {C : Type} [PolledController C] (kernel : Kernel C) :
    (∀ {α : Type} (operation : Operation α),
      let ran := operation.program.run kernel
      (ran.outcome, ran.state) =
        match operation.perform kernel with
        | some (result, after) => (.done result, after)
        | none => (.failed (.syscallFailed operation.id), kernel)) ∧
      ∀ {β : Type} (script : Script β),
        let ran := script.program.run kernel
        (ran.outcome, ran.state) =
          (.done (script.perform kernel).1, (script.perform kernel).2) := by
  refine ⟨?_, fun script => script.run_eq kernel⟩
  intro α operation
  have ended := operation.run_eq kernel
  cases performed : operation.perform kernel with
  | some done =>
      rw [performed] at ended
      exact ended
  | none =>
      rw [performed] at ended
      exact ended

end Client

end Microkernel
