import Microkernel.Proofs.Client.Writers
import Microkernel.Proofs.Kernel.Sides

/-!
# One client that prints

A client asks for room and then puts its byte.  As long as nobody else puts bytes, the room that it
was told of is still there: between the two calls the transmit ring only gets emptier.  So a client
that goes on until it is done has queued all of its output.  `Writes` says of a program which bytes
it queues in that case and what it returns; it is closed under everything that printing is made of,
so a text may be printed in any number of pieces.
-/

namespace Microkernel.Client

/-- A program that asks for room, puts the next of these bytes once it is told that there is room,
and returns this result after the last one; it may give up while it waits. -/
inductive Writes {α : Type} (result : α) : List UInt8 → Program α → Prop
  | finished : Writes result [] (.done result)
  | stalled (left : List UInt8) : Writes result left .stalled
  | asking {byte : UInt8} {left : List UInt8} {next onward : Value → Value → Program α}
      (full : Writes result (byte :: left) (next .ok (Kernel.truthValue true)))
      (room : next .ok (Kernel.truthValue false) =
        .call .uartPutc (.int32 byte.toUInt32.toInt32) onward)
      (rest : Writes result left (onward .ok (.int32 byte.toUInt32.toInt32))) :
      Writes result (byte :: left) (.call .uartTxFull .none next)

section Programs

variable {α β : Type} {result : α} {left : List UInt8} {program : Program α}

theorem Writes.bind (writes : Writes result left program) {answer : β} {behind : List UInt8}
    {rest : α → Program β} (restWrites : Writes answer behind (rest result)) :
    Writes answer (left ++ behind) (program.bind rest) := by
  induction writes with
  | finished => exact restWrites
  | stalled left => exact .stalled _
  | @asking byte left next onward full room later fullOnward laterOnward =>
      have goesOn : (next .ok (Kernel.truthValue false)).bind rest =
          .call .uartPutc (.int32 byte.toUInt32.toInt32)
            fun ret arg => (onward ret arg).bind rest := by
        rw [room]
        rfl
      exact .asking fullOnward goesOn laterOnward

theorem Writes.attempt (writes : Writes result left program) :
    Writes (Except.ok result) left program.attempt := by
  induction writes with
  | finished => exact .finished
  | stalled left => exact .stalled left
  | @asking byte left next onward full room later fullOnward laterOnward =>
      have goesOn : (next .ok (Kernel.truthValue false)).attempt =
          .call .uartPutc (.int32 byte.toUInt32.toInt32)
            fun ret arg => (onward ret arg).attempt := by
        rw [room]
        rfl
      exact .asking fullOnward goesOn laterOnward

private theorem writes_putByte (patience : Nat) (byte : UInt8) :
    Writes () [byte] (putByte patience byte) := by
  induction patience with
  | zero => exact .stalled [byte]
  | succ patience inductionHypothesis => exact .asking inductionHypothesis rfl .finished

private theorem writes_putAll (patience : Nat) (bytes : List UInt8) :
    Writes () bytes (putAll patience bytes) := by
  induction bytes with
  | nil => exact .finished
  | cons byte rest inductionHypothesis =>
      exact (writes_putByte patience byte).bind inductionHypothesis

private theorem writes_print (patience : Nat) (text : String) :
    Writes true (Console.wireBytes (Console.bytesOf text)) (print patience text) := by
  have written := (writes_putAll patience (Console.wireBytes (Console.bytesOf text))).attempt
  rw [← List.append_nil (Console.wireBytes _)]
  exact written.bind .finished

/-- Print the pieces of a text one after the other, as long as none fails. -/
def printAll (patience : Nat) : List String → Program Bool
  | [] => .done true
  | piece :: rest => do
    if ← print patience piece then printAll patience rest else .done false

private theorem bytesOf_append (first second : String) :
    Console.bytesOf (first ++ second) = Console.bytesOf first ++ Console.bytesOf second := by
  simp [Console.bytesOf, String.toUTF8, ByteArray.data_append]

private theorem wireBytes_bytesOf_join_cons (piece : String) (rest : List String) :
    Console.wireBytes (Console.bytesOf (String.join (piece :: rest))) =
      Console.wireBytes (Console.bytesOf piece) ++
        Console.wireBytes (Console.bytesOf (String.join rest)) := by
  rw [String.join_cons, bytesOf_append, Console.wireBytes, List.flatMap_append]
  rfl

private theorem writes_printAll (patience : Nat) (pieces : List String) :
    Writes true (Console.wireBytes (Console.bytesOf (String.join pieces)))
      (printAll patience pieces) := by
  induction pieces with
  | nil => exact .finished
  | cons piece rest inductionHypothesis =>
      rw [wireBytes_bytesOf_join_cons]
      exact (writes_print patience piece).bind inductionHypothesis

end Programs

/-- A client on a kernel. -/
structure SoleWriter (α C : Type) where
  kernel : Kernel (TracedUart C)
  program : Program α

/-- What can happen next: the client goes on up to the answer of its next call, somebody else's call
or an interrupt reaches the kernel, or the line changes by itself. -/
inductive Step (C : Type) where
  | own
  | event (event : Event)
  | line (change : C → C)

/-- Nobody but the client puts bytes. -/
def Step.Quiet {C : Type} : Step C → Prop
  | .own => True
  | .event (.call id _) => SyscallId.ofCode? id ≠ some .uartPutc
  | .event (.interrupt _ _) => True
  | .line _ => True

namespace SoleWriter

variable {α C : Type} [PolledController C]

def step (writer : SoleWriter α C) : Step C → SoleWriter α C
  | .own =>
    match writer.program with
    | .call id arg next =>
      let served := writer.kernel.dispatch id.code arg
      ⟨served.state, next served.ret served.arg⟩
    | .note _ next => ⟨writer.kernel, next⟩
    | .done _ | .failed _ | .stalled => writer
  | .event event => ⟨writer.kernel.after event, writer.program⟩
  | .line change => ⟨writer.kernel.disturb change, writer.program⟩

def run (writer : SoleWriter α C) (steps : List (Step C)) : SoleWriter α C :=
  steps.foldl step writer

end SoleWriter

/-- Where a program is that has these bytes left to put: it is about to ask, or it was told of room,
which is still there. -/
inductive Position {α : Type} (result : α) (tx : Ring Uart.ringSize) :
    List UInt8 → Program α → Prop
  | writing {left : List UInt8} {program : Program α} (writes : Writes result left program) :
      Position result tx left program
  | putting {byte : UInt8} {left : List UInt8} {onward : Value → Value → Program α}
      (room : tx.isFull = false)
      (rest : Writes result left (onward .ok (.int32 byte.toUInt32.toInt32))) :
      Position result tx (byte :: left) (.call .uartPutc (.int32 byte.toUInt32.toInt32) onward)

section Position

variable {α : Type} {result : α} {tx : Ring Uart.ringSize} {left : List UInt8}
  {program : Program α}

theorem Position.map (position : Position result tx left program) {tx' : Ring Uart.ringSize}
    (kept : tx.isFull = false → tx'.isFull = false) : Position result tx' left program := by
  cases position with
  | writing writes => exact .writing writes
  | putting room rest => exact .putting (kept room) rest

theorem Position.not_failed (position : Position result tx left program) (error : ClientError) :
    program ≠ .failed error := by
  cases position with
  | writing writes =>
      cases writes with
      | finished => exact nofun
      | stalled left => exact nofun
      | asking full room rest => exact nofun
  | putting room rest => exact nofun

private theorem Position.of_done (position : Position result tx left program) {answer : α}
    (returned : program = .done answer) : answer = result ∧ left = [] := by
  subst returned
  cases position with
  | writing writes =>
      cases writes with
      | finished => exact ⟨rfl, rfl⟩

end Position

section Steps

variable {α C : Type}

/-- A client that writes these bytes, part way through.  `history` is what had entered the transmit
ring before it began. -/
structure Underway (result : α) (bytes history : List UInt8) (writer : SoleWriter α C) : Prop where
  valid : writer.kernel.uart.tx.Valid
  progress : ∃ accepted left, bytes = accepted ++ left ∧
    writer.kernel.uart.entered = history ++ accepted ∧
    Position result writer.kernel.uart.tx left writer.program

variable {result : α} {bytes history : List UInt8} {writer : SoleWriter α C}

/-- What only takes bytes out of the transmit ring does not disturb the client. -/
theorem Underway.drained {kernel : Kernel (TracedUart C)} {accesses : List Uart.Access}
    (underway : Underway result bytes history writer)
    (conveys : Uart.Conveys writer.kernel.uart kernel.uart [] accesses) :
    Underway result bytes history ⟨kernel, writer.program⟩ := by
  obtain ⟨accepted, left, split, entered, position⟩ := underway.progress
  refine ⟨conveys.valid, accepted, left, split, ?_, ?_⟩
  · rw [conveys.entered, List.append_nil, entered]
  · exact position.map (conveys.isFull_eq_false underway.valid)

variable [PolledController C]

/-- The client's own next call: a byte that it puts finds the room that it was told of. -/
theorem Underway.own (underway : Underway result bytes history writer) :
    Underway result bytes history (writer.step .own) := by
  obtain ⟨kernel, program⟩ := writer
  obtain ⟨valid, accepted, left, split, entered, position⟩ := underway
  cases position with
  | writing writes =>
      cases writes with
      | finished => exact ⟨valid, accepted, [], split, entered, .writing .finished⟩
      | stalled left => exact ⟨valid, accepted, left, split, entered, .writing (.stalled left)⟩
      | @asking byte left next onward fullWrites room rest =>
          simp only [SoleWriter.step, Kernel.dispatch_uartTxFull]
          refine ⟨valid, accepted, byte :: left, split, entered, ?_⟩
          cases full : kernel.uart.tx.isFull with
          | true => exact .writing fullWrites
          | false =>
              rw [room]
              exact .putting full rest
  | @putting byte left onward room rest =>
      obtain ⟨accesses, conveys, _⟩ := Uart.put_operates valid byte
      simp only [SoleWriter.step, Kernel.dispatch_uartPutc]
      rw [if_neg (Bool.eq_false_iff.mp room)] at conveys
      refine ⟨conveys.valid, accepted ++ [byte], left, ?_, ?_, .writing rest⟩
      · rw [split, List.append_assoc]
        rfl
      · rw [conveys.entered, entered, List.append_assoc]

end Steps

section Runs

variable {α C : Type} [PolledController C] {result : α} {bytes history : List UInt8}
  {writer : SoleWriter α C}

theorem Underway.step (underway : Underway result bytes history writer) {step : Step C}
    (quiet : step.Quiet) : Underway result bytes history (writer.step step) := by
  cases step with
  | own => exact underway.own
  | event event =>
      cases event with
      | call id arg =>
          exact underway.drained
            ((Kernel.looks_dispatch writer.kernel quiet arg).conveys underway.valid)
      | interrupt frame lines =>
          obtain ⟨accesses, conveys⟩ := Kernel.conveys_interrupt underway.valid frame lines
          exact underway.drained conveys
  | line change =>
      exact underway.drained ((Uart.looks_disturb change _).conveys underway.valid)

theorem Underway.run (underway : Underway result bytes history writer) {steps : List (Step C)}
    (quiet : ∀ step ∈ steps, step.Quiet) : Underway result bytes history (writer.run steps) := by
  induction steps generalizing writer with
  | nil => exact underway
  | cons step rest inductionHypothesis =>
      obtain ⟨first, later⟩ := List.forall_mem_cons.mp quiet
      exact inductionHypothesis (underway.step first) later

/-- What has been queued of the output of a program that writes these bytes, after any steps. -/
theorem Writes.run {program : Program α} (writes : Writes result bytes program)
    {kernel : Kernel (TracedUart C)} (valid : kernel.uart.tx.Valid) {steps : List (Step C)}
    (quiet : ∀ step ∈ steps, step.Quiet) :
    let writer := (SoleWriter.mk kernel program).run steps
    (∀ error, writer.program ≠ .failed error) ∧
      (∃ accepted, accepted <+: bytes ∧
        writer.kernel.uart.entered = kernel.uart.entered ++ accepted) ∧
      ∀ answer, writer.program = .done answer →
        answer = result ∧ writer.kernel.uart.entered = kernel.uart.entered ++ bytes := by
  intro writer
  have start : Underway result bytes kernel.uart.entered ⟨kernel, program⟩ :=
    ⟨valid, [], bytes, rfl, (List.append_nil _).symm, .writing writes⟩
  obtain ⟨_, accepted, left, split, entered, position⟩ := start.run quiet
  refine ⟨position.not_failed, ⟨accepted, ?_, entered⟩, ?_⟩
  · rw [split]
    exact List.prefix_append accepted left
  · intro answer returned
    obtain ⟨answerEq, nothingLeft⟩ := position.of_done returned
    refine ⟨answerEq, ?_⟩
    rw [entered, split, nothingLeft, List.append_nil]

end Runs

/-- While nobody else puts bytes, a client that writes bytes never fails, and what has entered the
transmit ring is a part of its output from the front, with a carriage return before every line feed;
once it returns it is the whole output.  A text that is printed in pieces enters as the whole text
does. -/
theorem sole_writer_complete {C : Type} [PolledController C] {kernel : Kernel (TracedUart C)}
    (valid : kernel.uart.tx.Valid) (patience : Nat) {steps : List (Step C)}
    (quiet : ∀ step ∈ steps, step.Quiet) :
    (∀ bytes,
      let writer := (SoleWriter.mk kernel (writeBytes patience bytes)).run steps
      (∀ error, writer.program ≠ .failed error) ∧
        (∃ accepted, accepted <+: Console.wireBytes bytes ∧
          writer.kernel.uart.entered = kernel.uart.entered ++ accepted) ∧
        (writer.program = .done () →
          writer.kernel.uart.entered = kernel.uart.entered ++ Console.wireBytes bytes)) ∧
      ∀ (pieces : List String) {otherSteps : List (Step C)},
        (∀ step ∈ otherSteps, step.Quiet) →
          let inPieces := (SoleWriter.mk kernel (printAll patience pieces)).run steps
          let atOnce :=
            (SoleWriter.mk kernel (print patience (String.join pieces))).run otherSteps
          ∀ answer otherAnswer, inPieces.program = .done answer →
            atOnce.program = .done otherAnswer →
              answer = true ∧ otherAnswer = true ∧
                inPieces.kernel.uart.entered = atOnce.kernel.uart.entered ∧
                atOnce.kernel.uart.entered = kernel.uart.entered ++
                  Console.wireBytes (Console.bytesOf (String.join pieces)) := by
  refine ⟨?_, ?_⟩
  · intro bytes writer
    obtain ⟨neverFailed, accepted, complete⟩ :=
      (writes_putAll patience (Console.wireBytes bytes)).run valid quiet
    exact ⟨neverFailed, accepted, fun returned => (complete () returned).2⟩
  · intro pieces otherSteps otherQuiet inPieces atOnce answer otherAnswer returned otherReturned
    obtain ⟨_, _, complete⟩ := (writes_printAll patience pieces).run valid quiet
    obtain ⟨_, _, otherComplete⟩ :=
      (writes_print patience (String.join pieces)).run valid otherQuiet
    obtain ⟨answerEq, entered⟩ := complete answer returned
    obtain ⟨otherAnswerEq, otherEntered⟩ := otherComplete otherAnswer otherReturned
    exact ⟨answerEq, otherAnswerEq, entered.trans otherEntered.symm, otherEntered⟩

def resultOf? {α : Type} : Program α → Option α
  | .done result => some result
  | _ => none

private theorem eq_done_of_resultOf? {α : Type} {program : Program α} {result : α}
    (ended : resultOf? program = some result) : program = .done result := by
  cases program with
  | done other =>
      cases ended
      rfl
  | _ => cases ended

/-- The ring has room for one byte only, and another client reads while it is drained. -/
theorem sole_writer_complete_crowded :
    let steps : List (Step SimulatedUart) :=
      [.own, .own, .own, .line (SimulatedUart.drain 2), .event (.interrupt .zero .all),
        .event (.call 4 .none), .own, .own, .own, .own]
    let writer := (SoleWriter.mk crowded (writeBytes 2 [65, 10])).run steps
    let inPieces := (SoleWriter.mk crowded (printAll 2 ["A", "\n"])).run steps
    let atOnce := (SoleWriter.mk crowded (print 2 "A\n")).run steps
    crowded.uart.tx.Valid ∧ (∀ step ∈ steps, step.Quiet) ∧ writer.program = .done () ∧
      writer.kernel.uart.entered = crowded.uart.entered ++ [65, 13, 10] ∧
      inPieces.program = .done true ∧ atOnce.program = .done true ∧
      inPieces.kernel.uart.entered = atOnce.kernel.uart.entered := by
  intro steps writer inPieces atOnce
  have quiet : ∀ step ∈ steps, step.Quiet := by
    have reads : SyscallId.ofCode? 4 ≠ some .uartPutc := by decide
    simp [steps, Step.Quiet, reads]
  obtain ⟨complete, fragmented⟩ := sole_writer_complete valid_crowded 2 quiet
  have returned : writer.program = .done () := eq_done_of_resultOf? (by decide +kernel)
  have returnedInPieces : inPieces.program = .done true := eq_done_of_resultOf? (by decide +kernel)
  have returnedAtOnce : atOnce.program = .done true := eq_done_of_resultOf? (by decide +kernel)
  obtain ⟨_, _, same, _⟩ := fragmented ["A", "\n"] quiet true true returnedInPieces returnedAtOnce
  exact ⟨valid_crowded, quiet, returned, (complete [65, 10]).2.2 returned, returnedInPieces,
    returnedAtOnce, same⟩

end Microkernel.Client
