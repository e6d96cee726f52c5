import Mathlib.Data.Seq.Basic
import Microkernel.Proofs.Client.Operations

/-!
# A serial line behind a boundary

What a client relies on when it reads and writes bytes, call by call and with nothing said about how
the boundary comes to its answers.  The bytes that are still to be read may be infinitely many, and
most of them may not have arrived yet: asked whether one waits, the boundary may deny it as often as
it likes.  `SerialLine` is what makes a program that ends end rightly, `Responsive` is what makes it
end.
-/

namespace Microkernel

namespace Program

variable {α β S : Type} [Boundary S]

/-- Alone on this state, the program comes to this result and leaves this state behind. -/
structure Ends (program : Program α) (state : S) (result : α) (after : S) : Prop where
  outcome : (program.run state).outcome = .done result
  state : (program.run state).state = after

/-- The program does not fail, and it ends in this way unless it loses its patience. -/
def Meets (program : Program α) (state : S) (post : α → S → Prop) : Prop :=
  (program.run state).outcome = .stalled ∨
    ∃ result after, Ends program state result after ∧ post result after

section Rules

variable {program : Program α} {state after last : S} {result : α} {answer : β}
  {rest : α → Program β}

theorem Ends.done (result : α) (state : S) : Ends (.done result) state result state :=
  ⟨rfl, rfl⟩

theorem Ends.bind (ends : Ends program state result after)
    (onward : Ends (rest result) after answer last) :
    Ends (program.bind rest) state answer last := by
  obtain ⟨outcomeEq, stateEq⟩ := run_bind ends.outcome rest
  rw [ends.state] at outcomeEq stateEq
  exact ⟨outcomeEq.trans onward.outcome, stateEq.trans onward.state⟩

theorem Ends.attempt (ends : Ends program state result after) :
    Ends program.attempt state (.ok result) after := by
  obtain ⟨outcomeEq, stateEq⟩ := run_attempt program state
  rw [ends.outcome] at outcomeEq
  exact ⟨outcomeEq, stateEq.trans ends.state⟩

private theorem run_bind_stalled (stalled : (program.run state).outcome = .stalled)
    (rest : α → Program β) : ((program.bind rest).run state).outcome = .stalled := by
  induction program generalizing state with
  | done result => cases stalled
  | failed error => cases stalled
  | stalled => rfl
  | call id arg next inductionHypothesis =>
      let served := Boundary.dispatch id.code arg state
      have later : ((next served.ret served.arg).run served.state).outcome = .stalled := stalled
      exact inductionHypothesis served.ret served.arg later
  | note entry next inductionHypothesis =>
      have later : (next.run state).outcome = .stalled := stalled
      exact inductionHypothesis later

variable {middle post : α → S → Prop} {goal : β → S → Prop}

theorem Ends.meets (ends : Ends program state result after) (holds : post result after) :
    Meets program state post :=
  .inr ⟨result, after, ends, holds⟩

theorem Ends.bind_meets (ends : Ends program state result after)
    (onward : Meets (rest result) after goal) : Meets (program.bind rest) state goal := by
  rcases onward with stalled | ⟨answer, last, onwardEnds, answered⟩
  · obtain ⟨outcomeEq, _⟩ := run_bind ends.outcome rest
    rw [ends.state] at outcomeEq
    exact .inl (outcomeEq.trans stalled)
  · exact (ends.bind onwardEnds).meets answered

theorem Meets.bind (meets : Meets program state middle)
    (onward : ∀ result after, middle result after → Meets (rest result) after goal) :
    Meets (program.bind rest) state goal := by
  rcases meets with stalled | ⟨result, after, ends, holds⟩
  · exact .inl (run_bind_stalled stalled rest)
  · exact ends.bind_meets (onward result after holds)

theorem Meets.attempt (meets : Meets program state post) :
    Meets program.attempt state fun answer after =>
      ∃ result, answer = .ok result ∧ post result after := by
  rcases meets with stalled | ⟨result, after, ends, holds⟩
  · obtain ⟨outcomeEq, _⟩ := run_attempt program state
    rw [stalled] at outcomeEq
    exact .inl outcomeEq
  · exact ends.attempt.meets ⟨result, rfl, holds⟩

end Rules

end Program

namespace Client

open Program (Ends Meets)
open Stream' (Seq)

section Laws

variable {S : Type} [Boundary S]

/-- A call without an argument succeeds with this number as its answer. -/
structure Reports (id : SyscallId) (state : S) (number : Int32) (after : S) : Prop where
  succeeds : (Boundary.dispatch id.code .none state).ret.isOk = true
  answer : (Boundary.dispatch id.code .none state).arg.asInt32? = some number
  state : (Boundary.dispatch id.code .none state).state = after

/-- A byte is put with success. -/
structure Takes (byte : UInt8) (state after : S) : Prop where
  succeeds : (Boundary.dispatch SyscallId.uartPutc.code (.int32 byte.toUInt32.toInt32)
    state).ret.isOk = true
  state : (Boundary.dispatch SyscallId.uartPutc.code (.int32 byte.toUInt32.toInt32)
    state).state = after

/-- The serial calls of a boundary succeed, and they mean what they are meant to.  `Holds` says of a
state which bytes are still to be read, arrived or not, and which were put out so far. -/
structure SerialLine (Holds : S → Seq UInt8 → List UInt8 → Prop) : Prop where
  /-- Asking whether nothing waits changes neither side. -/
  rxEmpty {state : S} {unread : Seq UInt8} {shown : List UInt8} (holds : Holds state unread shown) :
    ∃ number after, Reports .uartRxEmpty state number after ∧ Holds after unread shown
  /-- Either no byte is handed out or the next one is. -/
  getc {state : S} {unread : Seq UInt8} {shown : List UInt8} (holds : Holds state unread shown) :
    ∃ number after, Reports .uartGetc state number after ∧
      ((number = -1 ∧ Holds after unread shown) ∨
        ∃ byte later, number = byte.toUInt32.toInt32 ∧ unread = .cons byte later ∧
          Holds after later shown)
  /-- Asking for room changes neither side, and a byte that is put into the room goes out. -/
  txFull {state : S} {unread : Seq UInt8} {shown : List UInt8} (holds : Holds state unread shown) :
    ∃ number after, Reports .uartTxFull state number after ∧ Holds after unread shown ∧
      (number = 0 → ∀ byte, ∃ last, Takes byte after last ∧ Holds last unread (shown ++ [byte]))

/-- Asked over and over, the boundary sometime hands out a byte. -/
inductive Delivers : S → Prop where
  | now {state middle after : S} {byte : UInt8} (waits : Reports .uartRxEmpty state 0 middle)
      (taken : Reports .uartGetc middle byte.toUInt32.toInt32 after) : Delivers state
  | empty {state after : S} {number : Int32} (nothing : number ≠ 0)
      (asked : Reports .uartRxEmpty state number after) (later : Delivers after) : Delivers state
  | missed {state middle after : S} (waits : Reports .uartRxEmpty state 0 middle)
      (missed : Reports .uartGetc middle (-1) after) (later : Delivers after) : Delivers state

/-- Asked over and over, the boundary sometime has room. -/
inductive Clears : S → Prop where
  | now {state after : S} (room : Reports .uartTxFull state 0 after) : Clears state
  | full {state after : S} {number : Int32} (full : number ≠ 0)
      (asked : Reports .uartTxFull state number after) (later : Clears after) : Clears state

/-- The line never leaves a client waiting for good, unless there is nothing more to read. -/
structure Responsive (Holds : S → Seq UInt8 → List UInt8 → Prop) : Prop where
  delivers {state : S} {byte : UInt8} {later : Seq UInt8} {shown : List UInt8}
    (holds : Holds state (.cons byte later) shown) : Delivers state
  clears {state : S} {unread : Seq UInt8} {shown : List UInt8}
    (holds : Holds state unread shown) : Clears state

end Laws

section Calls

variable {S : Type} [Boundary S] {id : SyscallId} {state middle after : S} {number : Int32}

theorem Reports.unique (reports : Reports id state number after) {other : Int32} {last : S}
    (again : Reports id state other last) : number = other ∧ after = last :=
  ⟨Option.some.inj (reports.answer.symm.trans again.answer), reports.state.symm.trans again.state⟩

private theorem Reports.callInt32_ends (reports : Reports id state number after) :
    Ends (callInt32 id) state number after := by
  obtain ⟨succeeds, answer, stateEq⟩ := reports
  constructor
  · simp only [callInt32, callOk, bind, Program.bind, Program.run, succeeds, if_true, answer]
  · simp only [callInt32, callOk, bind, Program.bind, Program.run, succeeds, if_true, answer,
      stateEq]

private theorem Takes.putc_ends {byte : UInt8} (takes : Takes byte state after) :
    Ends (putc byte) state () after := by
  obtain ⟨succeeds, stateEq⟩ := takes
  constructor
  · simp only [putc, callUnit, callOk, bind, Program.bind, Program.run, succeeds, if_true]
  · simp only [putc, callUnit, callOk, bind, Program.bind, Program.run, succeeds, if_true,
      stateEq]

private theorem Reports.rxEmpty_ends (reports : Reports .uartRxEmpty state number after) :
    Ends rxEmpty state (number != 0) after :=
  reports.callInt32_ends.bind (.done _ after)

private theorem Reports.getc_ends (reports : Reports .uartGetc state number after) :
    Ends getc state (byteOf? number) after :=
  reports.callInt32_ends.bind (.done _ after)

private theorem Reports.txFull_ends (reports : Reports .uartTxFull state number after) :
    Ends txFull state (number != 0) after :=
  reports.callInt32_ends.bind (.done _ after)

theorem byteOf?_byte (byte : UInt8) : byteOf? byte.toUInt32.toInt32 = some byte :=
  Kernel.byteAnswered_byte byte

theorem getch_of_nothing (nothing : number ≠ 0)
    (reports : Reports .uartRxEmpty state number after) : Ends getch state none after := by
  refine reports.rxEmpty_ends.bind ?_
  rw [bne_iff_ne.mpr nothing]
  exact .done none after

theorem getch_of_waiting (waits : Reports .uartRxEmpty state 0 middle)
    (reports : Reports .uartGetc middle number after) :
    Ends getch state (byteOf? number) after :=
  waits.rxEmpty_ends.bind reports.getc_ends

end Calls

section Lines

variable {S : Type} [Boundary S] {Holds : S → Seq UInt8 → List UInt8 → Prop} {state after : S}
  {unread : Seq UInt8} {shown : List UInt8} {number : Int32}

/-! What an answer says of the state that it leaves, once it is known. -/

theorem SerialLine.after_rxEmpty (line : SerialLine Holds) (holds : Holds state unread shown)
    (reports : Reports .uartRxEmpty state number after) : Holds after unread shown := by
  obtain ⟨_, _, again, holdsAfter⟩ := line.rxEmpty holds
  rw [(reports.unique again).2]
  exact holdsAfter

private theorem SerialLine.after_txFull (line : SerialLine Holds) (holds : Holds state unread shown)
    (reports : Reports .uartTxFull state number after) : Holds after unread shown := by
  obtain ⟨_, _, again, holdsAfter, _⟩ := line.txFull holds
  rw [(reports.unique again).2]
  exact holdsAfter

theorem SerialLine.after_getc_none (line : SerialLine Holds) (holds : Holds state unread shown)
    (reports : Reports .uartGetc state (-1) after) : Holds after unread shown := by
  obtain ⟨_, _, again, handed⟩ := line.getc holds
  obtain ⟨rfl, rfl⟩ := reports.unique again
  rcases handed with ⟨_, holdsAfter⟩ | ⟨byte, _, isByte, _⟩
  · exact holdsAfter
  · have decoded := byteOf?_byte byte
    rw [← isByte] at decoded
    cases decoded

theorem SerialLine.after_getc_byte (line : SerialLine Holds) (holds : Holds state unread shown)
    {byte : UInt8} (reports : Reports .uartGetc state byte.toUInt32.toInt32 after) :
    ∃ later, unread = .cons byte later ∧ Holds after later shown := by
  obtain ⟨_, _, again, handed⟩ := line.getc holds
  obtain ⟨rfl, rfl⟩ := reports.unique again
  have decoded := byteOf?_byte byte
  rcases handed with ⟨missed, _⟩ | ⟨other, later, isByte, split, holdsAfter⟩
  · rw [missed] at decoded
    cases decoded
  · rw [isByte, byteOf?_byte, Option.some.injEq] at decoded
    subst decoded
    exact ⟨later, split, holdsAfter⟩

/-- What is left to be read once this was received. -/
inductive Received : Option UInt8 → Seq UInt8 → Seq UInt8 → Prop where
  | nothing (unread : Seq UInt8) : Received none unread unread
  | byte (byte : UInt8) (later : Seq UInt8) : Received (some byte) (.cons byte later) later

theorem SerialLine.getch_ends (line : SerialLine Holds) (holds : Holds state unread shown) :
    ∃ received later after, Ends getch state received after ∧ Received received unread later ∧
      Holds after later shown := by
  obtain ⟨number, middle, asked, holdsAsked⟩ := line.rxEmpty holds
  by_cases nothing : number = 0
  · subst nothing
    obtain ⟨answer, after, taken, holdsAfter⟩ := line.getc holdsAsked
    have ends := getch_of_waiting asked taken
    rcases holdsAfter with ⟨rfl, same⟩ | ⟨byte, later, rfl, rfl, next⟩
    · exact ⟨none, unread, after, ends, .nothing unread, same⟩
    · rw [byteOf?_byte] at ends
      exact ⟨some byte, later, after, ends, .byte byte later, next⟩
  · exact ⟨none, unread, middle, getch_of_nothing nothing asked, .nothing unread, holdsAsked⟩

private theorem SerialLine.putByte_meets (line : SerialLine Holds)
    (holds : Holds state unread shown)
    (patience : Nat) (byte : UInt8) :
    Meets (putByte patience byte) state fun _ after => Holds after unread (shown ++ [byte]) := by
  induction patience generalizing state with
  | zero => exact .inl rfl
  | succ patience inductionHypothesis =>
      obtain ⟨number, middle, asked, holdsAsked, room⟩ := line.txFull holds
      refine asked.txFull_ends.bind_meets ?_
      by_cases full : number = 0
      · subst full
        obtain ⟨last, takes, holdsLast⟩ := room rfl byte
        exact takes.putc_ends.meets holdsLast
      · rw [bne_iff_ne.mpr full]
        exact inductionHypothesis holdsAsked

theorem SerialLine.putAll_meets (line : SerialLine Holds) (holds : Holds state unread shown)
    (patience : Nat) (bytes : List UInt8) :
    Meets (putAll patience bytes) state fun _ after => Holds after unread (shown ++ bytes) := by
  induction bytes generalizing state shown with
  | nil =>
      rw [List.append_nil]
      exact (Ends.done () state).meets holds
  | cons byte rest inductionHypothesis =>
      rw [← List.singleton_append, ← List.append_assoc]
      exact (line.putByte_meets holds patience byte).bind fun _ _ => inductionHypothesis

private theorem SerialLine.putByte_returns (line : SerialLine Holds) (clears : Clears state)
    (holds : Holds state unread shown) (byte : UInt8) :
    ∃ enough last, Holds last unread (shown ++ [byte]) ∧
      ∀ patience, enough ≤ patience → Ends (putByte patience byte) state () last := by
  induction clears with
  | now room =>
      obtain ⟨number, middle, asked, _, goesOut⟩ := line.txFull holds
      obtain ⟨last, takes, holdsLast⟩ := goesOut (asked.unique room).1 byte
      refine ⟨1, last, holdsLast, ?_⟩
      rintro (_ | patience) enough
      · exact absurd enough (Nat.not_succ_le_zero 0)
      · rw [(asked.unique room).1] at asked
        exact asked.txFull_ends.bind takes.putc_ends
  | @full state after number full asked later inductionHypothesis =>
      obtain ⟨enough, last, holdsLast, ends⟩ :=
        inductionHypothesis (line.after_txFull holds asked)
      refine ⟨enough + 1, last, holdsLast, ?_⟩
      rintro (_ | patience) atLeast
      · exact absurd atLeast (Nat.not_succ_le_zero enough)
      · refine asked.txFull_ends.bind ?_
        rw [bne_iff_ne.mpr full]
        exact ends patience (Nat.le_of_succ_le_succ atLeast)

theorem SerialLine.putAll_returns (line : SerialLine Holds) (responsive : Responsive Holds)
    (holds : Holds state unread shown) (bytes : List UInt8) :
    ∃ enough last, Holds last unread (shown ++ bytes) ∧
      ∀ patience, enough ≤ patience → Ends (putAll patience bytes) state () last := by
  induction bytes generalizing state shown with
  | nil =>
      rw [List.append_nil]
      exact ⟨0, state, holds, fun _ _ => .done () state⟩
  | cons byte rest inductionHypothesis =>
      obtain ⟨enough, middle, holdsMiddle, ends⟩ :=
        line.putByte_returns (responsive.clears holds) holds byte
      obtain ⟨enoughRest, last, holdsLast, restEnds⟩ := inductionHypothesis holdsMiddle
      rw [List.append_assoc] at holdsLast
      refine ⟨max enough enoughRest, last, holdsLast, fun patience atLeast => ?_⟩
      exact (ends patience (Nat.max_le.mp atLeast).1).bind
        (restEnds patience (Nat.max_le.mp atLeast).2)

end Lines

/-! ## The kernel's line -/

section Kernels

variable {C : Type} [PolledController C]

/-- What waits in the receive ring is to be read, and what has entered the transmit ring is out. -/
def Queues (kernel : Kernel (TracedUart C)) (unread : Seq UInt8) (shown : List UInt8) : Prop :=
  kernel.uart.rx.Valid ∧ kernel.uart.tx.Valid ∧ unread = Seq.ofList kernel.uart.rx.toList ∧
    kernel.uart.entered = shown

private theorem reports_getc {kernel : Kernel C} {received : Option UInt8} {uart : Uart C}
    (got : kernel.uart.get = (received, uart)) {number : Int32}
    (encoded : Kernel.encodeByte received = .int32 number) :
    Reports .uartGetc kernel number { kernel with uart } := by
  have served : Boundary.dispatch SyscallId.uartGetc.code .none kernel =
      ⟨.ok, Kernel.encodeByte kernel.uart.get.1, { kernel with uart := kernel.uart.get.2 }, []⟩ :=
    rfl
  rw [got, encoded] at served
  constructor
  · rw [served]
    rfl
  · rw [served]
    rfl
  · rw [served]

private theorem takes_kernel (kernel : Kernel C) (byte : UInt8) :
    Takes byte kernel { kernel with uart := kernel.uart.put byte } := by
  have served : Boundary.dispatch SyscallId.uartPutc.code (.int32 byte.toUInt32.toInt32) kernel =
      _ := kernel.dispatch_uartPutc byte
  constructor
  · rw [served]
    rfl
  · rw [served]

/-- A kernel that is called directly, with no interrupt between the calls, is such a line. -/
theorem serialLine_kernel : SerialLine (S := Kernel (TracedUart C)) Queues where
  rxEmpty {kernel _ _} holds :=
    ⟨if kernel.uart.rx.isEmpty then 1 else 0, kernel, ⟨rfl, rfl, rfl⟩, holds⟩
  getc {kernel unread shown} holds := by
    obtain ⟨rxValid, txValid, unreadEq, enteredEq⟩ := holds
    cases popped : kernel.uart.rx.pop? with
    | none =>
        have got : kernel.uart.get = (none, kernel.uart) := by simp only [Uart.get, popped]
        exact ⟨-1, kernel, reports_getc got rfl,
          .inl ⟨rfl, rxValid, txValid, unreadEq, enteredEq⟩⟩
    | some taken =>
        obtain ⟨byte, rx⟩ := taken
        have got : kernel.uart.get = (some byte, { kernel.uart with rx }) := by
          simp only [Uart.get, popped]
        rw [rxValid.toList_pop? popped, Seq.ofList_cons] at unreadEq
        exact ⟨byte.toUInt32.toInt32, _, reports_getc got rfl,
          .inr ⟨byte, Seq.ofList rx.toList, rfl, unreadEq, rxValid.pop? popped, txValid, rfl,
            enteredEq⟩⟩
  txFull {kernel unread shown} holds := by
    obtain ⟨rxValid, txValid, unreadEq, enteredEq⟩ := holds
    refine ⟨if kernel.uart.tx.isFull then 1 else 0, kernel, ⟨rfl, rfl, rfl⟩,
      ⟨rxValid, txValid, unreadEq, enteredEq⟩, fun room byte => ?_⟩
    have hasRoom : ¬ kernel.uart.tx.isFull = true := by
      intro full
      rw [if_pos full] at room
      cases room
    obtain ⟨accesses, conveys, _⟩ := Uart.put_operates txValid byte
    rw [if_neg hasRoom] at conveys
    have rxEq := Uart.put_rx kernel.uart byte
    refine ⟨_, takes_kernel kernel byte, ?_, conveys.valid, ?_, ?_⟩
    · rw [rxEq]
      exact rxValid
    · rw [rxEq]
      exact unreadEq
    · rw [conveys.entered, enteredEq]

end Kernels

end Client

/-- A line without a kernel behind it. -/
structure PacedLine where
  /-- The bytes to come, each with the number of times that a client is sent away before it. -/
  coming : List (Nat × UInt8)
  /-- How often a client still finds no room. -/
  busy : Nat
  /-- How often it finds none after a byte was put. -/
  pace : Nat
  shown : List UInt8

namespace PacedLine

open Client (SerialLine Responsive Reports Takes Delivers Clears)
open Stream' (Seq)

def rxEmpty (line : PacedLine) : Served PacedLine :=
  match line.coming with
  | [] => ⟨.ok, .int32 1, line, []⟩
  | (0, _) :: _ => ⟨.ok, .int32 0, line, []⟩
  | (asks + 1, byte) :: rest =>
    ⟨.ok, .int32 1, { line with coming := (asks, byte) :: rest }, []⟩

def getc (line : PacedLine) : Served PacedLine :=
  match line.coming with
  | (0, byte) :: rest => ⟨.ok, .int32 byte.toUInt32.toInt32, { line with coming := rest }, []⟩
  | _ => ⟨.ok, .int32 (-1), line, []⟩

def txFull (line : PacedLine) : Served PacedLine :=
  match line.busy with
  | 0 => ⟨.ok, .int32 0, line, []⟩
  | asks + 1 => ⟨.ok, .int32 1, { line with busy := asks }, []⟩

def putc (arg : Value) (line : PacedLine) : Served PacedLine :=
  match Kernel.byteOf? arg with
  | some byte =>
    ⟨.ok, arg, { line with busy := line.pace, shown := line.shown ++ [byte] }, []⟩
  | none => .refused arg line []

def dispatch (id : UInt32) (arg : Value) (line : PacedLine) : Served PacedLine :=
  match SyscallId.ofCode? id with
  | some .uartRxEmpty => line.rxEmpty
  | some .uartGetc => line.getc
  | some .uartTxFull => line.txFull
  | some .uartPutc => line.putc arg
  | _ => .refused arg line []

instance : Boundary PacedLine where
  dispatch := dispatch
  interrupt frame _ line := ⟨frame, line, []⟩

/-- All its bytes are to be read, however long they take. -/
def Carries (line : PacedLine) (unread : Seq UInt8) (shown : List UInt8) : Prop :=
  unread = Seq.ofList (line.coming.map Prod.snd) ∧ line.shown = shown

theorem takes (line : PacedLine) (byte : UInt8) :
    Takes byte line { line with busy := line.pace, shown := line.shown ++ [byte] } := by
  have served : Boundary.dispatch SyscallId.uartPutc.code (.int32 byte.toUInt32.toInt32) line =
      ⟨.ok, .int32 byte.toUInt32.toInt32,
        { line with busy := line.pace, shown := line.shown ++ [byte] }, []⟩ := by
    change line.putc (.int32 byte.toUInt32.toInt32) = _
    rw [putc, Kernel.byteOf_int32]
  constructor
  · rw [served]
    rfl
  · rw [served]

theorem serialLine : SerialLine Carries where
  rxEmpty {line unread shown} carries := by
    obtain ⟨coming, busy, pace, lineShown⟩ := line
    rcases coming with _ | ⟨⟨_ | asks, byte⟩, rest⟩
    · exact ⟨1, _, ⟨rfl, rfl, rfl⟩, carries⟩
    · exact ⟨0, _, ⟨rfl, rfl, rfl⟩, carries⟩
    · exact ⟨1, _, ⟨rfl, rfl, rfl⟩, carries⟩
  getc {line unread shown} carries := by
    obtain ⟨coming, busy, pace, lineShown⟩ := line
    rcases coming with _ | ⟨⟨_ | asks, byte⟩, rest⟩
    · exact ⟨-1, _, ⟨rfl, rfl, rfl⟩, .inl ⟨rfl, carries⟩⟩
    · obtain ⟨unreadEq, shownEq⟩ := carries
      rw [List.map_cons, Seq.ofList_cons] at unreadEq
      exact ⟨byte.toUInt32.toInt32, _, ⟨rfl, rfl, rfl⟩,
        .inr ⟨byte, Seq.ofList (rest.map Prod.snd), rfl, unreadEq, rfl, shownEq⟩⟩
    · exact ⟨-1, _, ⟨rfl, rfl, rfl⟩, .inl ⟨rfl, carries⟩⟩
  txFull {line unread shown} carries := by
    obtain ⟨coming, busy, pace, lineShown⟩ := line
    cases busy with
    | zero =>
        refine ⟨0, _, ⟨rfl, rfl, rfl⟩, carries, fun _ byte => ⟨_, takes _ byte, carries.1, ?_⟩⟩
        exact congrArg (· ++ [byte]) carries.2
    | succ asks =>
        exact ⟨1, _, ⟨rfl, rfl, rfl⟩, carries, fun room => absurd room (by decide)⟩

theorem clears (line : PacedLine) : Clears line := by
  obtain ⟨coming, busy, pace, shown⟩ := line
  induction busy with
  | zero => exact .now ⟨rfl, rfl, rfl⟩
  | succ asks inductionHypothesis =>
      have full : (1 : Int32) ≠ 0 := by decide
      exact .full full ⟨rfl, rfl, rfl⟩ inductionHypothesis

theorem delivers (asks : Nat) (byte : UInt8) (rest : List (Nat × UInt8)) (busy pace : Nat)
    (shown : List UInt8) : Delivers (PacedLine.mk ((asks, byte) :: rest) busy pace shown) := by
  induction asks with
  | zero => exact .now ⟨rfl, rfl, rfl⟩ ⟨rfl, rfl, rfl⟩
  | succ asks inductionHypothesis =>
      have nothing : (1 : Int32) ≠ 0 := by decide
      exact .empty nothing ⟨rfl, rfl, rfl⟩ inductionHypothesis

theorem responsive : Responsive Carries where
  delivers {line byte later shown} carries := by
    obtain ⟨coming, busy, pace, lineShown⟩ := line
    cases coming with
    | nil => cases Seq.cons_ne_nil carries.1
    | cons first rest => exact delivers first.1 first.2 rest busy pace lineShown
  clears {line _ _} _ := line.clears

end PacedLine

end Microkernel
